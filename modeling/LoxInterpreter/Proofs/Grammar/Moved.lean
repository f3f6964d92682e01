import LoxInterpreter.Proofs.Grammar.Exactness
import LoxInterpreter.Proofs.Grammar.Relocated

/-!
# Moved trees

A text that moves as a whole is relocated (`Relocation.along`), so where it begins does not matter to
the grammar. Moved tokens derive the moved tree (`Grammar.Program.movedBy`), and programs derived one
after the other are a program (`Grammar.Program.append`).
-/

namespace LoxInterpreter

/-! ### Trees -/

/-- The reference in a text that begins at the origin. -/
def Reference.movedBy (r : Reference Blank) (origin : Position) : Reference Blank :=
  ⟨r.token.movedBy origin, ()⟩

namespace Expr

mutual

/-- The expression in a text that begins at the origin. -/
def movedBy (origin : Position) : Expr Blank → Expr Blank
  | .literal value => .literal value
  | .grouping inner => .grouping (inner.movedBy origin)
  | .unary op operand => .unary (op.movedBy origin) (operand.movedBy origin)
  | .binary left op right =>
    .binary (left.movedBy origin) (op.movedBy origin) (right.movedBy origin)
  | .logical left op right =>
    .logical (left.movedBy origin) (op.movedBy origin) (right.movedBy origin)
  | .reference target => .reference (target.movedBy origin)
  | .assign target value => .assign (target.movedBy origin) (value.movedBy origin)
  | .call callee paren values =>
    .call (callee.movedBy origin) (paren.movedBy origin) (movedAllBy origin values)
  | .property object name => .property (object.movedBy origin) (name.movedBy origin)
  | .setProperty object name value =>
    .setProperty (object.movedBy origin) (name.movedBy origin) (value.movedBy origin)
  | .this receiver => .this (receiver.movedBy origin)
  | .inherited superclass method =>
    .inherited (superclass.movedBy origin) (method.movedBy origin)

/-- The expressions in a text that begins at the origin. -/
def movedAllBy (origin : Position) : List (Expr Blank) → List (Expr Blank)
  | [] => []
  | e :: rest => e.movedBy origin :: movedAllBy origin rest

end

end Expr

namespace Stmt

mutual

/-- The statement in a text that begins at the origin. -/
def movedBy (origin : Position) : Stmt Blank → Stmt Blank
  | .malformed => .malformed
  | .expression value => .expression (value.movedBy origin)
  | .print value => .print (value.movedBy origin)
  | .declare name initial => .declare (name.movedBy origin) (initial.map (Expr.movedBy origin))
  | .block body => .block (movedBodyBy origin body)
  | .branch condition whenTrue none =>
    .branch (condition.movedBy origin) (whenTrue.movedBy origin) none
  | .branch condition whenTrue (some whenFalse) =>
    .branch (condition.movedBy origin) (whenTrue.movedBy origin) (some (whenFalse.movedBy origin))
  | .loop condition body => .loop (condition.movedBy origin) (body.movedBy origin)
  | .function routine => .function (movedRoutineBy origin routine)
  | .giveBack keyword value =>
    .giveBack (keyword.movedBy origin) (value.map (Expr.movedBy origin))
  | .klass name superclass methods =>
    .klass (name.movedBy origin) (superclass.map (Reference.movedBy · origin))
      (movedMethodsBy origin methods)

/-- The statements in a text that begins at the origin. -/
def movedBodyBy (origin : Position) : List (Stmt Blank) → List (Stmt Blank)
  | [] => []
  | s :: rest => s.movedBy origin :: movedBodyBy origin rest

/-- The function or method in a text that begins at the origin. -/
def movedRoutineBy (origin : Position) : Routine Blank → Routine Blank
  | .mk name params body =>
    .mk (name.movedBy origin) (params.map (·.movedBy origin)) (movedBodyBy origin body)

/-- The methods in a text that begins at the origin. -/
def movedMethodsBy (origin : Position) : List (Routine Blank) → List (Routine Blank)
  | [] => []
  | m :: rest => movedRoutineBy origin m :: movedMethodsBy origin rest

end

end Stmt

/-! ### Moving is relocating -/

/-- The new places in a text that begins at the origin. -/
def Relocation.along (origin : Position) : Relocation where
  line t := t.line + origin.feeds
  offset t := t.offset + origin.offset

variable {origin : Position}

namespace Expr

mutual

theorem relocated_along (e : Expr Blank) : e.relocated (.along origin) = e.movedBy origin := by
  cases e with
  | literal | reference | this | inherited => rfl
  | grouping inner => exact congrArg grouping (relocated_along inner)
  | unary op operand => exact congrArg (unary _) (relocated_along operand)
  | binary left op right =>
    exact congrArg₂ (binary · _ ·) (relocated_along left) (relocated_along right)
  | logical left op right =>
    exact congrArg₂ (logical · _ ·) (relocated_along left) (relocated_along right)
  | assign target value => exact congrArg (assign _) (relocated_along value)
  | call callee paren values =>
    exact congrArg₂ (call · _ ·) (relocated_along callee) (relocatedAll_along values)
  | property object name => exact congrArg (property · _) (relocated_along object)
  | setProperty object name value =>
    exact congrArg₂ (setProperty · _ ·) (relocated_along object) (relocated_along value)

theorem relocatedAll_along (es : List (Expr Blank)) :
    relocatedAll (.along origin) es = movedAllBy origin es := by
  cases es with
  | nil => rfl
  | cons e rest => exact congrArg₂ List.cons (relocated_along e) (relocatedAll_along rest)

end

theorem map_relocated_along (value : Option (Expr Blank)) :
    value.map (relocated (.along origin)) = value.map (movedBy origin) :=
  Option.map_congr fun e _ => relocated_along e

end Expr

namespace Stmt

mutual

theorem relocated_along (s : Stmt Blank) : s.relocated (.along origin) = s.movedBy origin := by
  match s with
  | .malformed => rfl
  | .expression value => exact congrArg expression (Expr.relocated_along value)
  | .print value => exact congrArg print (Expr.relocated_along value)
  | .declare name initial => exact congrArg (declare _) (Expr.map_relocated_along initial)
  | .block body => exact congrArg block (relocatedBody_along body)
  | .branch condition whenTrue none =>
    exact congrArg₂ (branch · · none) (Expr.relocated_along condition) (relocated_along whenTrue)
  | .branch condition whenTrue (some whenFalse) =>
    rw [relocated, movedBy, Expr.relocated_along, relocated_along whenTrue,
      relocated_along whenFalse]
  | .loop condition body =>
    exact congrArg₂ loop (Expr.relocated_along condition) (relocated_along body)
  | .function routine => exact congrArg function (relocatedRoutine_along routine)
  | .giveBack keyword value => exact congrArg (giveBack _) (Expr.map_relocated_along value)
  | .klass name superclass methods => exact congrArg (klass _ _) (relocatedMethods_along methods)

theorem relocatedBody_along (body : List (Stmt Blank)) :
    relocatedBody (.along origin) body = movedBodyBy origin body := by
  match body with
  | [] => rfl
  | s :: rest => exact congrArg₂ List.cons (relocated_along s) (relocatedBody_along rest)

theorem relocatedRoutine_along (routine : Routine Blank) :
    relocatedRoutine (.along origin) routine = movedRoutineBy origin routine := by
  match routine with
  | .mk name params body => exact congrArg (Routine.mk _ _) (relocatedBody_along body)

theorem relocatedMethods_along (methods : List (Routine Blank)) :
    relocatedMethods (.along origin) methods = movedMethodsBy origin methods := by
  match methods with
  | [] => rfl
  | m :: rest => exact congrArg₂ List.cons (relocatedRoutine_along m) (relocatedMethods_along rest)

end

end Stmt

/-! ### Derivations -/

namespace Grammar

variable {α : Type} {L : List Token → α → Prop} {ts us : List Token}

/-- The tokens in a text that begins at the origin. -/
abbrev moved (origin : Position) (ts : List Token) : List Token := ts.map (·.movedBy origin)

theorem Sequence.append {as bs : List α} (h : Sequence L ts as) (h' : Sequence L us bs) :
    Sequence L (ts ++ us) (as ++ bs) := by
  induction h with
  | nil => exact h'
  | cons h _ ih =>
    rw [List.append_assoc]
    exact .cons h ih

/-- **Programs one after the other** are a program. -/
theorem Program.append {program program' : List (Stmt Blank)} (h : Program ts program)
    (h' : Program us program') : Program (ts ++ us) (program ++ program') :=
  Sequence.append h h'

/-- **Moved tokens** derive the moved program. -/
theorem Program.movedBy {program : List (Stmt Blank)} (h : Program ts program)
    (origin : Position) : Program (moved origin ts) (Stmt.movedBodyBy origin program) := by
  have hparsed : parse (moved origin ts) = ⟨Stmt.movedBodyBy origin program, []⟩ := by
    have hrelocated := parse_relocated (.along origin) ts
    rw [parse_complete h, Parsed.relocated, Stmt.relocatedBody_along] at hrelocated
    exact hrelocated
  have hsound := Parse.parse_sound (congrArg Parsed.mistakes hparsed)
  rw [hparsed] at hsound
  exact hsound

end Grammar

end LoxInterpreter
