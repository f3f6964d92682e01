import LoxInterpreter.Proofs.Scope.Unlink

/-!
# Trees with gaps

A text with mistakes is parsed as well, and each statement of it that cannot be read leaves a gap in
its place. What comes after parsing finds gaps where statements stand in a list, and counts on there
being none anywhere else.

* `Stmt.WellMade` says what later passes count on: operators exist, a branch and the body of a loop
  are there and declare nothing, and gaps are elements of lists.
* `Stmt.gaps` counts the gaps in a statement, `Stmt.gapsIn` those in a list.

Links do not matter for either (`Stmt.wellMade_unlink`).
-/

namespace LoxInterpreter

variable {ρ : Type}

/-- The operators in front of an operand. -/
def prefixOperators : List TokenKind := [.bang, .minus]

/-- The operators between two operands that are both evaluated. -/
def binaryOperators : List TokenKind :=
  [.plus, .minus, .star, .slash, .equalEqual, .bangEqual, .less, .lessEqual, .greater,
    .greaterEqual]

/-- The operators whose right operand may be left out. -/
def logicalOperators : List TokenKind := [.andWord, .orWord]

namespace Expr

mutual

/-- The operators of the expression exist, each in its place. -/
def WellMade : Expr ρ → Prop
  | .literal _ | .reference _ | .this _ | .inherited _ _ => True
  | .grouping inner => inner.WellMade
  | .unary op operand => op.kind ∈ prefixOperators ∧ operand.WellMade
  | .binary left op right => left.WellMade ∧ op.kind ∈ binaryOperators ∧ right.WellMade
  | .logical left op right => left.WellMade ∧ op.kind ∈ logicalOperators ∧ right.WellMade
  | .assign _ value => value.WellMade
  | .call callee _ values => callee.WellMade ∧ WellMadeAll values
  | .property object _ => object.WellMade
  | .setProperty object _ value => object.WellMade ∧ value.WellMade

/-- The operators of the expressions exist, each in its place. -/
def WellMadeAll : List (Expr ρ) → Prop
  | [] => True
  | e :: rest => e.WellMade ∧ WellMadeAll rest

end

end Expr

namespace Stmt

mutual

/-- The statement is there, its operators exist, its branches and loop bodies are there and declare
nothing, and so on for all that is in it. -/
def WellMade : Stmt ρ → Prop
  | .malformed => False
  | .expression value | .print value => value.WellMade
  | .declare _ initial => ∀ e ∈ initial, e.WellMade
  | .block body => WellMadeBody body
  | .branch condition whenTrue none =>
    condition.WellMade ∧ whenTrue.declared? = none ∧ whenTrue.WellMade
  | .branch condition whenTrue (some whenFalse) =>
    condition.WellMade ∧ (whenTrue.declared? = none ∧ whenTrue.WellMade) ∧
      whenFalse.declared? = none ∧ whenFalse.WellMade
  | .loop condition body => condition.WellMade ∧ body.declared? = none ∧ body.WellMade
  | .function routine => WellMadeRoutine routine
  | .giveBack _ value => ∀ e ∈ value, e.WellMade
  | .klass _ _ methods => WellMadeMethods methods

/-- Each of the statements is a gap or well made. -/
def WellMadeBody : List (Stmt ρ) → Prop
  | [] => True
  | s :: rest => (s = .malformed ∨ s.WellMade) ∧ WellMadeBody rest

/-- The body of the routine is well made. -/
def WellMadeRoutine : Routine ρ → Prop
  | .mk _ _ body => WellMadeBody body

/-- Each of the methods is well made. -/
def WellMadeMethods : List (Routine ρ) → Prop
  | [] => True
  | m :: rest => WellMadeRoutine m ∧ WellMadeMethods rest

end

mutual

/-- How many gaps there are in the statement. -/
def gaps : Stmt ρ → Nat
  | .malformed => 1
  | .expression _ | .print _ | .declare _ _ | .giveBack _ _ => 0
  | .block body => gapsIn body
  | .branch _ whenTrue none => whenTrue.gaps
  | .branch _ whenTrue (some whenFalse) => whenTrue.gaps + whenFalse.gaps
  | .loop _ body => body.gaps
  | .function routine => gapsInRoutine routine
  | .klass _ _ methods => gapsInMethods methods

/-- How many gaps there are among the statements and in them. -/
def gapsIn : List (Stmt ρ) → Nat
  | [] => 0
  | s :: rest => s.gaps + gapsIn rest

/-- How many gaps there are in the routine. -/
def gapsInRoutine : Routine ρ → Nat
  | .mk _ _ body => gapsIn body

/-- How many gaps there are in the methods. -/
def gapsInMethods : List (Routine ρ) → Nat
  | [] => 0
  | m :: rest => gapsInRoutine m + gapsInMethods rest

end

end Stmt

/-! ### Links do not matter -/

mutual

@[simp]
theorem Expr.wellMade_unlink (e : Expr Place) : e.unlink.WellMade ↔ e.WellMade := by
  cases e with
  | literal | reference | this | inherited => exact Iff.rfl
  | grouping inner => exact inner.wellMade_unlink
  | unary op operand => exact and_congr_right' operand.wellMade_unlink
  | binary left op right | logical left op right =>
    exact and_congr left.wellMade_unlink (and_congr_right' right.wellMade_unlink)
  | assign target value => exact value.wellMade_unlink
  | call callee paren values =>
    exact and_congr callee.wellMade_unlink (wellMadeAll_unlinkAll values)
  | property object name => exact object.wellMade_unlink
  | setProperty object name value => exact and_congr object.wellMade_unlink value.wellMade_unlink

@[simp]
theorem Expr.wellMadeAll_unlinkAll (es : List (Expr Place)) :
    Expr.WellMadeAll (Expr.unlinkAll es) ↔ Expr.WellMadeAll es := by
  cases es with
  | nil => exact Iff.rfl
  | cons e rest => exact and_congr e.wellMade_unlink (wellMadeAll_unlinkAll rest)

end

namespace Stmt

@[simp]
theorem unlink_eq_malformed (s : Stmt Place) : s.unlink = .malformed ↔ s = .malformed := by
  match s with
  | .malformed => exact ⟨fun _ => rfl, fun _ => rfl⟩
  | .expression _ | .print _ | .declare _ _ | .block _ | .branch _ _ none | .branch _ _ (some _)
  | .loop _ _ | .function _ | .giveBack _ _ | .klass _ _ _ => exact ⟨nofun, nofun⟩

mutual

@[simp]
theorem wellMade_unlink (s : Stmt Place) : s.unlink.WellMade ↔ s.WellMade := by
  match s with
  | .malformed => exact Iff.rfl
  | .expression value | .print value => exact value.wellMade_unlink
  | .declare _ initial | .giveBack _ initial => cases initial <;> simp [unlink, WellMade]
  | .block body => exact wellMadeBody_unlinkBody body
  | .branch condition whenTrue none =>
    simp [unlink, WellMade, declared?_unlink, wellMade_unlink whenTrue]
  | .branch condition whenTrue (some whenFalse) =>
    simp [unlink, WellMade, declared?_unlink, wellMade_unlink whenTrue, wellMade_unlink whenFalse]
  | .loop condition body => simp [unlink, WellMade, declared?_unlink, wellMade_unlink body]
  | .function routine => exact wellMadeRoutine_unlinkRoutine routine
  | .klass _ _ methods => exact wellMadeMethods_unlinkMethods methods

@[simp]
theorem wellMadeBody_unlinkBody (body : List (Stmt Place)) :
    WellMadeBody (unlinkBody body) ↔ WellMadeBody body := by
  match body with
  | [] => exact Iff.rfl
  | s :: rest =>
    exact and_congr (or_congr (unlink_eq_malformed s) (wellMade_unlink s))
      (wellMadeBody_unlinkBody rest)

theorem wellMadeRoutine_unlinkRoutine (r : Routine Place) :
    WellMadeRoutine (unlinkRoutine r) ↔ WellMadeRoutine r := by
  match r with
  | .mk _ _ body => exact wellMadeBody_unlinkBody body

theorem wellMadeMethods_unlinkMethods (methods : List (Routine Place)) :
    WellMadeMethods (unlinkMethods methods) ↔ WellMadeMethods methods := by
  match methods with
  | [] => exact Iff.rfl
  | m :: rest =>
    exact and_congr (wellMadeRoutine_unlinkRoutine m) (wellMadeMethods_unlinkMethods rest)

end

end Stmt

end LoxInterpreter
