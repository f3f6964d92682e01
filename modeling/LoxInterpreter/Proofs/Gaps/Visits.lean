import LoxInterpreter.Proofs.Gaps.Tree
import LoxInterpreter.Scope.Mistake
import LoxInterpreter.Tree.Render

/-!
# Visiting trees with gaps

Printing and scope analysis look for gaps where statements stand in a list, and pass over them
there. Anywhere else they visit whatever there is, and a gap cannot be visited. Here are the two
passes once more as such visits, which come to nothing if they are led to a gap:

* `Stmt.printed?` and `Stmt.printedEach?` give the text of a statement and the texts of a list;
* `Stmt.analysed?` and `Stmt.analysedEach?` give the mistakes of scope and the linked statements.

In a well made tree no visit is led to a gap, and the passes come to what they always come to
(`Stmt.printedEach?_eq_some`, `Stmt.analysedEach?_eq_some`).
-/

namespace LoxInterpreter

variable {ρ α : Type}

/-- What an element of a list comes to: something fixed if it is a gap, and otherwise what a visit
to it comes to. -/
def Stmt.unlessGap (s : Stmt ρ) (gap : α) (visit : Option α) : Option α :=
  match s with
  | .malformed => some gap
  | _ => visit

namespace Stmt

/-- A gap in a list is passed over, and a well made statement is visited. -/
theorem unlessGap_eq_some {s : Stmt ρ} {gap a : α} {visit : Option α}
    (h : s = .malformed ∨ s.WellMade) (hgap : s = .malformed → gap = a)
    (hvisit : s.WellMade → visit = some a) : s.unlessGap gap visit = some a := by
  rcases h with rfl | h
  · exact congrArg some (hgap rfl)
  · have hs : s.unlessGap gap visit = visit := by
      cases s with
      | malformed => exact h.elim
      | _ => rfl
    rw [hs, hvisit h]

/-! ### Printing -/

mutual

/-- The text of a statement that is visited. -/
def printed? : Stmt ρ → Option String
  | .malformed => none
  | .expression value => some value.render
  | .print value => some (parenthesize ["print", value.render])
  | .declare name none => some (parenthesize ["var", name.lexeme])
  | .declare name (some initial) => some (parenthesize ["var", name.lexeme, initial.render])
  | .block body => do return parenthesize ("block" :: (← printedEach? body))
  | .branch condition whenTrue none => do
    return parenthesize ["if", condition.render, ← whenTrue.printed?]
  | .branch condition whenTrue (some whenFalse) => do
    return parenthesize ["if", condition.render, ← whenTrue.printed?, ← whenFalse.printed?]
  | .loop condition body => do
    return parenthesize ["while", condition.render, ← body.printed?]
  | .function routine => printedRoutine? routine
  | .giveBack _ none => some "(return)"
  | .giveBack _ (some value) => some (parenthesize ["return", value.render])
  | .klass name superclass methods => do
    let head := match superclass with
      | some target => [name.lexeme, "<", target.name]
      | none => [name.lexeme]
    return parenthesize ("class" :: head ++ (← printedMethods? methods))

/-- The texts of consecutive statements, gaps among them. -/
def printedEach? : List (Stmt ρ) → Option (List String)
  | [] => some []
  | s :: rest => do return (← s.unlessGap "(error)" s.printed?) :: (← printedEach? rest)

/-- The text of a function or method that is visited. -/
def printedRoutine? : Routine ρ → Option String
  | .mk name params body => do
    let heads := "(" ++ " ".intercalate (params.map (·.lexeme)) ++ ")"
    return parenthesize ("fun" :: name.lexeme :: heads :: (← printedEach? body))

/-- The texts of the methods of a class. -/
def printedMethods? : List (Routine ρ) → Option (List String)
  | [] => some []
  | m :: rest => do return (← printedRoutine? m) :: (← printedMethods? rest)

end

mutual

/-- Printing a well made statement is led to no gap. -/
theorem printed?_eq_some {s : Stmt ρ} (h : s.WellMade) : s.printed? = some s.render := by
  match s, h with
  | .expression _, _ | .print _, _ | .declare _ none, _ | .declare _ (some _), _
  | .giveBack _ none, _ | .giveBack _ (some _), _ => rfl
  | .block body, h =>
    rw [printed?, printedEach?_eq_some h]
    rfl
  | .branch condition whenTrue none, ⟨_, _, h⟩ =>
    rw [printed?, printed?_eq_some h]
    rfl
  | .branch condition whenTrue (some whenFalse), ⟨_, ⟨_, h⟩, _, h'⟩ =>
    rw [printed?, printed?_eq_some h, printed?_eq_some h']
    rfl
  | .loop condition body, ⟨_, _, h⟩ =>
    rw [printed?, printed?_eq_some h]
    rfl
  | .function routine, h => exact printedRoutine?_eq_some h
  | .klass name none methods, h | .klass name (some target) methods, h =>
    simp only [printed?, printedMethods?_eq_some h]
    rfl

/-- Printing well made statements and gaps is led to no gap but those. -/
theorem printedEach?_eq_some {body : List (Stmt ρ)} (h : WellMadeBody body) :
    printedEach? body = some (renderAll body) := by
  match body, h with
  | [], _ => rfl
  | s :: rest, ⟨hs, hrest⟩ =>
    have hfirst : s.unlessGap "(error)" s.printed? = some s.render :=
      unlessGap_eq_some hs (fun hgap => by rw [hgap, render]) fun h => printed?_eq_some h
    rw [printedEach?, hfirst, printedEach?_eq_some hrest]
    rfl

theorem printedRoutine?_eq_some {r : Routine ρ} (h : WellMadeRoutine r) :
    printedRoutine? r = some (renderRoutine r) := by
  match r, h with
  | .mk _ _ body, h =>
    rw [printedRoutine?, printedEach?_eq_some h]
    rfl

theorem printedMethods?_eq_some {methods : List (Routine ρ)} (h : WellMadeMethods methods) :
    printedMethods? methods = some (renderRoutines methods) := by
  match methods, h with
  | [], _ => rfl
  | m :: rest, ⟨hm, hrest⟩ =>
    rw [printedMethods?, printedRoutine?_eq_some hm, printedMethods?_eq_some hrest]
    rfl

end

/-! ### Scope analysis -/

/-- What scope analysis comes to: the mistakes that it finds, and what it has linked. -/
structure Analysis (α : Type) where
  mistakes : List ScopeMistake
  linked : α

mutual

/-- Scope analysis of a statement that is visited, in surroundings that hold already what it
declares. -/
def analysed? (c : Surroundings) : Stmt Blank → Option (Analysis (Stmt Place))
  | .malformed => none
  | .expression value =>
    some ⟨value.scopeMistakes c.classKind none, .expression (value.link c.scopes)⟩
  | .print value => some ⟨value.scopeMistakes c.classKind none, .print (value.link c.scopes)⟩
  | .declare name initial =>
    some ⟨(initial.map (Expr.scopeMistakes c.classKind (c.initializing name))).getD [],
      .declare name (initial.map (Expr.link c.scopes))⟩
  | .block body => do
    let inside ← analysedEach? c.inBlock body
    return ⟨inside.mistakes, .block inside.linked⟩
  | .branch condition whenTrue none => do
    let first ← whenTrue.analysed? (c.enter whenTrue)
    return ⟨condition.scopeMistakes c.classKind none ++
        (c.redeclaration whenTrue ++ first.mistakes),
      .branch (condition.link c.scopes) first.linked none⟩
  | .branch condition whenTrue (some whenFalse) => do
    let first ← whenTrue.analysed? (c.enter whenTrue)
    let second ← whenFalse.analysed? (c.enter whenFalse)
    return ⟨condition.scopeMistakes c.classKind none ++
        (c.redeclaration whenTrue ++ first.mistakes) ++
        (c.redeclaration whenFalse ++ second.mistakes),
      .branch (condition.link c.scopes) first.linked (some second.linked)⟩
  | .loop condition body => do
    let inside ← body.analysed? (c.enter body)
    return ⟨condition.scopeMistakes c.classKind none ++ (c.redeclaration body ++ inside.mistakes),
      .loop (condition.link c.scopes) inside.linked⟩
  | .function routine => do
    let inside ← analysedRoutine? c .function routine
    return ⟨inside.mistakes, .function inside.linked⟩
  | .giveBack keyword value =>
    some ⟨(Stmt.giveBack keyword value).scopeMistakes c,
      .giveBack keyword (value.map (Expr.link c.scopes))⟩
  | .klass name superclass methods => do
    let inside ← analysedMethods? (c.inClass superclass) methods
    return ⟨(match superclass with
        | some target =>
          if target.name = name.lexeme then [⟨target.token, .selfInheritance⟩] else []
        | none => []) ++ inside.mistakes,
      .klass name (superclass.map (Reference.linkIn c.scopes)) inside.linked⟩

/-- Scope analysis of consecutive statements, gaps among them. -/
def analysedEach? (c : Surroundings) : List (Stmt Blank) → Option (Analysis (List (Stmt Place)))
  | [] => some ⟨[], []⟩
  | s :: rest => do
    let first ← s.unlessGap ⟨[], .malformed⟩ (s.analysed? (c.enter s))
    let others ← analysedEach? (c.enter s) rest
    return ⟨c.redeclaration s ++ first.mistakes ++ others.mistakes, first.linked :: others.linked⟩

/-- Scope analysis of a function or method that is visited. -/
def analysedRoutine? (c : Surroundings) (kind : Enclosing) :
    Routine Blank → Option (Analysis (Routine Place))
  | .mk name params body => do
    let inside ← analysedEach? (c.inRoutine kind params) body
    return ⟨repeatedParams [] params ++ inside.mistakes, .mk name params inside.linked⟩

/-- Scope analysis of the methods of a class. -/
def analysedMethods? (c : Surroundings) :
    List (Routine Blank) → Option (Analysis (List (Routine Place)))
  | [] => some ⟨[], []⟩
  | m :: rest => do
    let first ← analysedRoutine? c (methodKind m.name) m
    let others ← analysedMethods? c rest
    return ⟨first.mistakes ++ others.mistakes, first.linked :: others.linked⟩

end

mutual

/-- Analysing a well made statement is led to no gap. -/
theorem analysed?_eq_some (c : Surroundings) {s : Stmt Blank} (h : s.WellMade) :
    s.analysed? c = some ⟨s.scopeMistakes c, s.link c.scopes⟩ := by
  match s, h with
  | .expression _, _ | .print _, _ | .declare _ none, _ | .declare _ (some _), _
  | .giveBack _ _, _ => rfl
  | .block body, h =>
    rw [analysed?, analysedEach?_eq_some _ h]
    rfl
  | .branch condition whenTrue none, ⟨_, _, h⟩ =>
    rw [analysed?, analysed?_eq_some _ h]
    rfl
  | .branch condition whenTrue (some whenFalse), ⟨_, ⟨_, h⟩, _, h'⟩ =>
    rw [analysed?, analysed?_eq_some _ h, analysed?_eq_some _ h']
    rfl
  | .loop condition body, ⟨_, _, h⟩ =>
    rw [analysed?, analysed?_eq_some _ h]
    rfl
  | .function routine, h =>
    rw [analysed?, analysedRoutine?_eq_some _ _ h]
    rfl
  | .klass name none methods, h | .klass name (some target) methods, h =>
    simp only [analysed?, analysedMethods?_eq_some _ h]
    rfl

/-- Analysing well made statements and gaps is led to no gap but those. -/
theorem analysedEach?_eq_some (c : Surroundings) {body : List (Stmt Blank)}
    (h : WellMadeBody body) :
    analysedEach? c body = some ⟨scopeMistakesBody c body, linkBody c.scopes body⟩ := by
  match body, h with
  | [], _ => rfl
  | s :: rest, ⟨hs, hrest⟩ =>
    have hfirst : s.unlessGap ⟨[], .malformed⟩ (s.analysed? (c.enter s)) =
        some ⟨s.scopeMistakes (c.enter s), s.link (c.enter s).scopes⟩ := by
      refine unlessGap_eq_some hs (fun hgap => ?_) fun h => analysed?_eq_some _ h
      subst hgap
      rfl
    rw [analysedEach?, hfirst, analysedEach?_eq_some _ hrest]
    rfl

theorem analysedRoutine?_eq_some (c : Surroundings) (kind : Enclosing) {r : Routine Blank}
    (h : WellMadeRoutine r) : analysedRoutine? c kind r =
      some ⟨scopeMistakesRoutine c kind r, linkRoutine c.scopes r⟩ := by
  match r, h with
  | .mk _ _ body, h =>
    rw [analysedRoutine?, analysedEach?_eq_some _ h]
    rfl

theorem analysedMethods?_eq_some (c : Surroundings) {methods : List (Routine Blank)}
    (h : WellMadeMethods methods) : analysedMethods? c methods =
      some ⟨scopeMistakesMethods c methods, linkMethods c.scopes methods⟩ := by
  match methods, h with
  | [], _ => rfl
  | .mk name params body :: rest, ⟨hm, hrest⟩ =>
    rw [analysedMethods?, analysedRoutine?_eq_some _ _ hm, analysedMethods?_eq_some _ hrest]
    rfl

end

end Stmt

end LoxInterpreter
