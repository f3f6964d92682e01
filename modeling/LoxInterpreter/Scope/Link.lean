import LoxInterpreter.Tree

/-!
# Lexical scope

Where each name of a program finds its binding, as far as the text alone decides it. Blocks,
routines and classes open scopes; the top level is not a scope. A declaration adds its name to the
innermost scope, for itself and for the statements after it. A name that no scope binds is left to
the globals.

* `Scopes.placeOf` counts the scopes passed over on the way out to the first that binds a name
  (`Scopes.placeOf_eq_outward_iff`).
* `Stmt.link` fills in the links of a tree; `linkProgram` those of a program.
-/

namespace LoxInterpreter

/-- The names bound in one scope, latest first. -/
abbrev Scope := List String

/-- The scopes around a place in a program, innermost first. -/
abbrev Scopes := List Scope

/-- The same place, seen from one scope further in. -/
def Place.further : Place → Place
  | .global => .global
  | .outward distance => .outward (distance + 1)

namespace Scopes

/-- Where a name is bound, seen from inside the scopes. -/
def placeOf (scopes : Scopes) (name : String) : Place :=
  match scopes.findIdx? (fun (scope : Scope) => decide (name ∈ scope)) with
  | some distance => .outward distance
  | none => .global

/-- A name is left to the globals exactly if no scope binds it. -/
theorem placeOf_eq_global_iff (scopes : Scopes) (name : String) :
    scopes.placeOf name = .global ↔ ∀ scope ∈ scopes, name ∉ scope := by
  unfold placeOf
  split
  · next h =>
    simp only [List.findIdx?_eq_some_iff_getElem] at h
    obtain ⟨hlt, hmem, -⟩ := h
    simp only [reduceCtorEq, false_iff]
    intro hall
    exact hall _ (List.getElem_mem hlt) (of_decide_eq_true hmem)
  · next h => simpa [List.findIdx?_eq_none_iff] using h

/-- A name is placed at a distance exactly if the scope there binds it and none before does. -/
theorem placeOf_eq_outward_iff (scopes : Scopes) (name : String) (distance : Nat) :
    scopes.placeOf name = .outward distance ↔
      ∃ h : distance < scopes.length, name ∈ scopes[distance] ∧
        ∀ i, ∀ hi : i < distance, name ∉ scopes[i] := by
  unfold placeOf
  split
  · next d h =>
    rw [Place.outward.injEq]
    constructor
    · rintro rfl
      simpa [List.findIdx?_eq_some_iff_getElem] using h
    · intro h'
      have : scopes.findIdx? (fun (scope : Scope) => decide (name ∈ scope)) = some distance := by
        simpa [List.findIdx?_eq_some_iff_getElem] using h'
      exact Option.some.inj (h.symm.trans this)
  · next h =>
    simp only [reduceCtorEq, false_iff, not_exists, not_and]
    intro hlt hmem
    rw [List.findIdx?_eq_none_iff] at h
    have := h _ (List.getElem_mem hlt)
    simp_all

/-- A scope that binds the name is where it is bound. -/
theorem placeOf_cons_of_mem {scopes : Scopes} {scope : Scope} {name : String} (h : name ∈ scope) :
    placeOf (scope :: scopes) name = .outward 0 := by
  rw [placeOf_eq_outward_iff]
  exact ⟨Nat.succ_pos _, h, fun i hi => absurd hi (Nat.not_lt_zero i)⟩

/-- A scope that does not bind the name is passed over. -/
theorem placeOf_cons_eq_further {scopes : Scopes} {scope : Scope} {name : String}
    (h : name ∉ scope) : placeOf (scope :: scopes) name = (scopes.placeOf name).further := by
  rw [placeOf, placeOf, List.findIdx?_cons, decide_eq_false h]
  cases scopes.findIdx? fun (scope : Scope) => decide (name ∈ scope) <;> rfl

/-- Bind a name in the innermost scope. At the top level nothing is tracked. -/
def bind (name : String) : Scopes → Scopes
  | [] => []
  | scope :: outer => (name :: scope) :: outer

/-- The scopes seen by a statement, and by those after it: a declaration is in its own scope. -/
def enter {ρ : Type} (scopes : Scopes) (s : Stmt ρ) : Scopes :=
  match s.declared? with
  | some token => scopes.bind token.lexeme
  | none => scopes

/-- The scopes around the methods of a class: one for `this`, and outside it one for `super` if the
class has a superclass. -/
def enterClass {ρ : Type} (scopes : Scopes) (superclass : Option (Reference ρ)) : Scopes :=
  match superclass with
  | some _ => ["this"] :: ["super"] :: scopes
  | none => ["this"] :: scopes

/-- The scopes in a routine. Parameters and body share one. -/
def enterRoutine (scopes : Scopes) (params : List Token) : Scopes :=
  (params.reverse.map (·.lexeme)) :: scopes

end Scopes

/-- Fill in the link of a reference. -/
def Reference.linkIn (scopes : Scopes) (r : Reference Blank) : Reference Place :=
  ⟨r.token, scopes.placeOf r.name⟩

namespace Expr

mutual

/-- Fill in the links of an expression. No expression opens a scope. -/
def link (scopes : Scopes) : Expr Blank → Expr Place
  | .literal value => .literal value
  | .grouping inner => .grouping (inner.link scopes)
  | .unary op operand => .unary op (operand.link scopes)
  | .binary left op right => .binary (left.link scopes) op (right.link scopes)
  | .logical left op right => .logical (left.link scopes) op (right.link scopes)
  | .reference target => .reference (target.linkIn scopes)
  | .assign target value => .assign (target.linkIn scopes) (value.link scopes)
  | .call callee paren values => .call (callee.link scopes) paren (linkAll scopes values)
  | .property object name => .property (object.link scopes) name
  | .setProperty object name value =>
    .setProperty (object.link scopes) name (value.link scopes)
  | .this receiver => .this (receiver.linkIn scopes)
  | .inherited superclass method => .inherited (superclass.linkIn scopes) method

/-- Fill in the links of several expressions. -/
def linkAll (scopes : Scopes) : List (Expr Blank) → List (Expr Place)
  | [] => []
  | e :: rest => e.link scopes :: linkAll scopes rest

end

end Expr

namespace Stmt

mutual

/-- Fill in the links of a statement, in scopes that hold already what it declares. -/
def link (scopes : Scopes) : Stmt Blank → Stmt Place
  | .malformed => .malformed
  | .expression value => .expression (value.link scopes)
  | .print value => .print (value.link scopes)
  | .declare name initial => .declare name (initial.map (Expr.link scopes))
  | .block body => .block (linkBody ([] :: scopes) body)
  | .branch condition whenTrue none =>
    .branch (condition.link scopes) (whenTrue.link (scopes.enter whenTrue)) none
  | .branch condition whenTrue (some whenFalse) =>
    .branch (condition.link scopes) (whenTrue.link (scopes.enter whenTrue))
      (some (whenFalse.link (scopes.enter whenFalse)))
  | .loop condition body => .loop (condition.link scopes) (body.link (scopes.enter body))
  | .function routine => .function (linkRoutine scopes routine)
  | .giveBack keyword value => .giveBack keyword (value.map (Expr.link scopes))
  | .klass name superclass methods =>
    .klass name (superclass.map (Reference.linkIn scopes))
      (linkMethods (scopes.enterClass superclass) methods)

/-- Fill in the links of consecutive statements, each of which sees what those before declare. -/
def linkBody (scopes : Scopes) : List (Stmt Blank) → List (Stmt Place)
  | [] => []
  | s :: rest => s.link (scopes.enter s) :: linkBody (scopes.enter s) rest

/-- Fill in the links of a function or method. -/
def linkRoutine (scopes : Scopes) : Routine Blank → Routine Place
  | .mk name params body => .mk name params (linkBody (scopes.enterRoutine params) body)

/-- Fill in the links of the methods of a class. -/
def linkMethods (scopes : Scopes) : List (Routine Blank) → List (Routine Place)
  | [] => []
  | m :: rest => linkRoutine scopes m :: linkMethods scopes rest

end

end Stmt

/-- Fill in the links of a program. -/
def linkProgram (statements : List (Stmt Blank)) : List (Stmt Place) :=
  Stmt.linkBody [] statements

end LoxInterpreter
