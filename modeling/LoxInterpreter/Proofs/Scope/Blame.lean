import LoxInterpreter.Proofs.Grammar.Tokens
import LoxInterpreter.Scope.Mistake

/-!
# Where the analysis of scopes lays the blame

The analysis of scopes looks at nothing but trees, and blames the tokens that they keep: what holds
for all of these holds for each token that is blamed. So the mistakes of scope in a program are
blamed on tokens of the text (`forall_mem_scopeMistakes_of_program`).
-/

namespace LoxInterpreter

variable {P : Token → Prop}

/-- A mistake that may be missing. -/
theorem ScopeMistake.forall_mem_ite {c : Prop} [Decidable c] {token : Token} {cause : ScopeError}
    (h : P token) :
    ∀ m ∈ (if c then [(⟨token, cause⟩ : ScopeMistake)] else []), P m.token := by
  split
  · exact List.forall_mem_singleton.mpr h
  · exact List.forall_mem_nil _

namespace Expr

mutual

/-- The mistakes of scope in an expression are blamed on tokens that it keeps. -/
theorem forall_mem_scopeMistakes (kind : ClassKind) (own : Option String) (e : Expr Blank)
    (h : e.EachToken P) : ∀ m ∈ e.scopeMistakes kind own, P m.token := by
  cases e with
  | literal => exact List.forall_mem_nil _
  | grouping inner => exact forall_mem_scopeMistakes kind own inner h
  | unary _ operand => exact forall_mem_scopeMistakes kind own operand h.2
  | binary left _ right | logical left _ right =>
    exact List.forall_mem_append.mpr ⟨forall_mem_scopeMistakes kind own left h.1,
      forall_mem_scopeMistakes kind own right h.2.2⟩
  | reference target => exact ScopeMistake.forall_mem_ite h
  | assign _ value => exact forall_mem_scopeMistakes kind own value h.2
  | call callee _ values =>
    exact List.forall_mem_append.mpr ⟨forall_mem_scopeMistakes kind own callee h.1,
      forall_mem_scopeMistakesAll kind own values h.2.2⟩
  | property object => exact forall_mem_scopeMistakes kind own object h.1
  | setProperty object _ value =>
    exact List.forall_mem_append.mpr ⟨forall_mem_scopeMistakes kind own value h.2.2,
      forall_mem_scopeMistakes kind own object h.1⟩
  | this receiver => exact ScopeMistake.forall_mem_ite h
  | inherited superclass method =>
    cases kind with
    | outside | base => exact List.forall_mem_singleton.mpr h.1
    | derived => exact List.forall_mem_nil _

/-- Those in expressions are blamed on tokens that these keep. -/
theorem forall_mem_scopeMistakesAll (kind : ClassKind) (own : Option String)
    (es : List (Expr Blank)) (h : EachTokenAll P es) :
    ∀ m ∈ scopeMistakesAll kind own es, P m.token := by
  cases es with
  | nil => exact List.forall_mem_nil _
  | cons e rest =>
    exact List.forall_mem_append.mpr ⟨forall_mem_scopeMistakes kind own e h.1,
      forall_mem_scopeMistakesAll kind own rest h.2⟩

end

end Expr

theorem Surroundings.forall_mem_redeclaration (c : Surroundings) {s : Stmt Blank}
    (h : s.EachToken P) : ∀ m ∈ c.redeclaration s, P m.token := by
  have hdeclared := h.declared
  rw [redeclaration]
  split
  · next token scope outer hname _ => exact ScopeMistake.forall_mem_ite (hdeclared token hname)
  · exact List.forall_mem_nil _

theorem forall_mem_repeatedParams {params : List Token} (h : ∀ param ∈ params, P param)
    (earlier : List String) : ∀ m ∈ repeatedParams earlier params, P m.token := by
  induction params generalizing earlier with
  | nil => exact List.forall_mem_nil _
  | cons param rest ih =>
    obtain ⟨hparam, hrest⟩ := List.forall_mem_cons.mp h
    exact List.forall_mem_append.mpr ⟨ScopeMistake.forall_mem_ite hparam, ih hrest _⟩

namespace Stmt

mutual

/-- The mistakes of scope in a statement are blamed on tokens that it keeps. -/
theorem forall_mem_scopeMistakes (s : Stmt Blank) (c : Surroundings) (h : s.EachToken P) :
    ∀ m ∈ s.scopeMistakes c, P m.token := by
  cases s with
  | malformed => exact List.forall_mem_nil _
  | expression value | print value => exact value.forall_mem_scopeMistakes _ _ h
  | declare name initial =>
    cases initial with
    | none => exact List.forall_mem_nil _
    | some initial => exact initial.forall_mem_scopeMistakes _ _ (h.2 initial rfl)
  | block body => exact forall_mem_scopeMistakesBody body c.inBlock h
  | branch condition whenTrue whenFalse =>
    cases whenFalse with
    | none =>
      exact List.forall_mem_append.mpr ⟨condition.forall_mem_scopeMistakes _ _ h.1,
        List.forall_mem_append.mpr ⟨c.forall_mem_redeclaration h.2,
          forall_mem_scopeMistakes whenTrue _ h.2⟩⟩
    | some whenFalse =>
      refine List.forall_mem_append.mpr ⟨List.forall_mem_append.mpr ⟨?_, ?_⟩, ?_⟩
      · exact condition.forall_mem_scopeMistakes _ _ h.1
      · exact List.forall_mem_append.mpr ⟨c.forall_mem_redeclaration h.2.1,
          forall_mem_scopeMistakes whenTrue _ h.2.1⟩
      · exact List.forall_mem_append.mpr ⟨c.forall_mem_redeclaration h.2.2,
          forall_mem_scopeMistakes whenFalse _ h.2.2⟩
  | loop condition body =>
    exact List.forall_mem_append.mpr ⟨condition.forall_mem_scopeMistakes _ _ h.1,
      List.forall_mem_append.mpr ⟨c.forall_mem_redeclaration h.2,
        forall_mem_scopeMistakes body _ h.2⟩⟩
  | function routine => exact forall_mem_scopeMistakesRoutine routine c .function h
  | giveBack keyword value =>
    refine List.forall_mem_append.mpr ⟨ScopeMistake.forall_mem_ite h.1, ?_⟩
    cases value with
    | none => exact List.forall_mem_nil _
    | some value =>
      exact List.forall_mem_append.mpr ⟨ScopeMistake.forall_mem_ite h.1,
        value.forall_mem_scopeMistakes _ _ (h.2 value rfl)⟩
  | klass name superclass methods =>
    refine List.forall_mem_append.mpr
      ⟨?_, forall_mem_scopeMistakesMethods methods (c.inClass superclass) h.2.2⟩
    cases superclass with
    | none => exact List.forall_mem_nil _
    | some target => exact ScopeMistake.forall_mem_ite (h.2.1 target rfl)

/-- Those in statements are blamed on tokens that these keep. -/
theorem forall_mem_scopeMistakesBody (body : List (Stmt Blank)) (c : Surroundings)
    (h : EachTokenBody P body) : ∀ m ∈ scopeMistakesBody c body, P m.token := by
  cases body with
  | nil => exact List.forall_mem_nil _
  | cons s rest =>
    refine List.forall_mem_append.mpr ⟨List.forall_mem_append.mpr ⟨?_, ?_⟩, ?_⟩
    · exact c.forall_mem_redeclaration h.1
    · exact forall_mem_scopeMistakes s _ h.1
    · exact forall_mem_scopeMistakesBody rest _ h.2

/-- Those in a function or method are blamed on tokens that it keeps. -/
theorem forall_mem_scopeMistakesRoutine (routine : Routine Blank) (c : Surroundings)
    (kind : Enclosing) (h : EachTokenRoutine P routine) :
    ∀ m ∈ scopeMistakesRoutine c kind routine, P m.token := by
  cases routine with
  | mk name params body =>
    exact List.forall_mem_append.mpr ⟨forall_mem_repeatedParams h.2.1 _,
      forall_mem_scopeMistakesBody body _ h.2.2⟩

/-- Those in methods are blamed on tokens that these keep. -/
theorem forall_mem_scopeMistakesMethods (methods : List (Routine Blank)) (c : Surroundings)
    (h : EachTokenMethods P methods) : ∀ m ∈ scopeMistakesMethods c methods, P m.token := by
  cases methods with
  | nil => exact List.forall_mem_nil _
  | cons m rest =>
    cases m with
    | mk name params body =>
      refine List.forall_mem_append.mpr ⟨List.forall_mem_append.mpr ⟨?_, ?_⟩, ?_⟩
      · exact forall_mem_repeatedParams h.1.2.1 _
      · exact forall_mem_scopeMistakesBody body _ h.1.2.2
      · exact forall_mem_scopeMistakesMethods rest c h.2

end

end Stmt

/-- **Mistakes of scope are blamed on tokens of the text.** -/
theorem forall_mem_scopeMistakes_of_program {ts : List Token} {program : List (Stmt Blank)}
    (h : Grammar.Program ts program) : ∀ m ∈ scopeMistakes program, m.token ∈ ts :=
  Stmt.forall_mem_scopeMistakesBody program .topLevel (eachToken_of_program h fun _ => id)

end LoxInterpreter
