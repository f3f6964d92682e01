import LoxInterpreter.Proofs.Scope.Lexical

/-!
# The tokens that trees keep

Trees keep the tokens that name something and those that may be to blame. They are tokens of the
text: what holds for all of these holds for each token of the program (`eachToken_of_program`).
-/

namespace LoxInterpreter

open Grammar

variable {P : Token → Prop}

namespace Expr

mutual

/-- The tokens that the expression keeps have the property. -/
def EachToken (P : Token → Prop) : Expr Blank → Prop
  | .literal _ => True
  | .grouping inner => inner.EachToken P
  | .unary op operand => P op ∧ operand.EachToken P
  | .binary left op right | .logical left op right =>
    left.EachToken P ∧ P op ∧ right.EachToken P
  | .reference target => P target.token
  | .assign target value => P target.token ∧ value.EachToken P
  | .call callee paren values => callee.EachToken P ∧ P paren ∧ EachTokenAll P values
  | .property object name => object.EachToken P ∧ P name
  | .setProperty object name value => object.EachToken P ∧ P name ∧ value.EachToken P
  | .this receiver => P receiver.token
  | .inherited superclass method => P superclass.token ∧ P method

/-- The tokens that the expressions keep have the property. -/
def EachTokenAll (P : Token → Prop) : List (Expr Blank) → Prop
  | [] => True
  | e :: rest => e.EachToken P ∧ EachTokenAll P rest

end

end Expr

namespace Stmt

mutual

/-- The tokens that the statement keeps have the property. -/
def EachToken (P : Token → Prop) : Stmt Blank → Prop
  | .malformed => True
  | .expression value | .print value => value.EachToken P
  | .declare name initial => P name ∧ ∀ e ∈ initial, e.EachToken P
  | .block body => EachTokenBody P body
  | .branch condition whenTrue none => condition.EachToken P ∧ whenTrue.EachToken P
  | .branch condition whenTrue (some whenFalse) =>
    condition.EachToken P ∧ whenTrue.EachToken P ∧ whenFalse.EachToken P
  | .loop condition body => condition.EachToken P ∧ body.EachToken P
  | .function routine => EachTokenRoutine P routine
  | .giveBack keyword value => P keyword ∧ ∀ e ∈ value, e.EachToken P
  | .klass name superclass methods =>
    P name ∧ (∀ target ∈ superclass, P target.token) ∧ EachTokenMethods P methods

/-- The tokens that the statements keep have the property. -/
def EachTokenBody (P : Token → Prop) : List (Stmt Blank) → Prop
  | [] => True
  | s :: rest => s.EachToken P ∧ EachTokenBody P rest

/-- The tokens that the function or method keeps have the property. -/
def EachTokenRoutine (P : Token → Prop) : Routine Blank → Prop
  | .mk name params body => P name ∧ (∀ param ∈ params, P param) ∧ EachTokenBody P body

/-- The tokens that the methods keep have the property. -/
def EachTokenMethods (P : Token → Prop) : List (Routine Blank) → Prop
  | [] => True
  | m :: rest => EachTokenRoutine P m ∧ EachTokenMethods P rest

end

/-- A statement keeps the token that names what it declares. -/
theorem EachToken.declared {s : Stmt Blank} (h : s.EachToken P) : ∀ name ∈ s.declared?, P name := by
  intro name hname
  match s with
  | .declare .. | .function (.mk ..) | .klass .. =>
    cases hname
    exact h.1
  | .malformed | .expression _ | .print _ | .block _ | .branch _ _ none | .branch _ _ (some _)
  | .loop _ _ | .giveBack _ _ => cases hname

end Stmt

/-! ### Derived trees -/

theorem eachTokenAll_of_separated {us : List Token} {values : List (Expr Blank)}
    (h : Separated (fun ts e => (∀ t ∈ ts, P t) → e.EachToken P) us values) (hus : ∀ t ∈ us, P t) :
    Expr.EachTokenAll P values := by
  induction h with
  | last h => exact ⟨h hus, trivial⟩
  | cons h _ _ ih =>
    obtain ⟨hts, hus⟩ := List.forall_mem_append.mp hus
    exact ⟨h hts, ih (List.forall_mem_cons.mp hus).2⟩

/-- The tokens that a derived expression keeps are tokens of it. -/
theorem Grammar.Phrase.eachToken {l : Level} {ts : List Token} {e : Expr Blank} (h : Phrase l ts e)
    (hts : ∀ t ∈ ts, P t) : e.EachToken P := by
  induction h using Phrase.induct with
  | tighter _ _ ih => exact ih hts
  | assign _ _ _ ih =>
    simp only [List.forall_mem_cons] at hts
    exact ⟨hts.1, ih hts.2.2⟩
  | setProperty _ _ _ _ _ ih ih' =>
    simp only [List.forall_mem_append, List.forall_mem_cons] at hts
    exact ⟨ih hts.1, hts.2.2.1, ih' hts.2.2.2.2⟩
  | @join l _ _ _ op left right _ _ _ _ ih ih' =>
    simp only [List.forall_mem_append, List.forall_mem_cons] at hts
    have hjoin : (l.join left op right).EachToken P =
        (left.EachToken P ∧ P op ∧ right.EachToken P) := by
      cases l <;> rfl
    rw [hjoin]
    exact ⟨ih hts.1, hts.2.1, ih' hts.2.2⟩
  | unary _ _ ih =>
    obtain ⟨hop, hts⟩ := List.forall_mem_cons.mp hts
    exact ⟨hop, ih hts⟩
  | call _ _ _ _ ih ihs =>
    simp only [List.forall_mem_append, List.forall_mem_cons] at hts
    refine ⟨ih hts.1.1, hts.2.1, ?_⟩
    cases ihs with
    | none => trivial
    | some h => exact eachTokenAll_of_separated (h.mono fun _ _ h => h.2) hts.1.2.2
  | property _ _ _ ih =>
    simp only [List.forall_mem_append, List.forall_mem_cons] at hts
    exact ⟨ih hts.1, hts.2.2.1⟩
  | literal => trivial
  | inherited =>
    simp only [List.forall_mem_cons] at hts
    exact ⟨hts.1, hts.2.2.1⟩
  | this | reference => exact (List.forall_mem_cons.mp hts).1
  | grouping _ _ _ ih =>
    simp only [List.cons_append, List.forall_mem_cons, List.forall_mem_append] at hts
    exact ih hts.2.1

theorem eachTokenBody_of_sequence {ts : List Token} {body : List (Stmt Blank)}
    (h : Sequence (fun ts s => (∀ t ∈ ts, P t) → s.EachToken P) ts body) (hts : ∀ t ∈ ts, P t) :
    Stmt.EachTokenBody P body := by
  induction h with
  | nil => trivial
  | cons h _ ih =>
    obtain ⟨hts, hus⟩ := List.forall_mem_append.mp hts
    exact ⟨h hts, ih hus⟩

theorem eachTokenMethods_of_sequence {ts : List Token} {methods : List (Routine Blank)}
    (h : Sequence (fun ts r => (∀ t ∈ ts, P t) → Stmt.EachTokenRoutine P r) ts methods)
    (hts : ∀ t ∈ ts, P t) : Stmt.EachTokenMethods P methods := by
  induction h with
  | nil => trivial
  | cons h _ ih =>
    obtain ⟨hts, hus⟩ := List.forall_mem_append.mp hts
    exact ⟨h hts, ih hus⟩

theorem eachToken_of_possibly {ts : List Token} {value : Option (Expr Blank)}
    (h : Possibly Expression ts value) (hts : ∀ t ∈ ts, P t) : ∀ e ∈ value, e.EachToken P := by
  cases h with
  | none => exact fun e he => absurd he (by simp)
  | some h =>
    rintro e ⟨⟩
    exact h.eachToken hts

theorem Grammar.Variable.eachToken {ts : List Token} {s : Stmt Blank} (h : Variable ts s)
    (hts : ∀ t ∈ ts, P t) : s.EachToken P := by
  cases h with
  | plain => exact ⟨(List.forall_mem_cons.mp hts).1, by simp⟩
  | initialized _ _ h =>
    simp only [List.cons_append, List.forall_mem_cons, List.forall_mem_append] at hts
    refine ⟨hts.1, ?_⟩
    rintro e ⟨⟩
    exact h.eachToken hts.2.2.1

/-- A `for` loop keeps what its parts keep. -/
theorem eachToken_forTree {ts us vs : List Token} {initial : Option (Stmt Blank)}
    {condition increment : Option (Expr Blank)} {body : Stmt Blank}
    (hinitial : Initializer ts initial) (hcondition : Possibly Expression us condition)
    (hincrement : Possibly Expression vs increment) (hts : ∀ t ∈ ts, P t) (hus : ∀ t ∈ us, P t)
    (hvs : ∀ t ∈ vs, P t) (hbody : body.EachToken P) :
    (forTree initial condition increment body).EachToken P := by
  have htest : (condition.getD (.literal (.bool true))).EachToken P := by
    cases hcondition with
    | none => trivial
    | some h => exact h.eachToken hus
  have hround : ∀ e ∈ increment, e.EachToken P := eachToken_of_possibly hincrement hvs
  have hfirst : ∀ s ∈ initial, s.EachToken P := by
    rintro s ⟨⟩
    cases hinitial with
    | declare _ h => exact h.eachToken (List.forall_mem_cons.mp hts).2
    | expression h => exact h.eachToken (List.forall_mem_append.mp hts).1
  unfold forTree
  match initial, increment with
  | none, none => exact ⟨htest, hbody⟩
  | none, some e => exact ⟨htest, hbody, hround e rfl, trivial⟩
  | some s, none => exact ⟨hfirst s rfl, ⟨htest, hbody⟩, trivial⟩
  | some s, some e => exact ⟨hfirst s rfl, ⟨htest, hbody, hround e rfl, trivial⟩, trivial⟩

/-- The tokens that a derived declaration keeps are tokens of it. -/
theorem Grammar.Declaration.eachToken {ts : List Token} {s : Stmt Blank} (h : Declaration ts s) :
    (∀ t ∈ ts, P t) → s.EachToken P := by
  refine Declaration.induct (P := fun _ ts s => (∀ t ∈ ts, P t) → s.EachToken P)
    (Q := fun ts s => (∀ t ∈ ts, P t) → s.EachToken P)
    (R := fun ts r => (∀ t ∈ ts, P t) → Stmt.EachTokenRoutine P r)
    ?expression ?print ?giveBack ?block ?ifThen ?ifElse ?loop ?forLoop ?statement ?declare
    ?function ?klass ?routine h
  case statement => exact fun _ ih hts => ih hts
  all_goals
    intros
    rename_i hts
    simp only [List.cons_append, List.append_assoc, List.forall_mem_append,
      List.forall_mem_cons] at hts
  case expression h _ => exact h.eachToken hts.1
  case print _ h _ => exact h.eachToken hts.2.1
  case giveBack _ h _ => exact ⟨hts.1, eachToken_of_possibly h hts.2.1⟩
  case block _ h _ => exact eachTokenBody_of_sequence (h.mono fun _ _ h => h.2) hts.2.1
  case ifThen _ _ h _ _ ih => exact ⟨h.eachToken hts.2.2.1, ih hts.2.2.2.2⟩
  case ifElse _ _ h _ _ _ _ ih ih' =>
    exact ⟨h.eachToken hts.2.2.1, ih hts.2.2.2.2.1, ih' hts.2.2.2.2.2.2⟩
  case loop _ _ h _ _ ih => exact ⟨h.eachToken hts.2.2.1, ih hts.2.2.2.2⟩
  case forLoop _ _ hinitial hcondition _ hincrement _ _ ih =>
    exact eachToken_forTree hinitial hcondition hincrement hts.2.2.1 hts.2.2.2.1 hts.2.2.2.2.2.1
      (ih hts.2.2.2.2.2.2.2)
  case declare _ h => exact h.eachToken hts.2
  case function _ _ ih => exact ih hts.2
  case klass _ _ hsuper _ hmethods _ =>
    refine ⟨hts.2.1, ?_, ?_⟩
    · cases hsuper with
      | none => simp
      | some =>
        rintro target ⟨⟩
        exact hts.2.2.1 _ (by simp)
    · exact eachTokenMethods_of_sequence (hmethods.mono fun _ _ h => h.2) hts.2.2.2.2.1
  case routine _ _ hparams _ _ hbody _ =>
    refine ⟨hts.1, fun param h => hts.2.2.1 param (mem_of_mem_listed hparams param h), ?_⟩
    exact eachTokenBody_of_sequence (hbody.mono fun _ _ h => h.2) hts.2.2.2.2.2.1

/-- **Trees keep tokens of the text.** What holds for all of these holds for the tokens that a
derived program keeps. -/
theorem eachToken_of_program {ts : List Token} {program : List (Stmt Blank)} (h : Program ts program)
    (hts : ∀ t ∈ ts, P t) : Stmt.EachTokenBody P program :=
  eachTokenBody_of_sequence (h.mono fun _ _ h => h.eachToken) hts

end LoxInterpreter
