import LoxInterpreter.Proofs.Gaps.Tree
import LoxInterpreter.Parse.Statement

/-!
# Gaps and mistakes

Every gap in a parsed tree is paid for: a parser leaves no more of them than it writes down
mistakes, whatever tokens it is given (`gapsIn_statements_le`), and it puts them into lists only
(`wellMadeBody_statements`).

`Accounts p P` says of a parser that it comes to a value with `P` for some number of mistakes that
it has written down at least, and that it does not unwind without writing one down. The numbers add
up along `>>=` (`Accounts.bind`), and every step of a parser has its rule. Most steps make nothing
that could have gaps, and pay for nothing (`Accounts.andThen`).
-/

namespace LoxInterpreter

namespace Parse

variable {α β : Type} {P P' : α → Nat → Prop} {Q : β → Nat → Prop} {R : α → Prop} {p q : Parse α}
  {f : α → Parse β} {g : α → β}

/-- What a parser may come to that started at `s`. -/
def Accounted (P : α → Nat → Prop) (s : Cursor) : EStateM.Result Halt Cursor α → Prop
  | .ok a s' => ∃ paid, P a paid ∧ s.mistakes.length + paid ≤ s'.mistakes.length
  | .error .unwound s' => s.mistakes.length < s'.mistakes.length
  | .error .stuck _ => True

/-- From anywhere the parser comes to a value with the property, for so many mistakes. -/
def Accounts (p : Parse α) (P : α → Nat → Prop) : Prop := ∀ s, Accounted P s (p s)

/-- From anywhere the parser comes to a value with the property, for nothing. -/
abbrev AccountsFree (p : Parse α) (R : α → Prop) : Prop := Accounts p fun a _ => R a

/-! ### Steps of a parser -/

theorem accounts_pure {a : α} (h : P a 0) : Accounts (pure a) P :=
  fun _ => ⟨0, h, Nat.le_refl _⟩

theorem accounts_stuck : Accounts (throw .stuck : Parse α) P := fun _ => trivial

namespace Accounts

/-- **Sequencing.** What is paid for both is paid for the whole. -/
protected theorem bind (hp : Accounts p P)
    (hf : ∀ a paid, P a paid → Accounts (f a) fun b more => Q b (paid + more)) :
    Accounts (p >>= f) Q := by
  intro s
  have hs := hp s
  show Accounted Q s (EStateM.bind p f s)
  rw [EStateM.bind]
  generalize p s = r at hs
  cases r with
  | error halt s₁ =>
    cases halt with
    | unwound => exact hs
    | stuck => trivial
  | ok a s₁ =>
    obtain ⟨paid, ha, hle⟩ := hs
    have hrest := hf a paid ha s₁
    dsimp only
    generalize f a s₁ = r at hrest ⊢
    cases r with
    | ok b s₂ =>
      obtain ⟨more, hb, hle'⟩ := hrest
      exact ⟨paid + more, hb, by omega⟩
    | error halt s₂ =>
      cases halt with
      | unwound => exact Nat.lt_of_le_of_lt (Nat.le_of_add_right_le hle) hrest
      | stuck => trivial

theorem mono (hp : Accounts p P) (h : ∀ a paid, P a paid → P' a paid) : Accounts p P' := by
  intro s
  have hs := hp s
  generalize p s = r at hs
  cases r with
  | ok a s' =>
    obtain ⟨paid, ha, hle⟩ := hs
    exact ⟨paid, h a paid ha, hle⟩
  | error halt s' => cases halt <;> exact hs

/-- What is had for some price is had for nothing, if the price does not matter. -/
theorem for_nothing (hp : AccountsFree p R) : Accounts p fun a paid => R a ∧ paid = 0 := by
  intro s
  have hs := hp s
  generalize p s = r at hs
  cases r with
  | ok a s' =>
    obtain ⟨paid, ha, hle⟩ := hs
    exact ⟨0, ⟨ha, rfl⟩, Nat.le_of_add_right_le hle⟩
  | error halt s' => cases halt <;> exact hs

/-- After something for nothing, all is still to be paid. -/
theorem andThen (hp : AccountsFree p R) (hf : ∀ a, R a → Accounts (f a) Q) :
    Accounts (p >>= f) Q := by
  refine hp.for_nothing.bind ?_
  rintro a _ ⟨ha, rfl⟩
  simpa only [Nat.zero_add] using hf a ha

protected theorem map (hp : Accounts p fun a paid => Q (g a) paid) : Accounts (g <$> p) Q := by
  rw [← bind_pure_comp]
  exact hp.bind fun a paid ha => accounts_pure ha

/-- A choice of something for nothing, with something behind it. -/
theorem ite_andThen {b : Bool} (hp : AccountsFree p R) (hq : AccountsFree q R)
    (hf : ∀ a, R a → Accounts (f a) Q) : Accounts (if b then p >>= f else q >>= f) Q := by
  cases b with
  | true => exact hp.andThen hf
  | false => exact hq.andThen hf

end Accounts

theorem accounts_next? : AccountsFree next? fun _ => True :=
  fun _ => ⟨0, trivial, Nat.le_refl _⟩

theorem accounts_nextIs (kind : TokenKind) : AccountsFree (nextIs kind) fun _ => True :=
  fun _ => ⟨0, trivial, Nat.le_refl _⟩

theorem accounts_atEnd : AccountsFree atEnd fun _ => True :=
  fun _ => ⟨0, trivial, Nat.le_refl _⟩

theorem accounts_complain (token : Option Token) (cause : SyntaxError) :
    AccountsFree (complain token cause) fun _ => True := by
  intro s
  refine ⟨0, trivial, ?_⟩
  show s.mistakes.length ≤ (s.mistakes ++ [_]).length
  rw [List.length_append]
  exact Nat.le_add_right _ _

/-- Unwinding is paid for. -/
theorem accounts_fail (cause : SyntaxError) : Accounts (fail cause : Parse α) P := by
  intro s
  show s.mistakes.length < (s.mistakes ++ [_]).length
  rw [List.length_append]
  exact Nat.lt_succ_self _

theorem accounts_dispatch {otherwise : Parse α} {table : Token → Option (Parse α)}
    (hother : Accounts otherwise P) (htable : ∀ t q, table t = some q → Accounts q P) :
    Accounts (dispatch otherwise table) P := by
  intro s
  rw [dispatch]
  split
  · exact hother s
  · next t rest _ =>
    split
    · next q hq => exact htable t q hq { s with rest }
    · exact hother s

theorem accounts_accept (kinds : List TokenKind) :
    AccountsFree (accept kinds) fun o => ∀ t ∈ o, t.kind ∈ kinds := by
  refine accounts_dispatch (accounts_pure nofun) fun t q hq => ?_
  split at hq
  · next hk =>
    cases hq
    refine accounts_pure ?_
    rintro _ ⟨⟩
    exact hk
  · cases hq

theorem accounts_expect (kind : TokenKind) (cause : SyntaxError) :
    AccountsFree (expect kind cause) fun _ => True := by
  refine accounts_dispatch (accounts_fail cause) fun t q hq => ?_
  split at hq
  · cases hq
    exact accounts_pure trivial
  · cases hq

/-- A gap is paid for by the mistake that the unwinding left. -/
theorem accounts_recover {p : Parse (Stmt Blank)} {P : Stmt Blank → Nat → Prop}
    (hp : Accounts p P) (hgap : P .malformed 1) : Accounts (recover p) P := by
  intro s
  have hs := hp s
  rw [recover]
  generalize p s = r at hs
  cases r with
  | ok a s' => exact hs
  | error halt s' =>
    cases halt with
    | unwound => exact ⟨1, hgap, hs⟩
    | stuck => trivial

/-- An item, and others behind a comma. -/
theorem accounts_separated {item : Parse α} {more : Parse (List α)} {S : List α → Prop}
    (hitem : AccountsFree item R) (hmore : AccountsFree more S) (hlast : ∀ a, R a → S [a])
    (hcons : ∀ a as, R a → S as → S (a :: as)) :
    AccountsFree (do
      let a ← item
      match ← accept [.comma] with
      | some _ => return a :: (← more)
      | none => return [a]) S := by
  refine hitem.andThen fun a ha => (accounts_accept _).andThen fun o _ => ?_
  cases o with
  | none => exact accounts_pure (hlast a ha)
  | some _ => exact hmore.andThen fun as has => accounts_pure (hcons a as ha has)

/-! ### Expressions -/

/-- The parser makes well made expressions. There are no gaps to pay for. -/
abbrev AccountsExpr (p : Parse (Expr Blank)) : Prop := AccountsFree p Expr.WellMade

section Levels

variable {nested operand : Parse (Expr Blank)}

theorem accounts_arguments (hnested : AccountsExpr nested) (bound count : Nat) :
    AccountsFree (arguments nested bound count) Expr.WellMadeAll := by
  induction bound generalizing count with
  | zero => exact accounts_stuck
  | succ bound ih =>
    have hrest := accounts_separated hnested (ih (count + 1)) (fun _ h => ⟨h, trivial⟩)
      fun _ _ h h' => ⟨h, h'⟩
    rw [arguments]
    dsimp only
    split
    · exact accounts_next?.andThen fun _ _ => (accounts_complain _ _).andThen fun _ _ => hrest
    · exact hrest

theorem accounts_primary (hnested : AccountsExpr nested) : AccountsExpr (primary nested) := by
  refine accounts_dispatch (accounts_fail _) fun t q hq => ?_
  generalize t.kind = kind at hq
  cases kind
  all_goals cases hq
  case superWord =>
    exact (accounts_expect _ _).andThen fun _ _ => (accounts_expect _ _).andThen fun _ _ =>
      accounts_pure trivial
  case leftParen =>
    exact hnested.andThen fun inner hinner => (accounts_expect _ _).andThen fun _ _ =>
      accounts_pure hinner
  all_goals exact accounts_pure trivial

theorem accounts_postfixes (hnested : AccountsExpr nested) (bound : Nat) {callee : Expr Blank}
    (hcallee : callee.WellMade) : AccountsExpr (postfixes nested bound callee) := by
  induction bound generalizing callee with
  | zero => exact accounts_stuck
  | succ bound ih =>
    refine (accounts_accept _).andThen fun o _ => ?_
    cases o with
    | none => exact accounts_pure hcallee
    | some t =>
      dsimp only
      split
      · refine (accounts_nextIs _).andThen fun b _ => ?_
        exact Accounts.ite_andThen (accounts_pure trivial)
          (accounts_arguments hnested (bound + 1) 0) fun values hvalues =>
            (accounts_expect _ _).andThen fun paren _ => ih ⟨hcallee, hvalues⟩
      · exact (accounts_expect _ _).andThen fun name _ => ih hcallee

theorem accounts_unary (hnested : AccountsExpr nested) (bound more : Nat) :
    AccountsExpr (unary nested bound more) := by
  induction more with
  | zero => exact accounts_stuck
  | succ more ih =>
    refine (accounts_accept _).andThen fun o ho => ?_
    cases o with
    | none =>
      exact (accounts_primary hnested).andThen fun _ hcallee =>
        accounts_postfixes hnested bound hcallee
    | some op => exact ih.andThen fun e he => accounts_pure ⟨ho op rfl, he⟩

/-- A level of operators, if its nodes are well made with any of them. -/
theorem accounts_leftAssociative {kinds : List TokenKind}
    {node : Expr Blank → Token → Expr Blank → Expr Blank}
    (hnode : ∀ left op right, left.WellMade → op.kind ∈ kinds → right.WellMade →
      (node left op right).WellMade) (bound : Nat) (hoperand : AccountsExpr operand) :
    AccountsExpr (leftAssociative kinds node bound operand) := by
  have hoperands (n : Nat) {left : Expr Blank} (hleft : left.WellMade) :
      AccountsExpr (operands kinds node operand n left) := by
    induction n generalizing left with
    | zero => exact accounts_stuck
    | succ n ih =>
      refine (accounts_accept _).andThen fun o ho => ?_
      cases o with
      | none => exact accounts_pure hleft
      | some op =>
        exact hoperand.andThen fun right hright => ih (hnode left op right hleft (ho op rfl) hright)
  exact hoperand.andThen fun left hleft => hoperands bound hleft

theorem accounts_disjunction (hnested : AccountsExpr nested) (bound : Nat) :
    AccountsExpr (disjunction nested bound) := by
  have hbinary {kinds : List TokenKind} {operand : Parse (Expr Blank)}
      (hkinds : ∀ k ∈ kinds, k ∈ binaryOperators) (hoperand : AccountsExpr operand) :
      AccountsExpr (leftAssociative kinds .binary bound operand) := by
    refine accounts_leftAssociative ?_ bound hoperand
    exact fun _ _ _ hleft hop hright => ⟨hleft, hkinds _ hop, hright⟩
  have hlogical {kinds : List TokenKind} {operand : Parse (Expr Blank)}
      (hkinds : ∀ k ∈ kinds, k ∈ logicalOperators) (hoperand : AccountsExpr operand) :
      AccountsExpr (leftAssociative kinds .logical bound operand) := by
    refine accounts_leftAssociative ?_ bound hoperand
    exact fun _ _ _ hleft hop hright => ⟨hleft, hkinds _ hop, hright⟩
  refine hlogical (by decide) (hlogical (by decide) ?_)
  refine hbinary (by decide) (hbinary (by decide) ?_)
  exact hbinary (by decide) (hbinary (by decide) (accounts_unary hnested bound bound))

/-- An invalid target stands for the whole, and is well made like any expression. -/
theorem accounts_assignment (hnested : AccountsExpr nested) (bound : Nat) :
    AccountsExpr (assignment nested bound) := by
  refine (accounts_disjunction hnested bound).andThen fun target htarget =>
    (accounts_accept _).andThen fun o _ => ?_
  cases o with
  | none => exact accounts_pure htarget
  | some equals =>
    refine hnested.andThen fun value hvalue => ?_
    cases target with
    | reference r => exact accounts_pure hvalue
    | property object name => exact accounts_pure ⟨htarget, hvalue⟩
    | _ => exact (accounts_complain _ _).andThen fun _ _ => accounts_pure htarget

end Levels

/-- **Expressions** are well made. -/
theorem accounts_expressionAt (n : Nat) : AccountsExpr (expressionAt n) := by
  induction n with
  | zero => exact accounts_stuck
  | succ n ih => exact accounts_assignment ih (n + 1)

/-! ### Statements -/

/-- The statement is well made, and its gaps are paid for. -/
def Paid (s : Stmt Blank) (paid : Nat) : Prop := s.WellMade ∧ s.gaps ≤ paid

/-- The statement can stand by itself: it declares nothing, either. -/
def PaidAlone (s : Stmt Blank) (paid : Nat) : Prop := s.declared? = none ∧ Paid s paid

/-- The statement can stand in a list: it may be a gap, if that is paid for. -/
def PaidInList (s : Stmt Blank) (paid : Nat) : Prop :=
  (s = .malformed ∨ s.WellMade) ∧ s.gaps ≤ paid

/-- The parsers for the parts of a statement account for their gaps. -/
structure Parts.Accounts (p : Parts) : Prop where
  expression : AccountsExpr p.expression
  statement : Parse.Accounts p.statement PaidAlone
  declaration : Parse.Accounts p.declaration PaidInList

theorem accounts_declarations {declaration : Parse (Stmt Blank)}
    (h : Accounts declaration PaidInList) (closing : List TokenKind) (bound : Nat) :
    Accounts (declarations declaration closing bound) fun body paid =>
      Stmt.WellMadeBody body ∧ Stmt.gapsIn body ≤ paid := by
  induction bound with
  | zero => exact accounts_stuck
  | succ bound ih =>
    refine accounts_next?.andThen fun o _ => ?_
    cases o with
    | none => exact accounts_pure ⟨trivial, Nat.le_refl _⟩
    | some t =>
      dsimp only
      split
      · exact accounts_pure ⟨trivial, Nat.le_refl _⟩
      · exact h.bind fun first paid hfirst => ih.bind fun rest more hrest =>
          accounts_pure ⟨⟨hfirst.1, hrest.1⟩, Nat.add_le_add hfirst.2 hrest.2⟩

theorem accounts_parameters (bound count : Nat) :
    AccountsFree (parameters bound count) fun _ => True := by
  induction bound generalizing count with
  | zero => exact accounts_stuck
  | succ bound ih =>
    have hrest := accounts_separated (accounts_expect .identifier .paramName) (ih (count + 1))
      (fun _ _ => trivial) fun _ _ _ _ => trivial
    rw [parameters]
    dsimp only
    split
    · exact accounts_next?.andThen fun _ _ => (accounts_complain _ _).andThen fun _ _ => hrest
    · exact hrest

section Rules

variable {p : Parts}

theorem accounts_blockBody (hp : p.Accounts) :
    Accounts (blockBody p) fun body paid => Stmt.WellMadeBody body ∧ Stmt.gapsIn body ≤ paid :=
  (accounts_declarations hp.declaration _ _).bind fun _ _ hbody =>
    (accounts_expect _ _).andThen fun _ _ => accounts_pure hbody

theorem accounts_routine (hp : p.Accounts) (kind : RoutineKind) :
    Accounts (routine p kind) fun r paid =>
      Stmt.WellMadeRoutine r ∧ Stmt.gapsInRoutine r ≤ paid := by
  refine (accounts_expect _ _).andThen fun name _ => (accounts_expect _ _).andThen fun _ _ =>
    (accounts_nextIs _).andThen fun b _ => ?_
  exact Accounts.ite_andThen (accounts_pure trivial) (accounts_parameters p.bound 0)
    fun params _ => (accounts_expect _ _).andThen fun _ _ => (accounts_expect _ _).andThen
    fun _ _ => (accounts_blockBody hp).bind fun body _ hbody => accounts_pure hbody

theorem accounts_methods (hp : p.Accounts) (bound : Nat) :
    Accounts (methods p bound) fun ms paid =>
      Stmt.WellMadeMethods ms ∧ Stmt.gapsInMethods ms ≤ paid := by
  induction bound with
  | zero => exact accounts_stuck
  | succ bound ih =>
    refine (accounts_nextIs _).andThen fun b _ => accounts_atEnd.andThen fun b' _ => ?_
    split
    · exact accounts_pure ⟨trivial, Nat.le_refl _⟩
    · exact (accounts_routine hp .method).bind fun first paid hfirst =>
        ih.bind fun rest more hrest =>
          accounts_pure ⟨⟨hfirst.1, hrest.1⟩, Nat.add_le_add hfirst.2 hrest.2⟩

theorem accounts_classDeclaration (hp : p.Accounts) : Accounts (classDeclaration p) Paid := by
  refine (accounts_expect _ _).andThen fun name _ => ?_
  -- the rest of the class is the same with and without a superclass
  have hrest (superclass : Option (Reference Blank)) : Accounts (do
      let _ ← expect .leftBrace .classOpen
      let members ← methods p p.bound
      let _ ← expect .rightBrace .classClose
      return Stmt.klass name superclass members) Paid :=
    (accounts_expect _ _).andThen fun _ _ => (accounts_methods hp p.bound).bind
      fun members _ hmembers => (accounts_expect _ _).andThen fun _ _ => accounts_pure hmembers
  refine (accounts_accept _).andThen fun o _ => ?_
  cases o with
  | none => exact hrest none
  | some _ => exact (accounts_expect _ _).andThen fun token _ => hrest (some ⟨token, ()⟩)

/-- An expression that may be missing. -/
theorem accounts_some_expression (hp : p.Accounts) :
    AccountsFree (some <$> p.expression) fun o => ∀ e ∈ o, e.WellMade := by
  refine Accounts.map (hp.expression.mono ?_)
  rintro e _ he _ ⟨⟩
  exact he

theorem accounts_variableDeclaration (hp : p.Accounts) :
    Accounts (variableDeclaration p) Paid := by
  refine (accounts_expect _ _).andThen fun name _ => (accounts_accept _).andThen fun o _ => ?_
  have hrest (initial : Option (Expr Blank)) (hinitial : ∀ e ∈ initial, e.WellMade) :
      Accounts (do
        let _ ← expect .semicolon .declarationEnd
        return Stmt.declare name initial) Paid :=
    (accounts_expect _ _).andThen fun _ _ => accounts_pure ⟨hinitial, Nat.le_refl _⟩
  cases o with
  | none => exact hrest none nofun
  | some _ => exact (accounts_some_expression hp).andThen hrest

theorem accounts_expressionStatement (hp : p.Accounts) :
    Accounts (expressionStatement p) PaidAlone :=
  hp.expression.andThen fun _ hvalue => (accounts_expect _ _).andThen fun _ _ =>
    accounts_pure ⟨rfl, hvalue, Nat.le_refl _⟩

theorem accounts_optionalBefore (hp : p.Accounts) (kind : TokenKind) :
    AccountsFree (optionalBefore p kind) fun o => ∀ e ∈ o, e.WellMade := by
  refine (accounts_nextIs _).andThen fun b _ => ?_
  cases b with
  | true => exact accounts_pure nofun
  | false => exact accounts_some_expression hp

/-- The blocks of a `for` loop hold no gaps but those of its parts. -/
theorem paidAlone_forLoop {initializer : Option (Stmt Blank)}
    {condition increment : Option (Expr Blank)} {body : Stmt Blank} {first paid : Nat}
    (hinitializer : ∀ s ∈ initializer, Paid s first)
    (hcondition : ∀ e ∈ condition, e.WellMade) (hincrement : ∀ e ∈ increment, e.WellMade)
    (hbody : PaidAlone body paid) :
    PaidAlone (forLoop initializer condition increment body) (first + paid) := by
  have htest : (condition.getD (.literal (.bool true))).WellMade := by
    cases condition with
    | none => trivial
    | some e => exact hcondition e rfl
  -- the increment goes with the body
  obtain ⟨round, hround, hdeclares, hwell, hgaps⟩ : ∃ round,
      forLoop initializer condition increment body = forLoop initializer condition none round ∧
        PaidAlone round paid := by
    cases increment with
    | none => exact ⟨body, rfl, hbody⟩
    | some e =>
      exact ⟨.block [body, .expression e], rfl, rfl,
        ⟨.inr hbody.2.1, .inr (hincrement e rfl), trivial⟩, hbody.2.2⟩
  rw [hround]
  cases initializer with
  | none => exact ⟨rfl, ⟨htest, hdeclares, hwell⟩, Nat.le_add_left_of_le hgaps⟩
  | some s =>
    obtain ⟨hs, hfirst⟩ := hinitializer s rfl
    exact ⟨rfl, ⟨.inr hs, .inr ⟨htest, hdeclares, hwell⟩, trivial⟩, Nat.add_le_add hfirst hgaps⟩

theorem accounts_forStatement (hp : p.Accounts) : Accounts (forStatement p) PaidAlone := by
  refine (accounts_expect _ _).andThen fun _ _ => ?_
  have hsome {q : Parse (Stmt Blank)} (hq : Accounts q Paid) :
      Accounts (some <$> q) fun o paid => ∀ s ∈ o, Paid s paid := by
    refine Accounts.map (hq.mono ?_)
    rintro s _ hs _ ⟨⟩
    exact hs
  refine Accounts.bind (P := fun o paid => ∀ s ∈ o, Paid s paid) ?_
    fun initializer first hinitializer => ?_
  · refine accounts_dispatch
      (hsome ((accounts_expressionStatement hp).mono fun _ _ h => h.2)) fun t q hq => ?_
    generalize t.kind = kind at hq
    cases kind
    case semicolon =>
      cases hq
      exact accounts_pure nofun
    case varWord =>
      cases hq
      exact hsome (accounts_variableDeclaration hp)
    all_goals cases hq
  · refine (accounts_optionalBefore hp _).andThen fun condition hcondition => ?_
    refine (accounts_expect _ _).andThen fun _ _ => ?_
    refine (accounts_optionalBefore hp _).andThen fun increment hincrement => ?_
    refine (accounts_expect _ _).andThen fun _ _ => ?_
    exact hp.statement.bind fun body paid hbody =>
      accounts_pure (paidAlone_forLoop hinitializer hcondition hincrement hbody)

theorem accounts_ifStatement (hp : p.Accounts) : Accounts (ifStatement p) PaidAlone := by
  refine (accounts_expect _ _).andThen fun _ _ => ?_
  refine hp.expression.andThen fun condition hcondition => ?_
  refine (accounts_expect _ _).andThen fun _ _ => ?_
  refine hp.statement.bind fun whenTrue paid hwhenTrue => ?_
  obtain ⟨hdeclares, hwell, hgaps⟩ := hwhenTrue
  refine (accounts_accept _).andThen fun o _ => ?_
  cases o with
  | none => exact accounts_pure ⟨rfl, ⟨hcondition, hdeclares, hwell⟩, hgaps⟩
  | some _ =>
    refine Accounts.bind (P := fun o more => ∃ s, o = some s ∧ PaidAlone s more)
      (Accounts.map (hp.statement.mono fun s _ hs => ⟨s, rfl, hs⟩)) ?_
    rintro _ more ⟨whenFalse, rfl, hdeclares', hwell', hgaps'⟩
    exact accounts_pure ⟨rfl, ⟨hcondition, ⟨hdeclares, hwell⟩, hdeclares', hwell'⟩,
      Nat.add_le_add hgaps hgaps'⟩

theorem accounts_whileStatement (hp : p.Accounts) : Accounts (whileStatement p) PaidAlone := by
  refine (accounts_expect _ _).andThen fun _ _ => ?_
  refine hp.expression.andThen fun condition hcondition => ?_
  refine (accounts_expect _ _).andThen fun _ _ => ?_
  exact hp.statement.bind fun body paid ⟨hdeclares, hwell, hgaps⟩ =>
    accounts_pure ⟨rfl, ⟨hcondition, hdeclares, hwell⟩, hgaps⟩

/-- No statement but a declaration declares anything, so that branches and loop bodies do not. -/
theorem accounts_statement (hp : p.Accounts) : Accounts (statement p) PaidAlone := by
  refine accounts_dispatch (accounts_expressionStatement hp) fun t q hq => ?_
  generalize t.kind = kind at hq
  cases kind
  all_goals cases hq
  case forWord => exact accounts_forStatement hp
  case ifWord => exact accounts_ifStatement hp
  case printWord =>
    exact hp.expression.andThen fun _ hvalue => (accounts_expect _ _).andThen fun _ _ =>
      accounts_pure ⟨rfl, hvalue, Nat.le_refl _⟩
  case returnWord =>
    exact (accounts_optionalBefore hp _).andThen fun value hvalue =>
      (accounts_expect _ _).andThen fun _ _ => accounts_pure ⟨rfl, hvalue, Nat.le_refl _⟩
  case whileWord => exact accounts_whileStatement hp
  case leftBrace => exact Accounts.map ((accounts_blockBody hp).mono fun _ _ h => ⟨rfl, h⟩)

/-- Only here do gaps come from, and each has just been paid for. -/
theorem accounts_declaration (hp : p.Accounts) : Accounts (declaration p) PaidInList := by
  refine accounts_recover (Accounts.mono (P := Paid) ?_ fun _ _ h => ⟨.inr h.1, h.2⟩)
    ⟨.inl rfl, Nat.le_refl _⟩
  refine accounts_dispatch ((accounts_statement hp).mono fun _ _ h => h.2) fun t q hq => ?_
  generalize t.kind = kind at hq
  cases kind
  all_goals cases hq
  case classWord => exact accounts_classDeclaration hp
  case funWord => exact Accounts.map (accounts_routine hp .function)
  case varWord => exact accounts_variableDeclaration hp

end Rules

/-- **Statements and declarations** account for their gaps. -/
theorem accounts_statementAt_declarationAt (n : Nat) :
    Accounts (statementAt n) PaidAlone ∧ Accounts (declarationAt n) PaidInList := by
  induction n with
  | zero => exact ⟨accounts_stuck, accounts_stuck⟩
  | succ n ih =>
    have hp : Parts.Accounts ⟨expressionAt (n + 1), statementAt n, declarationAt n, n + 1⟩ :=
      ⟨accounts_expressionAt (n + 1), ih.1, ih.2⟩
    exact ⟨accounts_statement hp, accounts_declaration hp⟩

end Parse

/-! ### Programs -/

/-- What is parsed is well made, and there is a mistake for every gap in it. -/
theorem wellMadeBody_and_gapsIn_statements (tokens : List Token) :
    Stmt.WellMadeBody (parse tokens).statements ∧
      Stmt.gapsIn (parse tokens).statements ≤ (parse tokens).mistakes.length := by
  have h := Parse.accounts_declarations
    (Parse.accounts_statementAt_declarationAt (tokens.length + 1)).2 [] (tokens.length + 1)
    ⟨tokens, []⟩
  rw [parse, Parse.program]
  generalize Parse.declarations _ _ _ _ = r at h
  cases r with
  | ok statements s =>
    obtain ⟨paid, ⟨hwell, hgaps⟩, hle⟩ := h
    rw [List.length_nil, Nat.zero_add] at hle
    exact ⟨hwell, Nat.le_trans hgaps hle⟩
  | error halt s => exact ⟨trivial, Nat.zero_le _⟩

/-- **What is parsed is well made**, whatever mistakes there are. -/
theorem wellMadeBody_statements (tokens : List Token) :
    Stmt.WellMadeBody (parse tokens).statements :=
  (wellMadeBody_and_gapsIn_statements tokens).1

/-- **There is a mistake for every gap.** -/
theorem gapsIn_statements_le (tokens : List Token) :
    Stmt.gapsIn (parse tokens).statements ≤ (parse tokens).mistakes.length :=
  (wellMadeBody_and_gapsIn_statements tokens).2

end LoxInterpreter
