import LoxInterpreter.Proofs.Grammar.Exactness
import LoxInterpreter.Proofs.Grammar.Forecast

/-!
# Where parsers lay the blame

A parser that unwinds has just blamed the token that it stands at, whatever it has read before and
however deep it is in a declaration; and all that it ever blames are tokens that it was given, or
the end of the text.

`BlamesNext T p` says so of a parser that is given tokens with the property `T`. It has a rule for
each step of a parser and composes along `>>=`, and every parser of the grammar is like this
(`blamesNext_statementAt_declarationAt`). Hence all mistakes are blamed on tokens of the text
(`mem_of_mem_mistakes_parse`).
-/

namespace LoxInterpreter

/-- Where a parser gets to by dropping tokens and by writing down mistakes that are blamed on tokens
with the property. -/
structure Cursor.Reaches (T : Token → Prop) (s s' : Cursor) : Prop where
  rest : s'.rest <:+ s.rest
  mistakes : ∃ new, s'.mistakes = s.mistakes ++ new ∧ ∀ m ∈ new, ∀ t ∈ m.token, T t

/-- The mistake written down that is blamed on the next token. -/
def Cursor.blame (s : Cursor) (cause : SyntaxError) : Cursor :=
  { s with mistakes := s.mistakes ++ [⟨s.rest.head?, cause⟩] }

namespace Cursor.Reaches

variable {T : Token → Prop} {s s' s'' : Cursor}

protected theorem refl (s : Cursor) : s.Reaches T s :=
  ⟨List.suffix_rfl, [], (List.append_nil _).symm, List.forall_mem_nil _⟩

protected theorem trans (h : s.Reaches T s') (h' : s'.Reaches T s'') : s.Reaches T s'' := by
  obtain ⟨new, hnew, hT⟩ := h.mistakes
  obtain ⟨more, hmore, hT'⟩ := h'.mistakes
  refine ⟨h'.rest.trans h.rest, new ++ more, ?_, List.forall_mem_append.mpr ⟨hT, hT'⟩⟩
  rw [hmore, hnew, List.append_assoc]

theorem forall_rest (h : s.Reaches T s') (hs : ∀ t ∈ s.rest, T t) : ∀ t ∈ s'.rest, T t :=
  fun t ht => hs t (h.rest.subset ht)

theorem of_suffix {rest : List Token} (h : rest <:+ s.rest) : s.Reaches T { s with rest } :=
  ⟨h, [], (List.append_nil _).symm, List.forall_mem_nil _⟩

theorem complain (s : Cursor) {token : Option Token} (h : ∀ t ∈ token, T t)
    (cause : SyntaxError) :
    s.Reaches T { s with mistakes := s.mistakes ++ [⟨token, cause⟩] } :=
  ⟨List.suffix_rfl, _, rfl, List.forall_mem_singleton.mpr h⟩

end Cursor.Reaches

namespace Parse

variable {α β : Type} {T : Token → Prop} {p : Parse α} {f : α → Parse β}

/-- What a parser may come to that blames the next token when it unwinds. -/
def BlamedNext (T : Token → Prop) (s : Cursor) : EStateM.Result Halt Cursor α → Prop
  | .ok _ s' => s.Reaches T s'
  | .error .unwound s' =>
    ∃ s₁ cause, s.Reaches T s₁ ∧ cause.unwinds = true ∧ s' = s₁.blame cause
  | .error .stuck s' => s.Reaches T s'

/-- From tokens with the property the parser goes on by dropping some and blaming some, and if it
unwinds it has just blamed the next. -/
def BlamesNext (T : Token → Prop) (p : Parse α) : Prop :=
  ∀ s : Cursor, (∀ t ∈ s.rest, T t) → BlamedNext T s (p s)

/-! ### Steps of a parser -/

/-- What has been reached from a later place has been reached. -/
theorem BlamedNext.of_reaches {s s' : Cursor} {r : EStateM.Result Halt Cursor α}
    (hs : s.Reaches T s') (h : BlamedNext T s' r) : BlamedNext T s r := by
  cases r with
  | ok a s'' => exact hs.trans h
  | error halt s'' =>
    cases halt with
    | stuck => exact hs.trans h
    | unwound =>
      obtain ⟨s₁, cause, hs₁, hcause, heq⟩ := h
      exact ⟨s₁, cause, hs.trans hs₁, hcause, heq⟩

namespace BlamesNext

protected theorem pure (a : α) : BlamesNext T (pure a) := fun s _ => .refl s

theorem stuck : BlamesNext T (throw .stuck : Parse α) := fun s _ => .refl s

protected theorem bind (hp : BlamesNext T p) (hf : ∀ a, BlamesNext T (f a)) :
    BlamesNext T (p >>= f) := by
  intro s hs
  have h := hp s hs
  show BlamedNext T s (EStateM.bind p f s)
  rw [EStateM.bind]
  cases hres : p s with
  | ok a s' =>
    rw [hres] at h
    exact (hf a s' (h.forall_rest hs)).of_reaches h
  | error halt s' =>
    rw [hres] at h
    cases halt <;> exact h

protected theorem map {g : α → β} (hp : BlamesNext T p) : BlamesNext T (g <$> p) := by
  rw [← bind_pure_comp]
  exact hp.bind fun a => .pure (g a)

/-- A choice with something behind it. -/
theorem ite_bind {b : Bool} {q : Parse α} (hp : BlamesNext T p) (hq : BlamesNext T q)
    (hf : ∀ a, BlamesNext T (f a)) : BlamesNext T (if b then p >>= f else q >>= f) := by
  cases b with
  | true => exact hp.bind hf
  | false => exact hq.bind hf

end BlamesNext

theorem blamesNext_nextIs (kind : TokenKind) : BlamesNext T (nextIs kind) := fun s _ => .refl s

theorem blamesNext_atEnd : BlamesNext T atEnd := fun s _ => .refl s

/-- A look at the next token shows one of those that are left. -/
theorem blamesNext_next?_bind {f : Option Token → Parse β}
    (hf : ∀ o, (∀ t ∈ o, T t) → BlamesNext T (f o)) : BlamesNext T (next? >>= f) :=
  fun s hs => hf s.rest.head? (fun t ht => hs t (List.mem_of_mem_head? ht)) s hs

theorem blamesNext_complain {token : Option Token} (h : ∀ t ∈ token, T t) (cause : SyntaxError) :
    BlamesNext T (complain token cause) :=
  fun s _ => .complain s h cause

theorem blamesNext_fail {cause : SyntaxError} (hcause : cause.unwinds = true) :
    BlamesNext T (fail cause : Parse α) :=
  fun s _ => ⟨s, cause, .refl s, hcause, rfl⟩

theorem blamesNext_dispatch {otherwise : Parse α} {table : Token → Option (Parse α)}
    (hother : BlamesNext T otherwise)
    (htable : ∀ t q, T t → table t = some q → BlamesNext T q) :
    BlamesNext T (dispatch otherwise table) := by
  intro s hs
  rw [dispatch]
  split
  · exact hother s hs
  · next t rest hrest =>
    rw [hrest] at hs
    obtain ⟨ht, hrest'⟩ := List.forall_mem_cons.mp hs
    split
    · next q hq =>
      exact (htable t q ht hq _ hrest').of_reaches (.of_suffix (hrest ▸ List.suffix_cons t rest))
    · exact hother s (hrest ▸ hs)

/-- A token that is accepted is one of those that were left. -/
theorem blamesNext_accept_bind {kinds : List TokenKind} {f : Option Token → Parse β}
    (hf : ∀ o, (∀ t ∈ o, T t) → BlamesNext T (f o)) : BlamesNext T (accept kinds >>= f) := by
  have haccept : accept kinds >>= f =
      dispatch (f none) fun t => if t.kind ∈ kinds then some (f (some t)) else none := by
    funext s
    show EStateM.bind (accept kinds) f s = _
    rw [EStateM.bind, accept, dispatch, dispatch]
    cases s.rest with
    | nil => rfl
    | cons t rest =>
      dsimp only
      by_cases hk : t.kind ∈ kinds
      · rw [if_pos hk, if_pos hk]
        rfl
      · rw [if_neg hk, if_neg hk]
        rfl
  rw [haccept]
  have hnone : ∀ t ∈ (none : Option Token), T t := fun _ h => absurd h (Option.not_mem_none _)
  refine blamesNext_dispatch (hf none hnone) fun t q ht hq => ?_
  split at hq
  · cases hq
    exact hf (some t) fun _ hu => Option.mem_some.mp hu ▸ ht
  · cases hq

theorem blamesNext_expect {kind : TokenKind} {cause : SyntaxError}
    (hcause : cause.unwinds = true) : BlamesNext T (expect kind cause) := by
  refine blamesNext_dispatch (blamesNext_fail hcause) fun t q _ hq => ?_
  split at hq
  · cases hq
    exact .pure _
  · cases hq

/-- Tokens are dropped on the way to where parsing goes on. -/
theorem resume_suffix (tokens : List Token) : resume tokens <:+ tokens := by
  cases tokens with
  | nil => exact List.suffix_rfl
  | cons t rest => exact (resume_cons_suffix t rest).trans (List.suffix_cons t rest)

/-- Recovery never unwinds. -/
theorem blamesNext_recover {p : Parse (Stmt Blank)} (hp : BlamesNext T p) :
    BlamesNext T (recover p) := by
  intro s hs
  have h := hp s hs
  rw [recover]
  split
  · next s' hres =>
    rw [hres] at h
    obtain ⟨s₁, cause, hs₁, -, rfl⟩ := h
    have hnext : ∀ t ∈ s₁.rest.head?, T t :=
      fun t ht => hs₁.forall_rest hs t (List.mem_of_mem_head? ht)
    exact (hs₁.trans (.complain s₁ hnext cause)).trans (.of_suffix (resume_suffix s₁.rest))
  · exact h

/-- A phrase, and others behind a comma. -/
theorem blamesNext_separated {item : Parse α} {more : Parse (List α)} (hitem : BlamesNext T item)
    (hmore : BlamesNext T more) :
    BlamesNext T (do
      let a ← item
      match ← accept [.comma] with
      | some _ => return a :: (← more)
      | none => return [a]) := by
  refine hitem.bind fun a => blamesNext_accept_bind fun o _ => ?_
  cases o with
  | none => exact .pure _
  | some _ => exact hmore.bind fun as => .pure _

/-! ### Expressions -/

section Levels

variable {nested operand : Parse (Expr Blank)}

theorem blamesNext_arguments (hnested : BlamesNext T nested) (bound count : Nat) :
    BlamesNext T (arguments nested bound count) := by
  induction bound generalizing count with
  | zero => exact .stuck
  | succ bound ih =>
    have hrest := blamesNext_separated hnested (ih (count + 1))
    rw [arguments]
    dsimp only
    split
    · exact blamesNext_next?_bind fun _ ho => (blamesNext_complain ho _).bind fun _ => hrest
    · exact hrest

theorem blamesNext_primary (hnested : BlamesNext T nested) : BlamesNext T (primary nested) := by
  refine blamesNext_dispatch (blamesNext_fail rfl) fun t q _ hq => ?_
  split at hq
  all_goals cases hq
  · exact .pure _
  · exact .pure _
  · exact .pure _
  · exact .pure _
  · exact .pure _
  · exact (blamesNext_expect rfl).bind fun _ => (blamesNext_expect rfl).bind fun _ => .pure _
  · exact .pure _
  · exact .pure _
  · exact hnested.bind fun _ => (blamesNext_expect rfl).bind fun _ => .pure _

theorem blamesNext_postfixes (hnested : BlamesNext T nested) (bound : Nat) (callee : Expr Blank) :
    BlamesNext T (postfixes nested bound callee) := by
  induction bound generalizing callee with
  | zero => exact .stuck
  | succ bound ih =>
    refine blamesNext_accept_bind fun o ho => ?_
    cases o with
    | none => exact .pure callee
    | some t =>
      dsimp only
      split
      · refine (blamesNext_nextIs _).bind fun b => ?_
        exact .ite_bind (.pure []) (blamesNext_arguments hnested (bound + 1) 0) fun values =>
          (blamesNext_expect rfl).bind fun _ => ih _
      · exact (blamesNext_expect rfl).bind fun _ => ih _

theorem blamesNext_unary (hnested : BlamesNext T nested) (bound more : Nat) :
    BlamesNext T (unary nested bound more) := by
  induction more with
  | zero => exact .stuck
  | succ more ih =>
    refine blamesNext_accept_bind fun o ho => ?_
    cases o with
    | none =>
      exact (blamesNext_primary hnested).bind fun callee =>
        blamesNext_postfixes hnested bound callee
    | some op => exact ih.bind fun _ => .pure _

theorem blamesNext_operands (kinds : List TokenKind)
    (node : Expr Blank → Token → Expr Blank → Expr Blank) (hoperand : BlamesNext T operand)
    (bound : Nat) (left : Expr Blank) : BlamesNext T (operands kinds node operand bound left) := by
  induction bound generalizing left with
  | zero => exact .stuck
  | succ bound ih =>
    refine blamesNext_accept_bind fun o ho => ?_
    cases o with
    | none => exact .pure left
    | some op => exact hoperand.bind fun right => ih _

theorem blamesNext_leftAssociative (kinds : List TokenKind)
    (node : Expr Blank → Token → Expr Blank → Expr Blank) (bound : Nat)
    (hoperand : BlamesNext T operand) : BlamesNext T (leftAssociative kinds node bound operand) :=
  hoperand.bind fun left => blamesNext_operands kinds node hoperand bound left

theorem blamesNext_disjunction (hnested : BlamesNext T nested) (bound : Nat) :
    BlamesNext T (disjunction nested bound) := by
  refine blamesNext_leftAssociative _ _ bound ?_
  refine blamesNext_leftAssociative _ _ bound ?_
  refine blamesNext_leftAssociative _ _ bound ?_
  refine blamesNext_leftAssociative _ _ bound ?_
  refine blamesNext_leftAssociative _ _ bound ?_
  exact blamesNext_leftAssociative _ _ bound (blamesNext_unary hnested bound bound)

theorem blamesNext_assignment (hnested : BlamesNext T nested) (bound : Nat) :
    BlamesNext T (assignment nested bound) := by
  refine (blamesNext_disjunction hnested bound).bind fun target =>
    blamesNext_accept_bind fun o ho => ?_
  cases o with
  | none => exact .pure target
  | some equals =>
    refine hnested.bind fun value => ?_
    cases target with
    | reference r => exact .pure _
    | property object name => exact .pure _
    | _ => exact (blamesNext_complain ho _).bind fun _ => .pure _

end Levels

theorem blamesNext_expressionAt (n : Nat) : BlamesNext T (expressionAt n) := by
  induction n with
  | zero => exact .stuck
  | succ n ih => exact blamesNext_assignment ih (n + 1)

/-! ### Statements -/

/-- The parsers for the parts of a statement blame the next token when they unwind. -/
structure Parts.BlameNext (T : Token → Prop) (p : Parts) : Prop where
  expression : BlamesNext T p.expression
  statement : BlamesNext T p.statement
  declaration : BlamesNext T p.declaration

theorem blamesNext_declarations {declaration : Parse (Stmt Blank)} (h : BlamesNext T declaration)
    (closing : List TokenKind) (bound : Nat) :
    BlamesNext T (declarations declaration closing bound) := by
  induction bound with
  | zero => exact .stuck
  | succ bound ih =>
    refine blamesNext_next?_bind fun o _ => ?_
    cases o with
    | none => exact .pure _
    | some t =>
      dsimp only
      split
      · exact .pure _
      · exact h.bind fun _ => ih.bind fun _ => .pure _

theorem blamesNext_parameters (bound count : Nat) : BlamesNext T (parameters bound count) := by
  induction bound generalizing count with
  | zero => exact .stuck
  | succ bound ih =>
    have hname : BlamesNext T (expect .identifier .paramName) := blamesNext_expect rfl
    have hrest := blamesNext_separated hname (ih (count + 1))
    rw [parameters]
    dsimp only
    split
    · exact blamesNext_next?_bind fun _ ho => (blamesNext_complain ho _).bind fun _ => hrest
    · exact hrest

section Rules

variable {p : Parts}

theorem blamesNext_blockBody (hp : p.BlameNext T) : BlamesNext T (blockBody p) :=
  (blamesNext_declarations hp.declaration _ _).bind fun _ =>
    (blamesNext_expect rfl).bind fun _ => .pure _

theorem blamesNext_routine (hp : p.BlameNext T) (kind : RoutineKind) :
    BlamesNext T (routine p kind) := by
  refine (blamesNext_expect rfl).bind fun name => (blamesNext_expect rfl).bind fun _ =>
    (blamesNext_nextIs _).bind fun b => ?_
  exact .ite_bind (.pure []) (blamesNext_parameters p.bound 0) fun params =>
    (blamesNext_expect rfl).bind fun _ => (blamesNext_expect rfl).bind fun _ =>
      (blamesNext_blockBody hp).bind fun _ => .pure _

theorem blamesNext_methods (hp : p.BlameNext T) (bound : Nat) : BlamesNext T (methods p bound) := by
  induction bound with
  | zero => exact .stuck
  | succ bound ih =>
    refine (blamesNext_nextIs _).bind fun b => blamesNext_atEnd.bind fun b' => ?_
    split
    · exact .pure _
    · exact (blamesNext_routine hp .method).bind fun _ => ih.bind fun _ => .pure _

theorem blamesNext_classDeclaration (hp : p.BlameNext T) : BlamesNext T (classDeclaration p) := by
  refine (blamesNext_expect rfl).bind fun name => blamesNext_accept_bind fun o ho => ?_
  -- the rest of the class is the same with and without a superclass
  have hrest (superclass : Option (Reference Blank)) : BlamesNext T (do
      let _ ← expect .leftBrace .classOpen
      let members ← methods p p.bound
      let _ ← expect .rightBrace .classClose
      return Stmt.klass name superclass members) :=
    (blamesNext_expect rfl).bind fun _ => (blamesNext_methods hp p.bound).bind fun _ =>
      (blamesNext_expect rfl).bind fun _ => .pure _
  cases o with
  | none => exact hrest none
  | some _ => exact (blamesNext_expect rfl).bind fun token => hrest (some ⟨token, ()⟩)

theorem blamesNext_variableDeclaration (hp : p.BlameNext T) :
    BlamesNext T (variableDeclaration p) := by
  refine (blamesNext_expect rfl).bind fun name => blamesNext_accept_bind fun o ho => ?_
  have hrest (initial : Option (Expr Blank)) : BlamesNext T (do
      let _ ← expect .semicolon .declarationEnd
      return Stmt.declare name initial) :=
    (blamesNext_expect rfl).bind fun _ => .pure _
  cases o with
  | none => exact hrest none
  | some _ => exact hp.expression.map.bind hrest

theorem blamesNext_expressionStatement (hp : p.BlameNext T) :
    BlamesNext T (expressionStatement p) :=
  hp.expression.bind fun _ => (blamesNext_expect rfl).bind fun _ => .pure _

theorem blamesNext_optionalBefore (hp : p.BlameNext T) (kind : TokenKind) :
    BlamesNext T (optionalBefore p kind) := by
  refine (blamesNext_nextIs _).bind fun b => ?_
  cases b with
  | true => exact .pure none
  | false => exact hp.expression.map

theorem blamesNext_forStatement (hp : p.BlameNext T) : BlamesNext T (forStatement p) := by
  refine (blamesNext_expect rfl).bind fun _ => ?_
  refine BlamesNext.bind ?_ fun initializer => ?_
  · refine blamesNext_dispatch (blamesNext_expressionStatement hp).map fun t q _ hq => ?_
    split at hq
    all_goals cases hq
    · exact .pure none
    · exact (blamesNext_variableDeclaration hp).map
  · refine (blamesNext_optionalBefore hp _).bind fun condition => ?_
    refine (blamesNext_expect rfl).bind fun _ => ?_
    refine (blamesNext_optionalBefore hp _).bind fun increment => ?_
    exact (blamesNext_expect rfl).bind fun _ => hp.statement.bind fun body => .pure _

theorem blamesNext_ifStatement (hp : p.BlameNext T) : BlamesNext T (ifStatement p) := by
  refine (blamesNext_expect rfl).bind fun _ => hp.expression.bind fun condition => ?_
  refine (blamesNext_expect rfl).bind fun _ => hp.statement.bind fun whenTrue => ?_
  refine blamesNext_accept_bind fun o ho => ?_
  cases o with
  | none => exact .pure _
  | some _ => exact hp.statement.map.bind fun _ => .pure _

theorem blamesNext_statement (hp : p.BlameNext T) : BlamesNext T (statement p) := by
  refine blamesNext_dispatch (blamesNext_expressionStatement hp) fun t q _ hq => ?_
  split at hq
  all_goals cases hq
  · exact blamesNext_forStatement hp
  · exact blamesNext_ifStatement hp
  · exact hp.expression.bind fun _ => (blamesNext_expect rfl).bind fun _ => .pure _
  · exact (blamesNext_optionalBefore hp _).bind fun _ =>
      (blamesNext_expect rfl).bind fun _ => .pure _
  · exact (blamesNext_expect rfl).bind fun _ => hp.expression.bind fun _ =>
      (blamesNext_expect rfl).bind fun _ => hp.statement.bind fun _ => .pure _
  · exact (blamesNext_blockBody hp).map

/-- A declaration as it is read before anybody recovers from its mistakes. -/
def unguarded (p : Parts) : Parse (Stmt Blank) :=
  dispatch (statement p) fun t =>
    if t.kind = .classWord then some (classDeclaration p)
    else if t.kind = .funWord then some (Stmt.function <$> routine p .function)
    else if t.kind = .varWord then some (variableDeclaration p)
    else none

/-- Nothing but recovery is around it. -/
theorem declaration_eq_recover (p : Parts) : declaration p = recover (unguarded p) := by
  rw [declaration, unguarded]
  congr
  funext t
  cases t.kind <;> rfl

theorem blamesNext_unguarded (hp : p.BlameNext T) : BlamesNext T (unguarded p) := by
  refine blamesNext_dispatch (blamesNext_statement hp) fun t q _ hq => ?_
  split at hq
  · cases hq
    exact blamesNext_classDeclaration hp
  · split at hq
    · cases hq
      exact (blamesNext_routine hp .function).map
    · split at hq
      · cases hq
        exact blamesNext_variableDeclaration hp
      · cases hq

end Rules

/-- **Statements and declarations** blame the next token when they unwind. -/
theorem blamesNext_statementAt_declarationAt (n : Nat) :
    BlamesNext T (statementAt n) ∧ BlamesNext T (declarationAt n) := by
  induction n with
  | zero => exact ⟨.stuck, .stuck⟩
  | succ n ih =>
    have hp : (partsAt n).BlameNext T := ⟨blamesNext_expressionAt (n + 1), ih.1, ih.2⟩
    refine ⟨blamesNext_statement hp, ?_⟩
    have hdeclaration := blamesNext_recover (blamesNext_unguarded hp)
    rw [← declaration_eq_recover] at hdeclaration
    exact hdeclaration

theorem blameNext_partsAt (n : Nat) : (partsAt n).BlameNext T :=
  have h := blamesNext_statementAt_declarationAt n
  ⟨blamesNext_expressionAt (n + 1), h.1, h.2⟩

end Parse

/-- **All mistakes are blamed on tokens of the text**, or on the end of it. -/
theorem mem_of_mem_mistakes_parse {tokens : List Token} {m : SyntaxMistake}
    (hm : m ∈ (parse tokens).mistakes) : ∀ t ∈ m.token, t ∈ tokens := by
  have h := Parse.blamesNext_declarations (T := (· ∈ tokens))
    (Parse.blamesNext_statementAt_declarationAt (tokens.length + 1)).2 [] (tokens.length + 1)
    ⟨tokens, []⟩ fun _ => id
  have hreaches {s : Cursor} (hs : Cursor.Reaches (· ∈ tokens) ⟨tokens, []⟩ s) :
      ∀ m ∈ s.mistakes, ∀ t ∈ m.token, t ∈ tokens := by
    obtain ⟨new, hnew, hT⟩ := hs.mistakes
    rw [hnew]
    exact hT
  rw [parse, Parse.program] at hm
  split at hm
  · next statements s hres =>
    rw [hres] at h
    exact hreaches h m hm
  · next halt s hres =>
    rw [hres] at h
    cases halt with
    | stuck => exact hreaches h m hm
    | unwound =>
      obtain ⟨s₁, cause, hs₁, -, rfl⟩ := h
      have hnext : ∀ t ∈ s₁.rest.head?, t ∈ tokens :=
        fun t ht => hs₁.rest.subset (List.mem_of_mem_head? ht)
      exact hreaches (hs₁.trans (.complain s₁ hnext cause)) m hm

end LoxInterpreter
