import LoxInterpreter.Proofs.Grammar.Soundness
import LoxInterpreter.Proofs.Grammar.Completeness

/-!
# The parser accepts its grammar and nothing else

What is known of expressions is carried to statements here: a parser of statements finds every
statement whose end is not taken for the beginning of an `else`. Together with soundness this makes
the parser a decision procedure for the grammar (`parse_exact`).

* No statement begins with a token that ends a block, or with `else` (`Statement.head`,
  `Declaration.head`). This is why a list of declarations has one way to end.
* An `else` is looked for behind every statement after `if`. It is there exactly if the derivation
  has one, because a statement before it is closed and what comes after a dangling one is no `else`.
-/

namespace LoxInterpreter

open Grammar

/-! ### What statements begin with -/

namespace Grammar

/-- The kinds of token that an expression can begin with. -/
def expressionStarters : List TokenKind :=
  .bang :: .minus :: operandStarters

/-- The kinds of token that a statement can begin with. -/
def statementStarters : List TokenKind :=
  [.forWord, .ifWord, .printWord, .returnWord, .whileWord, .leftBrace] ++ expressionStarters

/-- The kinds of token that a declaration can begin with. -/
def declarationStarters : List TokenKind :=
  [.classWord, .funWord, .varWord] ++ statementStarters

theorem Statement.head {tail : Tail} {ts : List Token} {s : Stmt Blank} (h : Statement tail ts s) :
    ∃ t us, ts = t :: us ∧ t.kind ∈ statementStarters := by
  cases h with
  | expression h =>
    obtain ⟨t, us, rfl, ht⟩ := h.head_mem
    exact ⟨t, _, rfl, List.mem_append_right _ ht⟩
  | print hw => exact ⟨_, _, rfl, by rw [hw]; decide⟩
  | giveBack hw => exact ⟨_, _, rfl, by rw [hw]; decide⟩
  | block ho => exact ⟨_, _, rfl, by rw [ho]; decide⟩
  | ifThen hw => exact ⟨_, _, rfl, by rw [hw]; decide⟩
  | ifElse hw => exact ⟨_, _, rfl, by rw [hw]; decide⟩
  | loop hw => exact ⟨_, _, rfl, by rw [hw]; decide⟩
  | forLoop hw => exact ⟨_, _, rfl, by rw [hw]; decide⟩

theorem Declaration.head {ts : List Token} {s : Stmt Blank} (h : Declaration ts s) :
    ∃ t us, ts = t :: us ∧ t.kind ∈ declarationStarters := by
  cases h with
  | statement h =>
    obtain ⟨t, us, rfl, ht⟩ := h.head
    exact ⟨t, us, rfl, List.mem_append_right _ ht⟩
  | declare hw => exact ⟨_, _, rfl, by rw [hw]; decide⟩
  | function hw => exact ⟨_, _, rfl, by rw [hw]; decide⟩
  | klass hw => exact ⟨_, _, rfl, by rw [hw]; decide⟩

theorem Routined.head {ts : List Token} {r : Routine Blank} (h : Routined ts r) :
    ∃ t us, ts = t :: us ∧ t.kind = .identifier := by
  cases h with
  | mk hn => exact ⟨_, _, rfl, hn⟩

end Grammar

namespace Parse

/-- The parsers that a parser of statements with the bound `n + 1` has for its parts. -/
def partsAt (n : Nat) : Parts :=
  ⟨expressionAt (n + 1), statementAt n, declarationAt n, n + 1⟩

/-- No `else` comes next. -/
def NoElse (rest : List Token) : Prop :=
  ∀ t ∈ rest.head?, t.kind ≠ .elseWord

/-- What the parser of statements owes to a statement. -/
def StatementFound (tail : Tail) (ts : List Token) (s : Stmt Blank) : Prop :=
  ∀ n rest, (ts ++ rest).length < n → (tail = .dangling → NoElse rest) →
    Yields (statementAt n) ts s rest

/-- What the parser of declarations owes to a declaration. -/
def DeclarationFound (ts : List Token) (s : Stmt Blank) : Prop :=
  ∀ n rest, (ts ++ rest).length < n → NoElse rest → Yields (declarationAt n) ts s rest

/-- What the parser of routines owes to a routine. -/
def RoutineFound (ts : List Token) (r : Routine Blank) : Prop :=
  ∀ n kind rest, (ts ++ rest).length < n + 1 → Yields (routine (partsAt n) kind) ts r rest

variable {n : Nat} {ts us vs rest : List Token} {e : Expr Blank} {s : Stmt Blank}

/-! ### Lists of names and of declarations -/

/-- Up to the limit a parameter is read, and others behind a comma. -/
theorem parameters_eq {bound count : Nat} (hcount : count < 255) :
    parameters (bound + 1) count = (do
      let param ← expect .identifier .paramName
      match ← accept [.comma] with
      | some _ => return param :: (← parameters bound (count + 1))
      | none => return [param]) := by
  have hno : ¬maxArguments ≤ count := Nat.not_le_of_lt hcount
  rw [parameters]
  dsimp only
  exact if_neg hno

theorem yields_parameters {params : List Token} {closing : Token} (h : Separated Name us params)
    (hc : closing.kind = .rightParen) :
    ∀ bound count, us.length < bound → count + params.length ≤ 255 →
      Yields (parameters bound count) us params (closing :: rest) := by
  induction h with
  | last hname =>
    intro bound count hb hcount
    obtain ⟨bound, rfl⟩ : ∃ b, bound = b + 1 := ⟨bound - 1, by omega⟩
    cases hname with
    | mk hk =>
      rw [parameters_eq (Nat.lt_of_succ_le hcount)]
      exact yields_expect_bind hk (yields_accept_bind_none (by simp [hc]) yields_pure)
  | @cons ts us comma a as hname hcomma hus ih =>
    intro bound count hb hcount
    simp only [List.length_append, List.length_cons] at hb hcount
    obtain ⟨bound, rfl⟩ : ∃ b, bound = b + 1 := ⟨bound - 1, by omega⟩
    cases hname with
    | mk hk =>
      rw [parameters_eq (by omega)]
      refine yields_expect_bind hk (yields_accept_bind_some (by simp [hcomma]) ?_)
      exact (ih bound (count + 1) (by omega) (by omega)).finish yields_pure

/-- Declarations end where a token that closes them comes next, or nothing does. -/
theorem yields_declarations {closing : List TokenKind} {body : List (Stmt Blank)}
    (h : Sequence (fun ts s => Declaration ts s ∧ DeclarationFound ts s) ts body)
    (hclosing : closing ⊆ [.rightBrace]) (hrest : ∀ t ∈ rest.head?, t.kind ∈ closing) :
    ∀ bound, ts.length < bound → (ts ++ rest).length < n →
      Yields (declarations (declarationAt n) closing bound) ts body rest := by
  induction h with
  | nil =>
    intro bound hb _ mistakes
    obtain ⟨bound, rfl⟩ : ∃ b, bound = b + 1 := ⟨bound - 1, by omega⟩
    rw [declarations]
    cases rest with
    | nil => rfl
    | cons t rest =>
      show (if t.kind ∈ closing then pure [] else _ : Parse (List (Stmt Blank))) _ = _
      rw [if_pos (hrest t rfl)]
      rfl
  | @cons ts us s body hts hus ih =>
    intro bound hb hlen
    obtain ⟨hts, hfound⟩ := hts
    obtain ⟨t, r, rfl, ht⟩ := hts.head
    simp only [List.length_append, List.length_cons] at hb hlen
    obtain ⟨bound, rfl⟩ : ∃ b, bound = b + 1 := ⟨bound - 1, by omega⟩
    -- no declaration begins with what closes the list
    have hgo : t.kind ∉ closing := by
      intro hk
      rw [List.mem_singleton.mp (hclosing hk)] at ht
      exact absurd ht (by decide)
    -- what follows the first declaration is the next one or the end
    have hnoElse : NoElse (us ++ rest) := by
      intro t ht hk
      cases hus with
      | nil =>
        have := hclosing (hrest t ht)
        rw [hk] at this
        exact absurd this (by decide)
      | cons hnext _ =>
        obtain ⟨t', r', rfl, ht'⟩ := hnext.1.head
        cases ht
        rw [hk] at ht'
        exact absurd ht' (by decide)
    have hfirst := hfound n (us ++ rest)
      (by simp only [List.length_append, List.length_cons]; omega) hnoElse
    have hothers := (ih bound (by omega) (by simp only [List.length_append]; omega)).finish
      (f := fun others => pure (s :: others)) yields_pure
    intro mistakes
    rw [declarations]
    show (if t.kind ∈ closing then pure [] else _ : Parse (List (Stmt Blank))) _ = _
    rw [if_neg hgo]
    exact hfirst.bind hothers mistakes

/-- The statements of a block with the brace that closes it. -/
theorem yields_blockBody {body : List (Stmt Blank)} {closing : Token}
    (h : Sequence (fun ts s => Declaration ts s ∧ DeclarationFound ts s) ts body)
    (hc : closing.kind = .rightBrace) (hlen : (ts ++ closing :: rest).length < n) :
    Yields (blockBody (partsAt n)) (ts ++ [closing]) body rest := by
  have hbody : Yields (declarations (declarationAt n) [.rightBrace] (n + 1)) ts body
      (closing :: rest) :=
    yields_declarations h (List.Subset.refl [TokenKind.rightBrace]) (by simp [hc]) (n + 1)
      (by simp only [List.length_append] at hlen; omega) hlen
  exact hbody.bind (yields_expect_bind hc yields_pure)

/-! ### Parts of statements -/

theorem yields_expression (h : Expression ts e) (hlen : (ts ++ rest).length < n + 1)
    (hs : Stops (Level.assignment.height + 1) rest) : Yields (partsAt n).expression ts e rest :=
  yields_expressionAt h hlen hs

theorem yields_expressionStatement {semicolon : Token} (h : Expression ts e)
    (hs : semicolon.kind = .semicolon) (hlen : (ts ++ semicolon :: rest).length < n + 1) :
    Yields (expressionStatement (partsAt n)) (ts ++ [semicolon]) (.expression e) rest :=
  (yields_expression h hlen (stops_cons _ _ (by rw [hs]; rfl))).bind
    (yields_expect_bind hs yields_pure)

/-- The token that comes after an expression that may be left out shows whether it is. -/
theorem yields_optionalBefore {kind : TokenKind} {value : Option (Expr Blank)} {t : Token}
    (h : Possibly Expression ts value) (ht : t.kind = kind) (hstarter : kind ∉ expressionStarters)
    (hstop : carriedOn? kind = none) (hlen : (ts ++ t :: rest).length < n + 1) :
    Yields (optionalBefore (partsAt n) kind) ts value (t :: rest) := by
  refine yields_nextIs_bind ?_
  cases h with
  | none =>
    show Yields (if decide (t.kind = kind) = true then _ else _) _ _ _
    rw [if_pos (decide_eq_true ht)]
    exact yields_pure
  | some h =>
    obtain ⟨t', r, rfl, hne⟩ := head_ne h hstarter
    show Yields (if decide (t'.kind = kind) = true then _ else _) _ _ _
    rw [if_neg (by simp [hne])]
    exact (yields_expression h hlen (stops_cons _ _ (ht ▸ hstop))).map

theorem yields_variableDeclaration (h : Variable ts s) (hlen : (ts ++ rest).length < n + 1) :
    Yields (variableDeclaration (partsAt n)) ts s rest := by
  cases h with
  | plain hname hs =>
    refine yields_expect_bind hname (yields_accept_bind_none (by simp [hs]) ?_)
    exact yields_expect_bind hs yields_pure
  | @initialized name equals semicolon ts initial hname he h hs =>
    simp only [List.cons_append, List.append_assoc, List.length_cons, List.length_append] at hlen
    have hinitial : Yields (partsAt n).expression ts initial (semicolon :: rest) :=
      yields_expression h (by simp only [List.length_append, List.length_cons]; simp at hlen; omega)
        (stops_cons _ _ (by rw [hs]; rfl))
    refine yields_expect_bind hname (yields_accept_bind_some (by simp [he]) ?_)
    exact hinitial.map.bind (yields_expect_bind hs yields_pure)

theorem yields_initializer {initial : Option (Stmt Blank)} (h : Initializer ts initial)
    (hlen : (ts ++ rest).length < n + 1) :
    Yields (dispatch (some <$> expressionStatement (partsAt n)) fun t =>
      match t.kind with
      | .semicolon => some (return none)
      | .varWord => some (some <$> variableDeclaration (partsAt n))
      | _ => none) ts initial rest := by
  cases h with
  | none hs => exact yields_dispatch_some (by simp only [hs]) yields_pure
  | declare hw h =>
    refine yields_dispatch_some (by simp only [hw]; rfl) (Yields.map ?_)
    exact yields_variableDeclaration h (by simp at hlen ⊢; omega)
  | expression h hs =>
    refine yields_dispatch_none ?_ (Yields.map ?_)
    · obtain ⟨t, r, rfl, ht⟩ := h.head_mem
      rintro t' ⟨⟩
      split
      · next hk => exact absurd (hk ▸ ht) (by decide)
      · next hk => exact absurd (hk ▸ ht) (by decide)
      · rfl
    · exact yields_expressionStatement h hs (by simpa using hlen)

/-! ### Statements -/

theorem statementFound_expression {semicolon : Token} (h : Expression ts e)
    (hs : semicolon.kind = .semicolon) :
    StatementFound .closed (ts ++ [semicolon]) (.expression e) := by
  intro n rest hlen _
  obtain ⟨n, rfl⟩ : ∃ m, n = m + 1 := ⟨n - 1, by omega⟩
  refine yields_dispatch_none ?_ (yields_expressionStatement h hs (by simpa using hlen))
  obtain ⟨t, r, rfl, ht⟩ := h.head_mem
  rintro t' ⟨⟩
  split
  all_goals first | rfl | next hk => exact absurd (hk ▸ ht) (by decide)

theorem statementFound_print {word semicolon : Token} (hw : word.kind = .printWord)
    (h : Expression ts e) (hs : semicolon.kind = .semicolon) :
    StatementFound .closed (word :: ts ++ [semicolon]) (.print e) := by
  intro n rest hlen _
  obtain ⟨n, rfl⟩ : ∃ m, n = m + 1 := ⟨n - 1, by omega⟩
  refine yields_dispatch_some (by simp only [hw]; rfl) ?_
  refine (yields_expression h ?_ (stops_cons _ _ (by rw [hs]; rfl))).bind
    (yields_expect_bind hs yields_pure)
  simp at hlen ⊢
  omega

theorem statementFound_giveBack {word semicolon : Token} {value : Option (Expr Blank)}
    (hw : word.kind = .returnWord) (h : Possibly Expression ts value)
    (hs : semicolon.kind = .semicolon) :
    StatementFound .closed (word :: ts ++ [semicolon]) (.giveBack word value) := by
  intro n rest hlen _
  obtain ⟨n, rfl⟩ : ∃ m, n = m + 1 := ⟨n - 1, by omega⟩
  refine yields_dispatch_some (by simp only [hw]; rfl) ?_
  refine (yields_optionalBefore h hs (by decide) rfl ?_).bind (yields_expect_bind hs yields_pure)
  simp at hlen ⊢
  omega

theorem statementFound_block {opening closing : Token} {body : List (Stmt Blank)}
    (ho : opening.kind = .leftBrace)
    (h : Sequence (fun ts s => Declaration ts s ∧ DeclarationFound ts s) ts body)
    (hc : closing.kind = .rightBrace) :
    StatementFound .closed (opening :: ts ++ [closing]) (.block body) := by
  intro n rest hlen _
  obtain ⟨n, rfl⟩ : ∃ m, n = m + 1 := ⟨n - 1, by omega⟩
  refine yields_dispatch_some (by simp only [ho]; rfl) (Yields.map (yields_blockBody h hc ?_))
  simp at hlen ⊢
  omega

/-- A condition in parentheses and what comes behind it. -/
theorem yields_condition {β : Type} {opening closing : Token} {cause cause' : SyntaxError}
    {f : Expr Blank → Parse β} {b : β} (ho : opening.kind = .leftParen) (h : Expression ts e)
    (hc : closing.kind = .rightParen) (hlen : (ts ++ closing :: us ++ rest).length < n + 1)
    (hf : Yields (f e) us b rest) :
    Yields (do
      let _ ← expect .leftParen cause
      let condition ← (partsAt n).expression
      let _ ← expect .rightParen cause'
      f condition) (opening :: ts ++ closing :: us) b rest := by
  refine yields_expect_bind ho ?_
  refine (yields_expression h ?_ (stops_cons _ _ (by rw [hc]; rfl))).bind
    (yields_expect_bind hc hf)
  simpa using hlen

theorem statementFound_ifThen {word opening closing : Token} {tail : Tail} {whenTrue : Stmt Blank}
    (hw : word.kind = .ifWord) (ho : opening.kind = .leftParen) (h : Expression ts e)
    (hc : closing.kind = .rightParen) (ih : StatementFound tail us whenTrue) :
    StatementFound .dangling (word :: opening :: ts ++ closing :: us)
      (.branch e whenTrue none) := by
  intro n rest hlen hnoElse
  obtain ⟨n, rfl⟩ : ∃ m, n = m + 1 := ⟨n - 1, by omega⟩
  have hnone := hnoElse rfl
  refine yields_dispatch_some (by simp only [hw]; rfl) ?_
  refine yields_condition ho h hc (by simp at hlen ⊢; omega) ?_
  refine (ih n rest (by simp at hlen ⊢; omega) fun _ => hnone).finish ?_
  exact yields_accept_bind_none (by simpa [NoElse] using hnone) yields_pure

theorem statementFound_ifElse {word opening closing other : Token} {tail : Tail}
    {whenTrue whenFalse : Stmt Blank} (hw : word.kind = .ifWord) (ho : opening.kind = .leftParen)
    (h : Expression ts e) (hc : closing.kind = .rightParen)
    (ih : StatementFound .closed us whenTrue) (hother : other.kind = .elseWord)
    (ih' : StatementFound tail vs whenFalse) :
    StatementFound tail (word :: opening :: ts ++ closing :: us ++ other :: vs)
      (.branch e whenTrue (some whenFalse)) := by
  intro n rest hlen hnoElse
  obtain ⟨n, rfl⟩ : ∃ m, n = m + 1 := ⟨n - 1, by omega⟩
  have hsplit : word :: opening :: ts ++ closing :: us ++ other :: vs =
      word :: (opening :: ts ++ closing :: (us ++ other :: vs)) := by simp
  rw [hsplit] at hlen ⊢
  refine yields_dispatch_some (by simp only [hw]; rfl) ?_
  refine yields_condition ho h hc (by simp at hlen ⊢; omega) ?_
  -- the first branch is closed and may have an `else` behind it
  refine (ih n (other :: vs ++ rest) (by simp at hlen ⊢; omega) nofun).bind ?_
  refine yields_accept_bind_some (by simp [hother]) ?_
  exact ((ih' n rest (by simp at hlen ⊢; omega) hnoElse).map (g := some)).finish yields_pure

theorem statementFound_loop {word opening closing : Token} {tail : Tail} {body : Stmt Blank}
    (hw : word.kind = .whileWord) (ho : opening.kind = .leftParen) (h : Expression ts e)
    (hc : closing.kind = .rightParen) (ih : StatementFound tail us body) :
    StatementFound tail (word :: opening :: ts ++ closing :: us) (.loop e body) := by
  intro n rest hlen hnoElse
  obtain ⟨n, rfl⟩ : ∃ m, n = m + 1 := ⟨n - 1, by omega⟩
  refine yields_dispatch_some (by simp only [hw]; rfl) ?_
  refine yields_condition ho h hc (by simp at hlen ⊢; omega) ?_
  exact (ih n rest (by simp at hlen ⊢; omega) hnoElse).finish yields_pure

theorem statementFound_forLoop {word opening semicolon closing : Token} {tail : Tail}
    {ws : List Token} {initial : Option (Stmt Blank)} {condition increment : Option (Expr Blank)}
    {body : Stmt Blank} (hw : word.kind = .forWord) (ho : opening.kind = .leftParen)
    (hinitial : Initializer ts initial) (hcondition : Possibly Expression us condition)
    (hs : semicolon.kind = .semicolon) (hincrement : Possibly Expression vs increment)
    (hc : closing.kind = .rightParen) (ih : StatementFound tail ws body) :
    StatementFound tail (word :: opening :: ts ++ us ++ semicolon :: vs ++ closing :: ws)
      (forTree initial condition increment body) := by
  intro n rest hlen hnoElse
  obtain ⟨n, rfl⟩ : ∃ m, n = m + 1 := ⟨n - 1, by omega⟩
  have hsplit : word :: opening :: ts ++ us ++ semicolon :: vs ++ closing :: ws =
      word :: opening :: (ts ++ (us ++ semicolon :: (vs ++ closing :: ws))) := by simp
  rw [hsplit] at hlen ⊢
  simp only [List.cons_append, List.append_assoc, List.length_cons, List.length_append] at hlen
  refine yields_dispatch_some (by simp only [hw]; rfl) (yields_expect_bind ho ?_)
  refine (yields_initializer hinitial (by simp; omega)).bind ?_
  refine (yields_optionalBefore hcondition hs (by decide) rfl (by simp; omega)).bind ?_
  refine yields_expect_bind hs ?_
  refine (yields_optionalBefore hincrement hc (by decide) rfl (by simp; omega)).bind ?_
  refine yields_expect_bind hc ?_
  -- the parser puts the clauses together as the grammar does
  rw [← forLoop_eq_forTree]
  exact (ih n rest (by simp; omega) hnoElse).finish yields_pure

/-! ### Declarations -/

/-- Where nothing goes wrong there is nothing to recover from. -/
theorem Yields.recover {p : Parse (Stmt Blank)} (h : Yields p ts s rest) :
    Yields (recover p) ts s rest := by
  intro mistakes
  rw [Parse.recover, h mistakes]

theorem declarationFound_statement {tail : Tail} (h : Statement tail ts s)
    (ih : StatementFound tail ts s) : DeclarationFound ts s := by
  intro n rest hlen hnoElse
  obtain ⟨n, rfl⟩ : ∃ m, n = m + 1 := ⟨n - 1, by omega⟩
  refine Yields.recover (yields_dispatch_none ?_ (ih (n + 1) rest hlen fun _ => hnoElse))
  obtain ⟨t, r, rfl, ht⟩ := h.head
  rintro t' ⟨⟩
  split
  all_goals first | rfl | next hk => exact absurd (hk ▸ ht) (by decide)

theorem declarationFound_declare {word : Token} (hw : word.kind = .varWord) (h : Variable ts s) :
    DeclarationFound (word :: ts) s := by
  intro n rest hlen _
  obtain ⟨n, rfl⟩ : ∃ m, n = m + 1 := ⟨n - 1, by omega⟩
  refine Yields.recover (yields_dispatch_some (by simp only [hw]; rfl) ?_)
  exact yields_variableDeclaration h (by simp at hlen ⊢; omega)

theorem declarationFound_function {word : Token} {r : Routine Blank} (hw : word.kind = .funWord)
    (ih : RoutineFound ts r) : DeclarationFound (word :: ts) (.function r) := by
  intro n rest hlen _
  obtain ⟨n, rfl⟩ : ∃ m, n = m + 1 := ⟨n - 1, by omega⟩
  refine Yields.recover (yields_dispatch_some (by simp only [hw]; rfl) (Yields.map ?_))
  exact ih n .function rest (by simp at hlen ⊢; omega)

/-- Methods end where a brace closes the class. -/
theorem yields_methods {methods : List (Routine Blank)} {closing : Token}
    (h : Sequence (fun ts r => Routined ts r ∧ RoutineFound ts r) ts methods)
    (hc : closing.kind = .rightBrace) :
    ∀ bound, ts.length < bound → (ts ++ closing :: rest).length < n + 1 →
      Yields (Parse.methods (partsAt n) bound) ts methods (closing :: rest) := by
  induction h with
  | nil =>
    intro bound hb _ mistakes
    obtain ⟨bound, rfl⟩ : ∃ b, bound = b + 1 := ⟨bound - 1, by omega⟩
    rw [Parse.methods]
    show (if (decide (closing.kind = .rightBrace) || false) = true then pure [] else _ :
      Parse (List (Routine Blank))) _ = _
    rw [if_pos (by simp [hc])]
    rfl
  | @cons ts us r methods hr hus ih =>
    intro bound hb hlen
    obtain ⟨hr, hfound⟩ := hr
    obtain ⟨t, ts, rfl, ht⟩ := hr.head
    simp only [List.length_append, List.length_cons] at hb hlen
    obtain ⟨bound, rfl⟩ : ∃ b, bound = b + 1 := ⟨bound - 1, by omega⟩
    have hfirst := hfound n .method (us ++ closing :: rest)
      (by simp only [List.length_append, List.length_cons]; omega)
    have hothers := (ih bound (by omega)
      (by simp only [List.length_append, List.length_cons]; omega)).finish
      (f := fun others => pure (r :: others)) yields_pure
    intro mistakes
    rw [Parse.methods]
    show (if (decide (t.kind = .rightBrace) || false) = true then pure [] else _ :
      Parse (List (Routine Blank))) _ = _
    rw [if_neg (by simp [ht])]
    exact hfirst.bind hothers mistakes

theorem declarationFound_klass {word name opening closing : Token}
    {superclass : Option (Reference Blank)} {methods : List (Routine Blank)}
    (hw : word.kind = .classWord) (hname : name.kind = .identifier) (h : Superclass ts superclass)
    (ho : opening.kind = .leftBrace)
    (hmethods : Sequence (fun ts r => Routined ts r ∧ RoutineFound ts r) us methods)
    (hc : closing.kind = .rightBrace) :
    DeclarationFound (word :: name :: ts ++ opening :: us ++ [closing])
      (.klass name superclass methods) := by
  intro n rest hlen _
  obtain ⟨n, rfl⟩ : ∃ m, n = m + 1 := ⟨n - 1, by omega⟩
  have hsplit : word :: name :: ts ++ opening :: us ++ [closing] =
      word :: name :: (ts ++ opening :: (us ++ [closing])) := by simp
  rw [hsplit] at hlen ⊢
  simp only [List.cons_append, List.append_assoc, List.length_cons, List.length_append,
    List.nil_append] at hlen
  refine Yields.recover (yields_dispatch_some (by simp only [hw]; rfl) ?_)
  refine yields_expect_bind hname ?_
  -- the rest of the class is the same with and without a superclass
  have hrest : Yields (do
      let _ ← expect .leftBrace .classOpen
      let members ← Parse.methods (partsAt n) (n + 1)
      let _ ← expect .rightBrace .classClose
      return .klass name superclass members : Parse (Stmt Blank))
      (opening :: (us ++ [closing])) (.klass name superclass methods) rest := by
    have hbody : Yields (Parse.methods (partsAt n) (n + 1)) us methods (closing :: rest) :=
      yields_methods hmethods hc (n + 1) (by omega) (by simp; omega)
    exact yields_expect_bind ho (hbody.bind (yields_expect_bind hc yields_pure))
  cases h with
  | none => exact yields_accept_bind_none (by simp [ho]) hrest
  | some hless hsuper =>
    exact yields_accept_bind_some (by simp [hless]) (yields_expect_bind hsuper hrest)

theorem routineFound_mk {name openParen closeParen openBrace closeBrace : Token}
    {params : List Token} {body : List (Stmt Blank)} (hname : name.kind = .identifier)
    (hop : openParen.kind = .leftParen) (h : Listed Name ts params)
    (hcp : closeParen.kind = .rightParen) (hob : openBrace.kind = .leftBrace)
    (hbody : Sequence (fun ts s => Declaration ts s ∧ DeclarationFound ts s) us body)
    (hcb : closeBrace.kind = .rightBrace) :
    RoutineFound (name :: openParen :: ts ++ closeParen :: openBrace :: us ++ [closeBrace])
      (.mk name params body) := by
  intro n kind rest hlen
  have hsplit : name :: openParen :: ts ++ closeParen :: openBrace :: us ++ [closeBrace] =
      name :: openParen :: (ts ++ closeParen :: openBrace :: (us ++ [closeBrace])) := by simp
  rw [hsplit] at hlen ⊢
  simp only [List.cons_append, List.append_assoc, List.length_cons, List.length_append,
    List.nil_append] at hlen
  refine yields_expect_bind hname (yields_expect_bind hop ?_)
  -- behind the parameters, which may be none
  have hrest : Yields (do
      let _ ← expect .rightParen .paramsClose
      let _ ← expect .leftBrace (.bodyOpen kind)
      return Routine.mk name params (← blockBody (partsAt n)))
      (closeParen :: openBrace :: (us ++ [closeBrace])) (.mk name params body) rest := by
    refine yields_expect_bind hcp (yields_expect_bind hob ?_)
    exact (yields_blockBody hbody hcb (by simp; omega)).finish yields_pure
  intro mistakes
  rw [List.append_assoc]
  refine Eq.trans ?_ (hrest mistakes)
  exact listed_bind_apply h (fun _ _ ⟨hk⟩ => ⟨_, _, rfl, by rw [hk]; decide⟩)
    (fun hs hle => yields_parameters hs hcp (n + 1) 0 (by omega) (by omega)) hcp _ mistakes

/-- **Completeness for declarations.** -/
theorem declarationFound_of_declaration (h : Declaration ts s) : DeclarationFound ts s :=
  h.induct (P := StatementFound) (Q := DeclarationFound) (R := RoutineFound)
    statementFound_expression statementFound_print statementFound_giveBack statementFound_block
    (fun hw ho h hc _ ih => statementFound_ifThen hw ho h hc ih)
    (fun hw ho h hc _ hother _ ih ih' => statementFound_ifElse hw ho h hc ih hother ih')
    (fun hw ho h hc _ ih => statementFound_loop hw ho h hc ih)
    (fun hw ho hi hu hs hv hc _ ih => statementFound_forLoop hw ho hi hu hs hv hc ih)
    declarationFound_statement declarationFound_declare
    (fun hw _ ih => declarationFound_function hw ih) declarationFound_klass routineFound_mk

end Parse

/-! ### Programs -/

/-- **Completeness.** Every program is found among its tokens, without a mistake. -/
theorem parse_complete {tokens : List Token} {program : List (Stmt Blank)}
    (h : Program tokens program) : parse tokens = ⟨program, []⟩ := by
  have hfound := h.mono fun _ _ h => And.intro h (Parse.declarationFound_of_declaration h)
  have hyields : Parse.Yields (Parse.program (tokens.length + 1)) tokens program [] :=
    Parse.yields_declarations hfound (List.nil_subset _) (by simp) (tokens.length + 1)
      (Nat.lt_succ_self _) (by simp)
  have hrun := hyields []
  rw [List.append_nil] at hrun
  rw [parse, hrun]

/-- **The parser accepts its grammar and nothing else.** There are no mistakes exactly if the tokens
derive a program, which is then the only one; and parsing yields it. -/
theorem parse_exact (tokens : List Token) :
    ((parse tokens).mistakes = [] ↔ ∃! program, Program tokens program) ∧
      ∀ program, Program tokens program ↔ parse tokens = ⟨program, []⟩ := by
  have hderived (program : List (Stmt Blank)) :
      Program tokens program ↔ parse tokens = ⟨program, []⟩ := by
    refine ⟨parse_complete, fun h => ?_⟩
    -- what is parsed without a mistake is derived
    have hsound : Program tokens (parse tokens).statements := Parse.parse_sound (by rw [h])
    rwa [h] at hsound
  refine ⟨⟨fun h => ⟨_, Parse.parse_sound h, fun program hp => ?_⟩, ?_⟩, hderived⟩
  · rw [(hderived program).mp hp]
  · rintro ⟨program, hp, -⟩
    rw [(hderived program).mp hp]

end LoxInterpreter
