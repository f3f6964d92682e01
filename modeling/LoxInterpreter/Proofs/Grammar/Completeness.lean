import LoxInterpreter.Proofs.Grammar

/-!
# Parsers find every derivation

A parser that is given the tokens of a phrase, and behind them tokens that do not carry the phrase
on, yields the tree of the phrase, leaves the other tokens, and makes no mistake.

* `Yields p read a rest` says so of one run.
* `Stops h rest` says that what comes next belongs to an operator of height `h` at least, if to any.
* A level that associates to the left has no tree before its loop ends. Its phrases bring the parser
  into the middle of the loop (`Loops`), from where it goes on with the next operator.
-/

namespace LoxInterpreter.Parse

open Grammar

variable {α β : Type}

/-- Given `read` before `rest`, the parser consumes `read`, yields `a` and makes no mistake. -/
def Yields (p : Parse α) (read : List Token) (a : α) (rest : List Token) : Prop :=
  ∀ mistakes, p ⟨read ++ rest, mistakes⟩ = .ok a ⟨rest, mistakes⟩

/-! ### Steps -/

section Steps

variable {p otherwise : Parse α} {f : α → Parse β} {read r : List Token} {a : α} {b : β}
  {t : Token} {rest : List Token} {kinds : List TokenKind}

theorem yields_pure : Yields (pure a) [] a rest :=
  fun _ => rfl

/-- Behind a parser that has read its phrase the next one goes on. -/
theorem Yields.bind_apply (hp : Yields p read a rest) (f : α → Parse β)
    (mistakes : List SyntaxMistake) :
    (p >>= f) ⟨read ++ rest, mistakes⟩ = f a ⟨rest, mistakes⟩ := by
  show EStateM.bind p f _ = _
  rw [EStateM.bind, hp mistakes]

theorem Yields.bind (hp : Yields p read a (r ++ rest)) (hf : Yields (f a) r b rest) :
    Yields (p >>= f) (read ++ r) b rest := by
  intro mistakes
  rw [List.append_assoc, hp.bind_apply f mistakes]
  exact hf mistakes

/-- The last phrase is followed by steps that consume nothing. -/
theorem Yields.finish (hp : Yields p read a rest) (hf : Yields (f a) [] b rest) :
    Yields (p >>= f) read b rest := by
  intro mistakes
  rw [hp.bind_apply f mistakes]
  exact hf mistakes

theorem Yields.map {g : α → β} (hp : Yields p read a rest) :
    Yields (g <$> p) read (g a) rest := by
  intro mistakes
  show EStateM.map g p _ = _
  rw [EStateM.map, hp mistakes]

theorem yields_expect {kind : TokenKind} {cause : SyntaxError} (hk : t.kind = kind) :
    Yields (expect kind cause) [t] t rest := by
  intro mistakes
  simp only [expect, dispatch, List.cons_append, List.nil_append, hk, if_true]
  rfl

theorem yields_expect_bind {kind : TokenKind} {cause : SyntaxError} {f : Token → Parse β}
    (hk : t.kind = kind) (hf : Yields (f t) read b rest) :
    Yields (expect kind cause >>= f) (t :: read) b rest :=
  (yields_expect hk).bind hf

theorem yields_accept (hk : t.kind ∈ kinds) : Yields (accept kinds) [t] (some t) rest := by
  intro mistakes
  simp only [accept, dispatch, List.cons_append, List.nil_append, hk, if_true]
  rfl

theorem yields_accept_bind_some {f : Option Token → Parse β} (hk : t.kind ∈ kinds)
    (hf : Yields (f (some t)) read b rest) :
    Yields (accept kinds >>= f) (t :: read) b rest :=
  (yields_accept hk).bind hf

theorem yields_accept_bind_none {f : Option Token → Parse β}
    (hk : ∀ t ∈ (read ++ rest).head?, t.kind ∉ kinds) (hf : Yields (f none) read b rest) :
    Yields (accept kinds >>= f) read b rest := by
  intro mistakes
  have hf := hf mistakes
  show EStateM.bind _ f _ = _
  match hr : read ++ rest with
  | [] =>
    rw [hr] at hf
    exact hf
  | t :: us =>
    rw [hr] at hf
    have hk : t.kind ∉ kinds := hk t (by simp [hr])
    simp only [EStateM.bind, accept, dispatch, hk, if_false]
    exact hf

theorem yields_nextIs_bind {kind : TokenKind} {f : Bool → Parse β}
    (hf : Yields (f ((read ++ rest).head?.any (·.kind = kind))) read b rest) :
    Yields (nextIs kind >>= f) read b rest :=
  fun mistakes => hf mistakes

/-- Phrases before a closing parenthesis are read by their parser, and if there are none, the
parenthesis shows it. -/
theorem listed_bind_apply {L : List Token → α → Prop} {us : List Token} {as : List α}
    {closing : Token} {p : Parse (List α)} (h : Listed L us as)
    (hL : ∀ ts a, L ts a → ∃ t r, ts = t :: r ∧ t.kind ≠ .rightParen)
    (hp : Separated L us as → as.length ≤ 255 → Yields p us as (closing :: rest))
    (hc : closing.kind = .rightParen) (f : List α → Parse β) (mistakes : List SyntaxMistake) :
    (nextIs .rightParen >>= fun b => if b then pure [] >>= f else p >>= f)
      ⟨us ++ closing :: rest, mistakes⟩ = f as ⟨closing :: rest, mistakes⟩ := by
  cases h with
  | none =>
    show (if (some closing).any (·.kind = .rightParen) then _ else _ : Parse β) _ = _
    rw [Option.any_some, hc]
    rfl
  | some hs hle =>
    obtain ⟨t, r, rfl, ht⟩ := hs.head hL
    show (if (some t).any (·.kind = .rightParen) then _ else _ : Parse β) _ = _
    rw [Option.any_some, decide_eq_false ht]
    exact (hp hs hle).bind_apply f mistakes

theorem yields_dispatch_some {table : Token → Option (Parse α)} (ht : table t = some p)
    (hp : Yields p read a rest) : Yields (dispatch otherwise table) (t :: read) a rest := by
  intro mistakes
  simp only [dispatch, List.cons_append, ht]
  exact hp mistakes

theorem yields_dispatch_none {table : Token → Option (Parse α)}
    (ht : ∀ t ∈ (read ++ rest).head?, table t = none) (hp : Yields otherwise read a rest) :
    Yields (dispatch otherwise table) read a rest := by
  intro mistakes
  have hp := hp mistakes
  match hr : read ++ rest with
  | [] =>
    rw [hr] at hp
    exact hp
  | t :: us =>
    rw [hr] at hp
    have ht : table t = none := ht t (by simp [hr])
    simp only [dispatch, ht]
    exact hp

end Steps

/-! ### Levels -/

/-- The level whose phrases a token carries on when it stands behind one. -/
def carriedOn? : TokenKind → Option Level
  | .equal => some .assignment
  | .orWord => some .disjunction
  | .andWord => some .conjunction
  | .bangEqual | .equalEqual => some .equality
  | .greater | .greaterEqual | .less | .lessEqual => some .comparison
  | .minus | .plus => some .term
  | .slash | .star => some .factor
  | .leftParen | .dot => some .call
  | _ => none

/-- What comes next carries on no phrase of a level below the height. -/
def Stops (h : Nat) (rest : List Token) : Prop :=
  ∀ t ∈ rest.head?, ∀ l ∈ carriedOn? t.kind, h ≤ l.height

theorem Stops.mono {h h' : Nat} {rest : List Token} (hs : Stops h rest) (hle : h' ≤ h) :
    Stops h' rest :=
  fun t ht l hl => Nat.le_trans hle (hs t ht l hl)

/-- A token that stands behind no phrase stops all of them. -/
theorem stops_cons {t : Token} (rest : List Token) (h : Nat) (ht : carriedOn? t.kind = none) :
    Stops h (t :: rest) := by
  rintro t' ⟨⟩ l hl
  rw [ht] at hl
  cases hl

/-- An operator stops the levels tighter than its own. -/
theorem stops_operator {t : Token} {l : Level} (rest : List Token)
    (ht : carriedOn? t.kind = some l) : Stops l.height (t :: rest) := by
  rintro t' ⟨⟩ l' hl
  rw [ht] at hl
  cases hl
  exact Nat.le_refl _

theorem carriedOn?_of_mem {l : Level} {k : TokenKind} (h : k ∈ l.operators) :
    carriedOn? k = some l := by
  cases l <;> simp only [Level.operators, List.mem_cons, List.not_mem_nil, or_false] at h <;>
    rcases h with rfl | rfl | rfl | rfl <;> rfl

/-- The operators of a level that stops are not next. -/
theorem Stops.not_mem {l : Level} {rest : List Token} (hs : Stops (l.height + 1) rest) :
    ∀ t ∈ rest.head?, t.kind ∉ l.operators := by
  intro t ht hk
  have := hs t ht l (carriedOn?_of_mem hk)
  omega

/-- The parser of a level, as it stands in the parser of expressions with the bound `n + 1`. -/
def levelAt (n : Nat) : Level → Parse (Expr Blank)
  | .assignment => assignment (expressionAt n) (n + 1)
  | .disjunction => disjunction (expressionAt n) (n + 1)
  | .conjunction => conjunction (expressionAt n) (n + 1)
  | .equality => equality (expressionAt n) (n + 1)
  | .comparison => comparison (expressionAt n) (n + 1)
  | .term => term (expressionAt n) (n + 1)
  | .factor => factor (expressionAt n) (n + 1)
  | .unary => unary (expressionAt n) (n + 1) (n + 1)
  | .call => call (expressionAt n) (n + 1)
  | .primary => primary (expressionAt n)

/-- How the parser of a level goes on behind a phrase of the level. The levels without binary
operators, which are those of prefix operators and of operands, end there. -/
def carryOn (n : Nat) (l : Level) (bound : Nat) (e : Expr Blank) : Parse (Expr Blank) :=
  if l = .call then postfixes (expressionAt n) bound e
  else operands l.operators l.join (levelAt n (l.tighter?.getD l)) bound e

/-- The phrase brings the parser of its level into the middle of its loop. -/
def Loops (n : Nat) (l : Level) (ts : List Token) (e : Expr Blank) (rest : List Token) : Prop :=
  ∃ bound, rest.length < bound ∧
    ∀ mistakes, levelAt n l ⟨ts ++ rest, mistakes⟩ = carryOn n l bound e ⟨rest, mistakes⟩

variable {n : Nat} {l l' : Level} {ts rest : List Token} {e : Expr Blank}

theorem yields_postfixes_nil {nested : Parse (Expr Blank)} {bound : Nat}
    (hs : Stops (Level.call.height + 1) rest) :
    Yields (postfixes nested (bound + 1) e) [] e rest := by
  rw [postfixes]
  refine yields_accept_bind_none (fun t ht hk => ?_) yields_pure
  have : carriedOn? t.kind = some .call := by
    simp only [List.mem_cons, List.not_mem_nil, or_false] at hk
    rcases hk with hk | hk <;> rw [hk] <;> rfl
  exact absurd (hs t ht _ this) (by decide)

theorem yields_operands_nil {operand : Parse (Expr Blank)} {bound : Nat}
    (hs : ∀ t ∈ rest.head?, t.kind ∉ l.operators) :
    Yields (operands l.operators l.join operand (bound + 1) e) [] e rest := by
  rw [operands]
  exact yields_accept_bind_none hs yields_pure

/-- A loop ends where nothing carries it on. -/
theorem Loops.yields (h : Loops n l ts e rest) (hs : Stops (l.height + 1) rest) :
    Yields (levelAt n l) ts e rest := by
  obtain ⟨bound, hb, h⟩ := h
  obtain ⟨bound, rfl⟩ : ∃ b, bound = b + 1 := ⟨bound - 1, by omega⟩
  intro mistakes
  rw [h, carryOn]
  split
  · next hl => exact yields_postfixes_nil (hl ▸ hs) mistakes
  · exact yields_operands_nil hs.not_mem mistakes

/-- A binary level reads an operand and then loops. -/
theorem levelAt_eq_leftAssociative (hl : l.tighter? = some l') (ho : l.operators ≠ []) :
    levelAt n l = leftAssociative l.operators l.join (n + 1) (levelAt n l') := by
  cases l <;> cases hl <;> first | rfl | exact absurd rfl ho

/-- Where there are no operators, a phrase is in the middle of the loop once it is read. -/
theorem loops_of_yields (ho : l.operators = []) (hc : l ≠ .call)
    (h : Yields (levelAt n l) ts e rest) : Loops n l ts e rest := by
  refine ⟨rest.length + 1, Nat.lt_succ_self _, fun mistakes => ?_⟩
  rw [h mistakes, carryOn, if_neg hc]
  exact (yields_operands_nil (fun t _ hk => by rw [ho] at hk; cases hk) mistakes).symm

/-- An operand is a phrase of the level by itself, unless it begins with what is taken for a prefix
operator. -/
theorem loops_of_tighter (hl : l.tighter? = some l') (hne : l ≠ .assignment)
    (h : Yields (levelAt n l') ts e rest) (hlen : rest.length ≤ n)
    (hp : l = .unary → ∀ t ∈ (ts ++ rest).head?, t.kind ∉ [TokenKind.bang, .minus]) :
    Loops n l ts e rest := by
  by_cases ho : l.operators = []
  · -- besides assignments, these are the levels of prefix operators and of calls
    cases l <;> cases hl <;> first | exact absurd rfl hne | cases ho
    · refine loops_of_yields rfl (by decide) ?_
      show Yields (unary (expressionAt n) (n + 1) (n + 1)) ts e rest
      rw [unary]
      exact yields_accept_bind_none (hp rfl) h
    · exact ⟨n + 1, by omega, h.bind_apply (postfixes (expressionAt n) (n + 1))⟩
  · refine ⟨n + 1, by omega, fun mistakes => ?_⟩
    rw [levelAt_eq_leftAssociative hl ho, leftAssociative, h.bind_apply]
    have hc : l ≠ .call := fun hc => ho (by rw [hc]; rfl)
    rw [carryOn, if_neg hc, hl]
    rfl

/-- One more operator goes once around the loop of its level. -/
theorem Loops.join {us : List Token} {op : Token} {left right : Expr Blank}
    (hl : l.tighter? = some l') (ho : op.kind ∈ l.operators)
    (h : Loops n l ts left (op :: us ++ rest)) (hr : Yields (levelAt n l') us right rest) :
    Loops n l (ts ++ op :: us) (l.join left op right) rest := by
  obtain ⟨bound, hb, h⟩ := h
  simp only [List.cons_append, List.length_cons, List.length_append] at hb
  obtain ⟨bound, rfl⟩ : ∃ b, bound = b + 1 := ⟨bound - 1, by omega⟩
  refine ⟨bound, by omega, fun mistakes => ?_⟩
  have hc : l ≠ .call := fun hc => by rw [hc] at ho; cases ho
  rw [List.append_assoc, h mistakes, carryOn, if_neg hc, carryOn, if_neg hc, hl,
    operands]
  exact ((yields_accept ho).bind_apply _ mistakes).trans (hr.bind_apply _ mistakes)

/-! ### Calls and prefix operators -/

/-- A property name goes once around the loop of calls. -/
theorem Loops.property {dot name : Token} {object : Expr Blank} (hd : dot.kind = .dot)
    (hname : name.kind = .identifier) (h : Loops n .call ts object (dot :: name :: rest)) :
    Loops n .call (ts ++ [dot, name]) (.property object name) rest := by
  obtain ⟨bound, hb, h⟩ := h
  simp only [List.length_cons] at hb
  obtain ⟨bound, rfl⟩ : ∃ b, bound = b + 1 := ⟨bound - 1, by omega⟩
  refine ⟨bound, by omega, fun mistakes => ?_⟩
  rw [List.append_assoc]
  refine (h mistakes).trans ?_
  show postfixes (expressionAt n) (bound + 1) object _ = postfixes (expressionAt n) bound _ _
  rw [postfixes]
  refine ((yields_accept (by simp [hd])).bind_apply _ mistakes).trans ?_
  dsimp only
  rw [if_neg (by simp [hd])]
  exact (yields_expect hname).bind_apply _ mistakes

/-- A parser of expressions finds a phrase among fewer than `n` tokens, whatever stops it. -/
def Finds (nested : Parse (Expr Blank)) (n : Nat) (ts : List Token) (e : Expr Blank) : Prop :=
  ∀ rest, (ts ++ rest).length < n → Stops (Level.assignment.height + 1) rest →
    Yields nested ts e rest

/-- Up to the limit an argument is read, and others behind a comma. -/
theorem arguments_eq {nested : Parse (Expr Blank)} {bound count : Nat} (hcount : count < 255) :
    arguments nested (bound + 1) count = (do
      let argument ← nested
      match ← accept [.comma] with
      | some _ => return argument :: (← arguments nested bound (count + 1))
      | none => return [argument]) := by
  have hno : ¬maxArguments ≤ count := Nat.not_le_of_lt hcount
  rw [arguments]
  dsimp only
  exact if_neg hno

theorem yields_arguments {nested : Parse (Expr Blank)} {us : List Token}
    {values : List (Expr Blank)} {closing : Token} (h : Separated (Finds nested n) us values)
    (hc : closing.kind = .rightParen) :
    ∀ bound count, us.length < bound → count + values.length ≤ 255 →
      (us ++ closing :: rest).length < n →
      Yields (arguments nested bound count) us values (closing :: rest) := by
  induction h with
  | @last ts a hts =>
    intro bound count hb hcount hlen
    obtain ⟨bound, rfl⟩ : ∃ b, bound = b + 1 := ⟨bound - 1, by omega⟩
    rw [arguments_eq (Nat.lt_of_succ_le hcount)]
    refine (hts (closing :: rest) hlen (stops_cons _ _ (by rw [hc]; rfl))).finish ?_
    exact yields_accept_bind_none (by simp [hc]) yields_pure
  | @cons ts us comma a as hts hcomma hus ih =>
    intro bound count hb hcount hlen
    simp only [List.length_append, List.length_cons] at hb hcount hlen
    obtain ⟨bound, rfl⟩ : ∃ b, bound = b + 1 := ⟨bound - 1, by omega⟩
    rw [arguments_eq (by omega)]
    -- a comma carries no expression on
    have hyield := hts (comma :: us ++ closing :: rest)
      (by simp only [List.length_append, List.length_cons]; omega)
      (stops_cons _ _ (by rw [hcomma]; rfl))
    refine hyield.bind ?_
    refine yields_accept_bind_some (by simp [hcomma]) ?_
    have hrec := ih bound (count + 1) (by omega) (by omega)
      (by simp only [List.length_append, List.length_cons]; omega)
    exact hrec.finish yields_pure

/-- An expression begins with no token of another kind than the few it can begin with. -/
theorem head_ne {k : TokenKind} (h : Phrase l ts e)
    (hk : k ∉ TokenKind.bang :: .minus :: operandStarters) :
    ∃ t r, ts = t :: r ∧ t.kind ≠ k := by
  obtain ⟨t, r, rfl, ht⟩ := h.head_mem
  exact ⟨t, r, rfl, fun heq => hk (heq ▸ ht)⟩

/-- An argument list goes once around the loop of calls. -/
theorem Loops.call {us : List Token} {opening closing : Token} {callee : Expr Blank}
    {values : List (Expr Blank)} (ho : opening.kind = .leftParen)
    (hv : Listed (fun ts e => Expression ts e ∧ Finds (expressionAt n) n ts e) us values)
    (hc : closing.kind = .rightParen) (hlen : (us ++ closing :: rest).length < n)
    (h : Loops n .call ts callee (opening :: us ++ closing :: rest)) :
    Loops n .call (ts ++ opening :: us ++ [closing]) (.call callee closing values) rest := by
  obtain ⟨bound, hb, h⟩ := h
  simp only [List.cons_append, List.length_cons, List.length_append] at hb
  obtain ⟨bound, rfl⟩ : ∃ b, bound = b + 1 := ⟨bound - 1, by omega⟩
  refine ⟨bound, by omega, fun mistakes => ?_⟩
  have hsplit : ts ++ opening :: us ++ [closing] ++ rest =
      ts ++ (opening :: us ++ closing :: rest) := by simp
  rw [hsplit]
  refine (h mistakes).trans ?_
  show postfixes (expressionAt n) (bound + 1) callee _ = postfixes (expressionAt n) bound _ _
  rw [postfixes]
  refine ((yields_accept (by simp [ho])).bind_apply _ mistakes).trans ?_
  dsimp only
  rw [if_pos ho]
  refine (listed_bind_apply hv (fun _ _ h => head_ne h.1 (by decide)) (fun hs hle => ?_) hc _
    mistakes).trans ?_
  · exact yields_arguments (hs.mono fun _ _ h => h.2) hc _ _ (by omega) (by omega) hlen
  · exact (yields_expect hc).bind_apply _ mistakes

/-- The bound on prefix operators does not matter as long as it exceeds the number of tokens. -/
theorem unary_eq_unary {nested : Parse (Expr Blank)} {bound : Nat} :
    ∀ more more' : Nat, ∀ s : Cursor, s.rest.length < more → s.rest.length < more' →
      unary nested bound more s = unary nested bound more' s := by
  intro more
  induction more with
  | zero => exact fun _ s h => absurd h (Nat.not_lt_zero _)
  | succ more ih =>
    rintro more' ⟨rest, mistakes⟩ h h'
    obtain ⟨more', rfl⟩ : ∃ b, more' = b + 1 := ⟨more' - 1, by omega⟩
    match rest with
    | [] => rfl
    | t :: rest =>
      simp only [List.length_cons] at h h'
      by_cases hk : t.kind ∈ [TokenKind.bang, .minus]
      · -- one operator less, and one step less of either bound
        have hgo (m : Nat) : unary nested bound (m + 1) ⟨t :: rest, mistakes⟩ =
            (unary nested bound m >>= fun operand => pure (.unary t operand)) ⟨rest, mistakes⟩ := by
          rw [unary]
          exact (yields_accept hk).bind_apply _ mistakes
        rw [hgo, hgo]
        show EStateM.bind _ _ _ = EStateM.bind _ _ _
        rw [EStateM.bind, EStateM.bind, ih more' ⟨rest, mistakes⟩ (by dsimp only; omega)
          (by dsimp only; omega)]
      · -- what is no prefix operator is left to the calls
        have hstop (m : Nat) : unary nested bound (m + 1) ⟨t :: rest, mistakes⟩ =
            call nested bound ⟨t :: rest, mistakes⟩ := by
          rw [unary]
          show EStateM.bind _ _ _ = _
          simp only [EStateM.bind, accept, dispatch, hk, if_false]
          rfl
        rw [hstop, hstop]

/-- A prefix operator and its operand. -/
theorem yields_unary {op : Token} {operand : Expr Blank} (ho : op.kind = .bang ∨ op.kind = .minus)
    (hlen : (ts ++ rest).length < n) (h : Yields (levelAt n .unary) ts operand rest) :
    Yields (levelAt n .unary) (op :: ts) (.unary op operand) rest := by
  show Yields (unary (expressionAt n) (n + 1) (n + 1)) _ _ _
  rw [unary]
  refine yields_accept_bind_some (by simpa using ho) ?_
  refine Yields.finish (a := operand) (fun mistakes => ?_) yields_pure
  exact (unary_eq_unary n (n + 1) ⟨ts ++ rest, mistakes⟩ hlen
    (Nat.lt_succ_of_lt hlen)).trans (h mistakes)

/-! ### Expressions -/

/-- What the parser of a level owes to a phrase. The level of assignments has no loop. -/
def Found (l : Level) (ts : List Token) (e : Expr Blank) : Prop :=
  ∀ n rest, (ts ++ rest).length ≤ n →
    if l = .assignment then
      Stops (l.height + 1) rest → Yields (levelAt n l) ts e rest
    else Stops l.height rest → Loops n l ts e rest

theorem Found.yields (h : Found l ts e) (hlen : (ts ++ rest).length ≤ n)
    (hs : Stops (l.height + 1) rest) : Yields (levelAt n l) ts e rest := by
  have h := h n rest hlen
  split at h
  · exact h hs
  · exact (h (hs.mono (Nat.le_succ _))).yields hs

theorem Found.loops (h : Found l ts e) (hl : l ≠ .assignment) (hlen : (ts ++ rest).length ≤ n)
    (hs : Stops l.height rest) : Loops n l ts e rest := by
  have h := h n rest hlen
  rw [if_neg hl] at h
  exact h hs

/-- A level without binary operators owes no more than the tree. No token carries such a level on,
so that it does not matter which of the two heights stops it. -/
theorem found_of_yields (ho : l = .unary ∨ l = .primary)
    (h : ∀ n rest, (ts ++ rest).length ≤ n → Stops l.height rest → Yields (levelAt n l) ts e rest) :
    Found l ts e := by
  intro n rest hlen
  rcases ho with rfl | rfl
  · rw [if_neg (by decide)]
    exact fun hs => loops_of_yields rfl (by decide) (h n rest hlen hs)
  · rw [if_neg (by decide)]
    exact fun hs => loops_of_yields rfl (by decide) (h n rest hlen hs)

/-- No token carries on prefix operators. -/
theorem Stops.succ_of_unary (hs : Stops Level.unary.height rest) :
    Stops (Level.unary.height + 1) rest := by
  intro t ht l hl
  have h := hs t ht l hl
  rcases Nat.lt_or_eq_of_le h with h | h
  · exact h
  · have : l ≠ .unary := by
      rintro rfl
      cases hk : t.kind <;> simp [hk, carriedOn?] at hl
    cases l <;> simp_all [Level.height]

/-- A phrase is found at the next looser level as well, unless it begins with what is taken for a
prefix operator there. -/
theorem Found.tighter (h : Found l' ts e) (hl : l.tighter? = some l')
    (hp : l = .unary → ∃ t r, ts = t :: r ∧ t.kind ∉ [TokenKind.bang, .minus]) :
    Found l ts e := by
  intro n rest hlen
  have hheight := Level.height_of_tighter? hl
  have hrest : rest.length ≤ n := by
    rw [List.length_append] at hlen
    omega
  split
  · next ha =>
    -- no equals sign comes next, and the target stands for itself
    subst ha
    cases hl
    intro hs
    refine (h.yields hlen (hs.mono (Nat.le_succ _))).finish ?_
    refine yields_accept_bind_none (fun t ht hk => ?_) yields_pure
    have := hs t ht .assignment (by rw [List.mem_singleton.mp hk]; rfl)
    exact absurd this (Nat.not_succ_le_self _)
  · next ha =>
    intro hs
    refine loops_of_tighter hl ha (h.yields hlen (hheight ▸ hs)) hrest fun hu t ht => ?_
    obtain ⟨t', r, rfl, hk⟩ := hp hu
    cases ht
    exact hk

/-- A phrase of the level of calls is found at the level of targets of assignments. -/
theorem Found.disjunction (h : Found .call ts e)
    (hp : ∃ t r, ts = t :: r ∧ t.kind ∉ [TokenKind.bang, .minus]) : Found .disjunction ts e := by
  have hunary := h.tighter (l := .unary) rfl fun _ => hp
  have hfactor := hunary.tighter (l := .factor) rfl nofun
  have hterm := hfactor.tighter (l := .term) rfl nofun
  have hcomparison := hterm.tighter (l := .comparison) rfl nofun
  have hequality := hcomparison.tighter (l := .equality) rfl nofun
  have hconjunction := hequality.tighter (l := .conjunction) rfl nofun
  exact hconjunction.tighter rfl nofun

theorem found_reference {name : Token} (hk : name.kind = .identifier) :
    Found .primary [name] (.reference ⟨name, ()⟩) :=
  found_of_yields (.inr rfl) fun _ _ _ _ =>
    yields_dispatch_some (by simp only [hk]) yields_pure

theorem Found.property {dot name : Token} {object : Expr Blank} (h : Found .call ts object)
    (hd : dot.kind = .dot) (hname : name.kind = .identifier) :
    Found .call (ts ++ [dot, name]) (.property object name) := by
  intro n rest hlen
  rw [if_neg (by decide)]
  intro hs
  refine Loops.property hd hname (h.loops (by decide) ?_ ?_)
  · simpa using hlen
  · exact stops_operator _ (by rw [hd]; rfl)

/-- A level at which no operator can stand before the phrase. -/
theorem head_not_operator {l : Level} (h : Phrase l ts e) (hl : l.height ≤ Level.call.height) :
    ∃ t r, ts = t :: r ∧ t.kind ∉ [TokenKind.bang, .minus] := by
  obtain ⟨t, r, rfl, hk | ⟨hle, -⟩⟩ := h.head
  · refine ⟨t, r, rfl, fun hk' => ?_⟩
    simp only [List.mem_cons, List.not_mem_nil, or_false] at hk'
    rcases hk' with hk' | hk' <;> simp [hk', operandStarters] at hk
  · exact absurd (Nat.le_trans hle hl) (by decide)

/-- A target, an equals sign and a value make what the parser makes of target and value. -/
theorem found_assignment {equals : Token} {us : List Token} {target value whole : Expr Blank}
    (ht : Found .disjunction ts target) (he : equals.kind = .equal)
    (hv : Found .assignment us value) (hw : ∀ rest, Yields (match target with
      | .reference r => return .assign r value
      | .property object name => return .setProperty object name value
      | _ => do
        complain (some equals) .invalidTarget
        return target : Parse (Expr Blank)) [] whole rest) :
    Found .assignment (ts ++ equals :: us) whole := by
  intro n rest hlen
  rw [if_pos rfl]
  intro hs
  simp only [List.append_assoc, List.cons_append, List.length_append, List.length_cons] at hlen
  obtain ⟨n, rfl⟩ : ∃ m, n = m + 1 := ⟨n - 1, by omega⟩
  have htarget : Yields (levelAt (n + 1) .disjunction) ts target (equals :: us ++ rest) :=
    ht.yields (by simp only [List.cons_append, List.length_append, List.length_cons]; omega)
      (stops_operator (l := .assignment) _ (by rw [he]; rfl))
  have hvalue : Yields (expressionAt (n + 1)) us value rest :=
    hv.yields (n := n) (by simp only [List.length_append]; omega) hs
  refine htarget.bind (yields_accept_bind_some (by simp [he]) ?_)
  exact hvalue.finish (hw rest)

/-- **Completeness.** The parser of a level finds every phrase of the level. -/
theorem found_of_phrase (h : Phrase l ts e) : Found l ts e := by
  induction h using Phrase.induct with
  | @tighter l l' ts e hl h ih =>
    refine ih.tighter hl fun hu => head_not_operator h ?_
    subst hu
    cases hl
    exact Nat.le_refl _
  | @assign name equals ts value hn he h ih =>
    have hname := (found_reference hn).tighter (l := .call) rfl nofun
    have htarget := hname.disjunction ⟨name, [], rfl, by simp [hn]⟩
    exact found_assignment htarget he ih fun rest => yields_pure
  | @setProperty ts us dot name equals object value h hd hn he h' ih ih' =>
    have htarget := (ih.property hd hn).disjunction
      (head_not_operator (.property h hd hn) (Nat.le_refl _))
    have := found_assignment htarget he ih' fun rest => yields_pure
    simpa using this
  | @join l l' ts us op left right hl ho h h' ih ih' =>
    intro n rest hlen
    have hheight := Level.height_of_tighter? hl
    have ha : l ≠ .assignment := fun ha => by rw [ha] at ho; cases ho
    rw [if_neg ha]
    intro hs
    simp only [List.append_assoc, List.cons_append, List.length_append, List.length_cons] at hlen
    refine Loops.join hl ho (ih.loops ha ?_ (stops_operator _ (carriedOn?_of_mem ho))) ?_
    · simp only [List.length_append, List.cons_append, List.length_cons]
      omega
    · exact ih'.yields (by simp only [List.length_append]; omega) (hheight ▸ hs)
  | @unary op ts operand ho h ih =>
    -- the operand is of the same level, whose loop is no loop
    refine found_of_yields (.inl rfl) fun n rest hlen hs => ?_
    simp only [List.cons_append, List.length_cons, List.length_append] at hlen
    refine yields_unary ho (by simp only [List.length_append]; omega) ?_
    exact ih.yields (by simp only [List.length_append]; omega) hs.succ_of_unary
  | @call ts us opening closing callee values h ho hv hc ih ihs =>
    intro n rest hlen
    rw [if_neg (by decide)]
    intro hs
    simp only [List.append_assoc, List.cons_append, List.length_append, List.length_cons] at hlen
    -- arguments are read by the parser of expressions with a smaller bound
    have hfinds (ts : List Token) (e : Expr Blank)
        (h : ∃ _ : Expression ts e, Found .assignment ts e) :
        Expression ts e ∧ Finds (expressionAt n) n ts e := by
      obtain ⟨h, hf⟩ := h
      refine ⟨h, fun rest hlen hs => ?_⟩
      obtain ⟨n, rfl⟩ : ∃ m, n = m + 1 := ⟨n - 1, by omega⟩
      exact hf.yields (n := n) (Nat.le_of_lt_succ hlen) hs
    refine Loops.call ho (ihs.mono hfinds) hc ?_ (ih.loops (by decide) ?_ ?_)
    · simp only [List.length_append, List.length_cons]
      omega
    · simp only [List.cons_append, List.length_append, List.length_cons]
      omega
    · exact stops_operator _ (by rw [ho]; rfl)
  | property h hd hn ih => exact ih.property hd hn
  | @literal t value h =>
    refine found_of_yields (.inr rfl) fun n rest hlen hs => ?_
    refine yields_dispatch_some (p := pure (.literal value)) ?_ yields_pure
    rw [literalOf?] at h
    split at h <;> cases h <;> simp only [*]
  | inherited hk hd hm =>
    refine found_of_yields (.inr rfl) fun n rest hlen hs => ?_
    refine yields_dispatch_some (by simp only [hk]; rfl) ?_
    exact yields_expect_bind hd (yields_expect_bind hm yields_pure)
  | this hk =>
    exact found_of_yields (.inr rfl) fun n rest hlen hs =>
      yields_dispatch_some (by simp only [hk]) yields_pure
  | reference hk => exact found_reference hk
  | @grouping opening closing ts inner ho h hc ih =>
    refine found_of_yields (.inr rfl) fun n rest hlen hs => ?_
    simp only [List.append_assoc, List.cons_append, List.length_append, List.length_cons] at hlen
    obtain ⟨n, rfl⟩ : ∃ m, n = m + 1 := ⟨n - 1, by omega⟩
    refine yields_dispatch_some (by simp only [ho]; rfl) ?_
    have hinner : Yields (expressionAt (n + 1)) ts inner (closing :: rest) :=
      ih.yields (n := n) (by simp only [List.length_append, List.length_cons]; omega)
        (stops_cons _ _ (by rw [hc]; rfl))
    exact hinner.bind (yields_expect_bind hc yields_pure)

/-- Parsing an expression finds every expression that something stops. -/
theorem yields_expressionAt (h : Expression ts e) (hlen : (ts ++ rest).length < n)
    (hs : Stops (Level.assignment.height + 1) rest) : Yields (expressionAt n) ts e rest := by
  obtain ⟨n, rfl⟩ : ∃ m, n = m + 1 := ⟨n - 1, by omega⟩
  exact (found_of_phrase h).yields (n := n) (Nat.le_of_lt_succ hlen) hs

end LoxInterpreter.Parse
