import LoxInterpreter.Proofs.Accepted
import LoxInterpreter.Proofs.Grammar.Forecast
import LoxInterpreter.Proofs.Tape.Parser

/-!
# The head follows the list

A parser on a tape and its counterpart on a list are compared, from places where as much is left to
read. Either the two come to the same, or the report gives up on the tape while the other parser
goes on and finds more mistakes.

* `Stands` relates a head to a cursor, `Agree` what the two parsers come to.
* `Follows` says so of all runs of two parsers, and by how many tokens at least the head gets ahead.
  It composes along `>>=` (`Follows.bind`), and every step has its own law.
* `follows_recover` is where a failed declaration gets ahead after all: unless it has consumed a
  token already, there is one to skip.
-/

namespace LoxInterpreter.Tape

open Parse (accept_bind_eq_dispatch dispatch expect fail nextIs next? resume resumeAfter
  beginsStatement)

variable {α β : Type}

/-! ### Recording -/

/-- Record mistakes. One at the end is blamed on the token that stands for the end. -/
def record (eof : Token) (mistakes : List SyntaxMistake) : Reporting Unit :=
  mistakes.forM fun m => Reporting.error (m.token.getD eof) m.cause.message

theorem record_append (eof : Token) (ms ms' : List SyntaxMistake) :
    record eof (ms ++ ms') = record eof ms >>= fun _ => record eof ms' :=
  List.forM_append

/-- A mistake more is recorded after the others. -/
theorem record_concat {eof : Token} {ms : List SyntaxMistake} {r r' : Report}
    (h : record eof ms r = .ok () r') (m : SyntaxMistake) :
    record eof (ms ++ [m]) r = Reporting.error (m.token.getD eof) m.cause.message r' := by
  rw [record_append, Reporting.bind_of_eq_ok h]
  exact congrFun (bind_pure (Reporting.error (m.token.getD eof) m.cause.message)) r'

/-- What comes after giving up is not recorded. -/
theorem record_of_more {eof : Token} {ms ms' : List SyntaxMistake} {r r' : Report}
    {reason : GivingUp} (h : record eof ms r = .error reason r') (hms : ms <+: ms') :
    record eof ms' r = .error reason r' := by
  obtain ⟨more, rfl⟩ := hms
  rw [record_append, Reporting.bind_of_eq_error h]

/-- Reporting a mistake gives up for one reason only. -/
theorem error_ok_or_full (token : Token) (message : String) (r : Report) :
    (∃ r', Reporting.error token message r = .ok () r') ∨
      ∃ r', Reporting.error token message r = .error .tooManyIssues r' := by
  rw [Reporting.error_eq, Reporting.issue_eq]
  split
  · exact .inr ⟨_, rfl⟩
  · exact .inl ⟨_, rfl⟩

/-! ### Where the two stand -/

/-- What is on the tape, and the report at the beginning. Only the last token stands for the end. -/
structure Setting where
  body : List Token
  eof : Token
  report : Report
  kind_body : ∀ t ∈ body, t.kind ≠ .endOfText
  kind_eof : eof.kind = .endOfText

variable {S : Setting}

variable (S) in
/-- The head has as much left to read as the cursor, and has reported the same mistakes. -/
structure Stands (s : Head) (c : Cursor) : Prop where
  tokens : s.tokens = S.body ++ [S.eof]
  rest : c.rest = S.body.drop s.position
  position_le : s.position ≤ S.body.length
  recorded : record S.eof c.mistakes S.report = .ok () s.report
  orderly : s.Orderly S.body.length

variable (S) in
/-- The report gave up among the mistakes. -/
structure GaveUp (mistakes : List SyntaxMistake) (s : Head) : Prop where
  recorded : record S.eof mistakes S.report = .error .tooManyIssues s.report
  position_le : s.position ≤ S.body.length
  orderly : s.Orderly S.body.length

theorem GaveUp.of_more {ms ms' : List SyntaxMistake} {s : Head} (h : GaveUp S ms s)
    (hms : ms <+: ms') : GaveUp S ms' s :=
  ⟨record_of_more h.recorded hms, h.position_le, h.orderly⟩

/-- The token has just been consumed. -/
structure Head.Behind (t : Token) (s : Head) : Prop where
  position_pos : 0 < s.position
  getElem? : s.tokens[s.position - 1]? = some t

/-- The head after it has consumed a token. -/
def Head.advanced (s : Head) : Head :=
  { s with
    position := s.position + 1
    log := .consulted (s.position + 1) :: .moved (s.position + 1) :: s.log }

/-- An entry about the present place. -/
theorem Head.Orderly.note {last : Nat} {s : Head} {e : Entry} (h : s.Orderly last)
    (he : e.Proper last) (hpos : e.position = s.position) :
    ({ s with log := e :: s.log } : Head).Orderly last where
  proper := List.forall_mem_cons.mpr ⟨he, h.proper⟩
  forward := by
    rw [List.map_cons, hpos]
    refine List.pairwise_cons.mpr ⟨?_, h.forward⟩
    exact List.forall_mem_cons.mpr ⟨Nat.le_refl _, (List.pairwise_cons.mp h.forward).1⟩

/-- The log stays as it is while the head moves on. -/
theorem Head.Orderly.forward_of_le {last n : Nat} {s : Head} (h : s.Orderly last)
    (hn : s.position ≤ n) : ({ s with position := n } : Head).Orderly last where
  proper := h.proper
  forward := by
    obtain ⟨hhead, htail⟩ := List.pairwise_cons.mp h.forward
    exact List.pairwise_cons.mpr ⟨fun p hp => Nat.le_trans (hhead p hp) hn, htail⟩

theorem Head.Orderly.advanced {last : Nat} {s : Head} (h : s.Orderly last)
    (hlt : s.position < last) : s.advanced.Orderly last :=
  (((h.forward_of_le (Nat.le_succ _)).note (e := .moved (s.position + 1)) hlt rfl).note
    (e := .consulted (s.position + 1)) (Nat.succ_pos _) rfl)

namespace Stands

variable {s : Head} {c : Cursor} {t : Token} {rest : List Token}

/-- The token at the head is the next one, or else stands for the end. -/
theorem getElem?_position (h : Stands S s c) :
    s.tokens[s.position]? = some (c.rest.head?.getD S.eof) := by
  rw [h.tokens, h.rest, List.head?_drop]
  cases ht : S.body[s.position]? with
  | some t =>
    obtain ⟨hlt, -⟩ := List.getElem?_eq_some_iff.mp ht
    rw [List.getElem?_append_left hlt, ht, Option.getD_some]
  | none =>
    have hle := List.getElem?_eq_none_iff.mp ht
    rw [Nat.le_antisymm h.position_le hle, List.getElem?_concat_length, Option.getD_none]

theorem position_lt (h : Stands S s c) (hc : c.rest = t :: rest) :
    s.position < S.body.length := by
  rw [h.rest] at hc
  exact Nat.lt_of_not_le fun hle => by simp [List.drop_eq_nil_of_le hle] at hc

theorem position_eq (h : Stands S s c) (hc : c.rest = []) : s.position = S.body.length := by
  rw [h.rest] at hc
  exact Nat.le_antisymm h.position_le (List.drop_eq_nil_iff.mp hc)

theorem kind_ne (h : Stands S s c) (hc : c.rest = t :: rest) : t.kind ≠ .endOfText := by
  refine S.kind_body t (List.drop_subset s.position S.body ?_)
  rw [← h.rest, hc]
  exact List.mem_cons_self

theorem advanced (h : Stands S s c) (hc : c.rest = t :: rest) :
    Stands S s.advanced { c with rest } where
  tokens := h.tokens
  rest := by
    show rest = S.body.drop (s.position + 1)
    rw [← List.drop_drop, ← h.rest, hc]
    rfl
  position_le := h.position_lt hc
  recorded := h.recorded
  orderly := h.orderly.advanced (h.position_lt hc)

theorem behind_advanced (h : Stands S s c) (hc : c.rest = t :: rest) : s.advanced.Behind t where
  position_pos := Nat.succ_pos _
  getElem? := by
    have ht := h.getElem?_position
    rw [hc] at ht
    exact ht

theorem note {e : Entry} (h : Stands S s c) (he : e.Proper S.body.length)
    (hpos : e.position = s.position) : Stands S { s with log := e :: s.log } c :=
  ⟨h.tokens, h.rest, h.position_le, h.recorded, h.orderly.note he hpos⟩

/-! ### Looking and moving -/

theorem tokenAt_eq {i : Nat} (h : s.tokens[i]? = some t) : tokenAt i s = .ok t s := by
  rw [tokenAt, h]

theorem peek_eq (h : Stands S s c) : peek s = .ok (c.rest.head?.getD S.eof) s :=
  tokenAt_eq h.getElem?_position

theorem atEnd_eq (h : Stands S s c) : atEnd s = .ok c.rest.isEmpty s := by
  show EStateM.bind peek _ s = _
  rw [EStateM.bind, h.peek_eq]
  cases hc : c.rest with
  | nil => exact congrArg (EStateM.Result.ok · s) (decide_eq_true S.kind_eof)
  | cons t rest => exact congrArg (EStateM.Result.ok · s) (decide_eq_false (h.kind_ne hc))

theorem check_eq (h : Stands S s c) (kind : TokenKind) :
    check kind s = .ok (c.rest.head?.any (·.kind = kind)) s := by
  show EStateM.bind atEnd _ s = _
  rw [EStateM.bind, h.atEnd_eq]
  cases hc : c.rest with
  | nil => rfl
  | cons t rest =>
    show EStateM.bind peek _ s = _
    rw [EStateM.bind, h.peek_eq, hc]
    rfl

/-- The token just consumed is the one that is found by looking back. -/
theorem previous_eq (hs : s.Behind t) :
    previous s = .ok t { s with log := .consulted s.position :: s.log } := by
  show tokenAt (if s.position = 0 then s.tokens.length - 1 else s.position - 1) _ = _
  rw [if_neg (Nat.pos_iff_ne_zero.mp hs.position_pos)]
  exact tokenAt_eq hs.getElem?

theorem advance_eq (h : Stands S s c) (hc : c.rest = t :: rest) :
    advance s = .ok t s.advanced := by
  show EStateM.bind atEnd _ s = _
  rw [EStateM.bind, h.atEnd_eq, hc]
  exact previous_eq (s := { s with position := s.position + 1, log := _ :: s.log })
    ⟨Nat.succ_pos _, (h.behind_advanced hc).getElem?⟩

/-- At the end the head stays where it is. -/
theorem advance_eq_of_nil (h : Stands S s c) (hc : c.rest = []) (hs : s.Behind t) :
    advance s = .ok t { s with log := .consulted s.position :: s.log } := by
  show EStateM.bind atEnd _ s = _
  rw [EStateM.bind, h.atEnd_eq, hc]
  exact previous_eq hs

theorem accept_eq_of_nil (h : Stands S s c) (hc : c.rest = []) (kinds : List TokenKind) :
    accept kinds s = .ok false s := by
  induction kinds with
  | nil => rfl
  | cons kind kinds ih =>
    show EStateM.bind (check kind) _ s = _
    rw [EStateM.bind, h.check_eq, hc]
    exact ih

theorem accept_eq (h : Stands S s c) (hc : c.rest = t :: rest) (kinds : List TokenKind) :
    accept kinds s = if t.kind ∈ kinds then .ok true s.advanced else .ok false s := by
  induction kinds with
  | nil => rfl
  | cons kind kinds ih =>
    show EStateM.bind (check kind) _ s = _
    rw [EStateM.bind, h.check_eq, hc]
    by_cases hk : t.kind = kind
    · rw [if_pos (by rw [hk]; exact List.mem_cons_self)]
      show (if decide (t.kind = kind) = true then _ else _ : Reader Bool) s = _
      rw [if_pos (decide_eq_true hk)]
      show EStateM.bind advance _ s = _
      rw [EStateM.bind, h.advance_eq hc]
      rfl
    · show (if decide (t.kind = kind) = true then _ else _ : Reader Bool) s = _
      rw [if_neg (by simpa using hk), ih]
      simp only [List.mem_cons, hk, false_or]

end Stands

/-! ### What the two come to -/

/-- The mistakes written down when a parser came to an end. -/
def mistakesOf : EStateM.Result Halt Cursor α → List SyntaxMistake
  | .ok _ c | .error _ c => c.mistakes

variable (S) in
/-- The two parsers came to the same, and the head got ahead of `start`, by `k` tokens at least where
there is a value. Or the report gave up, while the other parser came to something with more
mistakes. Nothing is said of a parser that got stuck. -/
inductive Agree (start k : Nat) :
    EStateM.Result Halt Cursor α → EStateM.Result Stop Head α → Prop
  | ok {a : α} {c : Cursor} {s : Head} (h : Stands S s c) (ahead : start + k ≤ s.position) :
    Agree start k (.ok a c) (.ok a s)
  | unwound {c : Cursor} {s : Head} (h : Stands S s c) (ahead : start ≤ s.position) :
    Agree start k (.error .unwound c) (.error .unwound s)
  | gaveUp {r : EStateM.Result Halt Cursor α} {s : Head} (h : GaveUp S (mistakesOf r) s) :
    Agree start k r (.error (.givingUp .tooManyIssues) s)
  | stuck {c : Cursor} {r : EStateM.Result Stop Head α} : Agree start k (.error .stuck c) r

/-- Less may be said of how far the head got ahead. -/
theorem Agree.mono {start start' k k' : Nat} {r : EStateM.Result Halt Cursor α}
    {r' : EStateM.Result Stop Head α} (h : Agree S start' k' r r') (hstart : start ≤ start')
    (hk : start + k ≤ start' + k') : Agree S start k r r' := by
  cases h with
  | ok h ahead => exact .ok h (hk.trans ahead)
  | unwound h ahead => exact .unwound h (hstart.trans ahead)
  | gaveUp h => exact .gaveUp h
  | stuck => exact .stuck

/-- One parser after the other. -/
theorem Agree.bind {start j k : Nat} {p : Parse α} {q : Reader α} {f : α → Parse β}
    {g : α → Reader β} {c : Cursor} {s : Head} (h : Agree S start j (p c) (q s))
    (hextends : ∀ a c, c.mistakes <+: mistakesOf (f a c))
    (hf : ∀ a c s, Stands S s c → start + j ≤ s.position →
      Agree S s.position (k - j) (f a c) (g a s)) :
    Agree S start k ((p >>= f) c) ((q >>= g) s) := by
  show Agree S start k (EStateM.bind p f c) (EStateM.bind q g s)
  rw [EStateM.bind, EStateM.bind]
  generalize p c = r at h
  generalize q s = r' at h
  cases h with
  | ok h ahead => exact (hf _ _ _ h ahead).mono (by omega) (by omega)
  | unwound h ahead => exact .unwound h ahead
  | gaveUp h =>
    -- the parser on the list goes on, and keeps the mistakes that filled the report
    cases r with
    | ok a c => exact .gaveUp (h.of_more (hextends a c))
    | error halt c => exact .gaveUp h
  | stuck => exact .stuck

variable (S) in
/-- From wherever the two stand with `P`, they agree on what they come to. -/
structure Follows (P : Head → Prop) (k : Nat) (p : Parse α) (q : Reader α) : Prop where
  extends_mistakes (c : Cursor) : c.mistakes <+: mistakesOf (p c)
  agree {s : Head} {c : Cursor} (h : Stands S s c) (hs : P s) : Agree S s.position k (p c) (q s)

variable (S) in
/-- From wherever the two stand, they agree on what they come to. -/
abbrev Tracks (k : Nat) (p : Parse α) (q : Reader α) : Prop :=
  Follows S (fun _ => True) k p q

namespace Follows

variable {P : Head → Prop} {j k : Nat} {p : Parse α} {q : Reader α} {f : α → Parse β}
  {g : α → Reader β}

theorem any (h : Tracks S k p q) : Follows S P k p q :=
  ⟨h.extends_mistakes, fun hs _ => h.agree hs trivial⟩

theorem weaken (h : Follows S P j p q) (hk : k ≤ j) : Follows S P k p q :=
  ⟨h.extends_mistakes, fun hs hP => (h.agree hs hP).mono (Nat.le_refl _) (Nat.add_le_add_left hk _)⟩

protected theorem pure (a : α) : Follows S P 0 (pure a) (pure a) :=
  ⟨fun _ => List.prefix_refl _, fun h _ => .ok h (Nat.le_refl _)⟩

theorem stuck : Follows S P k (throw .stuck : Parse α) q :=
  ⟨fun _ => List.prefix_refl _, fun _ _ => .stuck⟩

theorem extends_bind (h : ∀ c, c.mistakes <+: mistakesOf (p c))
    (hf : ∀ a c, c.mistakes <+: mistakesOf (f a c)) (c : Cursor) :
    c.mistakes <+: mistakesOf ((p >>= f) c) := by
  have hc := h c
  show _ <+: mistakesOf (EStateM.bind p f c)
  rw [EStateM.bind]
  generalize p c = r at hc
  cases r with
  | ok a c' => exact hc.trans (hf a c')
  | error halt c' => exact hc

/-- **Sequencing.** -/
protected theorem bind (h : Follows S P j p q) (hf : ∀ a, Tracks S (k - j) (f a) (g a)) :
    Follows S P k (p >>= f) (q >>= g) where
  extends_mistakes := extends_bind h.extends_mistakes fun a => (hf a).extends_mistakes
  agree hs hP := (h.agree hs hP).bind (fun a => (hf a).extends_mistakes)
    fun a _ _ h _ => (hf a).agree h trivial

protected theorem map (h : Follows S P k p q) (f : α → β) : Follows S P k (f <$> p) (f <$> q) := by
  rw [← bind_pure_comp, ← bind_pure_comp]
  refine h.bind fun a => ?_
  rw [Nat.sub_self]
  exact .pure (f a)

/-- A choice with something behind it. -/
theorem ite_bind {b : Bool} {p' : Parse α} {q' : Reader α} (h : Follows S P j p q)
    (h' : Follows S P j p' q') (hf : ∀ a, Tracks S (k - j) (f a) (g a)) :
    Follows S P k (if b then p >>= f else p' >>= f) (if b then q >>= g else q' >>= g) := by
  cases b with
  | true => exact h.bind hf
  | false => exact h'.bind hf

end Follows

/-! ### Steps -/

section Steps

variable {P : Head → Prop} {k : Nat}

/-- A look at the next token, at the end at the one that stands for it. -/
theorem follows_peek_bind {f : Option Token → Parse β} {g : Token → Reader β}
    (h : ∀ o, Follows S P k (f o) (g (o.getD S.eof))) :
    Follows S P k (next? >>= f) (peek >>= g) where
  extends_mistakes c := (h c.rest.head?).extends_mistakes c
  agree {s c} hs hP := by
    show Agree S s.position k (f c.rest.head? c) (EStateM.bind peek g s)
    rw [EStateM.bind, hs.peek_eq]
    exact (h _).agree hs hP

theorem follows_check_bind {kind : TokenKind} {f : Bool → Parse β} {g : Bool → Reader β}
    (h : ∀ b, Follows S P k (f b) (g b)) :
    Follows S P k (nextIs kind >>= f) (check kind >>= g) where
  extends_mistakes c :=
    (h (c.rest.head?.any fun t : Token => t.kind = kind)).extends_mistakes c
  agree {s c} hs hP := by
    show Agree S s.position k (f (c.rest.head?.any fun t => t.kind = kind) c)
      (EStateM.bind (check kind) g s)
    rw [EStateM.bind, hs.check_eq]
    exact (h _).agree hs hP

/-- A look back at the token that has just been consumed. -/
theorem follows_previous_bind {t : Token} {p : Parse β} {g : Token → Reader β}
    (h : Follows S (Head.Behind t) k p (g t)) :
    Follows S (Head.Behind t) k p (previous >>= g) where
  extends_mistakes := h.extends_mistakes
  agree {s c} hs ht := by
    show Agree S s.position k (p c) (EStateM.bind previous g s)
    rw [EStateM.bind, Stands.previous_eq ht]
    exact h.agree (hs.note (e := .consulted s.position) ht.position_pos rfl) ⟨ht.1, ht.2⟩

/-- A mistake is written down on the list, and reported on the tape. -/
theorem tracks_error (token : Option Token) (cause : SyntaxError) :
    Tracks S 0 (Parse.complain token cause) (error (token.getD S.eof) cause) where
  extends_mistakes c := List.prefix_append _ _
  agree {s c} hs _ := by
    show Agree S s.position 0 (.ok () { c with mistakes := c.mistakes ++ [⟨token, cause⟩] }) _
    have hrecord := record_concat hs.recorded ⟨token, cause⟩
    rw [error]
    rcases error_ok_or_full (token.getD S.eof) cause.message s.report with
      ⟨r', hr⟩ | ⟨r', hr⟩
    · rw [hr]
      exact .ok ⟨hs.tokens, hs.rest, hs.position_le, hrecord.trans hr, hs.orderly.1, hs.orderly.2⟩
        (Nat.le_refl _)
    · rw [hr]
      exact .gaveUp ⟨hrecord.trans hr, hs.position_le, hs.orderly.1, hs.orderly.2⟩

theorem tracks_raise (cause : SyntaxError) : Tracks S k (fail cause : Parse α) (raise cause) :=
  follows_peek_bind fun o => (tracks_error o cause).bind fun _ =>
    ⟨fun _ => List.prefix_refl _, fun h _ => .unwound h (Nat.le_refl _)⟩

theorem raise_bind (cause : SyntaxError) (g : α → Reader β) :
    raise cause >>= g = raise cause := by
  rw [raise, bind_assoc]
  refine congrArg (peek >>= ·) (funext fun t => ?_)
  exact bind_assoc _ _ _

/-- A table of what to do with the next token, and a row of alternatives. -/
theorem follows_choose {other : Parse α} {other' : Reader α} {table : Token → Option (Parse α)}
    {alternatives : List (List TokenKind × Reader α)} (hother : Follows S P k other other')
    (htable : ∀ t, Option.Rel (Follows S (Head.Behind t) (k - 1)) (table t)
      ((alternatives.find? fun a => t.kind ∈ a.1).map Prod.snd)) :
    Follows S P k (dispatch other table) (choose other' alternatives) where
  extends_mistakes c := by
    rw [dispatch]
    cases hc : c.rest with
    | nil => exact hother.extends_mistakes c
    | cons t rest =>
      have hentry := htable t
      dsimp only
      generalize table t = entry at hentry ⊢
      generalize Option.map Prod.snd _ = entry' at hentry
      cases hentry with
      | none => exact hother.extends_mistakes c
      | some h => exact h.extends_mistakes { c with rest }
  agree {s c} hs hP := by
    have hchoose (as : List (List TokenKind × Reader α)) : choose other' as s =
        (c.rest.head?.bind fun t => as.find? fun a => t.kind ∈ a.1).elim (other' s)
          fun a => a.2 s.advanced := by
      induction as with
      | nil => cases c.rest <;> rfl
      | cons a as ih =>
        show EStateM.bind (accept a.1) _ s = _
        rw [EStateM.bind]
        cases hc : c.rest with
        | nil =>
          rw [hs.accept_eq_of_nil hc]
          rw [hc] at ih
          exact ih
        | cons t rest =>
          rw [hs.accept_eq hc, List.head?_cons, Option.bind_some, List.find?_cons]
          rw [hc, List.head?_cons, Option.bind_some] at ih
          by_cases ht : t.kind ∈ a.1
          · rw [if_pos ht, decide_eq_true ht]
            rfl
          · rw [if_neg ht, decide_eq_false ht]
            exact ih
    rw [dispatch, hchoose]
    cases hc : c.rest with
    | nil => exact hother.agree hs hP
    | cons t rest =>
      have hentry := htable t
      rw [List.head?_cons, Option.bind_some]
      dsimp only
      generalize table t = entry at hentry ⊢
      generalize alternatives.find? (fun a => t.kind ∈ a.1) = found at hentry ⊢
      cases found with
      | none =>
        cases hentry
        exact hother.agree hs hP
      | some a =>
        cases hentry with
        | some h =>
          refine (h.agree (hs.advanced hc) (hs.behind_advanced hc)).mono (Nat.le_succ _) ?_
          show s.position + k ≤ s.position + 1 + (k - 1)
          omega

theorem follows_accept_bind {kinds : List TokenKind} {f : Option Token → Parse β}
    {q q' : Reader β} (hs : ∀ t, Follows S (Head.Behind t) (k - 1) (f (some t)) q)
    (hn : Follows S P k (f none) q') :
    Follows S P k (Parse.accept kinds >>= f) (accept kinds >>= fun b => if b then q else q') := by
  rw [accept_bind_eq_dispatch]
  show Follows S P k _ (choose q' [(kinds, q)])
  refine follows_choose hn fun t => ?_
  by_cases ht : t.kind ∈ kinds
  · rw [if_pos ht, List.find?_cons, decide_eq_true ht]
    exact .some (hs t)
  · rw [if_neg ht, List.find?_cons, decide_eq_false ht]
    exact .none

theorem follows_consume_bind {kind : TokenKind} {cause : SyntaxError} {f : Token → Parse β}
    {g : Token → Reader β} (h : ∀ t, Follows S (Head.Behind t) (k - 1) (f t) (g t)) :
    Follows S P k (expect kind cause >>= f) (consume kind cause >>= g) where
  extends_mistakes := by
    refine Follows.extends_bind (fun c => ?_) fun t => (h t).extends_mistakes
    rw [expect, dispatch]
    cases c.rest with
    | nil => exact List.prefix_append _ _
    | cons t rest =>
      dsimp only
      by_cases ht : t.kind = kind
      · rw [if_pos ht]
        exact List.prefix_refl _
      · rw [if_neg ht]
        exact List.prefix_append _ _
  agree {s c} hs hP := by
    have hraise : Agree S s.position k ((fail cause >>= f) c) ((raise cause >>= g) s) := by
      rw [raise_bind]
      exact (tracks_raise cause).agree hs trivial
    have hcheck (b : Bool) (hb : check kind s = .ok b s) : (consume kind cause >>= g) s =
        ((if b then advance else raise cause) >>= g) s := by
      show EStateM.bind (EStateM.bind (check kind) _) g s = _
      rw [EStateM.bind, EStateM.bind, hb]
      rfl
    rw [hcheck _ (hs.check_eq kind)]
    show Agree S s.position k (EStateM.bind (expect kind cause) f c) _
    rw [EStateM.bind, expect, dispatch]
    cases hc : c.rest with
    | nil => exact hraise
    | cons t rest =>
      dsimp only
      by_cases ht : t.kind = kind
      · rw [if_pos ht, List.head?_cons, Option.any_some, decide_eq_true ht, if_pos rfl]
        show Agree S s.position k (f t { c with rest }) (EStateM.bind advance g s)
        rw [EStateM.bind, hs.advance_eq hc]
        refine ((h t).agree (hs.advanced hc) (hs.behind_advanced hc)).mono (Nat.le_succ _) ?_
        show s.position + k ≤ s.position + 1 + (k - 1)
        omega
      · rw [if_neg ht, List.head?_cons, Option.any_some, decide_eq_false ht]
        exact hraise

end Steps

/-! ### Recovery -/

namespace Stands

variable {s : Head} {c : Cursor} {last : Token} {n : Nat}

theorem exists_behind (hs : Stands S s c) (h : 0 < s.position) : ∃ t, s.Behind t := by
  have hlt : s.position - 1 < s.tokens.length := by
    have hle := hs.position_le
    rw [hs.tokens, List.length_append, List.length_singleton]
    omega
  exact ⟨_, h, List.getElem?_eq_getElem hlt⟩

/-- The head skips the tokens that resuming drops from the list. -/
theorem skip_eq (hs : Stands S s c) (ht : s.Behind last) (hn : c.rest.length < n) :
    ∃ s', skip n s = .ok () s' ∧ Stands S s' { c with rest := resumeAfter last c.rest } ∧
      s.position ≤ s'.position := by
  induction n generalizing s c last with
  | zero => exact absurd hn (Nat.not_lt_zero _)
  | succ n ih =>
    have hend : skip (n + 1) s = if c.rest.isEmpty then .ok () s else
        EStateM.bind previous (fun t => if t.kind = .semicolon then pure () else
          EStateM.bind peek fun u => if beginsStatement u.kind then pure () else
            EStateM.bind advance fun _ => skip n) s := by
      show EStateM.bind atEnd _ s = _
      rw [EStateM.bind, hs.atEnd_eq]
      cases c.rest.isEmpty <;> rfl
    rw [hend]
    cases hc : c.rest with
    | nil =>
      refine ⟨s, rfl, ?_, Nat.le_refl _⟩
      show Stands S s ⟨[], c.mistakes⟩
      rw [← hc]
      exact hs
    | cons t rest =>
      -- the look back is in the log from here on
      have hs₁ := hs.note (e := .consulted s.position) ht.position_pos rfl
      rw [List.isEmpty_cons, if_neg Bool.false_ne_true, EStateM.bind, previous_eq ht]
      dsimp only
      rw [resumeAfter]
      by_cases hstop : last.kind = .semicolon
      · rw [if_pos hstop, if_pos (.inl hstop), ← hc]
        exact ⟨_, rfl, hs₁, Nat.le_refl _⟩
      rw [if_neg hstop, EStateM.bind, hs₁.peek_eq, hc]
      dsimp only [List.head?_cons, Option.getD_some]
      by_cases hbegins : beginsStatement t.kind
      · rw [if_pos hbegins, if_pos (.inr hbegins), ← hc]
        exact ⟨_, rfl, hs₁, Nat.le_refl _⟩
      rw [if_neg hbegins, EStateM.bind, hs₁.advance_eq hc, if_neg (not_or.mpr ⟨hstop, hbegins⟩)]
      have hlength : rest.length < n := by
        rw [hc, List.length_cons] at hn
        omega
      obtain ⟨s', hskip, hs', hle⟩ := ih (hs₁.advanced hc) (hs₁.behind_advanced hc) hlength
      exact ⟨s', hskip, hs', Nat.le_trans (Nat.le_succ _) hle⟩

/-- **Progress.** The head skips a token at least, unless it is at the end. -/
theorem synchronize_eq (hs : Stands S s c) (hpos : c.rest = [] → 0 < s.position) :
    ∃ s', synchronize s = .ok () s' ∧ Stands S s' { c with rest := resume c.rest } ∧
      min (s.position + 1) S.body.length ≤ s'.position := by
  have hafter {t : Token} {s₁ : Head} {c₁ : Cursor} (hadvance : advance s = .ok t s₁)
      (hs₁ : Stands S s₁ c₁) (ht : s₁.Behind t) : ∃ s', synchronize s = .ok () s' ∧
      Stands S s' { c₁ with rest := resumeAfter t c₁.rest } ∧ s₁.position ≤ s'.position := by
    have hn : c₁.rest.length < s₁.tokens.length := by
      rw [hs₁.rest, hs₁.tokens, List.length_drop, List.length_append, List.length_singleton]
      omega
    obtain ⟨s', hskip, h⟩ := hs₁.skip_eq ht hn
    refine ⟨s', ?_, h⟩
    show EStateM.bind advance _ s = _
    rw [EStateM.bind, hadvance]
    exact hskip
  cases hc : c.rest with
  | nil =>
    obtain ⟨t, ht⟩ := hs.exists_behind (hpos hc)
    obtain ⟨s', hsync, hs', hle⟩ := hafter (hs.advance_eq_of_nil hc ht)
      (hs.note (e := .consulted s.position) ht.position_pos rfl) ⟨ht.1, ht.2⟩
    rw [hc] at hs'
    exact ⟨s', hsync, hs', Nat.le_trans (Nat.min_le_right _ _) (hs.position_eq hc ▸ hle)⟩
  | cons t rest =>
    obtain ⟨s', hsync, hs', hle⟩ := hafter (hs.advance_eq hc) (hs.advanced hc)
      (hs.behind_advanced hc)
    exact ⟨s', hsync, hs', Nat.le_trans (Nat.min_le_left _ _) hle⟩

end Stands

/-- What gets ahead where it does not fail gets ahead in any case, unless it begins at the end. -/
theorem follows_recover {p : Parse (Stmt Blank)} {q : Reader (Stmt Blank)} (h : Tracks S 1 p q) :
    Follows S (fun s => s.position < S.body.length) 1 (Parse.recover p) (recover q) where
  extends_mistakes c := by
    have hc := h.extends_mistakes c
    rw [Parse.recover]
    generalize p c = r at hc
    cases r with
    | ok a c' => exact hc
    | error halt c' => cases halt <;> exact hc
  agree {s c} hs hlt := by
    have hr := h.agree hs trivial
    rw [Parse.recover, recover]
    generalize p c = r at hr
    generalize q s = r' at hr
    cases hr with
    | ok h ahead => exact .ok h ahead
    | @gaveUp r s' h =>
      cases r with
      | ok a c' => exact .gaveUp h
      | error halt c' => cases halt <;> exact .gaveUp h
    | stuck => exact .stuck
    | @unwound c' s' hs' ahead =>
      obtain ⟨s'', hsync, hs'', hle⟩ := hs'.synchronize_eq fun hc => by
        rw [hs'.position_eq hc]
        exact Nat.zero_lt_of_lt hlt
      show Agree S s.position 1 (.ok Stmt.malformed _) (EStateM.bind synchronize _ s')
      rw [EStateM.bind, hsync]
      exact .ok hs'' (Nat.le_trans (Nat.le_min.mpr ⟨Nat.succ_le_succ ahead, hlt⟩) hle)

/-! ### Loops -/

/-- **Every pass gets ahead**, if what is read in it does. A loop over the list ends where the one
over the tape does, and both end at the end of the text. -/
theorem tracks_passes {item : Parse α} {item' : Reader α} {loop : Nat → Parse (List α)}
    {ends : Cursor → Bool} {done : Reader Bool} (hzero : loop 0 = throw .stuck)
    (hsucc : ∀ n c, loop (n + 1) c =
      if ends c then .ok [] c else (item >>= fun a => loop n >>= fun as => pure (a :: as)) c)
    (hdone : ∀ s c, Stands S s c → done s = .ok (ends c) s) (hends : ∀ c, c.rest = [] → ends c)
    (hitem : Follows S (fun s => s.position < S.body.length) 1 item item') (n : Nat) :
    Tracks S 0 (loop n) (passes done item' n) := by
  induction n with
  | zero =>
    rw [hzero]
    exact .stuck
  | succ n ih =>
    have hrest (a : α) : Tracks S 0 (loop n >>= fun as => pure (a :: as))
        (passes done item' n >>= fun as => pure (a :: as)) :=
      ih.bind fun as => .pure (a :: as)
    constructor
    · intro c
      rw [hsucc]
      split
      · exact List.prefix_refl _
      · exact Follows.extends_bind hitem.extends_mistakes (fun a => (hrest a).extends_mistakes) c
    · intro s c hs _
      have hpasses : passes done item' (n + 1) s = if ends c then .ok [] s else
          (item' >>= fun a => get >>= fun s' => note (.passed s.position s'.position) >>= fun _ =>
            passes done item' n >>= fun as => pure (a :: as)) s := by
        show EStateM.bind done _ s = _
        rw [EStateM.bind, hdone s c hs]
        cases ends c <;> rfl
      rw [hsucc, hpasses]
      cases hc : ends c with
      | true => exact .ok hs (Nat.le_refl _)
      | false =>
        have hlt : s.position < S.body.length := by
          refine Nat.lt_of_le_of_ne hs.position_le fun heq => ?_
          have hnil : c.rest = [] := by rw [hs.rest, heq, List.drop_length]
          rw [hends c hnil] at hc
          cases hc
        refine (hitem.agree hs hlt).bind (fun a => (hrest a).extends_mistakes)
          fun a c' s' hs' ahead => ?_
        exact (hrest a).agree (hs'.note (e := .passed s.position s'.position) ahead rfl) trivial

end LoxInterpreter.Tape
