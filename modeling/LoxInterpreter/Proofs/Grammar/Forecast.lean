import LoxInterpreter.Proofs.Grammar.Lookahead

/-!
# What a parser can know so far

A parser reads a word of a language `L` in front of something of a language `K`. It looks at one
token ahead, and should go on only as long as what it has read, and the token that it looks at, do
not rule out everything that could stand there.

* `GoesOn L K rest rest'` says that it was right to leave `rest'`: a word of `L` has been read, and
  everything in `L * K` that looks the same up to the next token begins with that word and goes on
  in `K`.
* `Blames L K rest token` says that it was right to stop at the token: what stands before it begins
  a word of `L`, and nothing in `L * K` looks the same up to the token.
* `Forecasts p L K` says so of all runs of `p`. It composes along `>>=` (`Forecasts.bind`), with the
  language of what comes next in place of `K`.

Only the mistakes count at which a parser unwinds, and of them the first (`firstUnwinding`).
-/

namespace LoxInterpreter

/-- A parser unwinds at the mistake. It goes on after an assignment to what cannot be written to,
and after too many parameters or arguments. -/
def SyntaxError.unwinds : SyntaxError → Bool
  | invalidTarget | tooManyParams | tooManyArguments => false
  | _ => true

/-- The first mistake at which a parser unwinds. -/
def firstUnwinding (mistakes : List SyntaxMistake) : Option SyntaxMistake :=
  mistakes.find? (·.cause.unwinds)

namespace Parse

open Grammar Computability

variable {α β : Type}

/-! ### Looking the same -/

/-- The two look the same for `n` tokens and at the next one, which may be missing. -/
def Alike (n : Nat) (us vs : List Token) : Prop :=
  us.take (n + 1) = vs.take (n + 1)

section Alike

variable {n m : Nat} {us vs ws : List Token}

theorem Alike.of_le (h : Alike n us vs) (hm : m ≤ n) : Alike m us vs := by
  have := congrArg (List.take (m + 1)) h
  rwa [List.take_take, List.take_take, Nat.min_eq_left (by omega)] at this

theorem Alike.head?_eq (h : Alike n us vs) : us.head? = vs.head? := by
  have := congrArg List.head? h
  rwa [List.head?_take, List.head?_take] at this

theorem alike_append (ws : List Token) :
    Alike (ws.length + n) (ws ++ us) (ws ++ vs) ↔ Alike n us vs := by
  rw [Alike, Alike, Nat.add_assoc, List.take_length_add_append, List.take_length_add_append,
    List.append_cancel_left_eq]

end Alike

/-! ### Being right -/

/-- A parser for `L` before `K` that started at `rest` is right to leave `rest'`. -/
def GoesOn (L K : Words) (rest rest' : List Token) : Prop :=
  ∃ read ∈ L, rest = read ++ rest' ∧
    ∀ us ∈ L * K, Alike read.length us rest → ∃ vs ∈ K, us = read ++ vs

/-- A parser for `L` before `K` that started at `rest` is right to stop at the token. -/
def Blames (L K : Words) (rest : List Token) (token : Option Token) : Prop :=
  ∃ before after, rest = before ++ after ∧ token = after.head? ∧
    (∃ more, before ++ more ∈ L) ∧ ∀ us ∈ L * K, ¬Alike before.length us rest

/-- A parser for `L` before `K` that started at `s` came to the right result. Nothing is said of
one that got stuck. -/
def Forecast (L K : Words) (s : Cursor) : EStateM.Result Halt Cursor α → Prop
  | .ok _ s' => ∃ new, s'.mistakes = s.mistakes ++ new ∧
      (∀ m ∈ firstUnwinding new, Blames L K s.rest m.token) ∧
      (firstUnwinding new = none → GoesOn L K s.rest s'.rest)
  | .error .unwound s' => ∃ new, s'.mistakes = s.mistakes ++ new ∧
      ∃ m ∈ firstUnwinding new, Blames L K s.rest m.token
  | .error .stuck _ => True

/-- From wherever it starts, the parser comes to the right result. -/
def Forecasts (p : Parse α) (L K : Words) : Prop :=
  ∀ s, Forecast L K s (p s)

variable {L L' M K : Words} {rest rest' : List Token} {token : Option Token}

/-- What is right about the tokens left is right about a result. -/
theorem Forecast.imp {K' : Words} {s s' : Cursor} {r : EStateM.Result Halt Cursor α}
    (h : Forecast L' K' s r) (hs : s'.mistakes = s.mistakes)
    (hblames : ∀ token, Blames L' K' s.rest token → Blames L K s'.rest token)
    (hgoes : ∀ rest, GoesOn L' K' s.rest rest → GoesOn L K s'.rest rest) :
    Forecast L K s' r := by
  match r, h with
  | .ok a s₁, ⟨new, hnew, hb, hg⟩ =>
    exact ⟨new, hs ▸ hnew, fun m hm => hblames _ (hb m hm), fun h => hgoes _ (hg h)⟩
  | .error .unwound s₁, ⟨new, hnew, m, hm, hb⟩ =>
    exact ⟨new, hs ▸ hnew, m, hm, hblames _ hb⟩
  | .error .stuck s₁, _ => trivial

theorem GoesOn.narrow (h : GoesOn L' K rest rest') (hL : Narrows L L' K rest) :
    GoesOn L K rest rest' := by
  obtain ⟨read, hread, hrest, hall⟩ := h
  exact ⟨read, hL.subset _ hread, hrest, fun us hus hlike =>
    hall us (hL.of_head us hus hlike.head?_eq) hlike⟩

theorem Blames.narrow (h : Blames L' K rest token) (hL : Narrows L L' K rest) :
    Blames L K rest token := by
  obtain ⟨before, after, hrest, htoken, ⟨more, hmore⟩, hall⟩ := h
  exact ⟨before, after, hrest, htoken, ⟨more, hL.subset _ hmore⟩, fun us hus hlike =>
    hall us (hL.of_head us hus hlike.head?_eq) hlike⟩

/-- A parser that is right about a part of a language is right about the whole, if the next token
rules out the rest. -/
theorem Forecast.narrow {s : Cursor} {r : EStateM.Result Halt Cursor α} (h : Forecast L' K s r)
    (hL : Narrows L L' K s.rest) : Forecast L K s r :=
  h.imp rfl (fun _ hblames => hblames.narrow hL) fun _ hgoes => hgoes.narrow hL

/-! ### Behind a token -/

theorem GoesOn.cons {t : Token} (h : GoesOn M K rest rest') (hL : Behind t L M K) :
    GoesOn L K (t :: rest) rest' := by
  obtain ⟨read, hread, rfl, hall⟩ := h
  refine ⟨t :: read, hL.cons_mem _ hread, rfl, fun us hus hlike => ?_⟩
  obtain ⟨us, rfl⟩ := List.head?_eq_some_iff.mp hlike.head?_eq
  obtain ⟨vs, hvs, rfl⟩ := hall us (hL.of_cons us hus) (by simpa [Alike] using hlike)
  exact ⟨vs, hvs, rfl⟩

theorem Blames.cons {t : Token} (h : Blames M K rest token) (hL : Behind t L M K) :
    Blames L K (t :: rest) token := by
  obtain ⟨before, after, rfl, htoken, ⟨more, hmore⟩, hall⟩ := h
  refine ⟨t :: before, after, rfl, htoken, ⟨more, hL.cons_mem _ hmore⟩, fun us hus hlike => ?_⟩
  obtain ⟨us, rfl⟩ := List.head?_eq_some_iff.mp hlike.head?_eq
  exact hall us (hL.of_cons us hus) (by simpa [Alike] using hlike)

/-- A token in front of what a parser reads. -/
theorem Forecast.cons {t : Token} {mistakes : List SyntaxMistake}
    {r : EStateM.Result Halt Cursor α} (h : Forecast M K ⟨rest, mistakes⟩ r)
    (hL : Behind t L M K) : Forecast L K ⟨t :: rest, mistakes⟩ r :=
  h.imp rfl (fun _ hblames => hblames.cons hL) fun _ hgoes => hgoes.cons hL

/-! ### One parser after the other -/

theorem GoesOn.trans {rest'' : List Token} (h : GoesOn L (M * K) rest rest')
    (h' : GoesOn M K rest' rest'') : GoesOn (L * M) K rest rest'' := by
  obtain ⟨read, hread, rfl, hall⟩ := h
  obtain ⟨read', hread', rfl, hall'⟩ := h'
  refine ⟨read ++ read', Language.append_mem_mul hread hread', by simp, fun us hus hlike => ?_⟩
  rw [mul_assoc] at hus
  rw [List.length_append] at hlike
  obtain ⟨vs, hvs, rfl⟩ := hall us hus (hlike.of_le (Nat.le_add_right _ _))
  obtain ⟨ws, hws, rfl⟩ := hall' vs hvs ((alike_append read).mp hlike)
  exact ⟨ws, hws, by simp⟩

theorem GoesOn.blames (h : GoesOn L (M * K) rest rest') (h' : Blames M K rest' token) :
    Blames (L * M) K rest token := by
  obtain ⟨read, hread, rfl, hall⟩ := h
  obtain ⟨before, after, rfl, htoken, ⟨more, hmore⟩, hall'⟩ := h'
  refine ⟨read ++ before, after, by simp, htoken, ⟨more, ?_⟩, fun us hus hlike => ?_⟩
  · rw [List.append_assoc]
    exact Language.append_mem_mul hread hmore
  · rw [mul_assoc] at hus
    rw [List.length_append] at hlike
    obtain ⟨vs, hvs, rfl⟩ := hall us hus (hlike.of_le (Nat.le_add_right _ _))
    exact hall' vs hvs ((alike_append read).mp hlike)

/-- Where the first parser stopped, the whole had to, if there is anything for the second. -/
theorem Blames.mul (h : Blames L (M * K) rest token) (hM : Possible M) :
    Blames (L * M) K rest token := by
  obtain ⟨before, after, hrest, htoken, ⟨more, hmore⟩, hall⟩ := h
  obtain ⟨ms, hms⟩ := hM
  refine ⟨before, after, hrest, htoken, ⟨more ++ ms, ?_⟩, fun us hus => hall us ?_⟩
  · rw [← List.append_assoc]
    exact Language.append_mem_mul hmore hms
  · rwa [← mul_assoc]

theorem firstUnwinding_append (ms ms' : List SyntaxMistake) :
    firstUnwinding (ms ++ ms') = (firstUnwinding ms).or (firstUnwinding ms') :=
  List.find?_append

/-- **Sequencing.** What comes behind the first parser is what the second reads, and then the
rest. -/
theorem Forecasts.bind {p : Parse α} {f : α → Parse β} (hp : Forecasts p L (M * K))
    (hf : ∀ a, Forecasts (f a) M K) (hM : Possible M) : Forecasts (p >>= f) (L * M) K := by
  intro s
  show Forecast (L * M) K s (EStateM.bind p f s)
  rw [EStateM.bind]
  match p s, hp s with
  | .error .stuck s', _ => trivial
  | .error .unwound s', ⟨new, hnew, m, hm, hblames⟩ => exact ⟨new, hnew, m, hm, hblames.mul hM⟩
  | .ok a s₁, ⟨new, hnew, hblames, hgoes⟩ =>
    dsimp only
    match f a s₁, hf a s₁ with
    | .error .stuck s', _ => trivial
    | .error .unwound s₂, ⟨new', hnew', m', hm', hblames'⟩ =>
      refine ⟨new ++ new', by rw [hnew', hnew, List.append_assoc], ?_⟩
      rw [firstUnwinding_append]
      cases hfirst : firstUnwinding new with
      | some m => exact ⟨m, rfl, (hblames m hfirst).mul hM⟩
      | none => exact ⟨m', hm', (hgoes hfirst).blames hblames'⟩
    | .ok b s₂, ⟨new', hnew', hblames', hgoes'⟩ =>
      refine ⟨new ++ new', by rw [hnew', hnew, List.append_assoc], ?_⟩
      rw [firstUnwinding_append]
      cases hfirst : firstUnwinding new with
      | some m =>
        refine ⟨fun m' hm' => ?_, fun hnone => by cases hnone⟩
        cases hm'
        exact (hblames m hfirst).mul hM
      | none =>
        exact ⟨fun m' hm' => (hgoes hfirst).blames (hblames' m' hm'),
          fun hnone => (hgoes hfirst).trans (hgoes' hnone)⟩

/-- Reading nothing is always right. -/
theorem goesOn_nil (rest : List Token) : GoesOn 1 K rest rest := by
  refine ⟨[], rfl, rfl, fun us hus _ => ⟨us, ?_, rfl⟩⟩
  rwa [one_mul] at hus

/-- What goes on has gone on at every step. -/
theorem bind_eq_ok {p : Parse α} {f : α → Parse β} {s s' : Cursor} {b : β}
    (h : (p >>= f) s = .ok b s') : ∃ a s₁, p s = .ok a s₁ ∧ f a s₁ = .ok b s' := by
  change EStateM.bind p f s = _ at h
  rw [EStateM.bind] at h
  cases hp : p s with
  | error halt s₁ =>
    rw [hp] at h
    cases h
  | ok a s₁ =>
    rw [hp] at h
    exact ⟨a, s₁, rfl, h⟩

theorem forecasts_pure (a : α) : Forecasts (pure a) 1 K := by
  refine fun s => ⟨[], (List.append_nil _).symm, by simp [firstUnwinding], fun _ => ?_⟩
  exact goesOn_nil s.rest

/-- The last parser is followed by steps that consume nothing. -/
theorem Forecasts.finish {p : Parse α} {f : α → Parse β} (hp : Forecasts p L K)
    (hf : ∀ a, Forecasts (f a) 1 K) : Forecasts (p >>= f) L K := by
  have h : Forecasts (p >>= f) (L * 1) K :=
    Forecasts.bind (by rwa [one_mul]) hf possible_one
  rwa [mul_one] at h

theorem Forecasts.map {p : Parse α} {g : α → β} (hp : Forecasts p L K) :
    Forecasts (g <$> p) L K := by
  rw [map_eq_pure_bind]
  exact hp.finish fun a => forecasts_pure (g a)

theorem forecasts_stuck : Forecasts (throw .stuck : Parse α) L K :=
  fun _ => trivial

/-! ### Steps -/

/-- A complaint at which the parser does not unwind changes nothing. -/
theorem forecasts_complain_bind {cause : SyntaxError} {f : Unit → Parse β}
    (hc : cause.unwinds = false) (hf : Forecasts (f ()) L K) (hL : Possible L) :
    Forecasts (complain token cause >>= f) L K := by
  have hcomplain : Forecasts (complain token cause) 1 (L * K) := by
    have hnone : firstUnwinding [⟨token, cause⟩] = none := by simp [firstUnwinding, hc]
    refine fun s => ⟨[⟨token, cause⟩], rfl, fun m hm => ?_, fun _ => goesOn_nil s.rest⟩
    rw [hnone] at hm
    cases hm
  rw [← one_mul L] at hf ⊢
  exact hcomplain.bind (fun _ => by rwa [one_mul] at hf) hL

/-- A look at the next token. -/
theorem forecasts_next?_bind {f : Option Token → Parse β} (hf : ∀ o, Forecasts (f o) L K) :
    Forecasts (next? >>= f) L K :=
  fun s => hf s.rest.head? s

/-- Failing is right where nothing begins with the next token. -/
theorem forecast_fail {cause : SyntaxError} {s : Cursor} (hc : cause.unwinds = true)
    (hL : Possible L) (hno : Absent (L * K) s.rest) :
    Forecast L K s (fail cause s : EStateM.Result Halt Cursor α) := by
  refine ⟨[⟨s.rest.head?, cause⟩], rfl, ⟨s.rest.head?, cause⟩, ?_, [], s.rest, rfl, rfl, hL, ?_⟩
  · simp [firstUnwinding, hc]
  · exact fun us hus hlike => hno us hus hlike.head?_eq

/-- A table of what to do with the next token. -/
theorem forecasts_dispatch {otherwise : Parse α} {table : Token → Option (Parse α)}
    (htable : ∀ t p, table t = some p → ∃ M, Behind t L M K ∧ Forecasts p M K)
    (ho : ∀ s : Cursor, (∀ t ∈ s.rest.head?, table t = none) → Forecast L K s (otherwise s)) :
    Forecasts (dispatch otherwise table) L K := by
  rintro ⟨rest, mistakes⟩
  cases rest with
  | nil => exact ho ⟨[], mistakes⟩ (by simp)
  | cons t rest =>
    rw [dispatch]
    dsimp only
    split
    · next p hp =>
      obtain ⟨M, hL, hM⟩ := htable t p hp
      exact (hM ⟨rest, mistakes⟩).cons hL
    · next hp => exact ho ⟨t :: rest, mistakes⟩ (by simpa using hp)

/-- A table with an entry for each of some alternatives. -/
theorem forecasts_dispatch_alternatives {otherwise : Parse α} {table : Token → Option (Parse α)}
    {alts : List (List TokenKind × Words)} {kinds : List TokenKind}
    (htable : ∀ t p, table t = some p → ∃ a ∈ alts, t.kind ∈ a.1 ∧ Forecasts p a.2 K)
    (ho : ∀ s : Cursor, (∀ t ∈ s.rest.head?, table t = none) →
      Forecast (alternatives alts L) K s (otherwise s))
    (hL : Begins kinds L) (hdisjoint : ((kinds, L) :: alts).Pairwise (·.1.Disjoint ·.1)) :
    Forecasts (dispatch otherwise table) (alternatives alts L) K := by
  obtain ⟨hkinds, hdisjoint⟩ := List.pairwise_cons.mp hdisjoint
  refine forecasts_dispatch (fun t p hp => ?_) ho
  obtain ⟨a, ha, ht, hforecast⟩ := htable t p hp
  refine ⟨a.2, behind_alternatives hdisjoint ha ht fun us hus => ?_, hforecast⟩
  exact absurd ht (hkinds a ha ((hL.mul K).cons_mem hus))

/-- Without such an entry the parser goes on with the last of them. -/
theorem forecasts_dispatch_or {otherwise : Parse α} {table : Token → Option (Parse α)}
    {alts : List (List TokenKind × Words)} {kinds : List TokenKind}
    (htable : ∀ t p, table t = some p → ∃ a ∈ alts, t.kind ∈ a.1 ∧ Forecasts p a.2 K)
    (hnone : ∀ t, table t = none → ∀ a ∈ alts, t.kind ∉ a.1) (ho : Forecasts otherwise L K)
    (hL : Begins kinds L) (hdisjoint : ((kinds, L) :: alts).Pairwise (·.1.Disjoint ·.1)) :
    Forecasts (dispatch otherwise table) (alternatives alts L) K := by
  refine forecasts_dispatch_alternatives htable (fun s h => (ho s).narrow ?_) hL hdisjoint
  exact narrows_alternatives fun t ht => hnone t (h t ht)

/-- Accepting a token is a table by itself. -/
theorem accept_bind_eq_dispatch (kinds : List TokenKind) (f : Option Token → Parse β) :
    accept kinds >>= f =
      dispatch (f none) fun t => if t.kind ∈ kinds then some (f (some t)) else none := by
  funext ⟨rest, mistakes⟩
  show EStateM.bind _ f _ = _
  cases rest with
  | nil => rfl
  | cons t rest =>
    simp only [EStateM.bind, accept, dispatch]
    by_cases ht : t.kind ∈ kinds <;> simp only [ht, if_true, if_false] <;> rfl

theorem forecasts_accept_bind {kinds : List TokenKind} {f : Option Token → Parse β}
    (hs : ∀ t, t.kind ∈ kinds → ∃ M, Behind t L M K ∧ Forecasts (f (some t)) M K)
    (hn : ∀ s : Cursor, (∀ t ∈ s.rest.head?, t.kind ∉ kinds) → Forecast L K s (f none s)) :
    Forecasts (accept kinds >>= f) L K := by
  rw [accept_bind_eq_dispatch]
  refine forecasts_dispatch (fun t p hp => ?_) fun s hnone => hn s fun t ht hk => ?_
  · split at hp
    · next hk =>
      cases hp
      exact hs t hk
    · cases hp
  · have := hnone t ht
    rw [if_pos hk] at this
    cases this

/-- A token of one of the kinds with something behind it, or something that does not begin with
such a token. -/
theorem forecasts_accept_or_bind {N : Words} {kinds : List TokenKind} {f : Option Token → Parse β}
    (hs : ∀ t, t.kind ∈ kinds → Forecasts (f (some t)) M K) (hn : Forecasts (f none) N K)
    (hN : ∀ t us, t.kind ∈ kinds → t :: us ∈ N * K → us ∈ M * K) :
    Forecasts (accept kinds >>= f) (oneOf kinds * M + N) K := by
  have hL : oneOf kinds * M + N = alternatives [(kinds, M)] N := rfl
  rw [hL]
  refine forecasts_accept_bind (fun t ht => ⟨M, ?_, hs t ht⟩) fun s hnone => (hn s).narrow ?_
  · exact behind_alternatives (List.pairwise_singleton _ _) List.mem_cons_self ht
      fun us => hN t us ht
  · exact narrows_alternatives fun t ht => List.forall_mem_singleton.mpr (hnone t ht)

theorem forecasts_expect {kind : TokenKind} {cause : SyntaxError} (hc : cause.unwinds = true) :
    Forecasts (expect kind cause) (oneOf [kind]) K := by
  refine forecasts_dispatch (fun t p hp => ⟨1, ?_, ?_⟩) fun s hnone => ?_
  · split at hp
    · next hk =>
      have h := behind_oneOf_mul (M := 1) (K := K) (List.mem_singleton.mpr hk)
      rwa [mul_one] at h
    · cases hp
  · split at hp <;> cases hp
    exact forecasts_pure t
  · refine forecast_fail hc (by simp) ((begins_oneOf.mul K).absent fun t ht hk => ?_)
    have := hnone t ht
    rw [if_pos (List.mem_singleton.mp hk)] at this
    cases this

theorem forecasts_expect_bind {kind : TokenKind} {cause : SyntaxError} {f : Token → Parse β}
    (hc : cause.unwinds = true) (hf : ∀ t, Forecasts (f t) M K) (hM : Possible M) :
    Forecasts (expect kind cause >>= f) (oneOf [kind] * M) K :=
  (forecasts_expect hc).bind hf hM

theorem forecasts_expect_pure {kind : TokenKind} {cause : SyntaxError} {g : Token → β}
    (hc : cause.unwinds = true) :
    Forecasts (expect kind cause >>= fun t => pure (g t)) (oneOf [kind]) K :=
  (forecasts_expect hc).finish fun t => forecasts_pure (g t)

/-- What may be left out before a token of the kind is left out if that token is next. -/
theorem forecasts_optional {kind : TokenKind} {kinds : List TokenKind} {a : α} {p : Parse α}
    (hp : Forecasts p L K) (hK : Begins [kind] K) (hL : Begins kinds L) (hk : kind ∉ kinds) :
    Forecasts (nextIs kind >>= fun b => if b then pure a else p) (L + 1) K := by
  intro s
  show Forecast _ K s ((if s.rest.head?.any (·.kind = kind) then pure a else p : Parse α) s)
  split
  · next hb =>
    refine (forecasts_pure a s).narrow (narrows_right ((hL.mul K).absent fun t ht hkt => ?_))
    rw [ht] at hb
    exact hk (of_decide_eq_true hb ▸ hkt)
  · next hb =>
    refine (hp s).narrow (narrows_left ?_)
    rw [one_mul]
    refine hK.absent fun t ht hkt => ?_
    rw [ht] at hb
    exact hb (decide_eq_true (List.mem_singleton.mp hkt))

theorem forecasts_optional_bind {kind : TokenKind} {kinds : List TokenKind} {a : α}
    {p : Parse α} {f : α → Parse β} (hp : Forecasts p L (M * K))
    (hf : ∀ a, Forecasts (f a) M K) (hM : Possible M) (hK : Begins [kind] (M * K))
    (hL : Begins kinds L) (hk : kind ∉ kinds) :
    Forecasts (nextIs kind >>= fun b => if b then pure a >>= f else p >>= f) ((L + 1) * M) K := by
  have hassoc : (nextIs kind >>= fun b => if b then pure a >>= f else p >>= f) =
      (nextIs kind >>= fun b => if b then pure a else p) >>= f := by
    rw [bind_assoc]
    exact bind_congr fun b => ite_bind b (pure a) p f
  rw [hassoc]
  exact (forecasts_optional hp hK hL hk).bind hf hM

/-- A loop is right to end where nothing that goes around it begins with the next token. -/
theorem forecast_many_nil {s : Cursor} (h : Absent (L * L∗ * K) s.rest) :
    Forecast L∗ K s ((pure [] : Parse (List α)) s) := by
  rw [← Language.one_add_self_mul_kstar_eq_kstar]
  exact (forecasts_pure [] s).narrow (narrows_left h)

/-- A loop is right to go on where nothing that comes behind it begins with the next token. -/
theorem forecast_many_cons {p : Parse α} {more : Parse (List α)} {s : Cursor}
    (hp : Forecasts p L (L∗ * K)) (hmore : Forecasts more L∗ K) (h : Absent K s.rest) :
    Forecast L∗ K s ((do
      let first ← p
      return first :: (← more) : Parse (List α)) s) := by
  have hfirst := hp.bind (f := fun first => more >>= fun others => pure (first :: others))
    (fun first => hmore.finish fun others => forecasts_pure _) possible_kstar
  rw [← Language.one_add_self_mul_kstar_eq_kstar]
  refine (hfirst s).narrow (narrows_right ?_)
  rwa [one_mul]

/-- Where a mistake is recovered from it stays the first one. -/
theorem Forecasts.recover {p : Parse (Stmt Blank)} (hp : Forecasts p L K) :
    Forecasts (recover p) L K := by
  intro s
  have h := hp s
  rw [Parse.recover]
  cases hres : p s with
  | ok a s' =>
    rw [hres] at h
    exact h
  | error halt s' =>
    rw [hres] at h
    cases halt with
    | stuck => trivial
    | unwound =>
      obtain ⟨new, hnew, m, hm, hblames⟩ := h
      refine ⟨new, hnew, fun m' hm' => ?_, fun hnone => ?_⟩
      · cases hm.symm.trans hm'
        exact hblames
      · cases hm.symm.trans hnone

end Parse

end LoxInterpreter
