import LoxInterpreter.Parse.Step
import Mathlib.Data.List.Infix

/-!
# Outcomes of parsers

What can be said of a run of a parser without knowing which parser it was, and how it is put
together from what can be said of the parts.

* `Outcome s k L` holds of a result if the parser that started at `s` did not get stuck and, in case
  it went on with a value, consumed at least `k` tokens from the front, and no mistake was written
  down unless the tokens consumed, those left and the value are related by `L`. Unwinding always
  leaves a mistake behind.
* `Reads n k p L` says so of all runs of `p` from fewer than `n` tokens. It composes along `>>=`
  (`Reads.bind`), and every step of a parser has its own law (`reads_expect`, `reads_accept`, …).
-/

namespace LoxInterpreter.Parse

variable {α β : Type}

/-- A relation between the tokens that a parser consumed, those that it left, and its value. -/
abbrev Language (α : Type) := List Token → List Token → α → Prop

/-- What a parser may come to that started at `s`. -/
def Outcome (s : Cursor) (k : Nat) (L : Language α) : EStateM.Result Halt Cursor α → Prop
  | .ok a s' => ∃ read, s.rest = read ++ s'.rest ∧ k ≤ read.length ∧ s.mistakes <+: s'.mistakes ∧
      (s'.mistakes = s.mistakes → L read s'.rest a)
  | .error .unwound s' =>
      s'.rest <:+ s.rest ∧ s.mistakes <+: s'.mistakes ∧ s'.mistakes ≠ s.mistakes
  | .error .stuck _ => False

/-- From fewer than `n` tokens the parser comes to an outcome. -/
def Reads (n k : Nat) (p : Parse α) (L : Language α) : Prop :=
  ∀ s : Cursor, s.rest.length < n → Outcome s k L (p s)

/-- A list that begins with a list that begins with the whole is all of these. -/
private theorem prefix_antisymm {a b : List α} (h : a <+: b) (h' : b <+: a) : a = b :=
  h.eq_of_length (Nat.le_antisymm h.length_le h'.length_le)

/-- Less may be claimed of an outcome. -/
theorem Outcome.mono {s : Cursor} {k k' : Nat} {L L' : Language α}
    {r : EStateM.Result Halt Cursor α} (h : Outcome s k L r) (hk : k' ≤ k)
    (hL : ∀ read rest a, L read rest a → L' read rest a) : Outcome s k' L' r := by
  match r, h with
  | .ok a s', ⟨read, hrest, hlen, hm, hread⟩ =>
    exact ⟨read, hrest, hk.trans hlen, hm, fun h => hL _ _ _ (hread h)⟩
  | .error .unwound s', h => exact h

/-- A token in front of what a parser reads. -/
theorem Outcome.cons {t : Token} {rest : List Token} {mistakes : List SyntaxMistake} {k : Nat}
    {L : Language α} {r : EStateM.Result Halt Cursor α}
    (h : Outcome ⟨rest, mistakes⟩ (k - 1) (fun read rest a => L (t :: read) rest a) r) :
    Outcome ⟨t :: rest, mistakes⟩ k L r := by
  match r, h with
  | .ok a s', ⟨read, hread, hk, hm, hL⟩ =>
    refine ⟨t :: read, congrArg (t :: ·) hread, ?_, hm, hL⟩
    simp only [List.length_cons]
    omega
  | .error .unwound s', ⟨hsuff, hm, hne⟩ =>
    exact ⟨hsuff.trans (List.suffix_cons t rest), hm, hne⟩

/-- Behind a token there are fewer left. -/
private theorem lt_of_cons_lt {n m : Nat} {t : Token} {rest : List Token}
    (h : (t :: rest).length < n) (hn : n ≤ m + 1) : rest.length < m := by
  simp only [List.length_cons] at h
  omega

/-- **Sequencing.** The second parser starts where the first left off, with fewer tokens, and owes
the whole whatever the first has read. -/
theorem Outcome.bind {m k j : Nat} {s : Cursor} {p : Parse α} {f : α → Parse β} {L : Language α}
    {M : Language β} (hp : Outcome s j L (p s))
    (hf : ∀ a, Reads m (k - j) (f a)
      fun read rest b => ∀ r, L r (read ++ rest) a → M (r ++ read) rest b)
    (hm : s.rest.length < m + j) : Outcome s k M ((p >>= f) s) := by
  show Outcome s k M (EStateM.bind p f s)
  rw [EStateM.bind]
  match p s, hp with
  | .error .unwound s', h => exact h
  | .ok a s₁, ⟨r₁, hr₁, hj, hm₁, hL⟩ =>
    have hlen : s₁.rest.length < m := by
      have := congrArg List.length hr₁
      simp only [List.length_append] at this
      omega
    have h₂ := hf a s₁ hlen
    dsimp only
    match f a s₁, h₂ with
    | .error .unwound s', ⟨hr, hm₂, hne⟩ =>
      refine ⟨hr.trans ⟨r₁, hr₁.symm⟩, hm₁.trans hm₂, fun heq => hne ?_⟩
      exact prefix_antisymm (heq ▸ hm₁) hm₂
    | .ok b s₂, ⟨r₂, hr₂, hk, hm₂, hM⟩ =>
      refine ⟨r₁ ++ r₂, by rw [hr₁, hr₂, List.append_assoc], ?_, hm₁.trans hm₂, fun heq => ?_⟩
      · rw [List.length_append]
        omega
      · -- no mistake in the whole means no mistake in either part
        have heq₁ : s₁.mistakes = s.mistakes := prefix_antisymm (heq ▸ hm₂) hm₁
        exact hM (heq.trans heq₁.symm) r₁ (hr₂ ▸ hL heq₁)

namespace Reads

variable {n m k j : Nat} {p : Parse α} {f : α → Parse β} {L L' : Language α} {M : Language β}

/-- Less may be claimed of a parser. -/
theorem mono (h : Reads n k p L) (hL : ∀ read rest a, L read rest a → L' read rest a) :
    Reads n k p L' :=
  fun s hs => (h s hs).mono (Nat.le_refl k) hL

/-- Fewer tokens may be given, and fewer said to be consumed. -/
theorem weaken (h : Reads n k p L) (hn : m ≤ n) (hk : j ≤ k) : Reads m j p L :=
  fun s hs => (h s (Nat.lt_of_lt_of_le hs hn)).mono hk fun _ _ _ => id

theorem bind (hp : Reads n j p L)
    (hf : ∀ a, Reads m (k - j) (f a)
      fun read rest b => ∀ r, L r (read ++ rest) a → M (r ++ read) rest b)
    (hn : n ≤ m + j) : Reads n k (p >>= f) M :=
  fun s hs => (hp s hs).bind hf (Nat.lt_of_lt_of_le hs hn)

end Reads

/-! ### Steps -/

section Steps

variable {n m k : Nat} {L : Language α} {M : Language β}

/-- A value without reading. -/
theorem reads_pure {a : α} (h : ∀ rest, L [] rest a) : Reads n 0 (pure a) L :=
  fun _ _ => ⟨[], rfl, Nat.le_refl 0, List.prefix_refl _, fun _ => h _⟩

/-- A value made of the value of another parser. -/
theorem Reads.map {p : Parse α} {g : α → β} (h : Reads n k p fun read rest a => M read rest (g a)) :
    Reads n k (g <$> p) M := by
  have hp : g <$> p = p >>= fun a => pure (g a) := map_eq_pure_bind g p
  rw [hp]
  refine h.bind (k := k) (m := n) (fun a => ?_) (Nat.le_add_right n k)
  rw [Nat.sub_self]
  exact reads_pure fun _ _ hL => by simpa using hL

/-- What comes after a choice comes after either part of it. -/
theorem ite_bind (b : Bool) (p q : Parse α) (f : α → Parse β) :
    (if b then p >>= f else q >>= f) = (if b then p else q) >>= f := by
  cases b <;> rfl

/-- A look at the next token. -/
theorem reads_next?_bind {f : Option Token → Parse β}
    (hf : ∀ o, Reads n k (f o) fun read rest b => (read ++ rest).head? = o → M read rest b) :
    Reads n k (next? >>= f) M := by
  have h : Reads n 0 next? fun read rest o => read = [] ∧ rest.head? = o :=
    fun _ _ => ⟨[], rfl, Nat.le_refl 0, List.prefix_refl _, fun _ => ⟨rfl, rfl⟩⟩
  refine h.bind (fun o => (hf o).mono ?_) (Nat.le_refl n)
  rintro read rest b hM r ⟨rfl, ho⟩
  exact hM ho

/-- A look at the kind of the next token. -/
theorem reads_nextIs_bind {kind : TokenKind} {f : Bool → Parse β} (hf : ∀ b, Reads n k (f b) M) :
    Reads n k (nextIs kind >>= f) M := by
  rw [nextIs]
  simp only [bind_assoc, pure_bind]
  exact reads_next?_bind fun o => (hf _).mono fun _ _ _ h _ => h

/-- A look whether there is a token. -/
theorem reads_atEnd_bind {f : Bool → Parse β} (hf : ∀ b, Reads n k (f b) M) :
    Reads n k (atEnd >>= f) M := by
  rw [atEnd]
  simp only [bind_assoc, pure_bind]
  exact reads_next?_bind fun o => (hf _).mono fun _ _ _ h _ => h

/-- A complaint is a mistake, after which nothing has to be said of the tokens. -/
theorem reads_complain_bind {token : Option Token} {cause : SyntaxError} {f : Unit → Parse β}
    (hf : Reads n k (f ()) fun _ _ _ => True) : Reads n k (complain token cause >>= f) M := by
  have h : Reads n 0 (complain token cause) fun _ _ _ => False :=
    fun s _ => ⟨[], rfl, Nat.le_refl 0, List.prefix_append _ _, fun h => by simp at h⟩
  exact h.bind (fun _ => hf.mono fun _ _ _ _ _ => False.elim) (Nat.le_refl n)

/-- Failing is never silent. -/
theorem reads_fail (cause : SyntaxError) : Reads n k (fail cause) L := by
  intro s _
  refine ⟨List.suffix_refl _, List.prefix_append _ _, fun h => ?_⟩
  simp at h

/-- A table of what to do with the next token. -/
theorem reads_dispatch {otherwise : Parse α} {table : Token → Option (Parse α)}
    (ho : Reads n k otherwise L)
    (ht : ∀ t p, table t = some p → Reads m (k - 1) p fun read rest a => L (t :: read) rest a)
    (hn : n ≤ m + 1) : Reads n k (dispatch otherwise table) L := by
  rintro ⟨rest, mistakes⟩ hs
  match rest with
  | [] => exact ho ⟨[], mistakes⟩ hs
  | t :: rest =>
    rw [dispatch]
    dsimp only
    split
    · next p hp =>
      exact (ht t p hp ⟨rest, mistakes⟩ (lt_of_cons_lt hs hn)).cons
    · exact ho ⟨t :: rest, mistakes⟩ hs

/-- A token of one of the kinds, or none of them next. -/
theorem reads_accept_bind {kinds : List TokenKind} {f : Option Token → Parse β}
    (hs : ∀ t, t.kind ∈ kinds →
      Reads m (k - 1) (f (some t)) fun read rest b => M (t :: read) rest b)
    (hn : Reads n k (f none)
      fun read rest b => (∀ t ∈ (read ++ rest).head?, t.kind ∉ kinds) → M read rest b)
    (h : n ≤ m + 1) : Reads n k (accept kinds >>= f) M := by
  rintro ⟨rest, mistakes⟩ hlen
  show Outcome _ k M (EStateM.bind _ _ _)
  -- where no such token is next, nothing is read
  have hskip : (∀ t ∈ rest.head?, t.kind ∉ kinds) →
      Outcome ⟨rest, mistakes⟩ k M (f none ⟨rest, mistakes⟩) := by
    intro hne
    match f none ⟨rest, mistakes⟩, hn ⟨rest, mistakes⟩ hlen with
    | .ok b s', ⟨read, hread, hk, hm, hM⟩ =>
      exact ⟨read, hread, hk, hm, fun heq => hM heq (hread ▸ hne)⟩
    | .error .unwound s', h => exact h
  match rest with
  | [] => exact hskip (by simp)
  | t :: rest =>
    by_cases hk : t.kind ∈ kinds
    · have hf := (hs t hk ⟨rest, mistakes⟩ (lt_of_cons_lt hlen h)).cons
      simp only [EStateM.bind, accept, dispatch, hk, if_true]
      exact hf
    · have hf := hskip (by simpa using hk)
      simp only [EStateM.bind, accept, dispatch, hk, if_false]
      exact hf

/-- A token of the kind. -/
theorem reads_expect_bind {kind : TokenKind} {cause : SyntaxError} {f : Token → Parse β}
    (hf : ∀ t, t.kind = kind → Reads m (k - 1) (f t) fun read rest b => M (t :: read) rest b)
    (h : n ≤ m + 1) : Reads n k (expect kind cause >>= f) M := by
  rintro ⟨rest, mistakes⟩ hlen
  show Outcome _ k M (EStateM.bind _ _ _)
  match rest with
  | [] => exact reads_fail cause ⟨[], mistakes⟩ hlen
  | t :: rest =>
    by_cases hk : t.kind = kind
    · have hf := (hf t hk ⟨rest, mistakes⟩ (lt_of_cons_lt hlen h)).cons
      simp only [EStateM.bind, expect, dispatch, hk, if_true]
      exact hf
    · have hf := reads_fail (k := k) (L := M) cause ⟨t :: rest, mistakes⟩ hlen
      simp only [EStateM.bind, expect, dispatch, hk, if_false]
      exact hf

/-- **Recovery always gets ahead**, and what it leaves in place of a statement is never silent. -/
theorem Outcome.recover {p : Parse (Stmt Blank)} {L : Language (Stmt Blank)} {s : Cursor}
    (h : Outcome s 1 L (p s)) (hs : s.rest ≠ []) : Outcome s 1 L (recover p s) := by
  rw [Parse.recover]
  match p s, h with
  | .ok a s', h => exact h
  | .error .unwound s', ⟨hsuff, hm, hne⟩ =>
    -- at least one token is left out
    have hres : resume s'.rest <:+ s.rest ∧ (resume s'.rest).length < s.rest.length := by
      match s'.rest, hsuff with
      | [], _ => exact ⟨List.nil_suffix, List.length_pos_iff.mpr hs⟩
      | t :: rest, hsuff =>
        have hlt := (resume_cons_suffix t rest).length_le
        have hle := hsuff.length_le
        simp only [List.length_cons] at hle
        exact ⟨((resume_cons_suffix t rest).trans (List.suffix_cons t rest)).trans hsuff, by omega⟩
    obtain ⟨⟨read, hread⟩, hlt⟩ := hres
    refine ⟨read, hread.symm, ?_, hm, fun heq => absurd heq hne⟩
    have := congrArg List.length hread
    simp only [List.length_append] at this
    omega

end Steps

end LoxInterpreter.Parse
