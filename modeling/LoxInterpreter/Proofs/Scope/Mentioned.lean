import LoxInterpreter.Proofs.Grammar
import LoxInterpreter.Scope.Table

/-!
# Mentions and tokens

A program mentions names at tokens of its own, each of them at most once
(`mentionedIn_mentionsProgram`): the derivation of a tree hands every token to one node. It is
stated by counting, since the increment of a `for` loop is written before the body and mentioned
after it.
-/

namespace LoxInterpreter

open Grammar

variable {ρ : Type}

/-- The tokens of the mentions. -/
def mentionTokens (ms : List (Mention ρ)) : List Token :=
  ms.map (·.reference.token)

@[simp]
theorem mentionTokens_nil : mentionTokens ([] : List (Mention ρ)) = [] := rfl

@[simp]
theorem mentionTokens_cons (m : Mention ρ) (ms : List (Mention ρ)) :
    mentionTokens (m :: ms) = m.reference.token :: mentionTokens ms := rfl

@[simp]
theorem mentionTokens_append (ms ms' : List (Mention ρ)) :
    mentionTokens (ms ++ ms') = mentionTokens ms ++ mentionTokens ms' :=
  List.map_append

/-! ### Links leave the tokens alone -/

mutual

@[simp]
theorem Expr.mentionTokens_link (scopes : Scopes) (e : Expr Blank) :
    mentionTokens (e.link scopes).mentions = mentionTokens e.mentions := by
  cases e with
  | literal | reference | this | inherited => simp [link, mentions, Reference.linkIn]
  | grouping inner => simpa [link, mentions] using inner.mentionTokens_link scopes
  | unary _ operand => simpa [link, mentions] using operand.mentionTokens_link scopes
  | property object => simpa [link, mentions] using object.mentionTokens_link scopes
  | binary left _ right | logical left _ right | setProperty left _ right =>
    simp [link, mentions, left.mentionTokens_link scopes, right.mentionTokens_link scopes]
  | assign _ value =>
    simp [link, mentions, Reference.linkIn, value.mentionTokens_link scopes]
  | call callee _ values =>
    simp [link, mentions, callee.mentionTokens_link scopes, mentionTokens_linkAll scopes values]

@[simp]
theorem Expr.mentionTokens_linkAll (scopes : Scopes) (es : List (Expr Blank)) :
    mentionTokens (Expr.mentionsAll (Expr.linkAll scopes es)) =
      mentionTokens (Expr.mentionsAll es) := by
  cases es with
  | nil => rfl
  | cons e rest =>
    simp [linkAll, mentionsAll, e.mentionTokens_link scopes, mentionTokens_linkAll scopes rest]

end

mutual

@[simp]
theorem Stmt.mentionTokens_link (scopes : Scopes) (s : Stmt Blank) :
    mentionTokens (s.link scopes).mentions = mentionTokens s.mentions := by
  match s with
  | .malformed | .declare _ none | .giveBack _ none => rfl
  | .expression value | .print value | .declare _ (some value) | .giveBack _ (some value) =>
    simp [link, mentions]
  | .block body => simpa [link, mentions] using mentionTokens_linkBody _ body
  | .branch condition whenTrue none => simp [link, mentions, whenTrue.mentionTokens_link]
  | .branch condition whenTrue (some whenFalse) =>
    simp [link, mentions, whenTrue.mentionTokens_link, whenFalse.mentionTokens_link]
  | .loop condition body => simp [link, mentions, body.mentionTokens_link]
  | .function (.mk _ params body) =>
    simpa [link, linkRoutine, mentions] using mentionTokens_linkBody _ body
  | .klass _ none methods =>
    simpa [link, mentions] using mentionTokens_linkMethods _ methods
  | .klass _ (some target) methods =>
    simpa [link, mentions, Reference.linkIn] using mentionTokens_linkMethods _ methods

@[simp]
theorem Stmt.mentionTokens_linkBody (scopes : Scopes) (body : List (Stmt Blank)) :
    mentionTokens (Stmt.mentionsBody (Stmt.linkBody scopes body)) =
      mentionTokens (Stmt.mentionsBody body) := by
  match body with
  | [] => rfl
  | s :: rest =>
    simp [linkBody, mentionsBody, s.mentionTokens_link, mentionTokens_linkBody _ rest]

@[simp]
theorem Stmt.mentionTokens_linkMethods (scopes : Scopes) (methods : List (Routine Blank)) :
    mentionTokens (Stmt.mentionsMethods (Stmt.linkMethods scopes methods)) =
      mentionTokens (Stmt.mentionsMethods methods) := by
  match methods with
  | [] => rfl
  | .mk _ params body :: rest =>
    simp [linkMethods, linkRoutine, mentionsMethods, mentionTokens_linkBody _ body,
      mentionTokens_linkMethods scopes rest]

end

/-! ### Derivations hand out tokens -/

/-- The mentions are among the tokens, and none of the tokens is mentioned twice. -/
def MentionedIn (ms : List (Mention ρ)) (ts : List Token) : Prop :=
  ∀ t, (mentionTokens ms).count t ≤ ts.count t

theorem MentionedIn.mem {ms : List (Mention ρ)} {ts : List Token} (h : MentionedIn ms ts)
    {m : Mention ρ} (hm : m ∈ ms) : m.reference.token ∈ ts := by
  have hmem : m.reference.token ∈ mentionTokens ms := List.mem_map_of_mem hm
  have hpos := List.count_pos_iff.mpr hmem
  exact List.count_pos_iff.mp (Nat.lt_of_lt_of_le hpos (h _))

theorem MentionedIn.nodup {ms : List (Mention ρ)} {ts : List Token} (h : MentionedIn ms ts)
    (hts : ts.Nodup) : (mentionTokens ms).Nodup :=
  List.nodup_iff_count.mpr fun t => Nat.le_trans (h t) (List.nodup_iff_count.mp hts t)

namespace Grammar

theorem mentionedIn_mentionsAll {L : List Token → Expr Blank → Prop} {ts : List Token}
    {es : List (Expr Blank)} (h : Listed L ts es)
    (hL : ∀ ts e, L ts e → MentionedIn e.mentions ts) : MentionedIn (Expr.mentionsAll es) ts := by
  cases h with
  | none => exact fun t => Nat.le_refl _
  | some h hle =>
    clear hle
    induction h with
    | last h =>
      intro t
      simpa [Expr.mentionsAll] using hL _ _ h t
    | cons h _ _ ih =>
      intro t
      have := hL _ _ h t
      have := ih t
      simp only [Expr.mentionsAll, mentionTokens_append, List.count_append, List.count_cons]
      omega

theorem Phrase.mentionedIn {l : Level} {ts : List Token} {e : Expr Blank} (h : Phrase l ts e) :
    MentionedIn e.mentions ts := by
  induction h using Phrase.induct with
  | tighter _ _ ih => exact ih
  | property _ _ _ ih | grouping _ _ _ ih | unary _ _ ih | assign _ _ _ ih =>
    intro t
    have := ih t
    simp only [Expr.mentions, mentionTokens_cons, List.count_append, List.count_cons,
      List.cons_append]
    omega
  | setProperty _ _ _ _ _ ih ih' =>
    intro t
    have := ih t
    have := ih' t
    simp only [Expr.mentions, mentionTokens_append, List.count_append, List.count_cons]
    omega
  | @join l _ _ _ op left right _ _ _ _ ih ih' =>
    intro t
    have hjoin : (l.join left op right).mentions = left.mentions ++ right.mentions := by
      cases l <;> rfl
    have := ih t
    have := ih' t
    simp only [hjoin, mentionTokens_append, List.count_append, List.count_cons]
    omega
  | call h _ _ _ ih ihs =>
    intro t
    have := ih t
    have := mentionedIn_mentionsAll ihs (fun _ _ ⟨_, h⟩ => h) t
    simp only [Expr.mentions, mentionTokens_append, List.count_append, List.count_cons]
    omega
  | literal => exact fun t => by simp [Expr.mentions]
  | inherited | this | reference => exact fun t => by simp [Expr.mentions, List.count_cons]

theorem Variable.mentionedIn {ts : List Token} {s : Stmt Blank} (h : Variable ts s) :
    MentionedIn s.mentions ts := by
  intro t
  cases h with
  | plain => simp [Stmt.mentions]
  | initialized _ _ h _ =>
    have := h.mentionedIn t
    simp only [Stmt.mentions, List.count_append, List.count_cons, List.cons_append]
    omega

theorem mentionedIn_mentionsBody {ts : List Token} {body : List (Stmt Blank)}
    (h : Sequence (fun ts s => Declaration ts s ∧ MentionedIn s.mentions ts) ts body) :
    MentionedIn (Stmt.mentionsBody body) ts := by
  induction h with
  | nil => exact fun t => Nat.le_refl _
  | cons h _ ih =>
    intro t
    have := h.2 t
    have := ih t
    simp only [Stmt.mentionsBody, mentionTokens_append, List.count_append]
    omega

theorem mentionedIn_mentionsMethods {ts : List Token} {methods : List (Routine Blank)}
    (h : Sequence (fun ts r => Routined ts r ∧ MentionedIn (Stmt.mentionsBody r.body) ts) ts
      methods) : MentionedIn (Stmt.mentionsMethods methods) ts := by
  induction h with
  | nil => exact fun t => Nat.le_refl _
  | @cons _ _ r _ h _ ih =>
    intro t
    obtain ⟨name, params, body⟩ := r
    simp only [Stmt.mentionsMethods, mentionTokens_append, List.count_append]
    exact Nat.add_le_add (h.2 t) (ih t)

theorem Possibly.mentionedIn {ts : List Token} {value : Option (Expr Blank)}
    (h : Possibly Expression ts value) : MentionedIn (value.elim [] Expr.mentions) ts := by
  cases h with
  | none => exact fun t => Nat.le_refl _
  | some h => exact Phrase.mentionedIn h

theorem Initializer.mentionedIn {ts : List Token} {initial : Option (Stmt Blank)}
    (h : Initializer ts initial) : MentionedIn (initial.elim [] Stmt.mentions) ts := by
  intro t
  cases h with
  | none => simp
  | declare _ h =>
    have := h.mentionedIn t
    simp only [Option.elim, List.count_cons]
    omega
  | expression h =>
    have := Phrase.mentionedIn h t
    simp only [Option.elim, Stmt.mentions, List.count_append]
    omega

/-- The mentions in a `for` loop: the increment comes behind the body. -/
theorem count_mentions_forTree (initial : Option (Stmt Blank))
    (condition increment : Option (Expr Blank)) (body : Stmt Blank) (t : Token) :
    (mentionTokens (forTree initial condition increment body).mentions).count t =
      (mentionTokens (initial.elim [] Stmt.mentions)).count t +
        (mentionTokens (condition.elim [] Expr.mentions)).count t +
        (mentionTokens body.mentions).count t +
        (mentionTokens (increment.elim [] Expr.mentions)).count t := by
  have hcondition : mentionTokens (condition.getD (.literal (.bool true))).mentions =
      mentionTokens (condition.elim [] Expr.mentions) := by
    cases condition <;> rfl
  cases initial <;> cases increment <;>
    simp only [forTree, Stmt.mentions, Stmt.mentionsBody, mentionTokens_append, hcondition,
      List.count_append, Option.elim, mentionTokens_nil, List.count_nil] <;> omega

/-- **No token is mentioned twice.** A declaration mentions names among its tokens. -/
theorem Declaration.mentionedIn {ts : List Token} {s : Stmt Blank} (h : Declaration ts s) :
    MentionedIn s.mentions ts := by
  refine Declaration.induct (P := fun _ ts s => MentionedIn s.mentions ts)
    (Q := fun ts s => MentionedIn s.mentions ts)
    (R := fun ts r => MentionedIn (Stmt.mentionsBody r.body) ts)
    ?expression ?print ?giveBack ?block ?ifThen ?ifElse ?loop ?forLoop ?statement ?declare
    ?function ?klass ?routine h
  case expression =>
    intro ts semicolon e h _ t
    have := Phrase.mentionedIn h t
    simp only [Stmt.mentions, List.count_append]
    omega
  case print =>
    intro word semicolon ts e _ h _ t
    have := Phrase.mentionedIn h t
    simp only [Stmt.mentions, List.count_append, List.count_cons, List.cons_append]
    omega
  case giveBack =>
    intro word semicolon ts value _ h _ t
    have := h.mentionedIn t
    have hvalue : (Stmt.giveBack word value).mentions = value.elim [] Expr.mentions := by
      cases value <;> rfl
    simp only [hvalue, List.count_append, List.count_cons, List.cons_append]
    omega
  case block =>
    intro opening closing ts body _ h _ t
    have := mentionedIn_mentionsBody h t
    simp only [Stmt.mentions, List.count_append, List.count_cons, List.cons_append]
    omega
  case ifThen =>
    intro word opening closing tail ts us test whenTrue _ _ h _ _ ih t
    have := Phrase.mentionedIn h t
    have := ih t
    simp only [Stmt.mentions, mentionTokens_append, List.count_append, List.count_cons,
      List.cons_append]
    omega
  case ifElse =>
    intro word opening closing other tail ts us vs test whenTrue whenFalse _ _ h _ _ _ _ ih ih' t
    have := Phrase.mentionedIn h t
    have := ih t
    have := ih' t
    simp only [Stmt.mentions, mentionTokens_append, List.count_append, List.count_cons,
      List.cons_append]
    omega
  case loop =>
    intro word opening closing tail ts us test body _ _ h _ _ ih t
    have := Phrase.mentionedIn h t
    have := ih t
    simp only [Stmt.mentions, mentionTokens_append, List.count_append, List.count_cons,
      List.cons_append]
    omega
  case forLoop =>
    intro word opening semicolon closing tail ts us vs ws initial condition increment body _ _
      hinitial hcondition _ hincrement _ _ ih t
    have := hinitial.mentionedIn t
    have := hcondition.mentionedIn t
    have := hincrement.mentionedIn t
    have := ih t
    simp only [count_mentions_forTree, List.count_append, List.count_cons, List.cons_append]
    omega
  case statement => exact fun _ ih => ih
  case declare =>
    intro word ts s _ h t
    have := h.mentionedIn t
    rw [List.count_cons]
    omega
  case function =>
    intro word ts r _ _ ih t
    have := ih t
    obtain ⟨name, params, body⟩ := r
    rw [List.count_cons]
    exact Nat.le_trans this (Nat.le_add_right _ _)
  case klass =>
    intro word name opening closing ts us superclass methods _ _ hsuper _ hmethods _ t
    have := mentionedIn_mentionsMethods hmethods t
    have hsuperclass : (mentionTokens (Stmt.klass name superclass methods).mentions).count t ≤
        ts.count t + (mentionTokens (Stmt.mentionsMethods methods)).count t := by
      cases hsuper with
      | none => simp [Stmt.mentions]
      | some => simp only [Stmt.mentions, mentionTokens_append, mentionTokens_cons,
          mentionTokens_nil, List.count_append, List.count_cons, List.count_nil]; omega
    simp only [List.count_append, List.count_cons, List.cons_append]
    omega
  case routine =>
    intro name openParen closeParen openBrace closeBrace ts us params body _ _ _ _ _ h _ t
    have := mentionedIn_mentionsBody h t
    simp only [Routine.body, List.count_append, List.count_cons, List.cons_append]
    omega

theorem mentionedIn_mentionsProgram {ts : List Token} {program : List (Stmt Blank)}
    (h : Program ts program) : MentionedIn (Stmt.mentionsBody program) ts :=
  mentionedIn_mentionsBody (h.mono fun _ _ h => ⟨h, h.mentionedIn⟩)

end Grammar

end LoxInterpreter
