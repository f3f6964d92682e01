import Mathlib.Data.List.Forall2
import Mathlib.Data.List.Nodup
import LoxInterpreter.Proofs.Accepted
import LoxInterpreter.Proofs.Scope.Mentioned
import LoxInterpreter.Proofs.Scope.Site

/-!
# Links follow lexical scope

Scope analysis walks over a tree with a stack of the names bound so far. In an accepted text the
links that it fills in are those of the law of lexical scope, which knows nothing of a walk
(`localTable_lexical`).

The invariant is `Agrees`: as seen from a token, the stack holds the name of the token exactly in
those scopes around it that bind it by the law. It is stated for one token at a time because a scope
that goes on binds ever more names. For the tokens of a declaration it holds once the name declared
there has been added, since every mention of the declaration comes behind its name.
-/

namespace LoxInterpreter

open Grammar

/-- As seen from the token, the stack and the scopes bind its name in the same places. -/
def Agrees (t : Token) (scopes : Scopes) (around : List LocalScope) : Prop :=
  List.Forall₂ (fun (scope : Scope) l => t.lexeme ∈ scope ↔ l.Binds t) scopes around

namespace Agrees

variable {t : Token} {scopes : Scopes} {around : List LocalScope}

/-- Nothing is added to a scope that declares nothing. -/
theorem block (h : Agrees t scopes around) : Agrees t ([] :: scopes) (.declaring [] :: around) :=
  .cons (by simp [LocalScope.Binds]) h

theorem enterClass {ρ : Type} (h : Agrees t scopes around) (superclass : Option (Reference ρ)) :
    Agrees t (scopes.enterClass superclass) (LocalScope.aroundMethods superclass around) := by
  cases superclass with
  | none => exact .cons (by simp [LocalScope.Binds]) h
  | some _ => exact .cons (by simp [LocalScope.Binds]) (.cons (by simp [LocalScope.Binds]) h)

/-- Where stack and scopes agree, the place on the stack is the one of the law. -/
theorem lawful {site : Site Place} (h : Agrees site.token scopes site.around)
    (hlink : site.link = scopes.placeOf site.token.lexeme) : site.Lawful := by
  obtain ⟨hlength, hbinds⟩ := List.forall₂_iff_get.mp h
  intro distance
  rw [hlink, Scopes.placeOf_eq_outward_iff]
  constructor
  · rintro ⟨hlt, hmem, hno⟩
    have hlt' : distance < site.around.length := hlength ▸ hlt
    refine ⟨hlt', (hbinds distance hlt hlt').mp hmem, fun i hi hb => ?_⟩
    exact hno i hi ((hbinds i (hi.trans hlt) (hi.trans hlt')).mpr hb)
  · rintro ⟨hlt', hb, hno⟩
    have hlt : distance < scopes.length := hlength ▸ hlt'
    refine ⟨hlt, (hbinds distance hlt hlt').mpr hb, fun i hi hmem => ?_⟩
    exact hno i hi ((hbinds i (hi.trans hlt) (hi.trans hlt')).mp hmem)

end Agrees

/-! ### Expressions -/

section Expressions

variable {scopes : Scopes} {around : List LocalScope}

mutual

theorem Expr.lawful_of_mem_sites (e : Expr Blank) (initializing : Option Token)
    (h : ∀ m ∈ e.mentions, Agrees m.reference.token scopes around) {site : Site Place}
    (hsite : site ∈ (e.link scopes).sites around initializing) : site.Lawful := by
  cases e with
  | literal => simp [link, sites] at hsite
  | grouping inner => exact inner.lawful_of_mem_sites _ h hsite
  | unary _ operand => exact operand.lawful_of_mem_sites _ h hsite
  | property object => exact object.lawful_of_mem_sites _ h hsite
  | binary left _ right | logical left _ right | setProperty left _ right =>
    simp only [mentions, List.forall_mem_append] at h
    rcases List.mem_append.mp hsite with hsite | hsite
    · exact left.lawful_of_mem_sites _ h.1 hsite
    · exact right.lawful_of_mem_sites _ h.2 hsite
  | call callee _ values =>
    simp only [mentions, List.forall_mem_append] at h
    rcases List.mem_append.mp hsite with hsite | hsite
    · exact callee.lawful_of_mem_sites _ h.1 hsite
    · exact lawful_of_mem_sitesAll values _ h.2 hsite
  | reference target | this target | inherited target =>
    obtain rfl := List.mem_singleton.mp hsite
    exact Agrees.lawful (h _ (List.mem_singleton_self _)) rfl
  | assign target value =>
    simp only [mentions, List.forall_mem_cons] at h
    rcases List.mem_cons.mp hsite with rfl | hsite
    · exact Agrees.lawful h.1 rfl
    · exact value.lawful_of_mem_sites _ h.2 hsite

theorem Expr.lawful_of_mem_sitesAll (es : List (Expr Blank)) (initializing : Option Token)
    (h : ∀ m ∈ Expr.mentionsAll es, Agrees m.reference.token scopes around) {site : Site Place}
    (hsite : site ∈ Expr.sitesAll around initializing (Expr.linkAll scopes es)) :
    site.Lawful := by
  cases es with
  | nil => cases hsite
  | cons e rest =>
    simp only [mentionsAll, List.forall_mem_append] at h
    rcases List.mem_append.mp hsite with hsite | hsite
    · exact e.lawful_of_mem_sites _ h.1 hsite
    · exact lawful_of_mem_sitesAll rest _ h.2 hsite

end

/-- The sites of an expression are lawful if stack and scopes agree on its tokens. -/
theorem Grammar.Phrase.lawful {l : Level} {ts : List Token} {e : Expr Blank} (h : Phrase l ts e)
    (hagrees : ∀ t ∈ ts, Agrees t scopes around) (initializing : Option Token) :
    ∀ site ∈ (e.link scopes).sites around initializing, site.Lawful :=
  fun _ hsite => e.lawful_of_mem_sites initializing
    (fun _ hm => hagrees _ (h.mentionedIn.mem hm)) hsite

end Expressions

/-! ### What statements declare -/

namespace Stmt

@[simp]
theorem declared?_link (scopes : Scopes) (s : Stmt Blank) :
    (s.link scopes).declared? = s.declared? := by
  match s with
  | .malformed | .expression _ | .print _ | .declare _ _ | .block _ | .branch _ _ none
  | .branch _ _ (some _) | .loop _ _ | .giveBack _ _ | .klass _ _ _ => simp [link, declared?]
  | .function (.mk _ _ _) => simp [link, linkRoutine, declared?, Routine.name]

@[simp]
theorem declaredIn_linkBody (scopes : Scopes) (body : List (Stmt Blank)) :
    declaredIn (linkBody scopes body) = declaredIn body := by
  induction body generalizing scopes with
  | nil => rfl
  | cons s rest ih =>
    rw [linkBody, declaredIn_cons, declaredIn_cons, declared?_link, ih]

end Stmt

namespace Grammar

/-- Statements declare nothing. -/
theorem Statement.declared?_eq_none {tail : Tail} {ts : List Token} {s : Stmt Blank}
    (h : Statement tail ts s) : s.declared? = none := by
  cases h with
  | @forLoop _ _ _ _ _ _ _ _ _ initial condition increment body =>
    cases initial <;> cases increment <;> rfl
  | _ => rfl

theorem Variable.declared? {ts : List Token} {s : Stmt Blank} (h : Variable ts s) :
    ∃ name us, s.declared? = some name ∧ ts = name :: us := by
  cases h with
  | plain => exact ⟨_, _, rfl, rfl⟩
  | initialized => exact ⟨_, _, rfl, rfl⟩

/-- The name that a declaration declares is one of its tokens. -/
theorem Declaration.mem_of_declared? {ts : List Token} {s : Stmt Blank} (h : Declaration ts s) :
    ∀ name ∈ s.declared?, name ∈ ts := by
  intro name hname
  cases h with
  | statement h =>
    rw [h.declared?_eq_none] at hname
    cases hname
  | declare _ h =>
    obtain ⟨_, _, hname', rfl⟩ := h.declared?
    rw [hname'] at hname
    cases hname
    simp
  | function _ h =>
    cases h
    cases hname
    simp [Routine.name]
  | klass =>
    cases hname
    simp

end Grammar

/-! ### Statements -/

/-- Tokens in the order of the text. -/
abbrev Ordered (ts : List Token) : Prop := ts.Pairwise fun a b => a.offset < b.offset

/-- The sites of a statement are lawful if stack and scopes agree on those of its tokens that come
behind the name it declares. -/
def LawfulIn (ts : List Token) (s : Stmt Blank) : Prop :=
  ∀ scopes around,
    (∀ t ∈ ts, (∀ name ∈ s.declared?, name.offset < t.offset) → Agrees t scopes around) →
      ∀ site ∈ (s.link scopes).sites around, site.Lawful

/-- A statement that declares nothing asks for agreement on all of its tokens. -/
theorem lawfulIn_iff {ts : List Token} {s : Stmt Blank} (hs : s.declared? = none) :
    LawfulIn ts s ↔ ∀ scopes around, (∀ t ∈ ts, Agrees t scopes around) →
      ∀ site ∈ (s.link scopes).sites around, site.Lawful := by
  rw [LawfulIn]
  simp [hs]

/-- The sites of an expression outside of initializers are lawful if stack and scopes agree on the
tokens. -/
def PhraseLawfulIn (ts : List Token) (e : Expr Blank) : Prop :=
  ∀ scopes around, (∀ t ∈ ts, Agrees t scopes around) →
    ∀ site ∈ (e.link scopes).sites around none, site.Lawful

theorem Grammar.Phrase.lawfulIn {l : Level} {ts all : List Token} {e : Expr Blank}
    (h : Phrase l ts e) (hsub : ts ⊆ all) : PhraseLawfulIn all e :=
  fun _ _ hagrees => h.lawful (fun t ht => hagrees t (hsub ht)) none

/-- The sites of a routine are lawful if stack and scopes around it agree on those of its tokens
that come behind its name. -/
def RoutineLawfulIn (ts : List Token) (r : Routine Blank) : Prop :=
  ∀ scopes around, (∀ t ∈ ts, r.name.offset < t.offset → Agrees t scopes around) →
    ∀ site ∈ Stmt.sitesBody (.declaring (r.params ++ declaredIn r.body) :: around)
      (Stmt.linkBody (scopes.enterRoutine r.params) r.body), site.Lawful

/-- What a statement declares is one of its tokens, and its sites are lawful if its tokens are in
order. -/
def DeclarationLawful (ts : List Token) (s : Stmt Blank) : Prop :=
  (∀ name ∈ s.declared?, name ∈ ts) ∧ (Ordered ts → LawfulIn ts s)

theorem mem_of_mem_declaredIn {ts : List Token} {body : List (Stmt Blank)}
    (h : Sequence DeclarationLawful ts body) : ∀ name ∈ declaredIn body, name ∈ ts := by
  induction h with
  | nil => exact List.forall_mem_nil _
  | cons h _ ih =>
    intro name hname
    rw [declaredIn_cons] at hname
    rcases List.mem_append.mp hname with hname | hname
    · exact List.mem_append_left _ (h.1 name (Option.mem_toList.mp hname))
    · exact List.mem_append_right _ (ih name hname)

/-- The stack of a scope in which the names have been declared. -/
def stackOf (seen : List Token) : Scope :=
  seen.reverse.map (·.lexeme)

theorem mem_stackOf {seen : List Token} {x : String} :
    x ∈ stackOf seen ↔ ∃ name ∈ seen, name.lexeme = x := by
  simp [stackOf]

theorem enter_stackOf (seen : List Token) (scopes : Scopes) (s : Stmt Blank) :
    Scopes.enter (stackOf seen :: scopes) s = stackOf (seen ++ s.declared?.toList) :: scopes := by
  rw [Scopes.enter]
  cases s.declared? <;> simp [stackOf, Scopes.bind]

/-- **A body is lawful.** The names seen so far come before its tokens, and the scope has them and
those that the body declares. -/
theorem lawful_of_mem_sitesBody {ts : List Token} {body : List (Stmt Blank)}
    (h : Sequence DeclarationLawful ts body) :
    ∀ (seen : List Token) (scopes : Scopes) (around : List LocalScope), Ordered ts →
      (∀ name ∈ seen, ∀ t ∈ ts, name.offset < t.offset) → (∀ t ∈ ts, Agrees t scopes around) →
      ∀ site ∈ Stmt.sitesBody (.declaring (seen ++ declaredIn body) :: around)
        (Stmt.linkBody (stackOf seen :: scopes) body), site.Lawful := by
  induction h with
  | nil =>
    intro seen scopes around _ _ _ site hsite
    exact absurd hsite List.not_mem_nil
  | @cons ts us s body h hbody ih =>
    intro seen scopes around hordered hseen hagrees site hsite
    obtain ⟨hts, hus, hcross⟩ := List.pairwise_append.mp hordered
    simp only [List.forall_mem_append] at hagrees
    rw [Stmt.linkBody, Stmt.sitesBody, enter_stackOf, declaredIn_cons, ← List.append_assoc] at hsite
    rcases List.mem_append.mp hsite with hsite | hsite
    · refine h.2 hts _ _ (fun t ht hbehind => .cons ?_ (hagrees.1 t ht)) site hsite
      -- the names of the scope that come before the token are those seen so far
      rw [mem_stackOf]
      constructor
      · rintro ⟨name, hname, hlexeme⟩
        refine ⟨name, List.mem_append_left _ hname, hlexeme, ?_⟩
        rcases List.mem_append.mp hname with hname | hname
        · exact hseen name hname t (List.mem_append_left _ ht)
        · exact hbehind name (Option.mem_toList.mp hname)
      · rintro ⟨name, hname, hlexeme, hbefore⟩
        rcases List.mem_append.mp hname with hname | hname
        · exact ⟨name, hname, hlexeme⟩
        · have := hcross t ht name (mem_of_mem_declaredIn hbody name hname)
          omega
    · refine ih _ scopes around hus (fun name hname t ht => ?_) hagrees.2 site hsite
      rcases List.mem_append.mp hname with hname | hname
      · exact hseen name hname t (List.mem_append_right _ ht)
      · exact hcross name (h.1 name (Option.mem_toList.mp hname)) t ht

/-- A block is lawful. -/
theorem lawfulIn_block {ts us : List Token} {body : List (Stmt Blank)}
    (h : Sequence DeclarationLawful us body) (hus : Ordered us) (hsub : us ⊆ ts) :
    LawfulIn ts (.block body) := by
  rw [lawfulIn_iff rfl]
  intro scopes around hagrees site hsite
  simp only [Stmt.link, Stmt.sites, Stmt.declaredIn_linkBody] at hsite
  exact lawful_of_mem_sitesBody h [] scopes around hus (List.forall_mem_nil _)
    (fun t ht => hagrees t (hsub ht)) site hsite

/-- Methods are lawful. -/
theorem lawful_of_mem_sitesMethods {ts : List Token} {methods : List (Routine Blank)}
    {scopes : Scopes} {around : List LocalScope}
    (h : Sequence (fun ts r => Ordered ts → RoutineLawfulIn ts r) ts methods) (hts : Ordered ts)
    (hagrees : ∀ t ∈ ts, Agrees t scopes around) :
    ∀ site ∈ Stmt.sitesMethods around (Stmt.linkMethods scopes methods), site.Lawful := by
  induction h with
  | nil => exact fun site hsite => absurd hsite List.not_mem_nil
  | @cons ts us r methods h _ ih =>
    intro site hsite
    obtain ⟨name, params, body⟩ := r
    obtain ⟨hts, hus, -⟩ := List.pairwise_append.mp hts
    simp only [List.forall_mem_append] at hagrees
    simp only [Stmt.linkMethods, Stmt.linkRoutine, Stmt.sitesMethods,
      Stmt.declaredIn_linkBody] at hsite
    rcases List.mem_append.mp hsite with hsite | hsite
    · exact h hts scopes around (fun t ht _ => hagrees.1 t ht) site hsite
    · exact ih hus hagrees.2 site hsite

/-- Nothing is added to the stack by a statement that declares nothing. -/
theorem enter_eq_self {s : Stmt Blank} (scopes : Scopes) (hs : s.declared? = none) :
    scopes.enter s = scopes := by
  rw [Scopes.enter, hs]

/-- A choice with one branch is lawful. -/
theorem lawfulIn_ifThen {all : List Token} {test : Expr Blank} {whenTrue : Stmt Blank}
    (htest : PhraseLawfulIn all test) (hnone : whenTrue.declared? = none)
    (ih : LawfulIn all whenTrue) : LawfulIn all (.branch test whenTrue none) := by
  rw [lawfulIn_iff rfl]
  intro scopes around hagrees site hsite
  rw [Stmt.link, Stmt.sites, enter_eq_self _ hnone] at hsite
  rcases List.mem_append.mp hsite with hsite | hsite
  · exact htest scopes around hagrees site hsite
  · exact (lawfulIn_iff hnone).mp ih scopes around hagrees site hsite

/-- A choice with two branches is lawful. -/
theorem lawfulIn_ifElse {all : List Token} {test : Expr Blank} {whenTrue whenFalse : Stmt Blank}
    (htest : PhraseLawfulIn all test) (hnone : whenTrue.declared? = none)
    (ih : LawfulIn all whenTrue) (hnone' : whenFalse.declared? = none)
    (ih' : LawfulIn all whenFalse) : LawfulIn all (.branch test whenTrue (some whenFalse)) := by
  rw [lawfulIn_iff rfl]
  intro scopes around hagrees site hsite
  rw [Stmt.link, Stmt.sites, enter_eq_self _ hnone, enter_eq_self _ hnone', List.append_assoc]
    at hsite
  rcases List.mem_append.mp hsite with hsite | hsite
  · exact htest scopes around hagrees site hsite
  rcases List.mem_append.mp hsite with hsite | hsite
  · exact (lawfulIn_iff hnone).mp ih scopes around hagrees site hsite
  · exact (lawfulIn_iff hnone').mp ih' scopes around hagrees site hsite

/-- A loop is lawful. -/
theorem lawfulIn_loop {all : List Token} {test : Expr Blank} {body : Stmt Blank}
    (htest : PhraseLawfulIn all test) (hbody : body.declared? = none)
    (ih : LawfulIn all body) : LawfulIn all (.loop test body) := by
  rw [lawfulIn_iff rfl]
  intro scopes around hagrees site hsite
  rw [Stmt.link, Stmt.sites, enter_eq_self _ hbody] at hsite
  rcases List.mem_append.mp hsite with hsite | hsite
  · exact htest scopes around hagrees site hsite
  · exact (lawfulIn_iff hbody).mp ih scopes around hagrees site hsite

theorem LawfulIn.mono {ts all : List Token} {s : Stmt Blank} (h : LawfulIn ts s) (hsub : ts ⊆ all) :
    LawfulIn all s :=
  fun scopes around hagrees => h scopes around fun t ht => hagrees t (hsub ht)

/-- The body of a `for` loop with the increment after it is lawful. The block around them declares
nothing, so that the order of the two does not matter. -/
theorem lawfulIn_bodyAndIncrement {all vs : List Token} {body : Stmt Blank} {e : Expr Blank}
    (hbody : body.declared? = none) (ih : LawfulIn all body) (he : Expression vs e)
    (hvs : vs ⊆ all) : LawfulIn all (.block [body, .expression e]) := by
  rw [lawfulIn_iff rfl]
  intro scopes around hagrees site hsite
  have hdeclared : declaredIn [body, .expression e] = [] := by
    rw [declaredIn_cons, hbody]
    rfl
  have hagrees (t : Token) (ht : t ∈ all) := (hagrees t ht).block
  rw [Stmt.link, Stmt.sites, Stmt.declaredIn_linkBody, hdeclared, Stmt.linkBody,
    enter_eq_self _ hbody, Stmt.sitesBody] at hsite
  rcases List.mem_append.mp hsite with hsite | hsite
  · exact (lawfulIn_iff hbody).mp ih _ _ hagrees site hsite
  · refine he.lawful (fun t ht => hagrees t (hvs ht)) none site ?_
    simpa [Stmt.linkBody, Stmt.sitesBody, Stmt.link, Stmt.sites, Scopes.enter,
      Stmt.declared?] using hsite

theorem lawfulIn_variable {ts : List Token} {s : Stmt Blank} (h : Variable ts s)
    (hts : Ordered ts) : LawfulIn ts s := by
  intro scopes around hagrees site hsite
  cases h with
  | plain => simp [Stmt.link, Stmt.sites] at hsite
  | @initialized name equals semicolon ts initial _ _ h _ =>
    rw [Stmt.link, Option.map_some, Stmt.sites] at hsite
    refine h.lawful (fun t ht => hagrees t (by simp [ht]) fun _ hname => ?_) (some name) site hsite
    cases hname
    exact (List.pairwise_cons.mp hts).1 t (by simp [ht])

theorem declarationLawful_initializer {ts : List Token} {s : Stmt Blank}
    (h : Initializer ts (some s)) : DeclarationLawful ts s := by
  cases h with
  | declare hword h =>
    refine ⟨fun name hname => ?_, fun hts => ?_⟩
    · exact (Declaration.declare hword h).mem_of_declared? name hname
    · exact (lawfulIn_variable h hts.of_cons).mono (List.subset_cons_self _ _)
  | expression h =>
    refine ⟨by simp [Stmt.declared?], fun _ => (lawfulIn_iff rfl).mpr ?_⟩
    exact h.lawfulIn (List.subset_append_left _ _)

/-- A `for` loop is lawful. -/
theorem lawfulIn_forTree {ts us vs ws : List Token} {initial : Option (Stmt Blank)}
    {condition increment : Option (Expr Blank)} {body : Stmt Blank}
    (hinitial : Initializer ts initial) (hcondition : Possibly Expression us condition)
    (hincrement : Possibly Expression vs increment) (hbody : body.declared? = none) (ih : LawfulIn ws body)
    (hordered : Ordered (ts ++ (us ++ (vs ++ ws)))) :
    LawfulIn (ts ++ (us ++ (vs ++ ws))) (forTree initial condition increment body) := by
  have htest : PhraseLawfulIn (us ++ (vs ++ ws)) (condition.getD (.literal (.bool true))) := by
    cases hcondition with
    | none => exact fun _ _ _ site hsite => absurd hsite List.not_mem_nil
    | some h => exact Phrase.lawfulIn h (List.subset_append_left _ _)
  have ih : LawfulIn (us ++ (vs ++ ws)) body := ih.mono (by grind)
  -- what goes round, with or without the increment, declares nothing
  obtain ⟨round, hround, hlawful, htree⟩ : ∃ round : Stmt Blank, round.declared? = none ∧
      LawfulIn (us ++ (vs ++ ws)) round ∧
      forTree initial condition increment body = match initial with
        | none => .loop (condition.getD (.literal (.bool true))) round
        | some s => .block [s, .loop (condition.getD (.literal (.bool true))) round] := by
    cases hincrement with
    | none => exact ⟨body, hbody, ih, by cases initial <;> rfl⟩
    | some h =>
      exact ⟨_, rfl, lawfulIn_bodyAndIncrement hbody ih h (by grind), by cases initial <;> rfl⟩
  have hloop := lawfulIn_loop htest hround hlawful
  rw [htree]
  cases initial with
  | none => exact hloop.mono (List.subset_append_right _ _)
  | some s =>
    have hbody : Sequence DeclarationLawful (ts ++ ((us ++ (vs ++ ws)) ++ []))
        [s, .loop (condition.getD (.literal (.bool true))) round] :=
      .cons (declarationLawful_initializer hinitial)
        (.cons ⟨by simp [Stmt.declared?], fun _ => hloop⟩ .nil)
    exact lawfulIn_block hbody (by simpa using hordered) (by simp)

theorem aroundMethods_map_link (scopes : Scopes) (superclass : Option (Reference Blank))
    (around : List LocalScope) :
    LocalScope.aroundMethods (superclass.map (Reference.linkIn scopes)) around =
      LocalScope.aroundMethods superclass around := by
  cases superclass <;> rfl

namespace Grammar

/-- Names in a list are among its tokens. -/
theorem mem_of_mem_listed {ts params : List Token} (h : Listed Name ts params) :
    ∀ param ∈ params, param ∈ ts := by
  cases h with
  | none => exact List.forall_mem_nil _
  | some h hle =>
    clear hle
    induction h with
    | last h =>
      cases h
      exact fun param hparam => hparam
    | cons h _ _ ih =>
      cases h
      intro param hparam
      rcases List.mem_cons.mp hparam with rfl | hparam
      · simp
      · simp [ih param hparam]

/-- The links of a declaration follow the law. -/
theorem Declaration.lawful {ts : List Token} {s : Stmt Blank} (h : Declaration ts s) :
    Ordered ts → LawfulIn ts s := by
  refine Declaration.induct (P := fun _ ts s => Ordered ts → LawfulIn ts s)
    (Q := fun ts s => Ordered ts → LawfulIn ts s)
    (R := fun ts r => Ordered ts → RoutineLawfulIn ts r)
    ?expression ?print ?giveBack ?block ?ifThen ?ifElse ?loop ?forLoop ?statement ?declare
    ?function ?klass ?routine h
  case expression =>
    intro ts semicolon e h _ _
    rw [lawfulIn_iff rfl]
    exact Phrase.lawfulIn h (List.subset_append_left _ _)
  case print =>
    intro word semicolon ts e _ h _ _
    rw [lawfulIn_iff rfl]
    exact Phrase.lawfulIn h (by grind)
  case giveBack =>
    intro word semicolon ts value _ h _ _
    rw [lawfulIn_iff rfl]
    cases h with
    | none => exact fun _ _ _ site hsite => absurd hsite List.not_mem_nil
    | some h => exact Phrase.lawfulIn h (by grind)
  case block =>
    intro opening closing ts body _ h _ hordered
    have hbody : Sequence DeclarationLawful ts body :=
      h.mono fun _ _ h => ⟨h.1.mem_of_declared?, h.2⟩
    exact lawfulIn_block hbody (hordered.sublist (by grind)) (by grind)
  case ifThen =>
    intro word opening closing tail ts us test whenTrue _ _ h _ hstatement ih hordered
    have hwhenTrue := ih (hordered.sublist (by grind))
    exact lawfulIn_ifThen (Phrase.lawfulIn h (by grind)) hstatement.declared?_eq_none
      (hwhenTrue.mono (by grind))
  case ifElse =>
    intro word opening closing other tail ts us vs test whenTrue whenFalse _ _ h _ hstatement _
      hstatement' ih ih' hordered
    have hwhenTrue := ih (hordered.sublist (by grind))
    have hwhenFalse := ih' (hordered.sublist (by grind))
    exact lawfulIn_ifElse (Phrase.lawfulIn h (by grind)) hstatement.declared?_eq_none
      (hwhenTrue.mono (by grind)) hstatement'.declared?_eq_none (hwhenFalse.mono (by grind))
  case loop =>
    intro word opening closing tail ts us test body _ _ h _ hstatement ih hordered
    have hbody := ih (hordered.sublist (by grind))
    exact lawfulIn_loop (Phrase.lawfulIn h (by grind)) hstatement.declared?_eq_none
      (hbody.mono (by grind))
  case forLoop =>
    intro word opening semicolon closing tail ts us vs ws initial condition increment body _ _
      hinitial hcondition _ hincrement _ hstatement ih hordered
    have hsub : (ts ++ (us ++ (vs ++ ws))).Sublist
        (word :: opening :: ts ++ us ++ semicolon :: vs ++ closing :: ws) := by
      simp only [List.cons_append, List.append_assoc]
      refine .cons _ (.cons _ ((List.Sublist.refl ts).append ((List.Sublist.refl us).append ?_)))
      exact .cons _ ((List.Sublist.refl vs).append (.cons _ (List.Sublist.refl ws)))
    exact (lawfulIn_forTree hinitial hcondition hincrement hstatement.declared?_eq_none
      (ih (hordered.sublist (by grind))) (hordered.sublist hsub)).mono hsub.subset
  case statement => exact fun _ ih => ih
  case declare =>
    intro word ts s _ h hordered
    exact (lawfulIn_variable h hordered.of_cons).mono (List.subset_cons_self _ _)
  case function =>
    intro word ts r _ h ih hordered scopes around hagrees site hsite
    obtain ⟨name, params, body⟩ := r
    simp only [Stmt.link, Stmt.linkRoutine, Stmt.sites, Stmt.declaredIn_linkBody] at hsite
    refine ih (hordered.sublist (by grind)) scopes around (fun t ht hlt => ?_) site hsite
    exact hagrees t (List.mem_cons_of_mem _ ht) fun name' hname => by cases hname; exact hlt
  case klass =>
    intro word name opening closing ts us superclass methods _ _ hsuper _ hmethods _ hordered
      scopes around hagrees site hsite
    -- superclass and methods come behind the name
    have hbehind : ∀ t ∈ ts ++ us, name.offset < t.offset := by
      simp only [List.cons_append, List.append_assoc, List.pairwise_cons] at hordered
      exact fun t ht => hordered.2.1 t (by grind)
    have hagrees' (t : Token) (ht : t ∈ ts ++ us) : Agrees t scopes around := by
      refine hagrees t (by grind) fun name' hname => ?_
      cases hname
      exact hbehind t ht
    rcases List.mem_append.mp hsite with hsite | hsite
    · cases hsuper with
      | none => exact absurd hsite List.not_mem_nil
      | @some less token _ _ =>
        obtain rfl := List.mem_singleton.mp hsite
        exact Agrees.lawful (hagrees' token (by simp)) rfl
    · refine lawful_of_mem_sitesMethods (hmethods.mono fun _ _ h => h.2)
        (hordered.sublist (by grind)) (fun t ht => ?_) site hsite
      rw [aroundMethods_map_link]
      exact (hagrees' t (List.mem_append_right _ ht)).enterClass superclass
  case routine =>
    intro name openParen closeParen openBrace closeBrace ts us params body _ _ hparams _ _ h _
      hordered scopes around hagrees site hsite
    have hbody : Sequence DeclarationLawful us body :=
      h.mono fun _ _ h => ⟨h.1.mem_of_declared?, h.2⟩
    simp only [List.cons_append, List.append_assoc, List.pairwise_cons] at hordered
    -- the parameters are the names that the body has seen before its first statement
    have hcross := (List.pairwise_append.mp hordered.2.2).2.2
    refine lawful_of_mem_sitesBody hbody params scopes around
      (hordered.2.2.sublist (by grind)) (fun param hparam t ht => ?_) (fun t ht => ?_) site hsite
    · exact hcross param (mem_of_mem_listed hparams param hparam) t (by simp [ht])
    · exact hagrees t (by simp [ht]) (hordered.1 t (by simp [ht]))

end Grammar

/-! ### Programs -/

/-- At the top level there is no scope to disagree about. -/
theorem lawful_of_mem_sitesProgram {ts : List Token} {program : List (Stmt Blank)}
    (h : Program ts program) (hts : Ordered ts) :
    ∀ site ∈ sites (linkProgram program), site.Lawful := by
  induction h with
  | nil => exact fun site hsite => absurd hsite List.not_mem_nil
  | @cons ts us s rest h _ ih =>
    obtain ⟨hts, hus, -⟩ := List.pairwise_append.mp hts
    have henter : Scopes.enter [] s = [] := by
      rw [Scopes.enter]
      cases s.declared? <;> rfl
    intro site hsite
    rw [linkProgram, Stmt.linkBody, henter] at hsite
    rcases List.mem_append.mp hsite with hsite | hsite
    · exact h.lawful hts [] [] (fun _ _ _ => .nil) site hsite
    · exact ih hus site hsite

/-- **Every site of an accepted text is lawful.** -/
theorem Accepted.lawful {text : String} {program : List (Stmt Place)} (h : Accepted text program) :
    ∀ site ∈ sites program, site.Lawful := by
  obtain ⟨statements, hprogram, -, rfl⟩ := h.exists_statements
  exact lawful_of_mem_sitesProgram hprogram (pairwise_offset_tokens text)

/-- Two sites of an accepted text have two tokens. -/
theorem Accepted.nodup_sites {text : String} {program : List (Stmt Place)}
    (h : Accepted text program) : ((sites program).map Site.token).Nodup := by
  obtain ⟨statements, hprogram, -, rfl⟩ := h.exists_statements
  have hnodup : (scan text).tokens.Nodup :=
    (pairwise_offset_tokens text).imp fun hlt heq => absurd (congrArg Token.offset heq) hlt.ne
  have hmentions := (mentionedIn_mentionsProgram hprogram).nodup hnodup
  have htokens : (sites (linkProgram statements)).map Site.token =
      mentionTokens (Stmt.mentionsBody statements) := by
    rw [← Stmt.mentionTokens_linkBody [], ← Stmt.map_mention_sitesBody [], mentionTokens,
      List.map_map]
    rfl
  rwa [htokens]

/-- An entry of the table is a site with a distance for its link. -/
theorem mem_localTable {program : List (Stmt Place)} {entry : TableEntry} :
    entry ∈ localTable program ↔ ∃ site ∈ sites program, entry.token = site.token ∧
      entry.label = site.mention.label ∧ site.link = .outward entry.distance := by
  obtain ⟨token, label, distance⟩ := entry
  rw [localTable_eq_filterMap_sites, List.mem_filterMap]
  refine exists_congr fun site => and_congr_right fun _ => ?_
  rw [Mention.entry?]
  cases hlink : site.mention.reference.link with
  | global => simp [hlink]
  | outward d =>
    simp only [hlink, Option.some.injEq, TableEntry.mk.injEq, Place.outward.injEq, eq_comm]

/-- **The table is lexical scope.** In an accepted text every mention of a name is linked, and
listed in the table, with the number of scopes passed over on the way out to the first that binds
the name, and only then; the table lists nothing but mentions, and no two mentions share a token.
-/
theorem localTable_lexical {text : String} {program : List (Stmt Place)}
    (h : Accepted text program) :
    (∀ site ∈ sites program, ∀ distance,
      (site.link = .outward distance ↔ site.Resolves distance) ∧
      ((∃ entry ∈ localTable program, entry.token = site.token ∧ entry.distance = distance) ↔
        site.Resolves distance)) ∧
    (∀ entry ∈ localTable program,
      ∃ site ∈ sites program, entry.token = site.token ∧ entry.label = site.mention.label) ∧
    ((sites program).map Site.token).Nodup := by
  refine ⟨fun site hsite distance => ⟨h.lawful site hsite distance, ?_⟩, fun entry hentry => ?_,
    h.nodup_sites⟩
  · rw [← h.lawful site hsite distance]
    constructor
    · rintro ⟨entry, hentry, htoken, rfl⟩
      obtain ⟨site', hsite', htoken', -, hlink⟩ := mem_localTable.mp hentry
      have : site' = site :=
        List.inj_on_of_nodup_map h.nodup_sites hsite' hsite (htoken'.symm.trans htoken)
      rwa [← this]
    · intro hlink
      exact ⟨⟨site.token, site.mention.label, distance⟩,
        mem_localTable.mpr ⟨site, hsite, rfl, rfl, hlink⟩, rfl, rfl⟩
  · obtain ⟨site, hsite, htoken, hlabel, -⟩ := mem_localTable.mp hentry
    exact ⟨site, hsite, htoken, hlabel⟩

/-- A text with a variable that is declared after a function has mentioned another of its name, and
with both kinds of scope that a class opens. -/
def lateShadowing : String :=
  "\x7b var a = 1; class B < a \x7b m() \x7b fun f() \x7b return a + super.m(); \x7d var a = this; \x7d \x7d \x7d"

/-- The law at work: the function in the method passes over the variable that is declared behind
it. -/
theorem localTable_lexical_lateShadowing :
    Accepted lateShadowing (linkProgram (parse (scan lateShadowing).tokens).statements) ∧
      (localTable (linkProgram (parse (scan lateShadowing).tokens).statements)).map
        (fun entry => (entry.label, entry.distance)) =
        [("<ref:a>", 0), ("<ref:a>", 4), ("<super.m>", 3), ("<this>", 1)] ∧
      ∀ site ∈ sites (linkProgram (parse (scan lateShadowing).tokens).statements), ∀ distance,
        site.link = .outward distance ↔ site.Resolves distance := by
  have hcheck : ((scan lateShadowing).mistakes = [] ∧
      (parse (scan lateShadowing).tokens).mistakes = [] ∧
      scopeMistakes (parse (scan lateShadowing).tokens).statements = []) ∧
      (localTable (linkProgram (parse (scan lateShadowing).tokens).statements)).map
        (fun entry => (entry.label, entry.distance)) =
        [("<ref:a>", 0), ("<ref:a>", 4), ("<super.m>", 3), ("<this>", 1)] := by
    decide +kernel
  obtain ⟨⟨hlexical, hparsed, hscopes⟩, htable⟩ := hcheck
  have h : Accepted lateShadowing (linkProgram (parse (scan lateShadowing).tokens).statements) :=
    accepted_iff.mpr ⟨hlexical, hparsed, hscopes, rfl⟩
  exact ⟨h, htable, fun site hsite distance => ((localTable_lexical h).1 site hsite distance).1⟩

end LoxInterpreter
