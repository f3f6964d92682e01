import LoxInterpreter.Proofs.Scope.Shape
import LoxInterpreter.Proofs.Scope.Unlink

/-!
# What evaluation counts on

A linked tree *fits* a place if its links may be followed there. The place is given by two lists,
one entry for each local scope around it: the names that are bound for certain once execution gets
there, and what the scope will ever bind. `Expr.Fits` and `Stmt.Fits` are read off the rules of
evaluation and know nothing of scope analysis; that scope analysis establishes them is
`Accepted.fits`.

* A mention is linked to the nearest scope in which its name is bound for certain. There is one
  exception, the assignment to a local variable in its own initializer
  (`Site.AssignsOwnInitializer`): it is linked to the variable, which is not there yet.
* `this` is linked to the scope around the methods of the class that it stands in (`InMethod`), and
  `super` to the scope around that one.
* What is declared is no keyword.

All definitions have a parameter `Φ` that is asked to hold of every site in the tree.
-/

namespace LoxInterpreter

open Grammar

/-- An assignment to a local variable in its own initializer: the innermost scope around the mention
declares the variable, and the mention stands in the initializer of that declaration. -/
def Site.AssignsOwnInitializer {ρ : Type} (site : Site ρ) : Prop :=
  site.kind = .assign ∧ ∃ names outer name, site.around = .declaring names :: outer ∧
    name ∈ names ∧ site.initializing = some name ∧ name.lexeme = site.token.lexeme

/-- The innermost scope, if there is a local one, declares the name. -/
def DeclaredAround (around : List LocalScope) (name : Token) : Prop :=
  ∀ scope ∈ around.head?, ∃ names, scope = .declaring names ∧ name ∈ names

/-- The scope declares names, and none of them is a keyword. -/
def LocalScope.IsPlain (l : LocalScope) : Prop :=
  ∃ names, l = .declaring names ∧ ∀ name ∈ names, name.IsName

/-- That many scopes inside of the one that binds `this`, around which there are the others. -/
def InMethod (around : List LocalScope) (distance : Nat) (outer : List LocalScope) : Prop :=
  ∃ inner, around = inner ++ .keyword "this" :: outer ∧ inner.length = distance ∧
    ∀ l ∈ inner, l.IsPlain

/-! ### Expressions -/

section Mentions

variable (Φ : Site Place → Prop) (scopes : Scopes)

/-- A mention that is read is linked to the nearest binding. -/
def Site.ReadFits (site : Site Place) : Prop :=
  Φ site ∧ site.link = scopes.placeOf site.token.lexeme

/-- A mention that is assigned to is linked to the nearest binding, or to the variable that is being
initialized. -/
def Site.WriteFits (site : Site Place) : Prop :=
  Φ site ∧ site.token.IsName ∧ (site.link = scopes.placeOf site.token.lexeme ∨
    site.link = .outward 0 ∧ site.AssignsOwnInitializer)

/-- The place is the scope that binds `super`, around the one that binds `this`. -/
def SuperFits (around : List LocalScope) (place : Place) : Prop :=
  ∃ distance inner outer rest, place = .outward (distance + 1) ∧ scopes[distance]? = some inner ∧
    "this" ∈ inner ∧ scopes[distance + 1]? = some outer ∧ "super" ∈ outer ∧
    InMethod around distance (.keyword "super" :: rest)

end Mentions

/-- The place is the scope that binds `this`. -/
def ThisFits (around : List LocalScope) (place : Place) : Prop :=
  ∃ distance outer, place = .outward distance ∧ InMethod around distance outer

namespace Expr

section Fits

variable (Φ : Site Place → Prop) (scopes : Scopes) (around : List LocalScope)
  (initializing : Option Token)

mutual

/-- An expression may be evaluated in the scopes, in the initializer of the variable if there is
one. -/
def Fits : Expr Place → Prop
  | .literal _ => True
  | .grouping inner => inner.Fits
  | .unary op operand => op.kind.IsPrefix ∧ operand.Fits
  | .binary left op right => op.kind.IsBinary ∧ left.Fits ∧ right.Fits
  | .logical left _ right => left.Fits ∧ right.Fits
  | .reference target =>
    Site.ReadFits Φ scopes ⟨.read, ⟨target, target.label⟩, around, initializing⟩
  | .assign target value =>
    Site.WriteFits Φ scopes
      ⟨.assign, ⟨target, (Expr.assign target value).label⟩, around, initializing⟩ ∧ value.Fits
  | .call callee _ values => callee.Fits ∧ FitAll values
  | .property object _ => object.Fits
  | .setProperty object _ value => object.Fits ∧ value.Fits
  | .this receiver =>
    receiver.name = "this" ∧ ThisFits around receiver.link ∧
      Site.ReadFits Φ scopes ⟨.this, ⟨receiver, (Expr.this receiver).label⟩, around, initializing⟩
  | .inherited superclass _ => SuperFits scopes around superclass.link

/-- All of the expressions may be evaluated there. -/
def FitAll : List (Expr Place) → Prop
  | [] => True
  | e :: rest => e.Fits ∧ FitAll rest

end

end Fits

end Expr

/-! ### Surroundings -/

/-- No scope binds `super` but the one around the scope of `this` in a class with a superclass. -/
inductive Scopes.Regular : Scopes → Prop where
  | topLevel : Regular []
  | scope {scope : Scope} {scopes : Scopes} :
      "super" ∉ scope → Regular scopes → Regular (scope :: scopes)
  | derived {scope : Scope} {scopes : Scopes} :
      "super" ∉ scope → Regular scopes → Regular (scope :: ["super"] :: scopes)

/-- What the walk knows of its surroundings is true of the scopes around. -/
structure Coherent (c : Surroundings) (around : List LocalScope) : Prop where
  length : c.scopes.length = around.length
  regular : c.scopes.Regular
  this : c.classKind ≠ .outside → ThisFits around (c.scopes.placeOf "this")
  super : c.classKind = .derived → SuperFits c.scopes around (c.scopes.placeOf "super")

/-- The function or method is one of a text. It was linked in surroundings that have these scopes,
and scope analysis had no objection to it. -/
def Stmt.RoutineWritten (scopes : Scopes) (around : List LocalScope) (r : Routine Place) : Prop :=
  ∃ (c : Surroundings) (kind : Enclosing), c.scopes = scopes ∧ Coherent c around ∧
    ShapedRoutine (unlinkRoutine r) ∧ scopeMistakesRoutine c kind (unlinkRoutine r) = [] ∧
    linkRoutine scopes (unlinkRoutine r) = r

/-! ### Statements -/

namespace Stmt

section Fits

variable (Φ : Site Place → Prop)

mutual

/-- A statement may be executed in the scopes, which do not hold yet what it declares. Whether it
may hand a value back depends on whether it stands in a routine. -/
def Fits (scopes : Scopes) (around : List LocalScope) (inRoutine : Bool) : Stmt Place → Prop
  | .malformed => True
  | .expression value | .print value => value.Fits Φ scopes around none
  | .declare name initial =>
    DeclaredAround around name ∧ name.IsName ∧ ∀ e ∈ initial, e.Fits Φ scopes around (some name)
  | .block body => BodyFits ([] :: scopes) (.declaring (declaredIn body) :: around) inRoutine body
  | .branch condition whenTrue none =>
    condition.Fits Φ scopes around none ∧ whenTrue.declared? = none ∧
      whenTrue.Fits scopes around inRoutine
  | .branch condition whenTrue (some whenFalse) =>
    condition.Fits Φ scopes around none ∧
      (whenTrue.declared? = none ∧ whenTrue.Fits scopes around inRoutine) ∧
      whenFalse.declared? = none ∧ whenFalse.Fits scopes around inRoutine
  | .loop condition body =>
    condition.Fits Φ scopes around none ∧ body.declared? = none ∧
      body.Fits scopes around inRoutine
  | .function routine =>
    DeclaredAround around routine.name ∧ routine.name.IsName ∧
      RoutineFits (scopes.bind routine.name.lexeme) around routine
  | .giveBack _ value => inRoutine ∧ ∀ e ∈ value, e.Fits Φ scopes around none
  | .klass name superclass methods =>
    DeclaredAround around name ∧ name.IsName ∧
      (∀ target ∈ superclass,
        Site.ReadFits Φ scopes ⟨.read, ⟨target, target.label⟩, around, none⟩) ∧
      MethodsFit ((scopes.bind name.lexeme).enterClass superclass)
        (LocalScope.aroundMethods superclass around) methods

/-- Consecutive statements may be executed there. -/
def BodyFits (scopes : Scopes) (around : List LocalScope) (inRoutine : Bool) :
    List (Stmt Place) → Prop
  | [] => True
  | s :: rest =>
    s.Fits scopes around inRoutine ∧ BodyFits (scopes.enter s) around inRoutine rest

/-- The body of a function may be executed in a new scope inside of these, which are those that it
was written in. -/
def RoutineFits (scopes : Scopes) (around : List LocalScope) : Routine Place → Prop
  | .mk name params body =>
    (∀ param ∈ params, param.IsName) ∧
      BodyFits (scopes.enterRoutine params) (.declaring (params ++ declaredIn body) :: around) true
        body ∧
      RoutineWritten scopes around (.mk name params body)

/-- All of the methods may be run there. -/
def MethodsFit (scopes : Scopes) (around : List LocalScope) : List (Routine Place) → Prop
  | [] => True
  | m :: rest => RoutineFits scopes around m ∧ MethodsFit scopes around rest

end

end Fits

end Stmt

/-! ### Places on the stack -/

namespace Scopes

variable {scopes : Scopes} {x y : String}

/-- A scope that does not bind the name is passed over. -/
theorem placeOf_cons_of_not_mem {scope : Scope} (h : x ∉ scope) {distance : Nat}
    (hplace : scopes.placeOf x = .outward distance) :
    Scopes.placeOf (scope :: scopes) x = .outward (distance + 1) := by
  rw [placeOf_cons_eq_further h, hplace]
  rfl

/-- Binding a name places no other name anew. -/
theorem placeOf_bind_of_ne (h : x ≠ y) : (scopes.bind y).placeOf x = scopes.placeOf x := by
  cases scopes with
  | nil => rfl
  | cons scope outer =>
    have hmem : (x ∈ y :: scope) ↔ x ∈ scope := by simp [h]
    simp only [bind, placeOf, List.findIdx?_cons, hmem]

theorem length_bind : (scopes.bind y).length = scopes.length := by
  cases scopes <;> rfl

theorem length_enter {ρ : Type} (s : Stmt ρ) : (scopes.enter s).length = scopes.length := by
  rw [enter]
  split
  · exact length_bind
  · rfl

/-- Links make no difference to what a class binds. -/
theorem enterClass_map_link (linked : Scopes) (superclass : Option (Reference Blank)) :
    scopes.enterClass (superclass.map (Reference.linkIn linked)) =
      scopes.enterClass superclass := by
  cases superclass <;> rfl

end Scopes

/-- A further scope that declares names. -/
theorem InMethod.cons {around outer : List LocalScope} {distance : Nat}
    (h : InMethod around distance outer) {l : LocalScope} (hl : l.IsPlain) :
    InMethod (l :: around) (distance + 1) outer := by
  obtain ⟨inner, rfl, rfl, hplain⟩ := h
  exact ⟨l :: inner, rfl, rfl, List.forall_mem_cons.mpr ⟨hl, hplain⟩⟩

/-- The scope that binds `this` is that many scopes outward. -/
theorem InMethod.drop_eq {around outer : List LocalScope} {distance : Nat}
    (h : InMethod around distance outer) : around.drop distance = .keyword "this" :: outer := by
  obtain ⟨inner, rfl, rfl, -⟩ := h
  exact List.drop_left

theorem inMethod_zero {outer : List LocalScope} : InMethod (.keyword "this" :: outer) 0 outer :=
  ⟨[], rfl, rfl, List.forall_mem_nil _⟩

namespace ThisFits

variable {scopes : Scopes} {around : List LocalScope}

/-- A further scope that does not bind `this` moves the place outward by one. -/
theorem cons (h : ThisFits around (scopes.placeOf "this")) {scope : Scope} {l : LocalScope}
    (hl : l.IsPlain) (hscope : "this" ∉ scope) :
    ThisFits (l :: around) (Scopes.placeOf (scope :: scopes) "this") := by
  obtain ⟨distance, outer, hplace, hmethod⟩ := h
  exact ⟨distance + 1, outer, Scopes.placeOf_cons_of_not_mem hscope hplace, hmethod.cons hl⟩

/-- Around the methods of a class. -/
theorem around_methods (superclass : Option (Reference Blank)) :
    ThisFits (LocalScope.aroundMethods superclass around)
      ((scopes.enterClass superclass).placeOf "this") := by
  cases superclass <;>
    exact ⟨0, _, Scopes.placeOf_cons_of_mem List.mem_cons_self, inMethod_zero⟩

end ThisFits

namespace SuperFits

variable {scopes : Scopes} {around : List LocalScope}

/-- A further scope that binds no `super` moves the place outward by one. -/
theorem cons (h : SuperFits scopes around (scopes.placeOf "super")) {scope : Scope}
    {l : LocalScope} (hl : l.IsPlain) (hscope : "super" ∉ scope) :
    SuperFits (scope :: scopes) (l :: around) (Scopes.placeOf (scope :: scopes) "super") := by
  obtain ⟨distance, inner, outer, rest, hplace, hinner, hthis, houter, hsuper, hmethod⟩ := h
  exact ⟨distance + 1, inner, outer, rest, Scopes.placeOf_cons_of_not_mem hscope hplace, hinner,
    hthis, houter, hsuper, hmethod.cons hl⟩

/-- A name that is bound does not come between. -/
theorem bind {place : Place} (h : SuperFits scopes around place) (y : String) :
    SuperFits (scopes.bind y) around place := by
  obtain ⟨distance, inner, outer, rest, hplace, hinner, hthis, houter, hsuper, hmethod⟩ := h
  cases scopes with
  | nil => cases hinner
  | cons scope scopes =>
    cases distance with
    | zero =>
      cases hinner
      exact ⟨0, y :: inner, outer, rest, hplace, rfl, List.mem_cons_of_mem _ hthis, houter,
        hsuper, hmethod⟩
    | succ distance =>
      exact ⟨distance + 1, inner, outer, rest, hplace, hinner, hthis, houter, hsuper, hmethod⟩

/-- Around the methods of a class with a superclass. -/
theorem around_methods :
    SuperFits (["this"] :: ["super"] :: scopes)
      (.keyword "this" :: .keyword "super" :: around)
      (Scopes.placeOf (["this"] :: ["super"] :: scopes) "super") := by
  refine ⟨0, ["this"], ["super"], around, ?_, rfl, by decide, rfl, by decide, inMethod_zero⟩
  exact Scopes.placeOf_cons_of_not_mem (by decide) (Scopes.placeOf_cons_of_mem (by decide))

end SuperFits

/-! ### Scope analysis establishes the fit -/

/-- In the initializer of a local variable the links are filled in from a stack that holds already
its name. Elsewhere there is but one stack. -/
structure Sees (kind : ClassKind) (own : Option String) (linked scopes : Scopes)
    (around : List LocalScope) (initializing : Option Token) : Prop where
  place : ∀ x, own ≠ some x → linked.placeOf x = scopes.placeOf x
  own : ∀ x, own = some x → linked.placeOf x = .outward 0 ∧ ∃ names outer name,
    around = .declaring names :: outer ∧ name ∈ names ∧ initializing = some name ∧
      name.lexeme = x ∧ name.IsName
  this : kind ≠ .outside → ThisFits around (scopes.placeOf "this")
  super : kind = .derived → SuperFits scopes around (scopes.placeOf "super")

namespace Sees

variable {kind : ClassKind} {own : Option String} {linked scopes : Scopes}
  {around : List LocalScope} {initializing : Option Token}

/-- A keyword is placed alike on both stacks. -/
theorem place_keyword (h : Sees kind own linked scopes around initializing) {word : String}
    (hword : word = "this" ∨ word = "super") : linked.placeOf word = scopes.placeOf word := by
  refine h.place word fun hown => ?_
  obtain ⟨-, _, _, name, -, -, -, hname, hthis, hsuper⟩ := h.own word hown
  rcases hword with rfl | rfl
  · exact hthis hname
  · exact hsuper hname

end Sees

namespace Expr

variable {Φ : Site Place → Prop} {kind : ClassKind} {own : Option String} {linked scopes : Scopes}
  {around : List LocalScope} {initializing : Option Token}

mutual

/-- An expression without mistakes fits. -/
theorem fits_link (hsees : Sees kind own linked scopes around initializing) (e : Expr Blank)
    (hshape : e.Shaped) (hmistakes : e.scopeMistakes kind own = [])
    (hΦ : ∀ site ∈ (e.link linked).sites around initializing, Φ site) :
    (e.link linked).Fits Φ scopes around initializing := by
  cases e with
  | literal => trivial
  | grouping inner => exact fits_link hsees inner hshape hmistakes hΦ
  | unary _ operand => exact ⟨hshape.1, fits_link hsees operand hshape.2 hmistakes hΦ⟩
  | property object => exact fits_link hsees object hshape hmistakes hΦ
  | binary left _ right =>
    obtain ⟨hop, hleft, hright⟩ := hshape
    rw [scopeMistakes, List.append_eq_nil_iff] at hmistakes
    rw [link, sites, List.forall_mem_append] at hΦ
    exact ⟨hop, fits_link hsees left hleft hmistakes.1 hΦ.1,
      fits_link hsees right hright hmistakes.2 hΦ.2⟩
  | logical left _ right =>
    rw [scopeMistakes, List.append_eq_nil_iff] at hmistakes
    rw [link, sites, List.forall_mem_append] at hΦ
    exact ⟨fits_link hsees left hshape.1 hmistakes.1 hΦ.1,
      fits_link hsees right hshape.2 hmistakes.2 hΦ.2⟩
  | setProperty object _ value =>
    rw [scopeMistakes, List.append_eq_nil_iff] at hmistakes
    rw [link, sites, List.forall_mem_append] at hΦ
    exact ⟨fits_link hsees object hshape.1 hmistakes.2 hΦ.1,
      fits_link hsees value hshape.2 hmistakes.1 hΦ.2⟩
  | call callee _ values =>
    rw [scopeMistakes, List.append_eq_nil_iff] at hmistakes
    rw [link, sites, List.forall_mem_append] at hΦ
    exact ⟨fits_link hsees callee hshape.1 hmistakes.1 hΦ.1,
      fitAll_linkAll hsees values hshape.2 hmistakes.2 hΦ.2⟩
  | reference target =>
    rw [scopeMistakes] at hmistakes
    refine ⟨hΦ _ (List.mem_singleton_self _), hsees.place _ fun hown => ?_⟩
    -- to read a local variable in its own initializer is a mistake
    rw [if_pos hown] at hmistakes
    cases hmistakes
  | assign target value =>
    rw [link, sites, List.forall_mem_cons] at hΦ
    refine ⟨⟨hΦ.1, hshape.1, ?_⟩, fits_link hsees value hshape.2 hmistakes hΦ.2⟩
    by_cases hown : own = some target.name
    · obtain ⟨hplace, names, outer, name, haround, hmem, hinitializing, hname, -⟩ :=
        hsees.own _ hown
      exact .inr ⟨hplace, rfl, names, outer, name, haround, hmem, hinitializing, hname⟩
    · exact .inl (hsees.place _ hown)
  | this receiver =>
    have hplace := hsees.place_keyword (.inl hshape)
    have hkind : kind ≠ .outside := by
      rintro rfl
      cases hmistakes
    refine ⟨hshape, ?_, hΦ _ (List.mem_singleton_self _), hplace⟩
    show ThisFits around (linked.placeOf receiver.name)
    rw [hplace, show receiver.name = "this" from hshape]
    exact hsees.this hkind
  | inherited superclass _ =>
    cases kind with
    | outside | base => cases hmistakes
    | derived =>
      -- the grammar has no other word in this place
      show SuperFits scopes around (linked.placeOf superclass.name)
      rw [hsees.place_keyword (.inr hshape), show superclass.name = "super" from hshape]
      exact hsees.super rfl

theorem fitAll_linkAll (hsees : Sees kind own linked scopes around initializing)
    (es : List (Expr Blank)) (hshape : ShapedAll es)
    (hmistakes : scopeMistakesAll kind own es = [])
    (hΦ : ∀ site ∈ sitesAll around initializing (linkAll linked es), Φ site) :
    FitAll Φ scopes around initializing (linkAll linked es) := by
  cases es with
  | nil => trivial
  | cons e rest =>
    rw [scopeMistakesAll, List.append_eq_nil_iff] at hmistakes
    rw [linkAll, sitesAll, List.forall_mem_append] at hΦ
    exact ⟨fits_link hsees e hshape.1 hmistakes.1 hΦ.1,
      fitAll_linkAll hsees rest hshape.2 hmistakes.2 hΦ.2⟩

end

end Expr

namespace Scopes.Regular

variable {scopes : Scopes}

/-- A declaration binds no keyword. -/
theorem bind (h : scopes.Regular) {x : String} (hx : x ≠ "super") : (scopes.bind x).Regular := by
  cases h with
  | topLevel => exact .topLevel
  | scope hscope houter => exact .scope (List.not_mem_cons_of_ne_of_not_mem hx.symm hscope) houter
  | derived hscope houter =>
    exact .derived (List.not_mem_cons_of_ne_of_not_mem hx.symm hscope) houter

theorem enter (h : scopes.Regular) {s : Stmt Blank} (hs : ∀ name ∈ s.declared?, name.IsName) :
    (scopes.enter s).Regular := by
  rw [Scopes.enter]
  split
  · next name hname => exact h.bind (hs name hname).2
  · exact h

theorem enterRoutine (h : scopes.Regular) {params : List Token}
    (hparams : ∀ param ∈ params, param.IsName) : (scopes.enterRoutine params).Regular := by
  refine .scope (fun hmem => ?_) h
  obtain ⟨param, hparam, hname⟩ := List.mem_map.mp hmem
  exact (hparams param (List.mem_reverse.mp hparam)).2 hname

theorem enterClass (h : scopes.Regular) (superclass : Option (Reference Blank)) :
    (scopes.enterClass superclass).Regular := by
  cases superclass with
  | none => exact .scope (by decide) h
  | some _ => exact .derived (by decide) h

end Scopes.Regular

namespace Coherent

variable {c : Surroundings} {around : List LocalScope} {own : Option Token}

theorem topLevel : Coherent .topLevel [] := ⟨rfl, .topLevel, fun h => absurd rfl h, nofun⟩

theorem inBlock (h : Coherent c around) {l : LocalScope} (hl : l.IsPlain) :
    Coherent c.inBlock (l :: around) where
  length := congrArg (· + 1) h.length
  regular := .scope List.not_mem_nil h.regular
  this hkind := (h.this hkind).cons hl List.not_mem_nil
  super hkind := (h.super hkind).cons hl List.not_mem_nil

theorem inRoutine (h : Coherent c around) (kind : Enclosing) {l : LocalScope} (hl : l.IsPlain)
    {params : List Token} (hparams : ∀ param ∈ params, param.IsName) :
    Coherent (c.inRoutine kind params) (l :: around) := by
  have hkeyword (word : String) (hword : word = "this" ∨ word = "super") :
      word ∉ params.reverse.map Token.lexeme := by
    intro hmem
    obtain ⟨param, hparam, rfl⟩ := List.mem_map.mp hmem
    obtain ⟨hthis, hsuper⟩ := hparams param (List.mem_reverse.mp hparam)
    exact hword.elim hthis hsuper
  exact ⟨congrArg (· + 1) h.length, h.regular.enterRoutine hparams,
    fun hkind => (h.this hkind).cons hl (hkeyword _ (.inl rfl)),
    fun hkind => (h.super hkind).cons hl (hkeyword _ (.inr rfl))⟩

theorem enter (h : Coherent c around) {s : Stmt Blank} (hs : ∀ name ∈ s.declared?, name.IsName) :
    Coherent (c.enter s) around where
  length := Eq.trans (Scopes.length_enter s) h.length
  regular := h.regular.enter hs
  this hkind := by
    have hthis := h.this hkind
    show ThisFits around ((c.scopes.enter s).placeOf "this")
    rw [Scopes.enter]
    split
    · next name hname => rwa [Scopes.placeOf_bind_of_ne (hs name hname).1.symm]
    · exact hthis
  super hkind := by
    have hsuper := h.super hkind
    show SuperFits (c.scopes.enter s) around ((c.scopes.enter s).placeOf "super")
    rw [Scopes.enter]
    split
    · next name hname =>
      rw [Scopes.placeOf_bind_of_ne (hs name hname).2.symm]
      exact hsuper.bind _
    · exact hsuper

theorem inClass (h : Coherent c around) (superclass : Option (Reference Blank)) :
    Coherent (c.inClass superclass) (LocalScope.aroundMethods superclass around) where
  length := by
    cases superclass with
    | none => exact congrArg (· + 1) h.length
    | some _ => exact congrArg (· + 2) h.length
  regular := h.regular.enterClass superclass
  this _ := ThisFits.around_methods superclass
  super hkind := by
    cases superclass with
    | none => cases hkind
    | some _ => exact SuperFits.around_methods

/-- At an expression outside of initializers. -/
theorem sees (h : Coherent c around) (initializing : Option Token) :
    Sees c.classKind none c.scopes c.scopes around initializing :=
  ⟨fun _ _ => rfl, nofun, h.this, h.super⟩

/-- In the initializer of a variable. -/
theorem sees_initializing (h : Coherent c around) {name : Token} (hname : name.IsName)
    (hdeclared : DeclaredAround around name) :
    Sees c.classKind (c.initializing name) (c.scopes.bind name.lexeme) c.scopes around
      (some name) := by
  have hlength := h.length
  cases hscopes : c.scopes with
  | nil =>
    -- at the top level the variable is a global one
    have hown : c.initializing name = none := by
      rw [Surroundings.initializing, hscopes]
      rfl
    rw [hown, ← hscopes]
    refine ⟨fun x _ => ?_, nofun, h.this, h.super⟩
    rw [hscopes]
    rfl
  | cons scope outer =>
    have hown : c.initializing name = some name.lexeme := by
      rw [Surroundings.initializing, hscopes]
      rfl
    rw [hown, ← hscopes]
    refine ⟨fun x hx => Scopes.placeOf_bind_of_ne fun heq => hx (congrArg some heq.symm),
      fun x hx => ?_, h.this, h.super⟩
    cases hx
    constructor
    · rw [hscopes]
      exact Scopes.placeOf_cons_of_mem List.mem_cons_self
    · cases around with
      | nil =>
        rw [hscopes] at hlength
        cases hlength
      | cons l outer =>
        obtain ⟨names, rfl, hmem⟩ := hdeclared l rfl
        exact ⟨names, outer, name, rfl, hmem, rfl, rfl, hname⟩

end Coherent

/-- What has the shape declares names. -/
theorem Stmt.Shaped.isName {s : Stmt Blank} (h : s.Shaped) : ∀ name ∈ s.declared?, name.IsName := by
  intro name hname
  match s with
  | .declare .. | .function _ | .klass .. =>
    cases hname
    exact h.1
  | .malformed | .expression _ | .print _ | .block _ | .branch _ _ none | .branch _ _ (some _)
  | .loop _ _ | .giveBack _ _ => cases hname

theorem Stmt.ShapedBody.isName {body : List (Stmt Blank)} (h : ShapedBody body) :
    ∀ name ∈ declaredIn body, name.IsName := by
  induction body with
  | nil => exact List.forall_mem_nil _
  | cons s rest ih =>
    rw [declaredIn_cons, List.forall_mem_append]
    exact ⟨fun name hname => h.1.isName name (Option.mem_toList.mp hname), ih h.2⟩

/-- The scope of a routine that has the shape binds no keyword. -/
theorem isPlain_routine {name : Token} {params : List Token} {body : List (Stmt Blank)}
    (h : Stmt.ShapedRoutine (.mk name params body)) :
    LocalScope.IsPlain (.declaring (params ++ declaredIn body)) :=
  ⟨_, rfl, List.forall_mem_append.mpr ⟨h.1, h.2.isName⟩⟩

/-- In a scope that a body declares its names in, each statement of the body declares its own. -/
theorem declaredAround_of_mem {names : List Token} {outer : List LocalScope} {name : Token}
    (h : name ∈ names) : DeclaredAround (.declaring names :: outer) name := by
  rintro _ ⟨⟩
  exact ⟨names, rfl, h⟩

namespace Stmt

variable {Φ : Site Place → Prop}

/-- Scope analysis has no objection to a linked routine that it had none to before. -/
theorem routineWritten_link {c : Surroundings} {around : List LocalScope} (hc : Coherent c around)
    (kind : Enclosing) {r : Routine Blank} (hshape : ShapedRoutine r)
    (hmistakes : scopeMistakesRoutine c kind r = []) :
    RoutineWritten c.scopes around (linkRoutine c.scopes r) := by
  refine ⟨c, kind, rfl, hc, ?_⟩
  rw [unlinkRoutine_linkRoutine]
  exact ⟨hshape, hmistakes, rfl⟩

/-- Whether the surroundings are those of a routine. -/
abbrev returns (c : Surroundings) : Bool := c.routine != .topLevel

mutual

/-- A statement without mistakes fits. -/
theorem fits_link (s : Stmt Blank) {c : Surroundings} {around : List LocalScope}
    (hc : Coherent c around) (hshape : s.Shaped) (hmistakes : s.scopeMistakes (c.enter s) = [])
    (hdeclared : ∀ name ∈ s.declared?, DeclaredAround around name)
    (hΦ : ∀ site ∈ (s.link (c.scopes.enter s)).sites around, Φ site) :
    (s.link (c.scopes.enter s)).Fits Φ c.scopes around (returns c) := by
  match s with
  | .malformed => trivial
  | .expression value | .print value =>
    exact Expr.fits_link (hc.sees none) value hshape hmistakes hΦ
  | .declare name none => exact ⟨hdeclared name rfl, hshape.1, by simp⟩
  | .declare name (some initial) =>
    refine ⟨hdeclared name rfl, hshape.1, ?_⟩
    rintro e ⟨⟩
    -- whether the variable is local shows on the stack with its name and without
    have hown : (c.enter (.declare name (some initial))).initializing name =
        c.initializing name := by
      unfold Surroundings.initializing Surroundings.enter
      cases c.scopes <;> rfl
    rw [scopeMistakes, hown] at hmistakes
    exact Expr.fits_link (hc.sees_initializing hshape.1 (hdeclared name rfl)) initial
      (hshape.2 initial rfl) hmistakes hΦ
  | .block body =>
    rw [link, sites, declaredIn_linkBody] at hΦ
    rw [link, Fits, declaredIn_linkBody]
    exact bodyFits_link body (hc.inBlock ⟨_, rfl, ShapedBody.isName hshape⟩) hshape hmistakes
      (fun name hname => declaredAround_of_mem hname) hΦ
  | .branch condition whenTrue none =>
    obtain ⟨hcondition, hnone, hbranch⟩ := hshape
    simp only [scopeMistakes, List.append_eq_nil_iff] at hmistakes
    simp only [link, sites, List.forall_mem_append] at hΦ
    refine ⟨Expr.fits_link (hc.sees none) condition hcondition hmistakes.1 hΦ.1, ?_, ?_⟩
    · rw [declared?_link, hnone]
    · exact fits_link whenTrue hc hbranch hmistakes.2.2 (by simp [hnone]) hΦ.2
  | .branch condition whenTrue (some whenFalse) =>
    obtain ⟨hcondition, ⟨hnone, hbranch⟩, hnone', hbranch'⟩ := hshape
    simp only [scopeMistakes, List.append_eq_nil_iff] at hmistakes
    simp only [link, sites, List.forall_mem_append] at hΦ
    refine ⟨Expr.fits_link (hc.sees none) condition hcondition hmistakes.1.1 hΦ.1.1, ⟨?_, ?_⟩,
      ?_, ?_⟩
    · rw [declared?_link, hnone]
    · exact fits_link whenTrue hc hbranch hmistakes.1.2.2 (by simp [hnone]) hΦ.1.2
    · rw [declared?_link, hnone']
    · exact fits_link whenFalse hc hbranch' hmistakes.2.2 (by simp [hnone']) hΦ.2
  | .loop condition body =>
    obtain ⟨hcondition, hnone, hbody⟩ := hshape
    simp only [scopeMistakes, List.append_eq_nil_iff] at hmistakes
    simp only [link, sites, List.forall_mem_append] at hΦ
    refine ⟨Expr.fits_link (hc.sees none) condition hcondition hmistakes.1 hΦ.1, ?_, ?_⟩
    · rw [declared?_link, hnone]
    · exact fits_link body hc hbody hmistakes.2.2 (by simp [hnone]) hΦ.2
  | .function (.mk name params body) =>
    refine ⟨hdeclared name rfl, hshape.1, ?_⟩
    have henter := hc.enter (s := .function (.mk name params body)) (by
      rintro _ ⟨⟩
      exact hshape.1)
    simp only [scopeMistakes, scopeMistakesRoutine, List.append_eq_nil_iff] at hmistakes
    simp only [link, linkRoutine, sites, declaredIn_linkBody] at hΦ
    show RoutineFits _ _ _ (linkRoutine _ _)
    have hwritten := routineWritten_link henter .function hshape.2
      (List.append_eq_nil_iff.mpr hmistakes)
    rw [linkRoutine] at hwritten
    rw [linkRoutine, RoutineFits, declaredIn_linkBody]
    exact ⟨hshape.2.1, bodyFits_link body
      (henter.inRoutine .function (isPlain_routine hshape.2) hshape.2.1) hshape.2.2 hmistakes.2
      (fun name hname => declaredAround_of_mem (List.mem_append_right _ hname)) hΦ, hwritten⟩
  | .giveBack keyword value =>
    simp only [scopeMistakes, List.append_eq_nil_iff] at hmistakes
    constructor
    · -- outside of routines it would have been a mistake
      have hroutine : c.routine ≠ .topLevel := fun h => by simp [Surroundings.enter, h] at hmistakes
      simpa [returns] using hroutine
    · intro e he
      cases value with
      | none => cases he
      | some value =>
        cases he
        exact Expr.fits_link (hc.sees none) value (hshape value rfl)
          (List.append_eq_nil_iff.mp hmistakes.2).2 hΦ
  | .klass name superclass methods =>
    have henter := hc.enter (s := .klass name superclass methods) (by
      rintro _ ⟨⟩
      exact hshape.1)
    simp only [scopeMistakes, List.append_eq_nil_iff] at hmistakes
    simp only [link, sites, List.forall_mem_append, aroundMethods_map_link] at hΦ
    refine ⟨hdeclared name rfl, hshape.1, ?_, ?_⟩
    · intro target htarget
      cases superclass with
      | none => cases htarget
      | some superclass =>
        cases htarget
        refine ⟨hΦ.1 _ (List.mem_singleton_self _), ?_⟩
        refine Scopes.placeOf_bind_of_ne fun heq => ?_
        -- no class inherits from itself
        have hself := hmistakes.1
        dsimp only at hself
        rw [if_pos heq] at hself
        cases hself
    · rw [aroundMethods_map_link, Scopes.enterClass_map_link]
      exact methodsFit_link methods (henter.inClass superclass) hshape.2 hmistakes.2 hΦ.2

/-- A body without mistakes fits. -/
theorem bodyFits_link (body : List (Stmt Blank)) {c : Surroundings} {around : List LocalScope}
    (hc : Coherent c around) (hshape : ShapedBody body)
    (hmistakes : scopeMistakesBody c body = [])
    (hdeclared : ∀ name ∈ declaredIn body, DeclaredAround around name)
    (hΦ : ∀ site ∈ sitesBody around (linkBody c.scopes body), Φ site) :
    BodyFits Φ c.scopes around (returns c) (linkBody c.scopes body) := by
  match body with
  | [] => trivial
  | s :: rest =>
    simp only [scopeMistakesBody, List.append_eq_nil_iff] at hmistakes
    simp only [linkBody, sitesBody, List.forall_mem_append] at hΦ
    simp only [declaredIn_cons, List.forall_mem_append] at hdeclared
    refine ⟨fits_link s hc hshape.1 hmistakes.1.2
      (fun name hname => hdeclared.1 name (Option.mem_toList.mpr hname)) hΦ.1, ?_⟩
    have henter : Scopes.enter c.scopes (s.link (c.scopes.enter s)) = c.scopes.enter s := by
      rw [Scopes.enter, declared?_link, ← Scopes.enter]
    rw [henter]
    exact bodyFits_link rest (hc.enter hshape.1.isName) hshape.2 hmistakes.2 hdeclared.2 hΦ.2

/-- Methods without mistakes fit. -/
theorem methodsFit_link (methods : List (Routine Blank)) {c : Surroundings}
    {around : List LocalScope} (hc : Coherent c around) (hshape : ShapedMethods methods)
    (hmistakes : scopeMistakesMethods c methods = [])
    (hΦ : ∀ site ∈ sitesMethods around (linkMethods c.scopes methods), Φ site) :
    MethodsFit Φ c.scopes around (linkMethods c.scopes methods) := by
  match methods with
  | [] => trivial
  | .mk name params body :: rest =>
    simp only [scopeMistakesMethods, List.append_eq_nil_iff] at hmistakes
    simp only [linkMethods, linkRoutine, sitesMethods, declaredIn_linkBody,
      List.forall_mem_append] at hΦ
    refine ⟨?_, methodsFit_link rest hc hshape.2 hmistakes.2 hΦ.2⟩
    have hwritten := routineWritten_link hc (methodKind name) hshape.1
      (List.append_eq_nil_iff.mpr hmistakes.1)
    rw [linkRoutine] at hwritten
    rw [linkRoutine, RoutineFits, declaredIn_linkBody]
    have hkind : returns (c.inRoutine (methodKind name) params) = true := by
      show (methodKind name != .topLevel) = true
      rw [methodKind]
      split <;> rfl
    rw [← hkind]
    exact ⟨hshape.1.1, bodyFits_link body
      (hc.inRoutine (methodKind name) (isPlain_routine hshape.1) hshape.1.1) hshape.1.2
      hmistakes.1.2 (fun name hname => declaredAround_of_mem (List.mem_append_right _ hname)) hΦ.1,
      hwritten⟩

end

end Stmt

/-- **An accepted program fits the top level**, and what holds of all its sites may be asked for. -/
theorem Accepted.fits {Φ : Site Place → Prop} {text : String} {program : List (Stmt Place)}
    (h : Accepted text program) (hΦ : ∀ site ∈ sites program, Φ site) :
    Stmt.BodyFits Φ [] [] false program := by
  obtain ⟨statements, hprogram, hmistakes, rfl⟩ := h.exists_statements
  exact Stmt.bodyFits_link statements .topLevel (shaped_of_program hprogram) hmistakes
    (fun name _ scope hscope => absurd hscope (by simp)) hΦ

end LoxInterpreter
