import LoxInterpreter.Proofs.Accepted
import LoxInterpreter.Proofs.Scope.Fits
import LoxInterpreter.Proofs.Twin.Outcome

/-!
# Extra braces change nothing

A statement that declares nothing may be put into a block of its own, wherever it stands, and so may
any number of statements of a program. The blocks are scopes in which nothing is ever declared. Scope
analysis finds the same mistakes (`Stmt.scopeMistakesBody_braced`), and the links reach over the
blocks, so that a run of the new program takes the course of the old one (`outcome_braced`).

`Scopes.Spaced` relates the scopes around a place in the two programs.
-/

namespace LoxInterpreter

/-! ### Braces -/

mutual

/-- The second statement is the first one with some of the statements in it, or itself, put into
blocks of their own. Declarations are not put into blocks. -/
inductive Stmt.Braced : Stmt Blank → Stmt Blank → Prop where
  | wrap {s s' : Stmt Blank} : s.declared? = none → Stmt.Braced s s' → Stmt.Braced s (.block [s'])
  | malformed : Stmt.Braced .malformed .malformed
  | expression (value : Expr Blank) : Stmt.Braced (.expression value) (.expression value)
  | print (value : Expr Blank) : Stmt.Braced (.print value) (.print value)
  | declare (name : Token) (initial : Option (Expr Blank)) :
      Stmt.Braced (.declare name initial) (.declare name initial)
  | block {body body' : List (Stmt Blank)} :
      Stmt.BodyBraced body body' → Stmt.Braced (.block body) (.block body')
  | branch (condition : Expr Blank) {whenTrue whenTrue' : Stmt Blank} :
      Stmt.Braced whenTrue whenTrue' →
      Stmt.Braced (.branch condition whenTrue none) (.branch condition whenTrue' none)
  | branchElse (condition : Expr Blank) {whenTrue whenTrue' whenFalse whenFalse' : Stmt Blank} :
      Stmt.Braced whenTrue whenTrue' → Stmt.Braced whenFalse whenFalse' →
      Stmt.Braced (.branch condition whenTrue (some whenFalse))
        (.branch condition whenTrue' (some whenFalse'))
  | loop (condition : Expr Blank) {body body' : Stmt Blank} :
      Stmt.Braced body body' → Stmt.Braced (.loop condition body) (.loop condition body')
  | function {routine routine' : Routine Blank} :
      Stmt.RoutineBraced routine routine' → Stmt.Braced (.function routine) (.function routine')
  | giveBack (keyword : Token) (value : Option (Expr Blank)) :
      Stmt.Braced (.giveBack keyword value) (.giveBack keyword value)
  | klass (name : Token) (superclass : Option (Reference Blank))
      {methods methods' : List (Routine Blank)} :
      Stmt.MethodsBraced methods methods' →
      Stmt.Braced (.klass name superclass methods) (.klass name superclass methods')

/-- Some of the statements have been put into blocks, or statements in them. -/
inductive Stmt.BodyBraced : List (Stmt Blank) → List (Stmt Blank) → Prop where
  | nil : Stmt.BodyBraced [] []
  | cons {s s' : Stmt Blank} {rest rest' : List (Stmt Blank)} :
      Stmt.Braced s s' → Stmt.BodyBraced rest rest' → Stmt.BodyBraced (s :: rest) (s' :: rest')

/-- So it is in the body of a function or method. -/
inductive Stmt.RoutineBraced : Routine Blank → Routine Blank → Prop where
  | mk (name : Token) (params : List Token) {body body' : List (Stmt Blank)} :
      Stmt.BodyBraced body body' → Stmt.RoutineBraced (.mk name params body) (.mk name params body')

/-- So it is in the bodies of methods. -/
inductive Stmt.MethodsBraced : List (Routine Blank) → List (Routine Blank) → Prop where
  | nil : Stmt.MethodsBraced [] []
  | cons {m m' : Routine Blank} {rest rest' : List (Routine Blank)} :
      Stmt.RoutineBraced m m' → Stmt.MethodsBraced rest rest' →
      Stmt.MethodsBraced (m :: rest) (m' :: rest')

end

namespace Stmt

mutual

/-- All statements that declare nothing, at any depth, put into blocks of their own. -/
def braceAll : Stmt Blank → Stmt Blank
  | .malformed => .block [.malformed]
  | .expression value => .block [.expression value]
  | .print value => .block [.print value]
  | .declare name initial => .declare name initial
  | .block body => .block [.block (braceBody body)]
  | .branch condition whenTrue none => .block [.branch condition whenTrue.braceAll none]
  | .branch condition whenTrue (some whenFalse) =>
    .block [.branch condition whenTrue.braceAll (some whenFalse.braceAll)]
  | .loop condition body => .block [.loop condition body.braceAll]
  | .function (.mk name params body) => .function (.mk name params (braceBody body))
  | .giveBack keyword value => .block [.giveBack keyword value]
  | .klass name superclass methods => .klass name superclass (braceMethods methods)

/-- Braces at any depth of consecutive statements. -/
def braceBody : List (Stmt Blank) → List (Stmt Blank)
  | [] => []
  | s :: rest => s.braceAll :: braceBody rest

/-- Braces at any depth of methods. -/
def braceMethods : List (Routine Blank) → List (Routine Blank)
  | [] => []
  | .mk name params body :: rest => .mk name params (braceBody body) :: braceMethods rest

end

mutual

theorem braced_braceAll (s : Stmt Blank) : s.Braced s.braceAll := by
  match s with
  | .malformed => exact .wrap rfl .malformed
  | .expression value => exact .wrap rfl (.expression value)
  | .print value => exact .wrap rfl (.print value)
  | .declare name initial => exact .declare name initial
  | .block body => exact .wrap rfl (.block (bodyBraced_braceBody body))
  | .branch condition whenTrue none =>
    exact .wrap rfl (.branch condition (braced_braceAll whenTrue))
  | .branch condition whenTrue (some whenFalse) =>
    exact .wrap rfl
      (.branchElse condition (braced_braceAll whenTrue) (braced_braceAll whenFalse))
  | .loop condition body => exact .wrap rfl (.loop condition (braced_braceAll body))
  | .function (.mk name params body) =>
    exact .function (.mk name params (bodyBraced_braceBody body))
  | .giveBack keyword value => exact .wrap rfl (.giveBack keyword value)
  | .klass name superclass methods =>
    exact .klass name superclass (methodsBraced_braceMethods methods)

theorem bodyBraced_braceBody (body : List (Stmt Blank)) : BodyBraced body (braceBody body) := by
  match body with
  | [] => exact .nil
  | s :: rest => exact .cons (braced_braceAll s) (bodyBraced_braceBody rest)

theorem methodsBraced_braceMethods (methods : List (Routine Blank)) :
    MethodsBraced methods (braceMethods methods) := by
  match methods with
  | [] => exact .nil
  | .mk name params body :: rest =>
    exact .cons (.mk name params (bodyBraced_braceBody body)) (methodsBraced_braceMethods rest)

end

/-- Braces do not change what a statement declares. -/
theorem Braced.declared?_eq {s s' : Stmt Blank} (h : s.Braced s') : s'.declared? = s.declared? := by
  cases h with
  | wrap hs _ => exact hs.symm
  | function h => cases h with | mk => rfl
  | _ => rfl

end Stmt

/-! ### Scopes with blocks between them -/

/-- A declaration may stand here. -/
def Layer.Open : List Layer → Prop
  | .spare :: _ => False
  | _ => True

/-- The second scopes are the first ones with empty scopes in between, where the layers are spare.
None comes between the scopes of `super` and `this`, and no other scope binds `super`. -/
inductive Scopes.Spaced : List Layer → Scopes → Scopes → Prop where
  | topLevel : Spaced [] [] []
  | scope {layers : List Layer} {scopes scopes' : Scopes} {scope : Scope} :
      "super" ∉ scope → Spaced layers scopes scopes' →
      Spaced (.same :: layers) (scope :: scopes) (scope :: scopes')
  | derived {layers : List Layer} {scopes scopes' : Scopes} {scope : Scope} :
      "super" ∉ scope → Spaced layers scopes scopes' →
      Spaced (.same :: .same :: layers) (scope :: ["super"] :: scopes) (scope :: ["super"] :: scopes')
  | spare {layers : List Layer} {scopes scopes' : Scopes} :
      Spaced layers scopes scopes' → Spaced (.spare :: layers) scopes ([] :: scopes')

namespace Scopes.Spaced

variable {layers : List Layer} {scopes scopes' : Scopes}

/-- Names are bound in twin frames. -/
theorem place (h : Spaced layers scopes scopes') (x : String) :
    (scopes.placeOf x).Twins layers x x (scopes'.placeOf x) := by
  -- one scope that is in both
  have hscope {layers : List Layer} {scopes scopes' : Scopes} (scope : Scope)
      (h : (scopes.placeOf x).Twins layers x x (scopes'.placeOf x)) :
      (placeOf (scope :: scopes) x).Twins (.same :: layers) x x (placeOf (scope :: scopes') x) := by
    by_cases hx : x ∈ scope
    · rw [placeOf_cons_of_mem hx, placeOf_cons_of_mem hx]
      exact .outward .here rfl
    · rw [placeOf_cons_eq_further hx, placeOf_cons_eq_further hx]
      exact h.further _
  induction h with
  | topLevel => exact .global rfl
  | scope _ _ ih => exact hscope _ ih
  | derived _ _ ih => exact hscope _ (hscope _ ih)
  | spare _ ih =>
    rw [placeOf_cons_eq_further List.not_mem_nil]
    exact ih.past

/-- Either nothing binds `super`, or the frame just inside is on the way in both. -/
theorem exists_reaches_super (h : Spaced layers scopes scopes') :
    scopes.placeOf "super" = .global ∧ scopes'.placeOf "super" = .global ∨
      ∃ d d', scopes.placeOf "super" = .outward (d + 1) ∧
        scopes'.placeOf "super" = .outward (d' + 1) ∧
        Layer.Reaches layers (d + 1) (d' + 1) (.refl String) ∧
        Layer.Reaches layers d d' (.refl String) := by
  induction h with
  | topLevel => exact .inl ⟨rfl, rfl⟩
  | scope hsuper _ ih =>
    rw [placeOf_cons_eq_further hsuper, placeOf_cons_eq_further hsuper]
    rcases ih with ⟨hglobal, hglobal'⟩ | ⟨d, d', hplace, hplace', hreaches, hinner⟩
    · rw [hglobal, hglobal']
      exact .inl ⟨rfl, rfl⟩
    · rw [hplace, hplace']
      exact .inr ⟨d + 1, d' + 1, rfl, rfl, hreaches.outward, hinner.outward⟩
  | derived hsuper _ _ =>
    rw [placeOf_cons_eq_further hsuper, placeOf_cons_eq_further hsuper,
      placeOf_cons_of_mem List.mem_cons_self, placeOf_cons_of_mem List.mem_cons_self]
    exact .inr ⟨0, 0, rfl, rfl, .outward .here, .here⟩
  | spare _ ih =>
    rw [placeOf_cons_eq_further List.not_mem_nil]
    rcases ih with ⟨hglobal, hglobal'⟩ | ⟨d, d', hplace, hplace', hreaches, hinner⟩
    · rw [hglobal']
      exact .inl ⟨hglobal, rfl⟩
    · rw [hplace']
      exact .inr ⟨d, d' + 1, hplace, rfl, hreaches.past, hinner.past⟩

/-- A method of the superclass is looked for through twin frames. -/
theorem superTwins (h : Spaced layers scopes scopes') :
    (scopes.placeOf "super").SuperTwins layers (scopes'.placeOf "super") := by
  rcases h.exists_reaches_super with ⟨hglobal, hglobal'⟩ | ⟨d, d', hplace, hplace', hreaches, hinner⟩
  · rw [hglobal, hglobal']
    exact .global
  · rw [hplace, hplace']
    exact .outward hreaches rfl hinner rfl

/-- A declaration is one in both programs. -/
theorem bind (h : Spaced layers scopes scopes') (hopen : Layer.Open layers) {x : String}
    (hx : x ≠ "super") : Spaced layers (scopes.bind x) (scopes'.bind x) := by
  have hcons {scope : Scope} (hscope : "super" ∉ scope) : "super" ∉ x :: scope :=
    List.not_mem_cons_of_ne_of_not_mem hx.symm hscope
  cases h with
  | topLevel => exact .topLevel
  | scope hscope houter => exact .scope (hcons hscope) houter
  | derived hscope houter => exact .derived (hcons hscope) houter
  | spare => exact hopen.elim

/-- After a statement that is in both programs. -/
theorem enter (h : Spaced layers scopes scopes') {s s' : Stmt Blank}
    (hopen : s.declared? = none ∨ Layer.Open layers) (hname : ∀ name ∈ s.declared?, name.IsName)
    (hs : s.Braced s') : Spaced layers (scopes.enter s) (scopes'.enter s') := by
  rw [Scopes.enter, Scopes.enter, hs.declared?_eq]
  cases hdeclared : s.declared? with
  | none => exact h
  | some name =>
    rw [hdeclared] at hopen
    rcases hopen with hnone | hopen
    · cases hnone
    · exact h.bind hopen (hname name hdeclared).2

theorem enterRoutine (h : Spaced layers scopes scopes') {params : List Token}
    (hparams : ∀ param ∈ params, param.IsName) :
    Spaced (.same :: layers) (scopes.enterRoutine params) (scopes'.enterRoutine params) := by
  refine .scope (fun hmem => ?_) h
  obtain ⟨param, hparam, hname⟩ := List.mem_map.mp hmem
  exact (hparams param (List.mem_reverse.mp hparam)).2 hname

theorem enterClass (h : Spaced layers scopes scopes') (superclass : Option (Reference Blank)) :
    Spaced (.same :: Layer.aroundMethods superclass layers) (scopes.enterClass superclass)
      (scopes'.enterClass superclass) := by
  cases superclass with
  | none => exact .scope (by decide) h
  | some _ => exact .derived (by decide) h

end Scopes.Spaced

/-! ### The same mistakes -/

/-- The surroundings differ in spare scopes alone. -/
structure Surroundings.Spaced (layers : List Layer) (c c' : Surroundings) : Prop where
  scopes : Scopes.Spaced layers c.scopes c'.scopes
  routine : c'.routine = c.routine
  classKind : c'.classKind = c.classKind

namespace Surroundings.Spaced

variable {layers : List Layer} {c c' : Surroundings} {s s' : Stmt Blank}

theorem inBlock (h : c.Spaced layers c') : c.inBlock.Spaced (.same :: layers) c'.inBlock :=
  ⟨.scope List.not_mem_nil h.scopes, h.routine, h.classKind⟩

theorem spare (h : c.Spaced layers c') : c.Spaced (.spare :: layers) c'.inBlock :=
  ⟨.spare h.scopes, h.routine, h.classKind⟩

theorem inRoutine (h : c.Spaced layers c') (kind : Enclosing) {params : List Token}
    (hparams : ∀ param ∈ params, param.IsName) :
    (c.inRoutine kind params).Spaced (.same :: layers) (c'.inRoutine kind params) :=
  ⟨h.scopes.enterRoutine hparams, rfl, h.classKind⟩

theorem inClass (h : c.Spaced layers c') (superclass : Option (Reference Blank)) :
    (c.inClass superclass).Spaced (.same :: Layer.aroundMethods superclass layers)
      (c'.inClass superclass) :=
  ⟨h.scopes.enterClass superclass, h.routine, rfl⟩

theorem enter (h : c.Spaced layers c') (hopen : s.declared? = none ∨ Layer.Open layers)
    (hname : ∀ name ∈ s.declared?, name.IsName) (hs : s.Braced s') :
    (c.enter s).Spaced layers (c'.enter s') :=
  ⟨h.scopes.enter hopen hname hs, h.routine, h.classKind⟩

/-- A name is declared again in one program if it is in the other. -/
theorem redeclaration_eq (h : c.Spaced layers c') (hopen : s.declared? = none ∨ Layer.Open layers)
    (hs : s.Braced s') : c'.redeclaration s' = c.redeclaration s := by
  rw [Surroundings.redeclaration, Surroundings.redeclaration, hs.declared?_eq]
  cases hdeclared : s.declared? with
  | none => rfl
  | some name =>
    rw [hdeclared] at hopen
    obtain ⟨scopes, _, _⟩ := c
    obtain ⟨scopes', _, _⟩ := c'
    rcases hopen with hnone | hopen
    · cases hnone
    · cases h.scopes with
      | topLevel | scope | derived => rfl
      | spare => exact hopen.elim

theorem initializing_eq (h : c.Spaced layers c') (hopen : Layer.Open layers) (name : Token) :
    c'.initializing name = c.initializing name := by
  obtain ⟨scopes, _, _⟩ := c
  obtain ⟨scopes', _, _⟩ := c'
  cases h.scopes with
  | topLevel | scope | derived => rfl
  | spare => exact hopen.elim

end Surroundings.Spaced

namespace Stmt

mutual

/-- Braces make no mistakes and hide none. -/
theorem scopeMistakes_braced {s s' : Stmt Blank} (hs : s.Braced s') (hshape : s.Shaped)
    {layers : List Layer} {c c' : Surroundings} (hc : c.Spaced layers c')
    (hopen : s.declared? = none ∨ Layer.Open layers) :
    s'.scopeMistakes c' = s.scopeMistakes c := by
  match s, s', hs with
  | s, _, @Braced.wrap _ s' hnone hs =>
    -- the block stands in no scope of its own in the first program
    have henter : c'.inBlock.enter s' = c'.inBlock := by
      rw [Surroundings.enter, Scopes.enter, hs.declared?_eq, hnone]
    have hredeclaration : c'.inBlock.redeclaration s' = [] := by
      rw [hc.spare.redeclaration_eq (.inl hnone) hs, Surroundings.redeclaration, hnone]
    rw [scopeMistakes, scopeMistakesBody, scopeMistakesBody, hredeclaration, henter,
      List.append_nil, List.nil_append]
    exact scopeMistakes_braced hs hshape hc.spare (.inl hnone)
  | _, _, .malformed | _, _, .declare _ none => rfl
  | _, _, .expression value | _, _, .print value => rw [scopeMistakes, scopeMistakes, hc.classKind]
  | _, _, .declare name (some initial) =>
    rcases hopen with hnone | hopen
    · cases hnone
    · rw [scopeMistakes, scopeMistakes, hc.classKind, hc.initializing_eq hopen]
  | _, _, .block hbody => exact scopeMistakesBody_braced hbody hshape hc.inBlock trivial
  | _, _, .branch condition htrue =>
    obtain ⟨-, hnone, hshape⟩ := hshape
    rw [scopeMistakes, scopeMistakes, hc.classKind, hc.redeclaration_eq (.inl hnone) htrue,
      scopeMistakes_braced htrue hshape (hc.enter (.inl hnone) hshape.isName htrue) (.inl hnone)]
  | _, _, .branchElse condition htrue hfalse =>
    obtain ⟨-, ⟨hnone, hshape⟩, hnone', hshape'⟩ := hshape
    rw [scopeMistakes, scopeMistakes, hc.classKind, hc.redeclaration_eq (.inl hnone) htrue,
      hc.redeclaration_eq (.inl hnone') hfalse,
      scopeMistakes_braced htrue hshape (hc.enter (.inl hnone) hshape.isName htrue) (.inl hnone),
      scopeMistakes_braced hfalse hshape' (hc.enter (.inl hnone') hshape'.isName hfalse)
        (.inl hnone')]
  | _, _, .loop condition hbody =>
    obtain ⟨-, hnone, hshape⟩ := hshape
    rw [scopeMistakes, scopeMistakes, hc.classKind, hc.redeclaration_eq (.inl hnone) hbody,
      scopeMistakes_braced hbody hshape (hc.enter (.inl hnone) hshape.isName hbody) (.inl hnone)]
  | _, _, .function (.mk name params hbody) =>
    obtain ⟨-, hparams, hshape⟩ := hshape
    rw [scopeMistakes, scopeMistakes, scopeMistakesRoutine, scopeMistakesRoutine,
      scopeMistakesBody_braced hbody hshape (hc.inRoutine _ hparams) trivial]
  | _, _, .giveBack keyword none => rw [scopeMistakes, scopeMistakes, hc.routine]
  | _, _, .giveBack keyword (some value) =>
    rw [scopeMistakes, scopeMistakes, hc.routine, hc.classKind]
  | _, _, .klass name none hmethods =>
    rw [scopeMistakes, scopeMistakes,
      scopeMistakesMethods_braced hmethods hshape.2 (hc.inClass none)]
  | _, _, .klass name (some superclass) hmethods =>
    rw [scopeMistakes, scopeMistakes,
      scopeMistakesMethods_braced hmethods hshape.2 (hc.inClass (some superclass))]

/-- Braces among statements make no mistakes and hide none. -/
theorem scopeMistakesBody_braced {body body' : List (Stmt Blank)} (hbody : BodyBraced body body')
    (hshape : ShapedBody body) {layers : List Layer} {c c' : Surroundings}
    (hc : c.Spaced layers c') (hopen : Layer.Open layers) :
    scopeMistakesBody c' body' = scopeMistakesBody c body := by
  match body, body', hbody with
  | _, _, .nil => rfl
  | _, _, .cons hs hrest =>
    obtain ⟨hshape, hshapes⟩ := hshape
    have henter := hc.enter (.inr hopen) hshape.isName hs
    rw [scopeMistakesBody, scopeMistakesBody, hc.redeclaration_eq (.inr hopen) hs,
      scopeMistakes_braced hs hshape henter (.inr hopen),
      scopeMistakesBody_braced hrest hshapes henter hopen]

/-- Braces in methods make no mistakes and hide none. -/
theorem scopeMistakesMethods_braced {methods methods' : List (Routine Blank)}
    (hmethods : MethodsBraced methods methods') (hshape : ShapedMethods methods)
    {layers : List Layer} {c c' : Surroundings} (hc : c.Spaced layers c') :
    scopeMistakesMethods c' methods' = scopeMistakesMethods c methods := by
  match methods, methods', hmethods with
  | _, _, .nil => rfl
  | _, _, .cons (.mk name params hbody) hrest =>
    obtain ⟨⟨hparams, hshape⟩, hshapes⟩ := hshape
    rw [scopeMistakesMethods, scopeMistakesMethods,
      scopeMistakesBody_braced hbody hshape (hc.inRoutine _ hparams) trivial,
      scopeMistakesMethods_braced hrest hshapes hc]

end

end Stmt

/-! ### Twin links -/

namespace Expr

variable {layers : List Layer} {scopes scopes' : Scopes}

theorem twins_linkIn (h : Scopes.Spaced layers scopes scopes') (r : Reference Blank) :
    (r.linkIn scopes).Twins .plain layers (r.linkIn scopes') :=
  ⟨rfl, h.place r.name⟩

mutual

/-- Linked in spaced scopes, an expression becomes twins. -/
theorem twins_link (h : Scopes.Spaced layers scopes scopes') (e : Expr Blank) (hshape : e.Shaped) :
    (e.link scopes).Twins .plain layers (e.link scopes') := by
  cases e with
  | literal value => exact .literal value
  | grouping inner => exact .grouping (twins_link h inner hshape)
  | unary op operand => exact .unary rfl (twins_link h operand hshape.2)
  | binary left op right =>
    exact .binary (twins_link h left hshape.2.1) rfl (twins_link h right hshape.2.2)
  | logical left op right =>
    exact .logical (twins_link h left hshape.1) rfl (twins_link h right hshape.2)
  | reference target => exact .reference (twins_linkIn h target)
  | assign target value => exact .assign (twins_linkIn h target) (twins_link h value hshape.2)
  | call callee paren values =>
    exact .call (twins_link h callee hshape.1) rfl (twins_linkAll h values hshape.2)
  | property object name => exact .property (twins_link h object hshape) ⟨rfl, rfl⟩
  | setProperty object name value =>
    exact .setProperty (twins_link h object hshape.1) ⟨rfl, rfl⟩ (twins_link h value hshape.2)
  | this receiver => exact .this (twins_linkIn h receiver)
  | inherited superclass method =>
    have hsuper := h.superTwins
    rw [← show superclass.name = "super" from hshape] at hsuper
    exact .inherited hsuper ⟨rfl, rfl⟩

/-- Linked in spaced scopes, expressions become twins. -/
theorem twins_linkAll (h : Scopes.Spaced layers scopes scopes') (es : List (Expr Blank))
    (hshape : ShapedAll es) :
    List.Forall₂ (Twins .plain layers) (linkAll scopes es) (linkAll scopes' es) := by
  cases es with
  | nil => exact .nil
  | cons e rest => exact .cons (twins_link h e hshape.1) (twins_linkAll h rest hshape.2)

end

theorem twins_map_link (h : Scopes.Spaced layers scopes scopes') {value : Option (Expr Blank)}
    (hshape : ∀ e ∈ value, e.Shaped) :
    Option.Rel (Twins .plain layers) (value.map (link scopes)) (value.map (link scopes')) := by
  cases value with
  | none => exact .none
  | some e => exact .some (twins_link h e (hshape e rfl))

end Expr

/-- What is declared where a declaration may stand keeps its name. -/
theorem Layer.Open.declares {layers : List Layer} {scopes scopes' : Scopes} (h : Layer.Open layers)
    (hscopes : Scopes.Spaced layers scopes scopes') (x : String) : Layer.Declares layers x x := by
  cases hscopes with
  | topLevel | scope | derived => rfl
  | spare => exact h.elim

namespace Stmt

mutual

/-- Linked in spaced scopes, a statement and the statement with braces become twins. -/
theorem twins_link_braced {s s' : Stmt Blank} (hs : s.Braced s') (hshape : s.Shaped)
    {layers : List Layer} {scopes scopes' : Scopes} (h : Scopes.Spaced layers scopes scopes')
    (hopen : s.declared? = none ∨ Layer.Open layers) :
    (s.link scopes).Twins .plain layers (s'.link scopes') := by
  match s, s', hs with
  | s, _, @Braced.wrap _ s' hnone hs =>
    have henter : Scopes.enter ([] :: scopes') s' = [] :: scopes' := by
      rw [Scopes.enter, hs.declared?_eq, hnone]
    rw [link, linkBody, linkBody, henter]
    exact .braced (twins_link_braced hs hshape h.spare (.inl hnone))
  | _, _, .malformed => exact .malformed
  | _, _, .expression value => exact .expression (Expr.twins_link h value hshape)
  | _, _, .print value => exact .print (Expr.twins_link h value hshape)
  | _, _, .declare name initial =>
    rcases hopen with hnone | hopen
    · cases hnone
    · exact .declare (hopen.declares h _) (Expr.twins_map_link h hshape.2)
  | _, _, .block hbody =>
    exact .block (twins_linkBody_braced hbody hshape (h.scope List.not_mem_nil) trivial)
  | _, _, .branch condition htrue =>
    obtain ⟨hcondition, hnone, hshape⟩ := hshape
    exact .branch (Expr.twins_link h condition hcondition)
      (twins_link_braced htrue hshape (h.enter (.inl hnone) hshape.isName htrue) (.inl hnone))
  | _, _, .branchElse condition htrue hfalse =>
    obtain ⟨hcondition, ⟨hnone, hshape⟩, hnone', hshape'⟩ := hshape
    exact .branchElse (Expr.twins_link h condition hcondition)
      (twins_link_braced htrue hshape (h.enter (.inl hnone) hshape.isName htrue) (.inl hnone))
      (twins_link_braced hfalse hshape' (h.enter (.inl hnone') hshape'.isName hfalse)
        (.inl hnone'))
  | _, _, .loop condition hbody =>
    obtain ⟨hcondition, hnone, hshape⟩ := hshape
    exact .loop (Expr.twins_link h condition hcondition)
      (twins_link_braced hbody hshape (h.enter (.inl hnone) hshape.isName hbody) (.inl hnone))
  | _, _, .function (.mk name params hbody) =>
    obtain ⟨-, hparams, hshape⟩ := hshape
    rcases hopen with hnone | hopen
    · cases hnone
    · exact .function (hopen.declares h _) (.mk rfl (List.forall₂_same.mpr fun _ _ => rfl)
        (twins_linkBody_braced hbody hshape (h.enterRoutine hparams) trivial))
  | _, _, .giveBack keyword value => exact .giveBack (Expr.twins_map_link h hshape)
  | _, _, .klass name none hmethods =>
    rcases hopen with hnone | hopen
    · cases hnone
    · exact .klass (hopen.declares h _) ⟨rfl, rfl⟩ .none
        (twins_linkMethods_braced hmethods hshape.2 (h.enterClass none))
  | _, _, .klass name (some superclass) hmethods =>
    rcases hopen with hnone | hopen
    · cases hnone
    · exact .klass (hopen.declares h _) ⟨rfl, rfl⟩ (.some (Expr.twins_linkIn h superclass))
        (twins_linkMethods_braced hmethods hshape.2 (h.enterClass (some superclass)))

/-- Linked in spaced scopes, statements and the statements with braces become twins. -/
theorem twins_linkBody_braced {body body' : List (Stmt Blank)} (hbody : BodyBraced body body')
    (hshape : ShapedBody body) {layers : List Layer} {scopes scopes' : Scopes}
    (h : Scopes.Spaced layers scopes scopes') (hopen : Layer.Open layers) :
    BodyTwins .plain layers (linkBody scopes body) (linkBody scopes' body') := by
  match body, body', hbody with
  | _, _, .nil => exact .nil
  | _, _, .cons hs hrest =>
    obtain ⟨hshape, hshapes⟩ := hshape
    have henter := h.enter (.inr hopen) hshape.isName hs
    exact .cons (twins_link_braced hs hshape henter (.inr hopen))
      (twins_linkBody_braced hrest hshapes henter hopen)

/-- Linked in spaced scopes, methods and the methods with braces become twins. -/
theorem twins_linkMethods_braced {methods methods' : List (Routine Blank)}
    (hmethods : MethodsBraced methods methods') (hshape : ShapedMethods methods)
    {layers : List Layer} {scopes scopes' : Scopes} (h : Scopes.Spaced layers scopes scopes') :
    MethodsTwins .plain layers (linkMethods scopes methods) (linkMethods scopes' methods') := by
  match methods, methods', hmethods with
  | _, _, .nil => exact .nil
  | _, _, .cons (.mk name params hbody) hrest =>
    obtain ⟨⟨hparams, hshape⟩, hshapes⟩ := hshape
    exact .cons (.mk rfl (List.forall₂_same.mpr fun _ _ => rfl)
        (twins_linkBody_braced hbody hshape (h.enterRoutine hparams) trivial))
      (twins_linkMethods_braced hrest hshapes h)

end

end Stmt

open Run in
/-- **Extra braces change nothing.** In the program of an accepted text, some statements that declare
nothing are put into blocks of their own, wherever they stand. Scope analysis has no objection to
the new program, and run on a fresh machine it has the same output, ends with the same globals, and
fails, if it does, with the same message and the same token to blame. -/
theorem outcome_braced {text : String} {program : List (Stmt Place)}
    (haccepted : Accepted text program) {braced : List (Stmt Blank)}
    (hbraced : Stmt.BodyBraced (parse (scan text).tokens).statements braced) {answers : Answers}
    (honest : answers.Honest) (settled : answers.Settled) (natives : List Native) (clock : Float)
    (limits : Limits) :
    scopeMistakes braced = [] ∧
      outcome answers natives clock limits (linkProgram braced) =
        outcome answers natives clock limits program := by
  obtain ⟨-, hparsed, hmistakes, rfl⟩ := haccepted.nothing_wrong
  have hshape := shaped_of_program (Parse.parse_sound hparsed)
  constructor
  · rw [← hmistakes]
    exact Stmt.scopeMistakesBody_braced hbraced hshape ⟨.topLevel, rfl, rfl⟩ trivial
  · have htwins := Stmt.twins_linkBody_braced hbraced hshape .topLevel trivial
    exact (twins_outcome honest settled natives clock limits htwins).eq

/-- A text with a function that outlives its block, and a loop that calls it. -/
def outliving : String :=
  "var f; \x7b var a = nil; fun g() \x7b if (f) return a; \x7d f = g; \x7d while (f) f = f();"

open Run in
/-- Braces around everything: the links of the text change, and what it comes to does not. -/
theorem outcome_braced_outliving :
    Accepted outliving (linkProgram (parse (scan outliving).tokens).statements) ∧
      Answers.usual.Honest ∧ Answers.usual.Settled ∧
      scopeMistakes (Stmt.braceBody (parse (scan outliving).tokens).statements) = [] ∧
      outcome .usual Native.all 0 ⟨9, 9⟩
          (linkProgram (Stmt.braceBody (parse (scan outliving).tokens).statements)) =
        outcome .usual Native.all 0 ⟨9, 9⟩
          (linkProgram (parse (scan outliving).tokens).statements) := by
  have haccepted : Accepted outliving (linkProgram (parse (scan outliving).tokens).statements) :=
    accepted_of_nothing_wrong (by decide +kernel)
  obtain ⟨hmistakes, hsame⟩ := outcome_braced haccepted
    (Stmt.bodyBraced_braceBody _) Answers.honest_usual Answers.settled_usual Native.all 0 ⟨9, 9⟩
  exact ⟨haccepted, Answers.honest_usual, Answers.settled_usual, hmistakes, hsame⟩

end LoxInterpreter
