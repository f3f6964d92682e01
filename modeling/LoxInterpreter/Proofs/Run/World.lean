import LoxInterpreter.Proofs.Scope.Fits
import LoxInterpreter.Session

/-!
# Worlds

A world is a machine together with what the text says of its frames: each frame stands for a local
scope of some program, and the frames around it for the scopes around that one. The machine keeps no
record of this.

* `World.Sound` is the invariant of every run. Frames enclose each other as scopes do, a frame binds
  nothing that its scope does not declare, and every value in the store is valid. A closure is valid
  if its text fits the scopes that its home stands for (`World.Runs`), and the names that are bound
  there for certain are bound (`World.Ready`).
* `World.Grows` is how a world changes as programs run: nothing is forgotten. Whatever is said of
  frames and values remains true.
* `World.Follows` has a sound world in which the run is back in the frame where it started. Each
  step that changes the store leads to a world that follows (`World.follows_push` and so on).

The sites of all texts that have been run satisfy the parameter `Φ` of a world.
-/

namespace LoxInterpreter

/-! ### Names bound once -/

namespace Forest

variable {α : Type} {f : Forest α}

/-- Each frame binds a name at most once. -/
def Distinct (f : Forest α) : Prop :=
  ∀ (id : FrameId) frame, f.frames[id]? = some frame → (frame.bindings.map Prod.fst).Nodup

/-- A new frame binds nothing, and so nothing twice. -/
theorem Distinct.push (h : f.Distinct) (enclosing : Option FrameId) :
    (f.push enclosing).Distinct := by
  intro id frame hframe
  rw [Forest.push, Array.getElem?_push] at hframe
  split at hframe
  · cases hframe
    exact List.nodup_nil
  · exact h id frame hframe

theorem Distinct.define (h : f.Distinct) (id : FrameId) (name : String) (value : α) :
    (f.define id name value).Distinct := by
  intro i frame hframe
  rw [Forest.define, Array.getElem?_modify] at hframe
  split at hframe
  · obtain ⟨old, hold, rfl⟩ := Option.map_eq_some_iff.mp hframe
    exact nodup_bindName (h i old hold) name value
  · exact h i frame hframe

end Forest

/-! ### Worlds -/

/-- A machine, and for each of its frames the local scopes that it stands for, innermost first. The
frame of the globals stands for no local scope. -/
structure World (Φ : Site Place → Prop) where
  machine : Machine
  arounds : List (List LocalScope)

/-- A frame that stands for the scopes may bind the name to the value. -/
def Admits (around : List LocalScope) (x : String) (v : Value) : Prop :=
  match around with
  | [] => True
  | .keyword word :: _ => x = word ∧ (word = "super" → ∃ id, v = .klass id)
  | .declaring names :: _ => ∃ name ∈ names, name.lexeme = x

/-- What a frame binds may be replaced by any value, but for the superclass. -/
theorem Admits.replace {around : List LocalScope} {x : String} {v : Value} (h : Admits around x v)
    (hx : x ≠ "super") (v' : Value) : Admits around x v' := by
  match around with
  | [] => trivial
  | .keyword word :: _ =>
    refine ⟨h.1, fun hword => ?_⟩
    exact absurd (h.1.trans hword) hx
  | .declaring _ :: _ => exact h

/-- The innermost scope admits what it declares. -/
theorem DeclaredAround.admits {around : List LocalScope} {name : Token}
    (h : DeclaredAround around name) (v : Value) : Admits around name.lexeme v := by
  match around with
  | [] => trivial
  | scope :: _ =>
    obtain ⟨names, rfl, hmem⟩ := h scope rfl
    exact ⟨name, hmem, rfl⟩

namespace World

variable {Φ : Site Place → Prop}

/-! ### What is said of a world -/

section Claims

variable (w : World Φ)

/-- The frame stands for the innermost of the scopes, and the frames around it for the others. -/
def StandsFor (f : FrameId) (around : List LocalScope) : Prop := w.arounds[f]? = some around

/-- The names of each scope are bound in the frame that stands as far outward. -/
def Ready : FrameId → Scopes → Prop
  | _, [] => True
  | f, scope :: outer =>
    (∀ x ∈ scope, w.machine.forest.binds f x) ∧
      ∃ g, w.machine.forest.enclosing? f = some g ∧ Ready g outer

/-- The frame stands for the scopes, and the names that are bound there for certain are bound. -/
structure Stands (f : FrameId) (scopes : Scopes) (around : List LocalScope) : Prop where
  standsFor : w.StandsFor f around
  ready : w.Ready f scopes

/-- The closure may be run where it is at home. An initializer has been tied to an instance. -/
def Runs (c : Closure) : Prop :=
  ∃ scopes around, w.Stands c.home scopes around ∧ Stmt.RoutineFits Φ scopes around c.routine ∧
    (c.isInitializer → (∃ outer, around = .keyword "this" :: outer) ∧
      w.machine.forest.binds c.home "this")

/-- The closure may be run once it has been tied to an instance. -/
def Ties (c : Closure) : Prop :=
  ∃ scopes around, w.Stands c.home scopes around ∧
    Stmt.RoutineFits Φ (["this"] :: scopes) (.keyword "this" :: around) c.routine

/-- The value names something in the store that may be used. -/
def Valid : Value → Prop
  | .closure id => ∃ c, w.machine.closures[id]? = some c ∧ w.Runs c
  | .klass id => id < w.machine.classes.size
  | .object id => id < w.machine.instances.size
  | _ => True

/-- **The invariant of every run.** -/
structure Sound : Prop where
  size : w.arounds.length = w.machine.forest.nextId
  distinct : w.machine.forest.Distinct
  globals : ∀ f, w.StandsFor f [] → f = Machine.globals ∧ w.machine.forest.enclosing? f = none
  locals : ∀ f scope outer, w.StandsFor f (scope :: outer) →
    ∃ g, g < f ∧ w.machine.forest.enclosing? f = some g ∧ w.StandsFor g outer
  admits : ∀ f around x v, w.StandsFor f around → w.machine.forest.lookup? f x = some v →
    Admits around x v
  bound : ∀ f x v, w.machine.forest.lookup? f x = some v → w.Valid v
  fields : ∀ (id : InstanceId) (i : Instance) x v, w.machine.instances[id]? = some i →
    i.fields.lookup x = some v → w.Valid v
  handed : ∀ f vs v, (f, vs) ∈ w.machine.calls → v ∈ vs → w.Valid v
  methods : ∀ (id : ClassId) (c : ClassRecord) x k, w.machine.classes[id]? = some c →
    c.methods.lookup x = some k → ∃ closure, w.machine.closures[k]? = some closure ∧ w.Ties closure

end Claims

/-! ### Growth -/

/-- Nothing is forgotten, and frames stay where they are. -/
structure Grows (w w' : World Φ) : Prop where
  standsFor : ∀ f around, w.StandsFor f around → w'.StandsFor f around
  enclosing : ∀ f g, w.machine.forest.enclosing? f = some g →
    w'.machine.forest.enclosing? f = some g
  binds : ∀ f x, w.machine.forest.binds f x → w'.machine.forest.binds f x
  closures : ∀ (id : ClosureId) c, w.machine.closures[id]? = some c →
    w'.machine.closures[id]? = some c
  classes : w.machine.classes.size ≤ w'.machine.classes.size
  instances : w.machine.instances.size ≤ w'.machine.instances.size

namespace Grows

variable {w w' w'' : World Φ}

protected theorem refl (w : World Φ) : w.Grows w :=
  ⟨fun _ _ h => h, fun _ _ h => h, fun _ _ h => h, fun _ _ h => h, Nat.le_refl _, Nat.le_refl _⟩

protected theorem trans (h : w.Grows w') (h' : w'.Grows w'') : w.Grows w'' where
  standsFor f around hf := h'.standsFor f around (h.standsFor f around hf)
  enclosing f g hf := h'.enclosing f g (h.enclosing f g hf)
  binds f x hx := h'.binds f x (h.binds f x hx)
  closures id c hc := h'.closures id c (h.closures id c hc)
  classes := h.classes.trans h'.classes
  instances := h.instances.trans h'.instances

theorem ready (h : w.Grows w') {f : FrameId} {scopes : Scopes} (hf : w.Ready f scopes) :
    w'.Ready f scopes := by
  induction scopes generalizing f with
  | nil => trivial
  | cons scope outer ih =>
    obtain ⟨hbinds, g, hg, houter⟩ := hf
    exact ⟨fun x hx => h.binds f x (hbinds x hx), g, h.enclosing f g hg, ih houter⟩

theorem stands (h : w.Grows w') {f : FrameId} {scopes : Scopes} {around : List LocalScope}
    (hf : w.Stands f scopes around) : w'.Stands f scopes around :=
  ⟨h.standsFor f around hf.standsFor, h.ready hf.ready⟩

theorem runs (h : w.Grows w') {c : Closure} (hc : w.Runs c) : w'.Runs c := by
  obtain ⟨scopes, around, hstands, hfits, hthis⟩ := hc
  exact ⟨scopes, around, h.stands hstands, hfits, fun hinit =>
    (hthis hinit).imp_right (h.binds c.home "this")⟩

theorem ties (h : w.Grows w') {c : Closure} (hc : w.Ties c) : w'.Ties c := by
  obtain ⟨scopes, around, hstands, hfits⟩ := hc
  exact ⟨scopes, around, h.stands hstands, hfits⟩

theorem valid (h : w.Grows w') {v : Value} (hv : w.Valid v) : w'.Valid v := by
  cases v with
  | closure id =>
    obtain ⟨c, hc, hruns⟩ := hv
    exact ⟨c, h.closures id c hc, h.runs hruns⟩
  | klass id => exact Nat.lt_of_lt_of_le hv h.classes
  | object id => exact Nat.lt_of_lt_of_le hv h.instances
  | _ => trivial

end Grows

/-- A frame that binds something stands for something. -/
theorem Sound.exists_standsFor {w : World Φ} (hs : w.Sound) {f : FrameId} {x : String} {v : Value}
    (h : w.machine.forest.lookup? f x = some v) : ∃ around, w.StandsFor f around := by
  have hlt : f < w.arounds.length := by
    rw [hs.size]
    by_contra hle
    rw [Forest.lookup?, Array.getElem?_eq_none (Nat.le_of_not_lt hle)] at h
    cases h
  exact ⟨w.arounds[f], List.getElem?_eq_getElem hlt⟩

/-- **What is new decides.** A world that has grown from a sound one is sound if the new frames
stand where their scopes do, and whatever is new in the store is valid. -/
theorem Sound.grow {w w' : World Φ} (hs : w.Sound) (hg : w.Grows w')
    (size : w'.arounds.length = w'.machine.forest.nextId)
    (distinct : w'.machine.forest.Distinct)
    (frames : ∀ f around, w'.StandsFor f around → w.StandsFor f around ∧
      w'.machine.forest.enclosing? f = w.machine.forest.enclosing? f ∨
      ∃ scope outer g, around = scope :: outer ∧ g < f ∧
        w'.machine.forest.enclosing? f = some g ∧ w.StandsFor g outer)
    (bound : ∀ f x v, w'.machine.forest.lookup? f x = some v →
      w.machine.forest.lookup? f x = some v ∨
      w'.Valid v ∧ ∃ around, w.StandsFor f around ∧ Admits around x v)
    (fields : ∀ (id : InstanceId) (i : Instance) x v, w'.machine.instances[id]? = some i →
      i.fields.lookup x = some v →
      (∃ i : Instance, w.machine.instances[id]? = some i ∧ i.fields.lookup x = some v) ∨ w'.Valid v)
    (handed : ∀ f vs v, (f, vs) ∈ w'.machine.calls → v ∈ vs →
      (f, vs) ∈ w.machine.calls ∨ w'.Valid v)
    (methods : ∀ (id : ClassId) (c : ClassRecord) x k, w'.machine.classes[id]? = some c →
      c.methods.lookup x = some k → w.machine.classes[id]? = some c ∨
      ∃ closure, w'.machine.closures[k]? = some closure ∧ w'.Ties closure) :
    w'.Sound where
  size := size
  distinct := distinct
  globals f hf := by
    rcases frames f [] hf with ⟨hold, hsame⟩ | ⟨_, _, _, hnil, _⟩
    · rw [hsame]
      exact hs.globals f hold
    · cases hnil
  locals f scope outer hf := by
    rcases frames f _ hf with ⟨hold, hsame⟩ | ⟨_, _, g, hcons, hlt, henclosing, houter⟩
    · obtain ⟨g, hlt, henclosing, houter⟩ := hs.locals f scope outer hold
      exact ⟨g, hlt, hsame.trans henclosing, hg.standsFor g outer houter⟩
    · cases hcons
      exact ⟨g, hlt, henclosing, hg.standsFor g outer houter⟩
  admits f around x v hf hx := by
    -- growth does not change what a frame stands for
    have hunique {around' : List LocalScope} (hf' : w.StandsFor f around') : around' = around :=
      Option.some.inj ((hg.standsFor f around' hf').symm.trans hf)
    rcases bound f x v hx with hold | ⟨-, around', hf', hadmits⟩
    · obtain ⟨around', hf'⟩ := hs.exists_standsFor hold
      rw [← hunique hf']
      exact hs.admits f _ x v hf' hold
    · rwa [← hunique hf']
  bound f x v hx := by
    rcases bound f x v hx with hold | ⟨hv, -⟩
    · exact hg.valid (hs.bound f x v hold)
    · exact hv
  fields id i x v hi hx := by
    rcases fields id i x v hi hx with ⟨i, hold, hx⟩ | hv
    · exact hg.valid (hs.fields id i x v hold hx)
    · exact hv
  handed f vs v hf hv := by
    rcases handed f vs v hf hv with hold | hvalid
    · exact hg.valid (hs.handed f vs v hold hv)
    · exact hvalid
  methods id c x k hc hx := by
    rcases methods id c x k hc hx with hold | hnew
    · obtain ⟨closure, hclosure, hties⟩ := hs.methods id c x k hold hx
      exact ⟨closure, hg.closures k closure hclosure, hg.ties hties⟩
    · exact hnew

/-! ### Steps -/

/-- The world that a run leads to: it has grown, it is sound, and the run is back in the frame
where it started. -/
structure Follows (w w' : World Φ) : Prop where
  grows : w.Grows w'
  sound : w'.Sound
  current : w'.machine.current = w.machine.current

protected theorem Follows.refl {w : World Φ} (h : w.Sound) : w.Follows w := ⟨.refl w, h, rfl⟩

protected theorem Follows.trans {w w' w'' : World Φ} (h : w.Follows w') (h' : w'.Follows w'') :
    w.Follows w'' :=
  ⟨h.grows.trans h'.grows, h'.sound, h'.current.trans h.current⟩

variable {w : World Φ} {f : FrameId} {scopes : Scopes} {around outer : List LocalScope}
  {scope : LocalScope} {x : String} {v : Value}

/-- A frame that stands for something exists. -/
theorem Sound.lt_nextId (hs : w.Sound) (hf : w.StandsFor f around) :
    f < w.machine.forest.nextId := by
  rw [← hs.size]
  exact (List.getElem?_eq_some_iff.mp hf).1

/-- Another frame, enclosed by the frame and standing for the scopes. -/
def push (w : World Φ) (f : FrameId) (around : List LocalScope) : World Φ :=
  ⟨{ w.machine with forest := w.machine.forest.push (some f) }, w.arounds ++ [around]⟩

theorem standsFor_push (hs : w.Sound) :
    (w.push f around).StandsFor w.machine.forest.nextId around := by
  show (w.arounds ++ [around])[w.machine.forest.nextId]? = some around
  rw [← hs.size]
  exact List.getElem?_concat_length

theorem enclosing?_push :
    (w.push f around).machine.forest.enclosing? w.machine.forest.nextId = some f := by
  show (w.machine.forest.push (some f)).enclosing? _ = _
  rw [Forest.enclosing?_push, if_pos rfl]

/-- A frame may be made inside of one that stands for the scopes around. -/
theorem follows_push (hs : w.Sound) (hf : w.StandsFor f outer) :
    w.Follows (w.push f (scope :: outer)) := by
  -- old frames are enclosed as before
  have hold {i : FrameId} (hi : i ≠ w.machine.forest.nextId) :
      (w.push f (scope :: outer)).machine.forest.enclosing? i =
        w.machine.forest.enclosing? i := by
    show (w.machine.forest.push (some f)).enclosing? i = _
    rw [Forest.enclosing?_push, if_neg hi]
  have hgrows : w.Grows (w.push f (scope :: outer)) := by
    refine ⟨fun i around hi => ?_, fun i g hi => ?_, fun i x hx => ?_, fun _ _ h => h,
      Nat.le_refl _, Nat.le_refl _⟩
    · have hlt := (List.getElem?_eq_some_iff.mp hi).1
      exact (List.getElem?_append_left hlt).trans hi
    · -- the new frame was enclosed by nothing before
      rw [hold, hi]
      rintro rfl
      rw [Forest.enclosing?, Forest.nextId, Array.getElem?_eq_none (Nat.le_refl _)] at hi
      cases hi
    · show (w.machine.forest.push (some f)).binds i x
      rwa [Forest.binds, Forest.lookup?_push]
  refine ⟨hgrows, hs.grow hgrows ?_ (hs.distinct.push _) (fun i around hi => ?_)
    (fun i x v hx => .inl ?_)
    (fun id i x v hi hx => .inl ⟨i, hi, hx⟩) (fun f vs v hf _ => .inl hf)
    (fun id c x k hc _ => .inl hc), rfl⟩
  · show (w.arounds ++ [_]).length = (w.machine.forest.push (some f)).nextId
    rw [List.length_append, Forest.nextId_push, hs.size]
    rfl
  · rcases Nat.lt_or_ge i w.arounds.length with hlt | hge
    · refine .inl ⟨(List.getElem?_append_left hlt).symm.trans hi, hold ?_⟩
      rw [← hs.size]
      exact hlt.ne
    · -- past the old frames there is but the new one
      have hlt := (List.getElem?_eq_some_iff.mp hi).1
      have hi' : i = w.machine.forest.nextId := by
        have hlength : (w.push f (scope :: outer)).arounds.length = w.arounds.length + 1 :=
          List.length_append
        rw [hlength] at hlt
        rw [← hs.size]
        exact Nat.le_antisymm (Nat.lt_succ_iff.mp hlt) hge
      subst hi'
      refine .inr ⟨scope, outer, f, ?_, hs.lt_nextId hf, enclosing?_push, hf⟩
      exact Option.some.inj (hi.symm.trans (standsFor_push hs))
  · exact (Forest.lookup?_push _ _ _ _).symm.trans hx

/-- The new frame stands where it should, and binds nothing yet. -/
theorem stands_push (hs : w.Sound) (hf : w.Stands f scopes outer) :
    (w.push f (scope :: outer)).Stands w.machine.forest.nextId ([] :: scopes)
      (scope :: outer) := by
  refine ⟨standsFor_push hs, List.forall_mem_nil _, f, enclosing?_push, ?_⟩
  exact (follows_push hs hf.standsFor).grows.ready hf.ready

/-- The world with another machine, whose frames stand for the same. -/
def set (w : World Φ) (m : Machine) : World Φ := { w with machine := m }

/-- The world with another binding. -/
abbrev define (w : World Φ) (f : FrameId) (x : String) (v : Value) : World Φ :=
  w.set { w.machine with forest := w.machine.forest.define f x v }

theorem lookup?_define (hs : w.Sound) (hf : w.StandsFor f around) (i : FrameId) (y : String) :
    (w.define f x v).machine.forest.lookup? i y =
      if i = f ∧ y = x then some v else w.machine.forest.lookup? i y :=
  Forest.lookup?_define _ _ _ _ _ _ (hs.lt_nextId hf)

theorem binds_define (hs : w.Sound) (hf : w.StandsFor f around) :
    (w.define f x v).machine.forest.binds f x := by
  rw [Forest.binds, lookup?_define hs hf, if_pos ⟨rfl, rfl⟩]
  rfl

theorem grows_define (hs : w.Sound) (hf : w.StandsFor f around) : w.Grows (w.define f x v) := by
  refine ⟨fun _ _ h => h, fun i g hi => (Forest.enclosing?_define _ _ _ _ _).trans hi,
    fun i y hy => ?_, fun _ _ h => h, Nat.le_refl _, Nat.le_refl _⟩
  rw [Forest.binds, lookup?_define hs hf]
  split
  · rfl
  · exact hy

/-- What has been bound is bound for certain. -/
theorem stands_define (hs : w.Sound) (hf : w.Stands f scopes around) :
    (w.define f x v).Stands f (scopes.bind x) around := by
  refine ⟨hf.standsFor, ?_⟩
  cases scopes with
  | nil => trivial
  | cons scope outer =>
    obtain ⟨hbinds, houter⟩ := (grows_define hs hf.standsFor).ready hf.ready
    refine ⟨fun y hy => ?_, houter⟩
    rcases List.mem_cons.mp hy with rfl | hy
    · exact binds_define hs hf.standsFor
    · exact hbinds y hy

/-- A value may be bound where the scopes admit it, if it is valid once it has been bound: a
function may mention itself. -/
theorem follows_define (hs : w.Sound) (hf : w.StandsFor f around) (hadmits : Admits around x v)
    (hv : (w.define f x v).Valid v) : w.Follows (w.define f x v) := by
  have hgrows : w.Grows (w.define f x v) := grows_define hs hf
  refine ⟨hgrows, hs.grow hgrows ?_ (hs.distinct.define _ _ _)
    (fun i around hi => .inl ⟨hi, ?_⟩) (fun i y v' hy => ?_)
    (fun id i x v hi hx => .inl ⟨i, hi, hx⟩) (fun f vs v hf _ => .inl hf)
    (fun id c x k hc _ => .inl hc), rfl⟩
  · exact hs.size.trans (Forest.nextId_define _ _ _ _).symm
  · exact Forest.enclosing?_define _ _ _ _ _
  · rw [lookup?_define hs hf] at hy
    split at hy
    · next heq =>
      -- the only value that is new
      obtain ⟨rfl, rfl⟩ := heq
      cases hy
      exact .inr ⟨hv, around, hf, hadmits⟩
    · exact .inl hy

/-- A step that leaves the frames alone, and forgets nothing, preserves soundness if what is new is
valid. -/
theorem grows_set (hs : w.Sound) {m : Machine} (hforest : m.forest = w.machine.forest)
    (hclosures : ∀ (id : ClosureId) c, w.machine.closures[id]? = some c → m.closures[id]? = some c)
    (hclasses : w.machine.classes.size ≤ m.classes.size)
    (hinstances : w.machine.instances.size ≤ m.instances.size)
    (fields : ∀ (id : InstanceId) (i : Instance) x v, m.instances[id]? = some i →
      i.fields.lookup x = some v →
      (∃ i : Instance, w.machine.instances[id]? = some i ∧ i.fields.lookup x = some v) ∨ w.Valid v)
    (handed : ∀ f vs v, (f, vs) ∈ m.calls → v ∈ vs → (f, vs) ∈ w.machine.calls ∨ w.Valid v)
    (methods : ∀ (id : ClassId) (c : ClassRecord) x k, m.classes[id]? = some c →
      c.methods.lookup x = some k → w.machine.classes[id]? = some c ∨
      ∃ closure, w.machine.closures[k]? = some closure ∧ w.Ties closure) :
    w.Grows (w.set m) ∧ (w.set m).Sound := by
  have hgrows : w.Grows (w.set m) :=
    ⟨fun _ _ h => h, fun _ _ h => hforest ▸ h, fun _ _ h => hforest ▸ h, hclosures, hclasses,
      hinstances⟩
  have hdistinct : m.forest.Distinct := by
    rw [hforest]
    exact hs.distinct
  refine ⟨hgrows, hs.grow hgrows ?_ hdistinct (fun i around hi => .inl ⟨hi, ?_⟩)
    (fun i y v hy => .inl ?_)
    (fun id i x v hi hx => (fields id i x v hi hx).imp_right hgrows.valid)
    (fun f vs v hf hv => (handed f vs v hf hv).imp_right hgrows.valid)
    (fun id c x k hc hx => (methods id c x k hc hx).imp_right ?_)⟩
  · exact hs.size.trans (congrArg Forest.nextId hforest.symm)
  · exact congrArg (Forest.enclosing? · i) hforest
  · exact (congrArg (Forest.lookup? · i y) hforest.symm).trans hy
  · -- closures that could be tied to instances still can
    rintro ⟨closure, hclosure, hties⟩
    exact ⟨closure, hclosures k closure hclosure, hgrows.ties hties⟩

/-- A step that changes neither frames nor classes nor fields. -/
theorem grows_set_of_eq (hs : w.Sound) {m : Machine} (hforest : m.forest = w.machine.forest)
    (hclosures : ∀ (id : ClosureId) c, w.machine.closures[id]? = some c → m.closures[id]? = some c)
    (hclasses : m.classes = w.machine.classes) (hinstances : m.instances = w.machine.instances)
    (handed : ∀ f vs v, (f, vs) ∈ m.calls → v ∈ vs → (f, vs) ∈ w.machine.calls ∨ w.Valid v) :
    w.Grows (w.set m) ∧ (w.set m).Sound :=
  grows_set hs hforest hclosures (Nat.le_of_eq (congrArg Array.size hclasses.symm))
    (Nat.le_of_eq (congrArg Array.size hinstances.symm))
    (fun _ i _ _ hi hx => .inl ⟨i, hinstances ▸ hi, hx⟩) handed
    fun _ _ _ _ hc _ => .inl (hclasses ▸ hc)

/-- The world as seen from another frame. -/
def goTo (w : World Φ) (f : FrameId) : World Φ := w.set { w.machine with current := f }

/-- Where names are looked up makes no difference to the store. -/
theorem grows_goTo (hs : w.Sound) (f : FrameId) : w.Grows (w.goTo f) ∧ (w.goTo f).Sound :=
  grows_set_of_eq hs rfl (fun _ _ h => h) rfl rfl fun _ _ _ hf _ => .inl hf

/-! ### Places in a program -/

/-- The run is at a place in a program: the world is sound, and the current frame stands for the
scopes around the place. -/
structure Here (w : World Φ) (scopes : Scopes) (around : List LocalScope) : Prop where
  sound : w.Sound
  stands : w.Stands w.machine.current scopes around

namespace Here

/-- In another frame the run is at the place that the frame stands for. -/
theorem goTo (hs : w.Sound) (hf : w.Stands f scopes around) : (w.goTo f).Here scopes around := by
  obtain ⟨hgrows, hsound⟩ := grows_goTo hs f
  exact ⟨hsound, hgrows.stands hf⟩

/-- The run is still there after it has come back. -/
theorem follow (h : w.Here scopes around) {w' : World Φ} (hw : w.Follows w') :
    w'.Here scopes around := by
  refine ⟨hw.sound, ?_⟩
  rw [hw.current]
  exact hw.grows.stands h.stands

end Here

/-- A name that is bound for certain is bound that far outward. -/
theorem Ready.exists_ancestor (h : w.Ready f scopes) {distance : Nat} {names : Scope}
    (hnames : scopes[distance]? = some names) (hx : x ∈ names) :
    ∃ i, w.machine.forest.ancestor? distance f = some i ∧ w.machine.forest.binds i x := by
  induction distance generalizing f scopes with
  | zero =>
    cases scopes with
    | nil => cases hnames
    | cons scope outer =>
      cases hnames
      exact ⟨f, rfl, h.1 x hx⟩
  | succ distance ih =>
    cases scopes with
    | nil => cases hnames
    | cons scope outer =>
      -- one step outward the distance is less by one
      obtain ⟨-, g, hg, houter⟩ := h
      obtain ⟨i, hi, hbinds⟩ := ih houter hnames
      refine ⟨i, ?_, hbinds⟩
      rw [Forest.ancestor?, hg, Option.bind_some, hi]

/-- The place of a name leads to a frame that binds it. -/
theorem Ready.exists_of_placeOf (h : w.Ready f scopes) {distance : Nat}
    (hplace : scopes.placeOf x = .outward distance) :
    ∃ i, w.machine.forest.ancestor? distance f = some i ∧ w.machine.forest.binds i x := by
  obtain ⟨hlt, hmem, -⟩ := (Scopes.placeOf_eq_outward_iff _ _ _).mp hplace
  exact h.exists_ancestor (List.getElem?_eq_getElem hlt) hmem

/-- The frame that many steps outward stands for the scopes that many steps outward. -/
theorem Sound.standsFor_ancestor (hs : w.Sound) (hf : w.StandsFor f around) {distance : Nat}
    {i : FrameId} (hi : w.machine.forest.ancestor? distance f = some i) :
    w.StandsFor i (around.drop distance) := by
  induction distance generalizing f around with
  | zero =>
    cases hi
    exact hf
  | succ distance ih =>
    rw [Forest.ancestor?] at hi
    cases around with
    | nil =>
      rw [(hs.globals f hf).2] at hi
      cases hi
    | cons scope outer =>
      obtain ⟨g, -, hg, houter⟩ := hs.locals f scope outer hf
      rw [hg, Option.bind_some] at hi
      exact ih houter hi

end World

end LoxInterpreter
