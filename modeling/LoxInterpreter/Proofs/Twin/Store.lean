import Mathlib.Data.List.Basic
import LoxInterpreter.Proofs.Twin.Tree
import LoxInterpreter.Value

/-!
# Twin machines

Two machines that run twin trees. `Pairing` says which frame of the second is the twin of a frame of
the first; what a frame binds, its twin binds under renamed names, to the same values. The second
machine may have frames that are twins of none. All else that a program can see is equal.

* `Pairing.Stands` ties a pair of frames to the layers around a place in the trees, and
  `Pairing.Stands.exists_of_reaches` follows a distance in both machines at once.
* `Pairing.Sound` is the invariant of two runs. Every closure in the store has a twin tree at home
  in a twin frame.
* `Pairing.Follows` is how a pairing changes while programs run.
-/

namespace LoxInterpreter

/-! ### Bindings under renamed names -/

/-- Bindings under renamed names. -/
abbrev renameKeys {α : Type} (σ : Equiv.Perm String) (bindings : List (String × α)) :
    List (String × α) :=
  bindings.map (Prod.map σ id)

theorem lookup_renameKeys {α : Type} (σ : Equiv.Perm String) (x : String)
    (bindings : List (String × α)) : (renameKeys σ bindings).lookup (σ x) = bindings.lookup x := by
  induction bindings with
  | nil => rfl
  | cons head rest ih =>
    obtain ⟨y, v⟩ := head
    have hkey : (σ x == σ y) = (x == y) := by
      rw [Bool.eq_iff_iff, beq_iff_eq, beq_iff_eq, σ.apply_eq_iff_eq]
    rw [renameKeys, List.map_cons, List.lookup_cons, List.lookup_cons, Prod.map_fst, hkey]
    split
    · rfl
    · exact ih

theorem bindName_renameKeys {α : Type} (σ : Equiv.Perm String) (x : String) (v : α)
    (bindings : List (String × α)) :
    bindName (σ x) v (renameKeys σ bindings) = renameKeys σ (bindName x v bindings) := by
  induction bindings with
  | nil => rfl
  | cons head rest ih =>
    obtain ⟨y, w⟩ := head
    rw [bindName, renameKeys, List.map_cons, Prod.map_apply, bindName]
    by_cases h : y = x
    · rw [if_pos h, if_pos (congrArg σ h)]
      rfl
    · rw [if_neg h, if_neg (fun h' => h (σ.injective h'))]
      exact congrArg ((σ y, w) :: ·) ih

namespace Forest

variable {α : Type} (f : Forest α)

/-- All that a frame itself binds. -/
def bindingsOf (id : FrameId) : List (String × α) := (f.frames[id]?.map Frame.bindings).getD []

theorem lookup?_eq (id : FrameId) (x : String) : f.lookup? id x = (f.bindingsOf id).lookup x := by
  rw [lookup?, bindingsOf]
  cases f.frames[id]? <;> rfl

variable {f} in
theorem mem_bindingsOf {id : FrameId} {x : String} {v : α} (h : f.lookup? id x = some v) :
    (x, v) ∈ f.bindingsOf id := by
  rw [lookup?_eq, List.lookup_eq_some_iff] at h
  obtain ⟨before, after, hbindings, -⟩ := h
  rw [hbindings]
  exact List.mem_append_right _ List.mem_cons_self

/-- A new frame binds nothing, and changes no bindings. -/
theorem bindingsOf_push (enclosing : Option FrameId) (i : FrameId) :
    (f.push enclosing).bindingsOf i = f.bindingsOf i := by
  rw [bindingsOf, bindingsOf, push, Array.getElem?_push]
  split
  · next h =>
    subst h
    simp
  · rfl

/-- Binding a name in a frame changes the bindings of that frame alone. -/
theorem bindingsOf_define {id : FrameId} (h : id < f.nextId) (i : FrameId) (x : String) (v : α) :
    (f.define id x v).bindingsOf i =
      if i = id then bindName x v (f.bindingsOf i) else f.bindingsOf i := by
  rw [bindingsOf, bindingsOf, define, Array.getElem?_modify]
  by_cases hi : i = id
  · subst hi
    rw [if_pos rfl, if_pos rfl, Array.getElem?_eq_getElem h]
    rfl
  · rw [if_neg (Ne.symm hi), if_neg hi]

/-- A frame that has not been made binds nothing. -/
theorem bindingsOf_of_nextId_le {id : FrameId} (h : f.nextId ≤ id) : f.bindingsOf id = [] := by
  rw [bindingsOf, Array.getElem?_eq_none h]
  rfl

/-- A new frame changes nothing about how old frames are enclosed. -/
theorem enclosing?_push_of_eq_some {i g : FrameId} {enclosing : Option FrameId}
    (h : f.enclosing? i = some g) : (f.push enclosing).enclosing? i = some g := by
  have hi : i ≠ f.nextId := by
    rintro rfl
    rw [enclosing?, nextId, Array.getElem?_eq_none (Nat.le_refl _)] at h
    cases h
  rw [enclosing?_push, if_neg hi, h]

/-- The views of a frame show its bindings. -/
theorem sorted_eq (id : FrameId) :
    f.sorted id = (f.bindingsOf id).mergeSort fun a b => decide (a.1 ≤ b.1) := by
  rw [sorted, bindingsOf]
  cases f.frames[id]? with
  | none => rw [Option.map_none, Option.getD_none, List.mergeSort_nil]
  | some frame => rfl

end Forest

/-- The machines differ in nothing but their frames and closures. -/
structure Machine.LooksLike (m m' : Machine) : Prop where
  classes : m'.classes = m.classes
  instances : m'.instances = m.instances
  output : m'.output = m.output
  clock : m'.clock = m.clock
  calls : m'.calls = m.calls

protected theorem Machine.LooksLike.refl (m : Machine) : m.LooksLike m := ⟨rfl, rfl, rfl, rfl, rfl⟩

/-- Two machines, and for each frame of the first its twin in the second, with the names that the
twin has for the bindings. -/
structure Pairing where
  left : Machine
  right : Machine
  frames : List (FrameId × Equiv.Perm String)

namespace Pairing

/-! ### What is said of a pairing -/

section Claims

variable (G : Guise) (p : Pairing)

/-- The second frame is the twin of the first, under renamed names. -/
def Partners (f f' : FrameId) (σ : Equiv.Perm String) : Prop := p.frames[f]? = some (f', σ)

/-- The frames stand at a place that has the layers around it. -/
def Stands : List Layer → FrameId → FrameId → Prop
  | [], f, f' => f = Machine.globals ∧ f' = Machine.globals
  | .shared σ :: outer, f, f' =>
    p.Partners f f' σ ∧ ∃ g g', p.left.forest.enclosing? f = some g ∧
      p.right.forest.enclosing? f' = some g' ∧ Stands outer g g'
  | .spare :: outer, f, f' => ∃ g', p.right.forest.enclosing? f' = some g' ∧ Stands outer f g'

/-- The closures have twin trees, and are at home in frames that stand there. -/
def Runs (c c' : Closure) : Prop :=
  ∃ layers, p.Stands layers c.home c'.home ∧ Stmt.RoutineTwins G layers c.routine c'.routine ∧
    c'.isInitializer = c.isInitializer ∧ (c.isInitializer → ∃ outer, layers = .same :: outer)

/-- The closures are so once they have been tied to an instance. -/
def Ties (c c' : Closure) : Prop :=
  ∃ layers, p.Stands layers c.home c'.home ∧
    Stmt.RoutineTwins G (.same :: layers) c.routine c'.routine ∧
    c'.isInitializer = c.isInitializer

/-- The value means the same in both machines. -/
def Valid : Value → Prop
  | .closure id => ∃ c c', p.left.closures[id]? = some c ∧ p.right.closures[id]? = some c' ∧
      p.Runs G c c'
  | _ => True

/-- The method means the same in both machines. -/
def Tied (id : ClosureId) : Prop :=
  ∃ c c', p.left.closures[id]? = some c ∧ p.right.closures[id]? = some c' ∧ p.Ties G c c'

/-- Each frame of the first machine has a twin of its own. -/
structure Matched : Prop where
  size : p.frames.length = p.left.forest.nextId
  globals : p.Partners Machine.globals Machine.globals (.refl String)
  made : ∀ f f' σ, p.Partners f f' σ → f' < p.right.forest.nextId
  injective : ∀ f g f' σ τ, p.Partners f f' σ → p.Partners g f' τ → f = g
  bindings : ∀ f f' σ, p.Partners f f' σ →
    p.right.forest.bindingsOf f' = renameKeys σ (p.left.forest.bindingsOf f)

/-- **The invariant of two runs.** -/
structure Sound : Prop where
  matched : p.Matched
  looksLike : p.left.LooksLike p.right
  closures : p.right.closures.size = p.left.closures.size
  bound : ∀ f x v, (x, v) ∈ p.left.forest.bindingsOf f → p.Valid G v
  fields : ∀ (id : InstanceId) (i : Instance) x v, p.left.instances[id]? = some i →
    i.fields.lookup x = some v → p.Valid G v
  handed : ∀ f vs v, (f, vs) ∈ p.left.calls → v ∈ vs → p.Valid G v
  methods : ∀ (id : ClassId) (c : ClassRecord) x k, p.left.classes[id]? = some c →
    c.methods.lookup x = some k → p.Tied G k

/-- Nothing is forgotten, and frames stay where they are. -/
structure Grows (q : Pairing) : Prop where
  partners : ∀ f f' σ, p.Partners f f' σ → q.Partners f f' σ
  enclosing : ∀ f g, p.left.forest.enclosing? f = some g → q.left.forest.enclosing? f = some g
  enclosing' : ∀ f g, p.right.forest.enclosing? f = some g → q.right.forest.enclosing? f = some g
  binds : ∀ f x, p.left.forest.binds f x → q.left.forest.binds f x
  closures : ∀ (id : ClosureId) c, p.left.closures[id]? = some c → q.left.closures[id]? = some c
  closures' : ∀ (id : ClosureId) c, p.right.closures[id]? = some c → q.right.closures[id]? = some c

/-- The pairing that two runs lead to: it has grown, it is sound, and both runs are back in the
frames where they started. -/
structure Follows (q : Pairing) : Prop where
  grows : p.Grows q
  sound : q.Sound G
  current : q.left.current = p.left.current
  current' : q.right.current = p.right.current

/-- Both runs are at a place that has the layers around it. -/
structure Here (layers : List Layer) : Prop where
  sound : p.Sound G
  stands : p.Stands layers p.left.current p.right.current

end Claims

variable {G : Guise} {p q r : Pairing} {f f' : FrameId} {σ : Equiv.Perm String}
  {layers : List Layer} {x x' : String} {v : Value}

/-! ### Growth -/

protected theorem Grows.refl (p : Pairing) : p.Grows p :=
  ⟨fun _ _ _ h => h, fun _ _ h => h, fun _ _ h => h, fun _ _ h => h, fun _ _ h => h,
    fun _ _ h => h⟩

protected theorem Grows.trans (h : p.Grows q) (h' : q.Grows r) : p.Grows r where
  partners f f' σ hf := h'.partners f f' σ (h.partners f f' σ hf)
  enclosing f g hf := h'.enclosing f g (h.enclosing f g hf)
  enclosing' f g hf := h'.enclosing' f g (h.enclosing' f g hf)
  binds f x hx := h'.binds f x (h.binds f x hx)
  closures id c hc := h'.closures id c (h.closures id c hc)
  closures' id c hc := h'.closures' id c (h.closures' id c hc)

theorem Grows.stands (h : p.Grows q) (hf : p.Stands layers f f') : q.Stands layers f f' := by
  induction layers generalizing f f' with
  | nil => exact hf
  | cons layer outer ih =>
    cases layer with
    | shared σ =>
      obtain ⟨hpartners, g, g', hg, hg', houter⟩ := hf
      exact ⟨h.partners f f' σ hpartners, g, g', h.enclosing f g hg, h.enclosing' f' g' hg',
        ih houter⟩
    | spare =>
      obtain ⟨g', hg', houter⟩ := hf
      exact ⟨g', h.enclosing' f' g' hg', ih houter⟩

theorem Grows.valid (h : p.Grows q) (hv : p.Valid G v) : q.Valid G v := by
  cases v with
  | closure id =>
    obtain ⟨c, c', hc, hc', layers, hstands, hrest⟩ := hv
    exact ⟨c, c', h.closures id c hc, h.closures' id c' hc', layers, h.stands hstands, hrest⟩
  | _ => trivial

theorem Grows.tied (h : p.Grows q) {k : ClosureId} (hk : p.Tied G k) : q.Tied G k := by
  obtain ⟨c, c', hc, hc', layers, hstands, hrest⟩ := hk
  exact ⟨c, c', h.closures k c hc, h.closures' k c' hc', layers, h.stands hstands, hrest⟩

/-- **What is new decides.** A pairing that has grown from a sound one is sound if its frames match,
the machines still look alike, and whatever is new in the store is valid. -/
theorem Sound.grow (hs : p.Sound G) (hg : p.Grows q) (matched : q.Matched)
    (looksLike : q.left.LooksLike q.right)
    (closures : q.right.closures.size = q.left.closures.size)
    (bound : ∀ f x v, (x, v) ∈ q.left.forest.bindingsOf f →
      (x, v) ∈ p.left.forest.bindingsOf f ∨ q.Valid G v)
    (fields : ∀ (id : InstanceId) (i : Instance) x v, q.left.instances[id]? = some i →
      i.fields.lookup x = some v →
      (∃ i : Instance, p.left.instances[id]? = some i ∧ i.fields.lookup x = some v) ∨ q.Valid G v)
    (handed : ∀ f vs v, (f, vs) ∈ q.left.calls → v ∈ vs →
      (f, vs) ∈ p.left.calls ∨ q.Valid G v)
    (methods : ∀ (id : ClassId) (c : ClassRecord) x k, q.left.classes[id]? = some c →
      c.methods.lookup x = some k → p.left.classes[id]? = some c ∨ q.Tied G k) :
    q.Sound G where
  matched := matched
  looksLike := looksLike
  closures := closures
  bound f x v hx := by
    rcases bound f x v hx with hold | hv
    · exact hg.valid (hs.bound f x v hold)
    · exact hv
  fields id i x v hi hx := by
    rcases fields id i x v hi hx with ⟨i, hold, hx⟩ | hv
    · exact hg.valid (hs.fields id i x v hold hx)
    · exact hv
  handed f vs v hf hv := by
    rcases handed f vs v hf hv with hold | hvalid
    · exact hg.valid (hs.handed f vs v hold hv)
    · exact hvalid
  methods id c x k hc hx := by
    rcases methods id c x k hc hx with hold | hnew
    · exact hg.tied (hs.methods id c x k hold hx)
    · exact hnew

protected theorem Follows.refl (h : p.Sound G) : p.Follows G p := ⟨.refl p, h, rfl, rfl⟩

protected theorem Follows.trans (h : p.Follows G q) (h' : q.Follows G r) : p.Follows G r :=
  ⟨h.grows.trans h'.grows, h'.sound, h'.current.trans h.current, h'.current'.trans h.current'⟩

/-- The runs are still at the place after they have come back. -/
theorem Here.follow (h : p.Here G layers) (hq : p.Follows G q) : q.Here G layers := by
  refine ⟨hq.sound, ?_⟩
  rw [hq.current, hq.current']
  exact hq.grows.stands h.stands

/-! ### Partners -/

/-- A frame with a partner has been made. -/
theorem Matched.lt_nextId (hm : p.Matched) (hf : p.Partners f f' σ) : f < p.left.forest.nextId := by
  rw [← hm.size]
  exact (List.getElem?_eq_some_iff.mp hf).1

/-- Partners bind the same values, under renamed names. -/
theorem Matched.lookup?_partner (hm : p.Matched) (hf : p.Partners f f' σ) (x : String) :
    p.right.forest.lookup? f' (σ x) = p.left.forest.lookup? f x := by
  rw [Forest.lookup?_eq, Forest.lookup?_eq, hm.bindings f f' σ hf, lookup_renameKeys]

/-- Partners bind the same names, but for the renaming. -/
theorem Matched.binds_partner (hm : p.Matched) (hf : p.Partners f f' σ) (x : String) :
    p.right.forest.binds f' (σ x) = p.left.forest.binds f x := by
  rw [Forest.binds, Forest.binds, hm.lookup?_partner hf]

/-- What is declared at a place is declared in partners. -/
theorem Stands.exists_of_declares (hf : p.Stands layers f f') (hm : p.Matched)
    (hx : Layer.Declares layers x x') : ∃ σ, p.Partners f f' σ ∧ x' = σ x := by
  match layers with
  | [] =>
    obtain ⟨rfl, rfl⟩ := hf
    exact ⟨_, hm.globals, hx⟩
  | .shared σ :: _ => exact ⟨σ, hf.1, hx⟩
  | .spare :: _ => exact hx.elim

/-- **Following a distance.** A distance in one tree and what it is in the other lead to
partners. -/
theorem Stands.exists_of_reaches (hf : p.Stands layers f f') {d d' : Nat}
    (h : Layer.Reaches layers d d' σ) :
    ∃ g g', p.left.forest.ancestor? d f = some g ∧ p.right.forest.ancestor? d' f' = some g' ∧
      p.Partners g g' σ := by
  induction h generalizing f f' with
  | here => exact ⟨f, f', rfl, rfl, hf.1⟩
  | outward _ ih =>
    obtain ⟨-, g, g', hg, hg', houter⟩ := hf
    obtain ⟨i, i', hi, hi', hpartners⟩ := ih houter
    refine ⟨i, i', ?_, ?_, hpartners⟩
    · rw [Forest.ancestor?, hg, Option.bind_some, hi]
    · rw [Forest.ancestor?, hg', Option.bind_some, hi']
  | past _ ih =>
    -- the spare frame is passed in the second machine alone
    obtain ⟨g', hg', houter⟩ := hf
    obtain ⟨i, i', hi, hi', hpartners⟩ := ih houter
    refine ⟨i, i', hi, ?_, hpartners⟩
    rw [Forest.ancestor?, hg', Option.bind_some, hi']

/-! ### Steps -/

/-- The pairing with other machines, whose frames match as before. -/
def set (p : Pairing) (m m' : Machine) : Pairing := { p with left := m, right := m' }

/-- A new frame on each side, which are partners. -/
def push (p : Pairing) (f f' : FrameId) (σ : Equiv.Perm String) : Pairing :=
  ⟨{ p.left with forest := p.left.forest.push (some f) },
    { p.right with forest := p.right.forest.push (some f') },
    p.frames ++ [(p.right.forest.nextId, σ)]⟩

/-- A new frame in the second machine, which is the partner of none. -/
def pushSpare (p : Pairing) (f' : FrameId) : Pairing :=
  p.set p.left { p.right with forest := p.right.forest.push (some f') }

/-- The pairing with another binding on each side. -/
def define (p : Pairing) (f f' : FrameId) (x x' : String) (v : Value) : Pairing :=
  p.set { p.left with forest := p.left.forest.define f x v }
    { p.right with forest := p.right.forest.define f' x' v }

/-- The pairing as seen from other frames. -/
def goTo (p : Pairing) (f f' : FrameId) : Pairing :=
  p.set { p.left with current := f } { p.right with current := f' }

/-- A machine that looks names up in a frame already is not changed. -/
theorem left_goTo (p : Pairing) (h : p.left.current = f) (f' : FrameId) :
    (p.goTo f f').left = p.left := by
  subst h
  rfl

/-- Frames match that were not touched. -/
theorem Matched.set (hm : p.Matched) {m m' : Machine} (hforest : m.forest = p.left.forest)
    (hforest' : m'.forest = p.right.forest) : (p.set m m').Matched where
  size := hm.size.trans (congrArg Forest.nextId hforest.symm)
  globals := hm.globals
  made f f' σ hf := by
    show f' < m'.forest.nextId
    rw [hforest']
    exact hm.made f f' σ hf
  injective := hm.injective
  bindings f f' σ hf := by
    show m'.forest.bindingsOf f' = renameKeys σ (m.forest.bindingsOf f)
    rw [hforest, hforest']
    exact hm.bindings f f' σ hf

/-- A step that leaves the frames alone, and forgets nothing, preserves soundness if what is new is
valid. -/
theorem grows_set (hs : p.Sound G) {m m' : Machine} (hforest : m.forest = p.left.forest)
    (hforest' : m'.forest = p.right.forest)
    (hclosures : ∀ (id : ClosureId) c, p.left.closures[id]? = some c → m.closures[id]? = some c)
    (hclosures' : ∀ (id : ClosureId) c, p.right.closures[id]? = some c →
      m'.closures[id]? = some c)
    (hsize : m'.closures.size = m.closures.size) (hlooks : m.LooksLike m')
    (fields : ∀ (id : InstanceId) (i : Instance) x v, m.instances[id]? = some i →
      i.fields.lookup x = some v →
      (∃ i : Instance, p.left.instances[id]? = some i ∧ i.fields.lookup x = some v) ∨ p.Valid G v)
    (handed : ∀ f vs v, (f, vs) ∈ m.calls → v ∈ vs → (f, vs) ∈ p.left.calls ∨ p.Valid G v)
    (methods : ∀ (id : ClassId) (c : ClassRecord) x k, m.classes[id]? = some c →
      c.methods.lookup x = some k → p.left.classes[id]? = some c ∨ p.Tied G k) :
    p.Grows (p.set m m') ∧ (p.set m m').Sound G := by
  have hgrows : p.Grows (p.set m m') :=
    ⟨fun _ _ _ h => h, fun _ _ h => hforest ▸ h, fun _ _ h => hforest' ▸ h,
      fun _ _ h => hforest ▸ h, hclosures, hclosures'⟩
  refine ⟨hgrows, hs.grow hgrows (hs.matched.set hforest hforest') hlooks hsize
    (fun f x v hx => .inl (hforest ▸ hx))
    (fun id i x v hi hx => (fields id i x v hi hx).imp_right hgrows.valid)
    (fun f vs v hf hv => (handed f vs v hf hv).imp_right hgrows.valid)
    (fun id c x k hc hx => (methods id c x k hc hx).imp_right hgrows.tied)⟩

/-- Where names are looked up makes no difference to the store. -/
theorem grows_goTo (hs : p.Sound G) (f f' : FrameId) :
    p.Grows (p.goTo f f') ∧ (p.goTo f f').Sound G :=
  grows_set hs rfl rfl (fun _ _ h => h) (fun _ _ h => h) hs.closures
    ⟨hs.looksLike.classes, hs.looksLike.instances, hs.looksLike.output, hs.looksLike.clock,
      hs.looksLike.calls⟩
    (fun _ i _ _ hi hx => .inl ⟨i, hi, hx⟩) (fun _ _ _ hf _ => .inl hf) fun _ _ _ _ hc _ => .inl hc

/-- In other frames the runs are at the place where those stand. -/
theorem Here.goTo (hs : p.Sound G) (hf : p.Stands layers f f') : (p.goTo f f').Here G layers := by
  obtain ⟨hgrows, hsound⟩ := grows_goTo hs f f'
  exact ⟨hsound, hgrows.stands hf⟩

/-! #### New frames -/

/-- The partners of old frames are as before, and the new frames are partners. -/
theorem partners_push_iff (hm : p.Matched) {g g' i i' : FrameId} {τ : Equiv.Perm String} :
    (p.push g g' σ).Partners i i' τ ↔
      p.Partners i i' τ ∨
        i = p.left.forest.nextId ∧ i' = p.right.forest.nextId ∧ τ = σ := by
  show (p.frames ++ [(p.right.forest.nextId, σ)])[i]? = some (i', τ) ↔ _
  rw [← hm.size]
  rcases Nat.lt_trichotomy i p.frames.length with hlt | rfl | hgt
  · rw [List.getElem?_append_left hlt]
    exact (or_iff_left fun h => absurd h.1 (Nat.ne_of_lt hlt)).symm
  · rw [List.getElem?_concat_length, Partners, List.getElem?_eq_none (Nat.le_refl _)]
    constructor
    · rintro ⟨⟩
      exact .inr ⟨rfl, rfl, rfl⟩
    · rintro (h | ⟨-, rfl, rfl⟩)
      · cases h
      · rfl
  · rw [Partners, List.getElem?_eq_none (Nat.le_of_lt hgt), List.getElem?_eq_none]
    · constructor
      · rintro ⟨⟩
      · rintro (h | ⟨rfl, -⟩)
        · cases h
        · exact absurd hgt (Nat.lt_irrefl _)
    · rw [List.length_append]
      exact hgt

theorem grows_push (hm : p.Matched) (g g' : FrameId) (σ : Equiv.Perm String) :
    p.Grows (p.push g g' σ) where
  partners i i' τ hi := (partners_push_iff hm).mpr (.inl hi)
  enclosing _ _ hi := Forest.enclosing?_push_of_eq_some _ hi
  enclosing' _ _ hi := Forest.enclosing?_push_of_eq_some _ hi
  binds i x hx := by
    show (p.left.forest.push (some g)).binds i x
    rwa [Forest.binds, Forest.lookup?_push]
  closures _ _ h := h
  closures' _ _ h := h

theorem Matched.push (hm : p.Matched) (g g' : FrameId) (σ : Equiv.Perm String) :
    (p.push g g' σ).Matched where
  size := by
    show (p.frames ++ [_]).length = (p.left.forest.push (some g)).nextId
    rw [List.length_append, Forest.nextId_push, hm.size]
    rfl
  globals := (partners_push_iff hm).mpr (.inl hm.globals)
  made i i' τ hi := by
    show i' < (p.right.forest.push (some g')).nextId
    rw [Forest.nextId_push]
    rcases (partners_push_iff hm).mp hi with hold | ⟨-, rfl, -⟩
    · exact Nat.lt_succ_of_lt (hm.made i i' τ hold)
    · exact Nat.lt_succ_self _
  injective i j i' τ υ hi hj := by
    rcases (partners_push_iff hm).mp hi with hi | ⟨rfl, rfl, -⟩ <;>
      rcases (partners_push_iff hm).mp hj with hj | ⟨rfl, hnew, -⟩
    · exact hm.injective i j i' τ υ hi hj
    · -- the new frame of the second machine was the partner of none
      exact absurd hnew (Nat.ne_of_lt (hm.made i _ τ hi))
    · exact absurd rfl (Nat.ne_of_lt (hm.made j _ υ hj))
    · rfl
  bindings i i' τ hi := by
    show (p.right.forest.push (some g')).bindingsOf i' =
      renameKeys τ ((p.left.forest.push (some g)).bindingsOf i)
    rw [Forest.bindingsOf_push, Forest.bindingsOf_push]
    rcases (partners_push_iff hm).mp hi with hi | ⟨rfl, rfl, -⟩
    · exact hm.bindings i i' τ hi
    · rw [Forest.bindingsOf_of_nextId_le _ (Nat.le_refl _),
        Forest.bindingsOf_of_nextId_le _ (Nat.le_refl _)]
      rfl

/-- New frames lead to a pairing that follows. -/
theorem follows_push (hs : p.Sound G) (g g' : FrameId) (σ : Equiv.Perm String) :
    p.Follows G (p.push g g' σ) := by
  have hgrows := grows_push hs.matched g g' σ
  refine ⟨hgrows, hs.grow hgrows (hs.matched.push g g' σ) ?_ hs.closures (fun i x v hx => .inl ?_)
    (fun id i x v hi hx => .inl ⟨i, hi, hx⟩) (fun f vs v hf _ => .inl hf)
    (fun id c x k hc _ => .inl hc), rfl, rfl⟩
  · exact ⟨hs.looksLike.classes, hs.looksLike.instances, hs.looksLike.output, hs.looksLike.clock,
      hs.looksLike.calls⟩
  · rw [← Forest.bindingsOf_push]
    exact hx

/-- The new frames stand inside of those that they were made in. -/
theorem stands_push (hs : p.Sound G) (hf : p.Stands layers f f') (σ : Equiv.Perm String) :
    (p.push f f' σ).Stands (.shared σ :: layers) p.left.forest.nextId p.right.forest.nextId := by
  refine ⟨(partners_push_iff hs.matched).mpr (.inr ⟨rfl, rfl, rfl⟩), f, f', ?_, ?_,
    (grows_push hs.matched f f' σ).stands hf⟩
  · show (p.left.forest.push (some f)).enclosing? _ = _
    rw [Forest.enclosing?_push, if_pos rfl]
  · show (p.right.forest.push (some f')).enclosing? _ = _
    rw [Forest.enclosing?_push, if_pos rfl]

/-- A spare frame leads to a pairing that follows. -/
theorem follows_pushSpare (hs : p.Sound G) (g' : FrameId) : p.Follows G (p.pushSpare g') := by
  have hm := hs.matched
  have hgrows : p.Grows (p.pushSpare g') :=
    ⟨fun _ _ _ h => h, fun _ _ h => h, fun _ _ h => Forest.enclosing?_push_of_eq_some _ h,
      fun _ _ h => h, fun _ _ h => h, fun _ _ h => h⟩
  refine ⟨hgrows, hs.grow hgrows ⟨hm.size, hm.globals, fun i i' τ hi => ?_, hm.injective,
      fun i i' τ hi => ?_⟩ ?_ hs.closures (fun _ _ _ hx => .inl hx)
    (fun _ i _ _ hi hx => .inl ⟨i, hi, hx⟩) (fun _ _ _ hf _ => .inl hf)
    (fun _ _ _ _ hc _ => .inl hc), rfl, rfl⟩
  · show i' < (p.right.forest.push (some g')).nextId
    rw [Forest.nextId_push]
    exact Nat.lt_succ_of_lt (hm.made i i' τ hi)
  · show (p.right.forest.push (some g')).bindingsOf i' = _
    rw [Forest.bindingsOf_push]
    exact hm.bindings i i' τ hi
  · exact ⟨hs.looksLike.classes, hs.looksLike.instances, hs.looksLike.output, hs.looksLike.clock,
      hs.looksLike.calls⟩

theorem stands_pushSpare (hs : p.Sound G) (hf : p.Stands layers f f') :
    (p.pushSpare f').Stands (.spare :: layers) f p.right.forest.nextId := by
  refine ⟨f', ?_, (follows_pushSpare hs f').grows.stands hf⟩
  show (p.right.forest.push (some f')).enclosing? _ = _
  rw [Forest.enclosing?_push, if_pos rfl]

/-! #### New bindings -/

/-- Partners match if the same is bound in both, under the renaming. -/
theorem Matched.define (hm : p.Matched) (hf : p.Partners f f' σ) (x : String) (v : Value) :
    (p.define f f' x (σ x) v).Matched where
  size := hm.size.trans (Forest.nextId_define _ _ _ _).symm
  globals := hm.globals
  made i i' τ hi := by
    show i' < (p.right.forest.define f' (σ x) v).nextId
    rw [Forest.nextId_define]
    exact hm.made i i' τ hi
  injective := hm.injective
  bindings i i' τ hi := by
    show (p.right.forest.define f' (σ x) v).bindingsOf i' =
      renameKeys τ ((p.left.forest.define f x v).bindingsOf i)
    replace hi : p.Partners i i' τ := hi
    rw [Forest.bindingsOf_define _ (hm.made f f' σ hf), Forest.bindingsOf_define _ (hm.lt_nextId hf)]
    by_cases h : i = f
    · subst h
      -- a frame has one partner, under one renaming
      obtain ⟨rfl, rfl⟩ : i' = f' ∧ τ = σ := Prod.mk.inj (Option.some.inj (hi.symm.trans hf))
      rw [if_pos rfl, if_pos rfl, hm.bindings i i' τ hi, bindName_renameKeys]
    · have h' : i' ≠ f' := by
        rintro rfl
        exact h (hm.injective i f i' τ σ hi hf)
      rw [if_neg h, if_neg h', hm.bindings i i' τ hi]

theorem lookup?_define (hm : p.Matched) (hf : p.Partners f f' σ) (i : FrameId) (y : String) :
    (p.define f f' x x' v).left.forest.lookup? i y =
      if i = f ∧ y = x then some v else p.left.forest.lookup? i y :=
  Forest.lookup?_define _ _ _ _ _ _ (hm.lt_nextId hf)

theorem grows_define (hm : p.Matched) (hf : p.Partners f f' σ) :
    p.Grows (p.define f f' x x' v) where
  partners _ _ _ h := h
  enclosing _ _ h := (Forest.enclosing?_define _ _ _ _ _).trans h
  enclosing' _ _ h := (Forest.enclosing?_define _ _ _ _ _).trans h
  binds i y hy := by
    rw [Forest.binds, lookup?_define hm hf]
    split
    · rfl
    · exact hy
  closures _ _ h := h
  closures' _ _ h := h

theorem binds_define (hm : p.Matched) (hf : p.Partners f f' σ) :
    (p.define f f' x x' v).left.forest.binds f x := by
  rw [Forest.binds, lookup?_define hm hf, if_pos ⟨rfl, rfl⟩]
  rfl

/-- A binding leads to a pairing that follows, if the value is valid once it has been bound: a
function may mention itself. -/
theorem follows_define (hs : p.Sound G) (hf : p.Partners f f' σ)
    (hv : (p.define f f' x (σ x) v).Valid G v) : p.Follows G (p.define f f' x (σ x) v) := by
  have hgrows : p.Grows (p.define f f' x (σ x) v) := grows_define hs.matched hf
  refine ⟨hgrows, hs.grow hgrows (hs.matched.define hf x v) ?_ hs.closures (fun i y w hy => ?_)
    (fun _ i _ _ hi hx => .inl ⟨i, hi, hx⟩) (fun _ _ _ hf _ => .inl hf)
    (fun _ _ _ _ hc _ => .inl hc), rfl, rfl⟩
  · exact ⟨hs.looksLike.classes, hs.looksLike.instances, hs.looksLike.output, hs.looksLike.clock,
      hs.looksLike.calls⟩
  · replace hy : (y, w) ∈ (p.left.forest.define f x v).bindingsOf i := hy
    rw [Forest.bindingsOf_define _ (hs.matched.lt_nextId hf)] at hy
    split at hy
    · rcases mem_bindName hy with hnew | hold
      · -- the only value that is new
        cases hnew
        exact .inr hv
      · exact .inl hold
    · exact .inl hy

/-! ### What a program can see -/

/-- A valid value has the same text in both machines. -/
theorem Sound.textOf_eq (hs : p.Sound G) (hv : p.Valid G v) : p.right.textOf v = p.left.textOf v := by
  have hclassName (id : ClassId) : p.right.className id = p.left.className id := by
    rw [Machine.className, Machine.className, hs.looksLike.classes]
  cases v with
  | closure id =>
    obtain ⟨c, c', hc, hc', layers, -, hroutine, -⟩ := hv
    obtain ⟨routine, home, isInitializer⟩ := c
    obtain ⟨routine', home', isInitializer'⟩ := c'
    cases hroutine with
    | mk hname hparams hbody =>
      rw [Machine.textOf, Machine.textOf, hc, hc']
      exact congrArg (fun name => "<fn " ++ name ++ ">") hname
  | klass id => exact hclassName id
  | object id =>
    rw [Machine.textOf, Machine.textOf, hs.looksLike.instances, funext hclassName]
  | bool b => cases b <;> rfl
  | _ => rfl

/-- The globals of both machines have the same names and texts. -/
theorem Sound.globalTexts_eq (hs : p.Sound G) : p.right.globalTexts = p.left.globalTexts := by
  have hbindings := hs.matched.bindings _ _ _ hs.matched.globals
  have hsame : renameKeys (.refl String) (p.left.forest.bindingsOf Machine.globals) =
      p.left.forest.bindingsOf Machine.globals := List.map_id _
  rw [Machine.globalTexts, Machine.globalTexts, Forest.sorted_eq, Forest.sorted_eq, hbindings,
    hsame]
  refine List.map_congr_left fun b hb => ?_
  have hvalid := hs.bound _ b.1 b.2 (List.mem_mergeSort.mp hb)
  exact congrArg (b.1, ·) (hs.textOf_eq hvalid)

end Pairing

end LoxInterpreter
