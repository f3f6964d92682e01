import LoxInterpreter.Proofs.Heap.Access
import LoxInterpreter.Proofs.Heap.Chronicle

/-!
# Where frames and closures come from

A machine lasts as it changes (`Machine.Lasts`): frames stay enclosed by what they were enclosed by,
names that are bound stay bound, closures and classes are what they were.

The origins of its frames and closures say how it may change (`Origins.Changes`), and they describe
it (`Origins.Describes`): frames and classes point to older ones, a frame that was made to bind a
keyword binds that keyword and nothing else, and the methods in the tables of classes are those that
were declared there. Methods are tied to instances (`Origins.TiesInstances`).
-/

namespace LoxInterpreter

open Run Noting

/-! ### Frames -/

namespace Forest

variable {α : Type} (f : Forest α)

/-- Another frame. -/
def add (frame : Frame α) : Forest α := ⟨f.frames.push frame⟩

variable {f} {frame : Frame α} {i : FrameId} {x : String}

/-- A new frame with one binding. -/
theorem push_define_eq (enclosing : Option FrameId) (x : String) (v : α) :
    (f.push enclosing).define f.nextId x v = f.add ⟨enclosing, [(x, v)]⟩ := by
  rw [define, push, add, nextId]
  congr 1
  apply Array.ext
  · rw [Array.size_modify, Array.size_push, Array.size_push]
  · intro j hj hj'
    rw [Array.getElem_modify, Array.getElem_push, Array.getElem_push]
    split
    · next heq =>
      subst heq
      rw [dif_neg (Nat.lt_irrefl _), dif_neg (Nat.lt_irrefl _)]
      rfl
    · next hne =>
      rw [Array.size_modify, Array.size_push] at hj
      have hlt : j < f.frames.size := by omega
      rw [dif_pos hlt, dif_pos hlt]

@[simp]
theorem nextId_add : (f.add frame).nextId = f.nextId + 1 := Array.size_push _

theorem getElem?_add :
    (f.add frame).frames[i]? = if i = f.nextId then some frame else f.frames[i]? :=
  Array.getElem?_push

theorem enclosing?_add :
    (f.add frame).enclosing? i = if i = f.nextId then frame.enclosing else f.enclosing? i := by
  rw [enclosing?, getElem?_add]
  split <;> rfl

theorem lookup?_add : (f.add frame).lookup? i x =
    if i = f.nextId then frame.bindings.lookup x else f.lookup? i x := by
  rw [lookup?, getElem?_add]
  split <;> rfl

theorem Ordered.add (h : f.Ordered) (hframe : ∀ g ∈ frame.enclosing, g < f.nextId) :
    (f.add frame).Ordered := by
  intro i g hg
  rw [enclosing?_add] at hg
  split at hg
  · next hi => exact hi ▸ hframe g hg
  · exact h i g hg

/-- Binding a name elsewhere leaves a frame as it is. -/
theorem getElem?_define_of_ne {id : FrameId} (h : id ≠ i) (v : α) :
    (f.define id x v).frames[i]? = f.frames[i]? := by
  rw [define, Array.getElem?_modify, if_neg h]

end Forest

/-- What is in an array stays where it is. -/
theorem getElem?_push_of_eq_some {α : Type} {a : Array α} {i : Nat} {x : α} (h : a[i]? = some x)
    (y : α) : (a.push y)[i]? = some x := by
  obtain ⟨hlt, rfl⟩ := Array.getElem?_eq_some_iff.mp h
  exact Array.getElem?_push_lt hlt

/-- What is in a longer array is what has been added, or was there before. -/
theorem eq_or_of_getElem?_push {α : Type} {a : Array α} {i : Nat} {x y : α}
    (h : (a.push y)[i]? = some x) : i = a.size ∧ x = y ∨ a[i]? = some x := by
  rw [Array.getElem?_push] at h
  split at h
  · next hi => exact .inl ⟨hi, (Option.some.inj h).symm⟩
  · exact .inr h

/-- A binding that may be missing binds but one name. -/
theorem eq_some_of_lookup_toList {b : Option (String × Value)} {x : String} {v : Value}
    (h : b.toList.lookup x = some v) : b = some (x, v) := by
  cases b with
  | none => cases h
  | some b =>
    obtain ⟨y, w⟩ := b
    replace h := List.lookup_cons.symm.trans h
    split at h
    · next heq =>
      cases h
      rw [beq_iff_eq.mp heq]
    · cases h

/-! ### Machines that last -/

/-- What has been made in the first machine is in the second as it was made. Bindings may have
changed, but names that were bound are bound. -/
structure Machine.Lasts (m m' : Machine) : Prop where
  nextId : m.forest.nextId ≤ m'.forest.nextId
  enclosing : ∀ f < m.forest.nextId, m'.forest.enclosing? f = m.forest.enclosing? f
  binds : ∀ f x, m.forest.binds f x → m'.forest.binds f x
  closures : ∀ (id : ClosureId) c, m.closures[id]? = some c → m'.closures[id]? = some c
  classes : ∀ (id : ClassId) k, m.classes[id]? = some k → m'.classes[id]? = some k

namespace Machine.Lasts

variable {m m' m'' : Machine}

protected theorem refl (m : Machine) : m.Lasts m :=
  ⟨Nat.le_refl _, fun _ _ => rfl, fun _ _ h => h, fun _ _ h => h, fun _ _ h => h⟩

protected theorem trans (h : m.Lasts m') (h' : m'.Lasts m'') : m.Lasts m'' where
  nextId := h.nextId.trans h'.nextId
  enclosing f hf := (h'.enclosing f (hf.trans_le h.nextId)).trans (h.enclosing f hf)
  binds f x hx := h'.binds f x (h.binds f x hx)
  closures id c hc := h'.closures id c (h.closures id c hc)
  classes id k hk := h'.classes id k (h.classes id k hk)

/-- Where nothing is made and nothing is bound, a machine lasts. -/
theorem of_eq (hforest : m'.forest = m.forest) (hclosures : m'.closures = m.closures)
    (hclasses : m'.classes = m.classes) : m.Lasts m' := by
  refine ⟨Nat.le_of_eq ?_, fun f _ => ?_, fun f x hx => ?_, fun id c hc => ?_, fun id k hk => ?_⟩
  · rw [hforest]
  · rw [hforest]
  · rwa [hforest]
  · rwa [hclosures]
  · rwa [hclasses]

theorem goTo (m : Machine) (f : FrameId) : m.Lasts { m with current := f } := .of_eq rfl rfl rfl

theorem size_classes (h : m.Lasts m') : m.classes.size ≤ m'.classes.size := by
  by_contra hlt
  have hk := Array.getElem?_eq_getElem (Nat.lt_of_not_le hlt)
  exact Nat.lt_irrefl _ (Array.getElem?_eq_some_iff.mp (h.classes _ _ hk)).1

theorem size_closures (h : m.Lasts m') : m.closures.size ≤ m'.closures.size := by
  by_contra hlt
  have hc := Array.getElem?_eq_getElem (Nat.lt_of_not_le hlt)
  exact Nat.lt_irrefl _ (Array.getElem?_eq_some_iff.mp (h.closures _ _ hc)).1

theorem add (m : Machine) (frame : Frame Value) :
    m.Lasts { m with forest := m.forest.add frame } := by
  refine ⟨?_, fun f hf => ?_, fun f x hx => ?_, fun _ _ h => h, fun _ _ h => h⟩
  · exact (Nat.le_succ _).trans (Nat.le_of_eq Forest.nextId_add.symm)
  · exact Forest.enclosing?_add.trans (if_neg hf.ne)
  · -- a frame that binds something is an old one
    have hf : f ≠ m.forest.nextId := by
      rintro rfl
      rw [Forest.binds, Forest.lookup?, Forest.nextId,
        Array.getElem?_eq_none (Nat.le_refl _)] at hx
      cases hx
    show ((m.forest.add frame).lookup? f x).isSome
    rw [Forest.lookup?_add, if_neg hf]
    exact hx

theorem define (m : Machine) {id : FrameId} (hid : id < m.forest.nextId) (x : String) (v : Value) :
    m.Lasts { m with forest := m.forest.define id x v } := by
  refine ⟨Nat.le_of_eq (Forest.nextId_define _ _ _ _).symm,
    fun f _ => Forest.enclosing?_define _ _ _ _ _, fun f y hy => ?_, fun _ _ h => h,
    fun _ _ h => h⟩
  show ((m.forest.define id x v).lookup? f y).isSome
  rw [Forest.lookup?_define _ _ _ _ _ _ hid]
  split
  · rfl
  · exact hy

theorem pushClosure (m : Machine) (c : Closure) :
    m.Lasts { m with closures := m.closures.push c } :=
  ⟨Nat.le_refl _, fun _ _ => rfl, fun _ _ h => h, fun _ _ h => getElem?_push_of_eq_some h c,
    fun _ _ h => h⟩

theorem pushClass (m : Machine) (k : ClassRecord) :
    m.Lasts { m with classes := m.classes.push k } :=
  ⟨Nat.le_refl _, fun _ _ => rfl, fun _ _ h => h, fun _ _ h => h,
    fun _ _ h => getElem?_push_of_eq_some h k⟩

end Machine.Lasts

/-! ### Origins -/

/-- The value is an instance. -/
def Value.IsInstance (v : Value) : Prop := ∃ id, v = .object id

namespace Origins

variable {o o' o'' : Origins} {m m' : Machine}

/-- Frames and closures have been added. -/
structure Extends (o o' : Origins) : Prop where
  frames : ∀ f < o.frames.size, o'.frames[f]? = o.frames[f]?
  closures : ∀ id < o.closures.size, o'.closures[id]? = o.closures[id]?

theorem Extends.frame (h : o.Extends o') {f : FrameId} {p : Purpose}
    (hp : o.frames[f]? = some p) : o'.frames[f]? = some p :=
  (h.frames f (Array.getElem?_eq_some_iff.mp hp).1).trans hp

theorem Extends.closure (h : o.Extends o') {id : ClosureId} {making : Making}
    (hm : o.closures[id]? = some making) : o'.closures[id]? = some making :=
  (h.closures id (Array.getElem?_eq_some_iff.mp hm).1).trans hm

protected theorem Extends.refl (o : Origins) : o.Extends o := ⟨fun _ _ => rfl, fun _ _ => rfl⟩

protected theorem Extends.trans (h : o.Extends o') (h' : o'.Extends o'') : o.Extends o'' where
  frames f hf := by
    have hp := Array.getElem?_eq_getElem hf
    exact (h'.frame (h.frame hp)).trans hp.symm
  closures id hid := by
    have hm := Array.getElem?_eq_getElem hid
    exact (h'.closure (h.closure hm)).trans hm.symm

theorem extends_addFrame (o : Origins) (p : Purpose) :
    o.Extends { o with frames := o.frames.push p } :=
  ⟨fun _ hf => (Array.getElem?_push_lt hf).trans (Array.getElem?_eq_getElem hf).symm,
    fun _ _ => rfl⟩

theorem extends_addClosure (o : Origins) (making : Making) :
    o.Extends { o with closures := o.closures.push making } :=
  ⟨fun _ _ => rfl,
    fun _ hid => (Array.getElem?_push_lt hid).trans (Array.getElem?_eq_getElem hid).symm⟩

/-- It is for the program to bind names in the frame. -/
def IsOpen (o : Origins) (f : FrameId) : Prop :=
  ∃ p, o.frames[f]? = some p ∧ p.binding? = none

theorem IsOpen.extend {f : FrameId} (h : o.IsOpen f) (hext : o.Extends o') : o'.IsOpen f := by
  obtain ⟨p, hp, hnone⟩ := h
  exact ⟨p, hext.frame hp, hnone⟩

/-- **One step** of a machine, whichever frame is the current one. There is another frame, which
binds what a frame for its purpose binds, another binding in a frame where it is for the program to
bind names, another closure or another class, or there is a change elsewhere. -/
inductive Changes (o : Origins) (m : Machine) : Machine → Prop where
  | frame (current enclosing : FrameId) {p : Purpose}
      (hp : o.frames[m.forest.nextId]? = some p) :
      Changes o m
        { m with current, forest := m.forest.add ⟨some enclosing, p.binding?.toList⟩ }
  | binding (current : FrameId) {id : FrameId} (hopen : o.IsOpen id) {name : Token}
      (hname : name.IsName) (v : Value) :
      Changes o m { m with current, forest := m.forest.define id name.lexeme v }
  | closure (current : FrameId) (c : Closure) :
      Changes o m { m with current, closures := m.closures.push c }
  | klass (current : FrameId) (k : ClassRecord) :
      Changes o m { m with current, classes := m.classes.push k }
  | elsewhere (current : FrameId) (instances : Array Instance) (output : String)
      (calls : List (Native × List Value)) :
      Changes o m { m with current, instances, output, calls }

/-- It makes no difference where the run was before the step. -/
theorem Changes.of_goTo {f : FrameId} (h : o.Changes { m with current := f } m') :
    o.Changes m m' := by
  cases h with
  | frame current enclosing hp => exact .frame current enclosing hp
  | binding current hopen hname v => exact .binding current hopen hname v
  | closure current c => exact .closure current c
  | klass current k => exact .klass current k
  | elsewhere current instances output calls => exact .elsewhere current instances output calls

theorem Changes.extend (h : o.Changes m m') (hext : o.Extends o') : o'.Changes m m' := by
  cases h with
  | frame current enclosing hp => exact .frame current enclosing (hext.frame hp)
  | binding current hopen hname v => exact .binding current (hopen.extend hext) hname v
  | closure current c => exact .closure current c
  | klass current k => exact .klass current k
  | elsewhere current instances output calls => exact .elsewhere current instances output calls

/-- The closure is not a method that has still to be tied to an instance. -/
def Callable (o : Origins) (id : ClosureId) : Prop :=
  ∃ making, o.closures[id]? = some making ∧ making ≠ .method

/-- The value may get into the hands of a program: it is no method that has still to be tied, and
no class that is not there. -/
def Usable (o : Origins) (m : Machine) : Value → Prop
  | .closure id => o.Callable id
  | .klass id => id < m.classes.size
  | _ => True

theorem Callable.extend {id : ClosureId} (h : o.Callable id) (hext : o.Extends o') :
    o'.Callable id := by
  obtain ⟨making, hmaking, hne⟩ := h
  exact ⟨making, hext.closure hmaking, hne⟩

theorem Usable.grow {v : Value} (h : o.Usable m v) (hext : o.Extends o') (hlasts : m.Lasts m') :
    o'.Usable m' v := by
  cases v with
  | closure id => exact Callable.extend h hext
  | klass id => exact Nat.lt_of_lt_of_le h hlasts.size_classes
  | _ => trivial

/-- The closure is a method of a class with the superclass, if there is one. -/
def Declares (o : Origins) (m : Machine) (superclass : Option ClassId) (j : ClosureId) : Prop :=
  o.closures[j]? = some .method ∧ ∀ s ∈ superclass, ∃ c, m.closures[j]? = some c ∧
    o.frames[c.home]? = some (.superclass s)

theorem Declares.grow {superclass : Option ClassId} {j : ClosureId}
    (h : o.Declares m superclass j) (hext : o.Extends o')
    (hclosures : ∀ (id : ClosureId) c, m.closures[id]? = some c → m'.closures[id]? = some c) :
    o'.Declares m' superclass j := by
  refine ⟨hext.closure h.1, fun s hs => ?_⟩
  obtain ⟨c, hc, hhome⟩ := h.2 s hs
  exact ⟨c, hclosures j c hc, hext.frame hhome⟩

/-- **A heap that is well formed.** What the frames and the closures of a machine were made for
describes the machine. -/
structure Describes (o : Origins) (m : Machine) : Prop where
  /-- Frames are enclosed by older ones. -/
  outward : m.forest.Ordered
  /-- Superclasses are older than their subclasses. -/
  upward : ∀ (id : ClassId) k s, m.classes[id]? = some k → k.superclass = some s → s < id
  /-- A frame that is not for the program to bind names in has one binding. -/
  keywords : ∀ (f : FrameId) p b frame, o.frames[f]? = some p → p.binding? = some b →
    m.forest.frames[f]? = some frame → frame.bindings = [b]
  /-- Classes have the methods that were declared with them. Those of a class with a superclass are
  at home in a frame for the superclass. -/
  methods : ∀ (id : ClassId) k x j, m.classes[id]? = some k → k.methods.lookup x = some j →
    o.Declares m k.superclass j
  /-- A method that has been tied is at home in a frame for its instance. -/
  tied : ∀ (id : ClosureId) j object c, o.closures[id]? = some (.tied j object) →
    m.closures[id]? = some c → o.frames[c.home]? = some (.receiver object) ∧
      o.closures[j]? = some .method ∧ (m.closures[j]?).map Closure.routine = some c.routine

/-- What is made later has nothing to do with a machine. -/
theorem Describes.extend (h : o.Describes m) (hext : o.Extends o')
    (hframes : m.forest.nextId ≤ o.frames.size) (hclosures : m.closures.size ≤ o.closures.size) :
    o'.Describes m where
  outward := h.outward
  upward := h.upward
  keywords f p b frame hp hb hframe := by
    have hf := (Array.getElem?_eq_some_iff.mp hframe).1.trans_le hframes
    exact h.keywords f p b frame ((hext.frames f hf).symm.trans hp) hb hframe
  methods id k x j hk hx := (h.methods id k x j hk hx).grow hext fun _ _ hc => hc
  tied id j object c hid hc := by
    have hlt := (Array.getElem?_eq_some_iff.mp hc).1.trans_le hclosures
    obtain ⟨hhome, hj, hroutine⟩ :=
      h.tied id j object c ((hext.closures id hlt).symm.trans hid) hc
    exact ⟨hext.frame hhome, hext.closure hj, hroutine⟩

/-- A machine with other frames only. -/
theorem Describes.set_forest (h : o.Describes m) {forest : Forest Value}
    (houtward : forest.Ordered)
    (hkeywords : ∀ (f : FrameId) p b frame, o.frames[f]? = some p → p.binding? = some b →
      forest.frames[f]? = some frame → frame.bindings = [b]) :
    o.Describes { m with forest } :=
  ⟨houtward, h.upward, hkeywords, h.methods, h.tied⟩

/-- A machine with the same frames, closures and classes. -/
theorem Describes.of_eq (h : o.Describes m) (hforest : m'.forest = m.forest)
    (hclosures : m'.closures = m.closures) (hclasses : m'.classes = m.classes) :
    o.Describes m' := by
  refine ⟨?_, ?_, ?_, ?_, ?_⟩
  · rw [hforest]
    exact h.outward
  · rw [hclasses]
    exact h.upward
  · rw [hforest]
    exact h.keywords
  · intro id k x j hk hx
    rw [hclasses] at hk
    refine (h.methods id k x j hk hx).grow (.refl o) fun i c hc => ?_
    rwa [hclosures]
  · rw [hclosures]
    exact h.tied

/-- **What methods are tied to.** They are tied to instances, and nothing else is found for `this`,
unless a host has put it among the globals. -/
structure TiesInstances (o : Origins) (m : Machine) : Prop where
  receivers : ∀ (f : FrameId) v, o.frames[f]? = some (.receiver v) → v.IsInstance
  this : ∀ f v, m.forest.lookup? f "this" = some v →
    m.forest.enclosing? f = none ∨ v.IsInstance

/-- Another frame. -/
theorem TiesInstances.add (h : o.TiesInstances m) {p : Purpose} {enclosing : Option FrameId}
    (hp : ∀ v, p = .receiver v → v.IsInstance) :
    TiesInstances { o with frames := o.frames.push p }
      { m with forest := m.forest.add ⟨enclosing, p.binding?.toList⟩ } := by
  refine ⟨fun f v hf => ?_, fun f v hv => ?_⟩
  · rcases eq_or_of_getElem?_push hf with ⟨-, heq⟩ | hf
    · exact hp v heq.symm
    · exact h.receivers f v hf
  · replace hv := Forest.lookup?_add.symm.trans hv
    split at hv
    · right
      have hb := eq_some_of_lookup_toList hv
      cases p with
      | receiver object =>
        cases hb
        exact hp _ rfl
      | superclass id =>
        replace hb := congrArg Prod.fst (Option.some.inj hb)
        exact absurd hb (by decide : "super" ≠ "this")
      | _ => cases hb
    · next hf =>
      show (m.forest.add _).enclosing? f = none ∨ _
      rw [Forest.enclosing?_add, if_neg hf]
      exact h.this f v hv

/-- Another binding. -/
theorem TiesInstances.define (h : o.TiesInstances m) {id : FrameId} (hid : id < m.forest.nextId)
    {x : String} {v : Value} (hx : x = "this" → m.forest.enclosing? id = none) :
    o.TiesInstances { m with forest := m.forest.define id x v } := by
  refine ⟨h.receivers, fun f w hw => ?_⟩
  show (m.forest.define id x v).enclosing? f = none ∨ _
  rw [Forest.enclosing?_define]
  replace hw := (Forest.lookup?_define _ _ _ _ _ _ hid).symm.trans hw
  split at hw
  · next heq =>
    obtain ⟨rfl, rfl⟩ := heq
    exact .inl (hx rfl)
  · exact h.this f w hw

end Origins

end LoxInterpreter
