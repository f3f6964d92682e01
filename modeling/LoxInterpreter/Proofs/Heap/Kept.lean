import Mathlib.Data.List.Chain
import LoxInterpreter.Proofs.Heap.Origins
import LoxInterpreter.Proofs.Run.Together

/-!
# What the steps of a run keep

* `Live` is what evaluation needs to know of a machine in order to keep it described by its origins.
  There is one law for each way in which a machine changes (`Live.add`, `Live.define` and so on).
* `Chronicle.Recorded` says of all states in a chronicle that they are described, that they follow
  each other step by step, and that they last.
* `Kept` is both; a step keeps it (`Kept.step`).
-/

namespace LoxInterpreter

open Run Noting

/-! ### Machines that are alive -/

/-- The text of the closure is one that fits somewhere. -/
def Closure.Fits (c : Closure) : Prop :=
  ∃ scopes around, Stmt.RoutineFits (fun _ => True) scopes around c.routine

/-- **What evaluation counts on.** The origins tell of every frame and of every closure, and a
program can get hold of nothing that it may not use. -/
structure Live (o : Origins) (m : Machine) : Prop where
  frames_size : o.frames.size = m.forest.nextId
  closures_size : o.closures.size = m.closures.size
  closures : ∀ (id : ClosureId) c, m.closures[id]? = some c →
    c.home < m.forest.nextId ∧ c.Fits
  usable : ∀ v, m.Offers v → o.Usable m v
  describes : o.Describes m
  instances : o.TiesInstances m

namespace Live

variable {o o' : Origins} {m m' : Machine}

theorem lt_nextId (h : Live o m) {f : FrameId} {p : Purpose} (hp : o.frames[f]? = some p) :
    f < m.forest.nextId :=
  (Array.getElem?_eq_some_iff.mp hp).1.trans_eq h.frames_size

theorem lt_nextId_of_isOpen (h : Live o m) {f : FrameId} (hf : o.IsOpen f) :
    f < m.forest.nextId := by
  obtain ⟨p, hp, -⟩ := hf
  exact h.lt_nextId hp

/-- **What is new decides** what a program can get hold of. -/
theorem usable_of (h : Live o m) (hext : o.Extends o') (hlasts : m.Lasts m')
    (bound : ∀ f x v, m'.forest.lookup? f x = some v →
      m.forest.lookup? f x = some v ∨ o'.Usable m' v)
    (held : ∀ (id : InstanceId) (i : Instance) x v, m'.instances[id]? = some i →
      i.fields.lookup x = some v →
      (∃ i : Instance, m.instances[id]? = some i ∧ i.fields.lookup x = some v) ∨ o'.Usable m' v)
    (handed : ∀ f vs v, (f, vs) ∈ m'.calls → v ∈ vs → (f, vs) ∈ m.calls ∨ o'.Usable m' v) :
    ∀ v, m'.Offers v → o'.Usable m' v := by
  have hold {v : Value} (hv : m.Offers v) : o'.Usable m' v := (h.usable v hv).grow hext hlasts
  intro v hv
  cases hv with
  | plain hplain => cases v <;> trivial
  | klass hid => exact hid
  | object hid => trivial
  | bound hx => exact (bound _ _ v hx).elim (fun hx => hold (.bound hx)) id
  | held hi hx =>
    rcases held _ _ _ v hi hx with ⟨i, hi, hx⟩ | hv
    · exact hold (.held hi hx)
    · exact hv
  | handed hcall hmem =>
    exact (handed _ _ v hcall hmem).elim (fun hcall => hold (.handed hcall hmem)) id

/-- **Another frame**, enclosed by one that is there. It binds what a frame for its purpose binds. -/
theorem add (h : Live o m) {p : Purpose} {enclosing : FrameId}
    (henclosing : enclosing < m.forest.nextId)
    (hp : ∀ x v, p.binding? = some (x, v) → o.Usable m v)
    (hreceiver : ∀ v, p = .receiver v → v.IsInstance) :
    Live { o with frames := o.frames.push p }
      { m with forest := m.forest.add ⟨some enclosing, p.binding?.toList⟩ } := by
  have hext := o.extends_addFrame p
  have hlasts := Machine.Lasts.add m ⟨some enclosing, p.binding?.toList⟩
  refine ⟨?_, h.closures_size, fun id c hc => ?_, ?_, ?_, h.instances.add hreceiver⟩
  · show (o.frames.push p).size = (m.forest.add _).nextId
    rw [Array.size_push, Forest.nextId_add, h.frames_size]
  · obtain ⟨hhome, hfits⟩ := h.closures id c hc
    exact ⟨hhome.trans_le hlasts.nextId, hfits⟩
  · refine h.usable_of hext hlasts (fun f x v hx => ?_) (fun id i x v hi hx => .inl ⟨i, hi, hx⟩)
      fun f vs v hf _ => .inl hf
    replace hx := Forest.lookup?_add.symm.trans hx
    split at hx
    · exact .inr ((hp x v (eq_some_of_lookup_toList hx)).grow hext hlasts)
    · exact .inl hx
  · refine (h.describes.extend hext h.frames_size.ge h.closures_size.ge).set_forest
      (h.describes.outward.add fun g hg => ?_) fun f q b frame hq hb hframe => ?_
    · cases hg
      exact henclosing
    · rw [Forest.getElem?_add] at hframe
      replace hq := Array.getElem?_push.symm.trans hq
      rw [h.frames_size] at hq
      split at hframe
      · next hf =>
        rw [if_pos hf] at hq
        cases hframe
        cases hq
        rw [hb]
        rfl
      · next hf =>
        rw [if_neg hf] at hq
        exact h.describes.keywords f q b frame hq hb hframe

/-- **Another binding** in a frame where it is for the program to bind names. -/
theorem define (h : Live o m) {id : FrameId} (hopen : o.IsOpen id) {x : String} {v : Value}
    (hx : x = "this" → m.forest.enclosing? id = none) (hv : o.Usable m v) :
    Live o { m with forest := m.forest.define id x v } := by
  have hid := h.lt_nextId_of_isOpen hopen
  have hlasts := Machine.Lasts.define m hid x v
  refine ⟨h.frames_size.trans (Forest.nextId_define _ _ _ _).symm, h.closures_size,
    fun id c hc => ?_, ?_, ?_, h.instances.define hid hx⟩
  · obtain ⟨hhome, hfits⟩ := h.closures id c hc
    exact ⟨hhome.trans_le hlasts.nextId, hfits⟩
  · refine h.usable_of (.refl o) hlasts (fun f y v' hy => ?_)
      (fun id i x v hi hx => .inl ⟨i, hi, hx⟩) fun f vs v hf _ => .inl hf
    replace hy := (Forest.lookup?_define _ _ _ _ _ _ hid).symm.trans hy
    split at hy
    · cases hy
      exact .inr (hv.grow (.refl o) hlasts)
    · exact .inl hy
  · refine h.describes.set_forest h.describes.outward.define fun f p b frame hp hb hframe => ?_
    -- a frame that binds a keyword is another one
    have hne : id ≠ f := by
      rintro rfl
      obtain ⟨p', hp', hnone⟩ := hopen
      cases hp'.symm.trans hp
      cases hnone.symm.trans hb
    rw [Forest.getElem?_define_of_ne hne] at hframe
    exact h.describes.keywords f p b frame hp hb hframe

/-- **Another closure.** -/
theorem pushClosure (h : Live o m) {making : Making} {c : Closure}
    (hhome : c.home < m.forest.nextId) (hfits : c.Fits)
    (htied : ∀ j object, making = .tied j object → o.frames[c.home]? = some (.receiver object) ∧
      o.closures[j]? = some .method ∧ (m.closures[j]?).map Closure.routine = some c.routine) :
    Live { o with closures := o.closures.push making }
      { m with closures := m.closures.push c } := by
  have hext := o.extends_addClosure making
  have hlasts := Machine.Lasts.pushClosure m c
  have hold := h.describes.extend hext h.frames_size.ge h.closures_size.ge
  have hroutine {j : ClosureId} {r : Routine Place}
      (hj : (m.closures[j]?).map Closure.routine = some r) :
      ((m.closures.push c)[j]?).map Closure.routine = some r := by
    obtain ⟨c', hc', rfl⟩ := Option.map_eq_some_iff.mp hj
    rw [getElem?_push_of_eq_some hc']
    rfl
  refine ⟨h.frames_size, ?_, fun id c' hc' => ?_,
    h.usable_of hext hlasts (fun _ _ _ hx => .inl hx) (fun _ i _ _ hi hx => .inl ⟨i, hi, hx⟩)
      (fun _ _ _ hf _ => .inl hf),
    ⟨hold.outward, hold.upward, hold.keywords,
      fun id k x j hk hx => (hold.methods id k x j hk hx).grow (.refl _) hlasts.closures,
      fun id j object c' hid hc' => ?_⟩, h.instances.receivers, h.instances.this⟩
  · show (o.closures.push making).size = (m.closures.push c).size
    rw [Array.size_push, Array.size_push, h.closures_size]
  · rcases eq_or_of_getElem?_push hc' with ⟨-, rfl⟩ | hc'
    · exact ⟨hhome, hfits⟩
    · exact h.closures id c' hc'
  · replace hc' := Array.getElem?_push.symm.trans hc'
    have hid' := Array.getElem?_push.symm.trans hid
    rw [h.closures_size] at hid'
    split at hc'
    · next heq =>
      rw [if_pos heq] at hid'
      cases hc'
      cases hid'
      obtain ⟨hf, hj, hr⟩ := htied j object rfl
      exact ⟨hf, hext.closure hj, hroutine hr⟩
    · obtain ⟨hf, hj, hr⟩ := hold.tied id j object c' hid hc'
      exact ⟨hf, hj, hroutine hr⟩

/-- **Another class**, with a superclass that is there and methods that were declared. -/
theorem pushClass (h : Live o m) {k : ClassRecord} (hsuper : ∀ s ∈ k.superclass, s < m.classes.size)
    (hmethods : ∀ x j, k.methods.lookup x = some j → o.Declares m k.superclass j) :
    Live o { m with classes := m.classes.push k } := by
  refine ⟨h.frames_size, h.closures_size, h.closures,
    h.usable_of (.refl o) (.pushClass m k) (fun _ _ _ hx => .inl hx)
      (fun _ i _ _ hi hx => .inl ⟨i, hi, hx⟩) (fun _ _ _ hf _ => .inl hf),
    ⟨h.describes.outward, fun id k' s hk' hs => ?_, h.describes.keywords,
      fun id k' x j hk' hx => ?_, h.describes.tied⟩, h.instances.receivers, h.instances.this⟩
  · rcases eq_or_of_getElem?_push hk' with ⟨rfl, rfl⟩ | hk'
    · exact hsuper s hs
    · exact h.describes.upward id k' s hk' hs
  · rcases eq_or_of_getElem?_push hk' with ⟨-, rfl⟩ | hk'
    · exact hmethods x j hx
    · exact h.describes.methods id k' x j hk' hx

/-- **A change elsewhere** than in frames, closures and classes. -/
theorem of_eq (h : Live o m) (hforest : m'.forest = m.forest)
    (hclosures : m'.closures = m.closures) (hclasses : m'.classes = m.classes)
    (held : ∀ (id : InstanceId) (i : Instance) x v, m'.instances[id]? = some i →
      i.fields.lookup x = some v →
      (∃ i : Instance, m.instances[id]? = some i ∧ i.fields.lookup x = some v) ∨ o.Usable m v)
    (handed : ∀ f vs v, (f, vs) ∈ m'.calls → v ∈ vs → (f, vs) ∈ m.calls ∨ o.Usable m v) :
    Live o m' := by
  have hlasts : m.Lasts m' := .of_eq hforest hclosures hclasses
  refine ⟨?_, ?_, ?_, ?_, h.describes.of_eq hforest hclosures hclasses, h.instances.receivers, ?_⟩
  · rw [hforest]
    exact h.frames_size
  · rw [hclosures]
    exact h.closures_size
  · rw [hforest, hclosures]
    exact h.closures
  · refine h.usable_of (.refl o) hlasts (fun f x v hx => ?_) (fun id i x v hi hx => ?_)
      fun f vs v hf hv => (handed f vs v hf hv).imp_right (·.grow (.refl o) hlasts)
    · rw [hforest] at hx
      exact .inl hx
    · exact (held id i x v hi hx).imp_right (·.grow (.refl o) hlasts)
  · rw [hforest]
    exact h.instances.this

/-- Which frame is the current one makes no difference. -/
theorem goTo (h : Live o m) (f : FrameId) : Live o { m with current := f } :=
  h.of_eq rfl rfl rfl (fun _ i _ _ hi hx => .inl ⟨i, hi, hx⟩) fun _ _ _ hf _ => .inl hf

end Live

/-! ### The record -/

/-- **What a chronicle tells**, in which the machine is the last state but for its current frame.
The states follow each other step by step; all of them are well formed, and last until the machine.
The program wrote to frames that are for it to write to, and called no method that had not been tied
to an instance. -/
structure Chronicle.Recorded (c : Chronicle) (m : Machine) : Prop where
  course : c.states.IsChain fun later earlier => c.origins.Changes earlier later
  states : ∀ x ∈ c.states, c.origins.Describes x ∧ x.Lasts m
  kept : c.states.Pairwise fun later earlier => earlier.Lasts later
  latest : ∃ x f, c.states.head? = some x ∧ m = { x with current := f }
  writes : ∀ w ∈ c.writes, c.origins.IsOpen w.1 ∧ w.2 ≠ "this" ∧ w.2 ≠ "super"
  calls : ∀ id ∈ c.calls, c.origins.Callable id

/-- The invariant of runs with a chronicle. The current frame is for the program to bind names in. -/
structure Kept (t : Told) : Prop where
  live : Live t.notes.origins t.machine
  recorded : t.notes.Recorded t.machine
  current : t.notes.origins.IsOpen t.machine.current

/-- What a run with a chronicle leads to. -/
structure Told.Grows (t t' : Told) : Prop where
  origins : t.notes.origins.Extends t'.notes.origins
  states : t.notes.states <:+ t'.notes.states
  lasts : t.machine.Lasts t'.machine
  current : t'.machine.current = t.machine.current

namespace Told.Grows

variable {t t' t'' : Told}

protected theorem refl (t : Told) : t.Grows t := ⟨.refl _, List.suffix_rfl, .refl _, rfl⟩

protected theorem trans (h : t.Grows t') (h' : t'.Grows t'') : t.Grows t'' :=
  ⟨h.origins.trans h'.origins, h.states.trans h'.states, h.lasts.trans h'.lasts,
    h'.current.trans h.current⟩

end Told.Grows

/-- The program can use the value. -/
abbrev Told.Usable (t : Told) (v : Value) : Prop := t.notes.origins.Usable t.machine v

theorem Told.Grows.usable {t t' : Told} (h : t.Grows t') {v : Value} (hv : t.Usable v) :
    t'.Usable v :=
  hv.grow h.origins h.lasts

/-- **A step** that keeps the machine alive keeps the record right, if the machine lasts and is
written down. -/
theorem Kept.step {m m' : Machine} {c : Chronicle} (h : Kept ⟨m, c⟩) {o : Origins}
    (hlive : Live o m') (hext : c.origins.Extends o) (hchanges : o.Changes m m')
    (hlasts : m.Lasts m') (hcurrent : m'.current = m.current) :
    Kept ⟨m', { c with origins := o, states := m' :: c.states }⟩ ∧
      Told.Grows ⟨m, c⟩ ⟨m', { c with origins := o, states := m' :: c.states }⟩ := by
  obtain ⟨hold, hrecorded, hopen⟩ := h
  have hstates (x : Machine) (hx : x ∈ c.states) : o.Describes x ∧ x.Lasts m' := by
    obtain ⟨hdescribes, hx⟩ := hrecorded.states x hx
    exact ⟨hdescribes.extend hext (hx.nextId.trans_eq hold.frames_size.symm)
      (hx.size_closures.trans_eq hold.closures_size.symm), hx.trans hlasts⟩
  refine ⟨⟨hlive, ⟨?_, ?_, ?_, ⟨m', _, rfl, rfl⟩, fun w hw => ?_, fun id hid => ?_⟩, ?_⟩,
    hext, List.suffix_cons _ _, hlasts, hcurrent⟩
  · refine (hrecorded.course.imp fun _ _ h => h.extend hext).cons fun x hx => ?_
    obtain ⟨x', f, hx', hmachine⟩ := hrecorded.latest
    cases hx'.symm.trans hx
    replace hmachine : m = { x with current := f } := hmachine
    rw [hmachine] at hchanges
    exact hchanges.of_goTo
  · exact List.forall_mem_cons.mpr ⟨⟨hlive.describes, .refl m'⟩, hstates⟩
  · exact List.pairwise_cons.mpr ⟨fun x hx => (hstates x hx).2, hrecorded.kept⟩
  · exact (hrecorded.writes w hw).imp_left (·.extend hext)
  · exact (hrecorded.calls id hid).extend hext
  · show o.IsOpen m'.current
    rw [hcurrent]
    exact hopen.extend hext

end LoxInterpreter
