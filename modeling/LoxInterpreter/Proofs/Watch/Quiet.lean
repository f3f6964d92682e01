import LoxInterpreter.Proofs.Run.Operation
import LoxInterpreter.Proofs.Watch.Ledger

/-!
# Quiet steps

What `this` and `super` mean in old code is not touched by what happens later: a machine that has
aged (`Machine.Ages`) has the old frames where they were, and they bind the two keywords as before.
A step is *quiet* (`Run.Quiet`) if every machine ages through it and has no new closures after it.
Most steps are; names are declared and assigned to quietly because they are no keywords
(`quiet_define`, `quiet_write`).
-/

namespace LoxInterpreter

open Run

/-! ### Bindings of other names -/

namespace Forest

variable {α : Type} (f : Forest α)

/-- Binding a name changes what no other name is bound to. -/
theorem lookup?_define_of_ne (id i : FrameId) {name other : String} (h : other ≠ name) (value : α) :
    (f.define id name value).lookup? i other = f.lookup? i other := by
  unfold lookup? define
  rw [Array.getElem?_modify]
  split
  · next hi =>
    subst hi
    cases f.frames[id]? with
    | none => rfl
    | some frame =>
      rw [Option.map_some, Option.bind_some, Option.bind_some, lookup_bindName, if_neg h]
  · rfl

/-- A frame that is not there binds nothing. -/
theorem lookup?_nextId (name : String) : f.lookup? f.nextId name = none := by
  rw [lookup?, nextId, Array.getElem?_eq_none (Nat.le_refl _), Option.bind_none]

/-- A new frame with one binding. -/
theorem push_define (enclosing : Option FrameId) (name : String) (value : α) :
    ((f.push enclosing).define f.nextId name value).enclosing? f.nextId = enclosing ∧
      ((f.push enclosing).define f.nextId name value).lookup? f.nextId name = some value := by
  have hlt : f.nextId < (f.push enclosing).nextId := by
    rw [nextId_push]
    exact Nat.lt_succ_self _
  rw [enclosing?_define, enclosing?_push, if_pos rfl, lookup?_define _ _ _ _ _ _ hlt,
    if_pos ⟨rfl, rfl⟩]
  exact ⟨rfl, rfl⟩

/-- The frame one step further out. -/
theorem ancestor?_add_one (distance : Nat) (i : FrameId) :
    f.ancestor? (distance + 1) i = (f.ancestor? distance i).bind f.enclosing? := by
  induction distance generalizing i with
  | zero => exact Option.bind_fun_some _
  | succ distance ih =>
    show (f.enclosing? i).bind (f.ancestor? (distance + 1)) =
      ((f.enclosing? i).bind (f.ancestor? distance)).bind f.enclosing?
    rw [Option.bind_assoc]
    exact congrArg _ (funext ih)

/-- A frame that is enclosed by another is there. -/
theorem lt_nextId_of_enclosing? {i g : FrameId} (h : f.enclosing? i = some g) : i < f.nextId := by
  obtain ⟨frame, hframe, -⟩ := Option.bind_eq_some_iff.mp h
  exact (Array.getElem?_eq_some_iff.mp hframe).1

end Forest

/-! ### Age -/

/-- Old frames are where they were and bind the keywords as before, and old instances keep their
classes. -/
structure Machine.Ages (m m' : Machine) : Prop where
  nextId : m.forest.nextId ≤ m'.forest.nextId
  enclosing : ∀ f < m.forest.nextId, m'.forest.enclosing? f = m.forest.enclosing? f
  keywords : ∀ f < m.forest.nextId, ∀ word, word = "this" ∨ word = "super" →
    m'.forest.lookup? f word = m.forest.lookup? f word
  klass : ∀ v k, Watched.classOf? m v = some k → Watched.classOf? m' v = some k

namespace Machine.Ages

variable {m m' m'' : Machine}

protected theorem refl (m : Machine) : m.Ages m :=
  ⟨Nat.le_refl _, fun _ _ => rfl, fun _ _ _ _ => rfl, fun _ _ h => h⟩

protected theorem trans (h : m.Ages m') (h' : m'.Ages m'') : m.Ages m'' where
  nextId := h.nextId.trans h'.nextId
  enclosing f hf := (h'.enclosing f (hf.trans_le h.nextId)).trans (h.enclosing f hf)
  keywords f hf word hword :=
    (h'.keywords f (hf.trans_le h.nextId) word hword).trans (h.keywords f hf word hword)
  klass v k hv := h'.klass v k (h.klass v k hv)

/-- With the same frames and instances a machine has aged. -/
theorem of_eq (hforest : m'.forest = m.forest) (hinstances : m'.instances = m.instances) :
    m.Ages m' := by
  refine ⟨Nat.le_of_eq (congrArg _ hforest.symm), fun f _ => congrArg (·.enclosing? f) hforest,
    fun f _ word _ => congrArg (·.lookup? f word) hforest, fun v k hv => ?_⟩
  cases v with
  | object id =>
    rw [Watched.classOf?, hinstances]
    exact hv
  | _ => exact hv

/-- With more instances, and with old ones of the same classes, a machine has aged. -/
theorem of_instances (hforest : m'.forest = m.forest)
    (h : ∀ (id : InstanceId) i, m.instances[id]? = some i →
      ∃ i' : Instance, m'.instances[id]? = some i' ∧ i'.klass = i.klass) : m.Ages m' := by
  refine ⟨Nat.le_of_eq (congrArg _ hforest.symm), fun f _ => congrArg (·.enclosing? f) hforest,
    fun f _ word _ => congrArg (·.lookup? f word) hforest, fun v k hv => ?_⟩
  cases v with
  | object id =>
    obtain ⟨i, hi, rfl⟩ := Option.map_eq_some_iff.mp hv
    obtain ⟨i', hi', hklass⟩ := h id i hi
    exact Option.map_eq_some_iff.mpr ⟨i', hi', hklass⟩
  | _ => exact hv

/-- A name that is no keyword may be bound. -/
theorem define (m : Machine) (id : FrameId) {x : String} (hthis : x ≠ "this") (hsuper : x ≠ "super")
    (v : Value) : m.Ages { m with forest := m.forest.define id x v } := by
  refine ⟨Nat.le_of_eq (Forest.nextId_define _ _ _ _).symm,
    fun f _ => Forest.enclosing?_define _ _ _ _ _, fun f _ word hword => ?_, fun _ _ h => h⟩
  refine Forest.lookup?_define_of_ne _ _ _ ?_ v
  rcases hword with rfl | rfl
  · exact hthis.symm
  · exact hsuper.symm

/-- A frame may be made. -/
theorem push (m : Machine) (enclosing : Option FrameId) :
    m.Ages { m with forest := m.forest.push enclosing } := by
  refine ⟨?_, fun f hf => ?_, fun f _ word _ => Forest.lookup?_push _ _ _ _, fun _ _ h => h⟩
  · exact (Nat.le_succ _).trans (Nat.le_of_eq (Forest.nextId_push _ _).symm)
  · exact (Forest.enclosing?_push _ _ _).trans (if_neg hf.ne)

/-- A frame may be made that binds any name. -/
theorem push_define (m : Machine) (enclosing : Option FrameId) (x : String) (v : Value) :
    m.Ages
      { m with forest := (m.forest.push enclosing).define m.forest.nextId x v } := by
  have hpush := Ages.push m enclosing
  refine ⟨hpush.nextId.trans (Nat.le_of_eq (Forest.nextId_define _ _ _ _).symm), fun f hf => ?_,
    fun f hf word hword => ?_, fun _ _ h => h⟩
  · exact (Forest.enclosing?_define _ _ _ _ _).trans (hpush.enclosing f hf)
  · have hlt : m.forest.nextId < (m.forest.push enclosing).nextId := by
      rw [Forest.nextId_push]
      exact Nat.lt_succ_self _
    -- the frame that changes is none of the old ones
    rw [← hpush.keywords f hf word hword]
    exact (Forest.lookup?_define _ _ _ _ _ _ hlt).trans (if_neg fun h => hf.ne h.1)

end Machine.Ages

/-! ### Quiet steps -/

namespace Run

variable {α β : Type}

/-- To look at the machine and go on. -/
theorem get_bind_apply (f : Machine → Run α) (m : Machine) : (get >>= f) m = f m m := rfl

/-- A step that makes no closure, and through which every machine ages. -/
def Quiet (act : Run α) : Prop :=
  ∀ m, m.Ages (machineAfter act m) ∧ (machineAfter act m).closures = m.closures

namespace Quiet

variable {act : Run α} {f : α → Run β}

/-- A step that changes nothing. -/
theorem of_eq (h : ∀ m, machineAfter act m = m) : Quiet act := by
  intro m
  rw [h m]
  exact ⟨.refl m, rfl⟩

protected theorem pure (a : α) : Quiet (pure a) := .of_eq fun _ => rfl

protected theorem throw (why : Interruption) : Quiet (throw why : Run α) := .of_eq fun _ => rfl

theorem faultWith (what : Fault) : Quiet (faultWith what : Run α) := .throw _

theorem failAt (token : Token) (cause : RuntimeError) : Quiet (failAt token cause : Run α) :=
  .throw _

protected theorem bind (h : Quiet act) (hf : ∀ a, Quiet (f a)) : Quiet (act >>= f) :=
  rel_machineAfter_bind (fun m m' => m.Ages m' ∧ m'.closures = m.closures)
    (fun h h' => ⟨h.1.trans h'.1, h'.2.trans h.2⟩) h hf

/-- A look at the machine. -/
theorem get_bind {g : Machine → Run β} (h : ∀ m, Quiet (g m)) : Quiet (get >>= g) :=
  fun m => h m m

end Quiet

/-! ### Steps of the machine -/

theorem quiet_define (id : FrameId) {name : Token} (h : name.IsName) (v : Value) :
    Quiet (define id name.lexeme v) := fun m => ⟨.define m id h.1 h.2 v, rfl⟩

theorem quiet_newFrame (enclosing : FrameId) : Quiet (newFrame enclosing) :=
  fun m => ⟨.push m (some enclosing), rfl⟩

theorem quiet_newFrameBinding (enclosing : FrameId) (x : String) (v : Value) :
    Quiet (Watched.newFrameBinding enclosing x v) :=
  fun m => ⟨.push_define m (some enclosing) x v, rfl⟩

theorem quiet_newClass (c : ClassRecord) : Quiet (newClass c) := fun _ => ⟨.of_eq rfl rfl, rfl⟩

theorem quiet_newInstance (klass : ClassId) : Quiet (newInstance klass) := by
  refine fun m => ⟨.of_instances rfl fun id i hi => ⟨i, ?_, rfl⟩, rfl⟩
  obtain ⟨hlt, rfl⟩ := Array.getElem?_eq_some_iff.mp hi
  exact Array.getElem?_push_lt hlt

theorem quiet_setField (id : InstanceId) (x : String) (v : Value) : Quiet (setField id x v) := by
  refine fun m => ⟨.of_instances rfl fun id' i hi => ?_, rfl⟩
  show ∃ i' : Instance, (m.instances.modify id _)[id']? = some i' ∧ _
  rw [Array.getElem?_modify, hi]
  -- a field says nothing of the class
  split
  · exact ⟨_, rfl, rfl⟩
  · exact ⟨i, rfl, rfl⟩

theorem quiet_printLine (line : String) : Quiet (printLine line) := fun _ => ⟨.of_eq rfl rfl, rfl⟩

theorem quiet_callNative (host : Host) (f : Native) (values : List Value) :
    Quiet (callNative host f values) := fun _ => ⟨.of_eq rfl rfl, rfl⟩

/-! ### Operators and names -/

theorem Operation.quiet {known : Prop} {op op' : Token} {act act' : Run Value}
    (h : Operation known op op' act act') : Quiet act := by
  cases h with
  | value _ => exact .pure _
  | blame _ => exact .failAt _ _
  | unknown _ => exact .faultWith _

theorem quiet_readAt (distance : Nat) (x : String) : Quiet (readAt distance x) := by
  refine .get_bind fun m => ?_
  split
  · exact .pure _
  · exact .faultWith _

theorem quiet_read (r : Reference Place) : Quiet (Names.byDistance.read r) := by
  rw [Names.byDistance]
  dsimp only
  split
  · refine .get_bind fun m => ?_
    split
    · exact .pure _
    · exact .failAt _ _
  · exact quiet_readAt _ _

theorem quiet_assignFrom (id : FrameId) {name : Token} (h : name.IsName) (v : Value) :
    Quiet (assignFrom id name v) := by
  refine .get_bind fun m => ?_
  split
  · exact quiet_define _ h v
  · exact .failAt _ _

theorem quiet_write {r : Reference Place} (h : r.token.IsName) (v : Value) :
    Quiet (Names.byDistance.write r v) := by
  rw [Names.byDistance]
  dsimp only
  split
  · exact quiet_assignFrom _ h v
  · refine .get_bind fun m => ?_
    split
    · exact quiet_define _ h v
    · exact .faultWith _
    · exact .faultWith _

theorem quiet_superclassOf {host : Host} (h : host.names = .byDistance)
    (superclass : Option (Reference Place)) : Quiet (superclassOf host superclass) := by
  cases superclass with
  | none => exact .pure _
  | some target =>
    rw [superclassOf, h]
    refine .bind (quiet_read _) fun x => ?_
    split
    · exact .pure _
    · exact .failAt _ _

theorem quiet_bindParams (frame : FrameId) {params : List Token}
    (h : ∀ param ∈ params, param.IsName) (values : List Value) :
    Quiet (bindParams frame params values) := by
  induction params generalizing values with
  | nil => exact .pure _
  | cons param params ih =>
    obtain ⟨hparam, hparams⟩ := List.forall_mem_cons.mp h
    cases values with
    | nil => exact .pure _
    | cons value values =>
      exact .bind (quiet_define _ hparam _) fun _ => ih hparams values

end Run

end LoxInterpreter
