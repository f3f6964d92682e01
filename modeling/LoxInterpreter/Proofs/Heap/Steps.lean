import LoxInterpreter.Proofs.Heap.Kept

/-!
# Runs that keep their chronicle right

`Tells t act told Q` says that from a machine with a chronicle the second run takes the course of
the first, which keeps no chronicle, and that the invariant (`Kept`) holds where it ends. `Tells.bind`
puts such runs together. There is one law for each step that changes the machine; steps that only
look at it have laws of their own (`Looks`).
-/

namespace LoxInterpreter

open Run Noting

/-! ### Entries and the current frame -/

namespace Kept

variable {t : Told}

theorem enterWrite (h : Kept t) {id : FrameId} (hopen : t.notes.origins.IsOpen id) {name : Token}
    (hname : name.IsName) :
    Kept { t with notes := { t.notes with writes := (id, name.lexeme) :: t.notes.writes } } := by
  obtain ⟨hlive, hrecorded, hcurrent⟩ := h
  exact ⟨hlive, ⟨hrecorded.course, hrecorded.states, hrecorded.kept, hrecorded.latest,
    List.forall_mem_cons.mpr ⟨⟨hopen, hname⟩, hrecorded.writes⟩, hrecorded.calls⟩, hcurrent⟩

theorem enterCall (h : Kept t) {id : ClosureId} (hid : t.notes.origins.Callable id) :
    Kept { t with notes := { t.notes with calls := id :: t.notes.calls } } := by
  obtain ⟨hlive, hrecorded, hcurrent⟩ := h
  exact ⟨hlive, ⟨hrecorded.course, hrecorded.states, hrecorded.kept, hrecorded.latest,
    hrecorded.writes, List.forall_mem_cons.mpr ⟨hid, hrecorded.calls⟩⟩, hcurrent⟩

/-- The run may go on in any frame that is for the program to bind names in. -/
theorem goTo (h : Kept t) {f : FrameId} (hopen : t.notes.origins.IsOpen f) :
    Kept { t with machine := { t.machine with current := f } } := by
  obtain ⟨hlive, hrecorded, -⟩ := h
  refine ⟨hlive.goTo f, ⟨hrecorded.course, fun x hx => ?_, hrecorded.kept, ?_, hrecorded.writes,
    hrecorded.calls⟩, hopen⟩
  · obtain ⟨hdescribes, hx⟩ := hrecorded.states x hx
    exact ⟨hdescribes, hx.trans (.goTo _ f)⟩
  · obtain ⟨x, g, hx, hmachine⟩ := hrecorded.latest
    exact ⟨x, f, hx, congrArg (fun m : Machine => { m with current := f }) hmachine⟩

theorem usable (h : Kept t) {v : Value} (hv : t.machine.Offers v) : t.Usable v :=
  h.live.usable v hv

theorem current_lt (h : Kept t) : t.machine.current < t.machine.forest.nextId :=
  h.live.lt_nextId_of_isOpen h.current

end Kept

namespace Run

variable {α β : Type}

/-! ### Looking at the machine -/

/-- The step changes nothing, and what it comes to satisfies the predicate. -/
def Looks (m : Machine) (act : Run α) (P : α → Prop) : Prop :=
  (∃ a, act m = .ok a m ∧ P a) ∨ ∃ e, act m = .error e m

namespace Looks

variable {m : Machine} {act : Run α} {f : α → Run β} {P : α → Prop} {R : β → Prop}

protected theorem pure {a : α} (ha : P a) : Looks m (pure a) P := .inl ⟨a, rfl, ha⟩

protected theorem throw (e : Interruption) : Looks m (throw e : Run α) P := .inr ⟨e, rfl⟩

theorem failAt (token : Token) (cause : RuntimeError) : Looks m (failAt token cause) P := .throw _

theorem faultWith (what : Fault) : Looks m (faultWith what) P := .throw _

protected theorem bind (h : Looks m act P) (hf : ∀ a, P a → Looks m (f a) R) :
    Looks m (act >>= f) R := by
  rcases h with ⟨a, hact, ha⟩ | ⟨e, hact⟩
  · rw [Looks, bind_apply_of_ok hact]
    exact hf a ha
  · exact .inr ⟨e, bind_apply_of_error hact f⟩

theorem mono {P' : α → Prop} (h : Looks m act P) (hP : ∀ a, P a → P' a) : Looks m act P' :=
  h.imp_left fun ⟨a, hact, ha⟩ => ⟨a, hact, hP a ha⟩

theorem get_bind {g : Machine → Run β} (h : Looks m (g m) R) : Looks m (get >>= g) R := h

theorem expectSome {o : Option α} (h : ∀ a, o = some a → P a) : Looks m (expectSome o) P := by
  cases o with
  | none => exact .faultWith _
  | some a => exact .pure (h a rfl)

end Looks

end Run

/-! ### Runs with a chronicle -/

theorem Chronicled.step_eq_ok {α : Type} {act : Run α} {t : Told} {a : α} {m : Machine}
    (h : act t.machine = .ok a m) :
    step act t = .ok a ⟨m, { t.notes with states := m :: t.notes.states }⟩ :=
  lift_bind_of_eq_ok h _

namespace Run

variable {α β : Type} {t : Told} {act : Run α} {told : Chronicled α} {Q : Told → α → Prop}
  {R : Told → β → Prop}

/-- Two outcomes, without a chronicle and with one. They are the same, the chronicle is right in the
end, and a value satisfies the predicate there. -/
inductive Retold (t : Told) (Q : Told → α → Prop) :
    EStateM.Result Interruption Machine α → EStateM.Result Interruption Told α → Prop where
  | ok {t' : Told} {a : α} (kept : Kept t') (grows : t.Grows t') (post : Q t' a) :
      Retold t Q (.ok a t'.machine) (.ok a t')
  | error {t' : Told} {e : Interruption} (kept : Kept t') (grows : t.Grows t') :
      Retold t Q (.error e t'.machine) (.error e t')

/-- A run that begins later. -/
theorem Retold.after {t' : Told} {r : EStateM.Result Interruption Machine α}
    {r' : EStateM.Result Interruption Told α} (h : Retold t' Q r r') (hgrows : t.Grows t') :
    Retold t Q r r' := by
  cases h with
  | ok kept grows post => exact .ok kept (hgrows.trans grows) post
  | error kept grows => exact .error kept (hgrows.trans grows)

/-- However the runs end, they are the same but for the chronicle, and it is right. -/
theorem Retold.kept {r : EStateM.Result Interruption Machine α}
    {r' : EStateM.Result Interruption Told α} (h : Retold t Q r r') :
    bare r' = r ∧ Kept (last r') ∧ t.Grows (last r') := by
  cases h with
  | ok kept grows | error kept grows => exact ⟨rfl, kept, grows⟩

/-- **The second run tells of the first.** It takes the same course and keeps its chronicle right. -/
def Tells (t : Told) (act : Run α) (told : Chronicled α) (Q : Told → α → Prop) : Prop :=
  Retold t Q (act t.machine) (told t)

namespace Tells

/-- Runs one after the other. The second begins where the chronicle is right still. -/
protected theorem bind {f : α → Run β} {f' : α → Chronicled β} (h : Tells t act told Q)
    (hf : ∀ t' a, Kept t' → t.Grows t' → Q t' a → Tells t' (f a) (f' a) R) :
    Tells t (act >>= f) (told >>= f') R := by
  unfold Tells at h
  generalize hact : act t.machine = r, htold : told t = r' at h
  cases h with
  | @ok t' a kept grows post =>
    have hbind : (told >>= f') t = f' a t' := by
      show EStateM.bind told f' t = _
      rw [EStateM.bind, htold]
    rw [Tells, bind_apply_of_ok hact, hbind]
    exact (hf t' a kept grows post).after grows
  | @error t' e kept grows =>
    have hbind : (told >>= f') t = .error e t' := by
      show EStateM.bind told f' t = _
      rw [EStateM.bind, htold]
    rw [Tells, bind_apply_of_error hact, hbind]
    exact .error kept grows

theorem mono {Q' : Told → α → Prop} (h : Tells t act told Q)
    (hQ : ∀ t' a, Kept t' → t.Grows t' → Q t' a → Q' t' a) : Tells t act told Q' := by
  unfold Tells at h ⊢
  generalize act t.machine = r, told t = r' at h ⊢
  cases h with
  | ok kept grows post => exact .ok kept grows (hQ _ _ kept grows post)
  | error kept grows => exact .error kept grows

protected theorem pure (h : Kept t) {a : α} (ha : Q t a) : Tells t (pure a) (pure a) Q :=
  .ok h (.refl t) ha

theorem get_bind {g : Machine → Run β} {g' : Told → Chronicled β}
    (h : Tells t (g t.machine) (g' t) R) : Tells t (get >>= g) (get >>= g') R :=
  h

/-- A step that only looks. -/
theorem lift (h : Kept t) {P : α → Prop} (hact : Looks t.machine act P) :
    Tells t act (Noting.lift act) fun _ => P := by
  unfold Tells Noting.lift
  rcases hact with ⟨a, hact, ha⟩ | ⟨e, hact⟩
  · rw [hact]
    exact .ok h (.refl t) ha
  · rw [hact]
    exact .error h (.refl t)

/-- After a step that only looks, the run is where it was. -/
theorem lift_bind (h : Kept t) {P : α → Prop} (hact : Looks t.machine act P) {f : α → Run β}
    {f' : α → Chronicled β} (hf : ∀ a, P a → Tells t (f a) (f' a) R) :
    Tells t (act >>= f) (Noting.lift act >>= f') R := by
  rcases hact with ⟨a, hact, ha⟩ | ⟨e, hact⟩
  · rw [Tells, bind_apply_of_ok hact, lift_bind_of_eq_ok hact]
    exact hf a ha
  · have hbind : (Noting.lift act >>= f') t = .error e t := by
      show EStateM.bind (Noting.lift act) f' t = _
      rw [EStateM.bind, Noting.lift, hact]
    rw [Tells, bind_apply_of_error hact, hbind]
    exact .error h (.refl t)

theorem failAt (h : Kept t) (token : Token) (cause : RuntimeError) :
    Tells t (failAt token cause) (Noting.lift (Run.failAt token cause)) Q :=
  .error h (.refl t)

theorem faultWith (h : Kept t) (what : Fault) :
    Tells t (faultWith what) (Noting.lift (Run.faultWith what)) Q :=
  .error h (.refl t)

/-! ### Steps that change the machine -/

/-- A step after which the machine is written down. -/
theorem of_step (h : Kept t) {o : Origins} {a : α} {m : Machine} (hact : act t.machine = .ok a m)
    (htold : told t = Chronicled.step act { t with notes := { t.notes with origins := o } })
    (hlive : Live o m) (hext : t.notes.origins.Extends o) (hchanges : o.Changes t.machine m)
    (hlasts : t.machine.Lasts m) (hcurrent : m.current = t.machine.current)
    (ha : Q ⟨m, { t.notes with origins := o, states := m :: t.notes.states }⟩ a) :
    Tells t act told Q := by
  have hstep : told t =
      .ok a ⟨m, { t.notes with origins := o, states := m :: t.notes.states }⟩ :=
    htold.trans (Chronicled.step_eq_ok hact)
  obtain ⟨hkept, hgrows⟩ := h.step hlive hext hchanges hlasts hcurrent
  rw [Tells, hact, hstep]
  exact .ok hkept hgrows ha

/-- A step that makes neither frames nor closures. -/
theorem step (h : Kept t) (act : Run α) {a : α} {m : Machine} (hact : act t.machine = .ok a m)
    (hlive : Live t.notes.origins m) (hchanges : t.notes.origins.Changes t.machine m)
    (hlasts : t.machine.Lasts m) (hcurrent : m.current = t.machine.current)
    (ha : Q ⟨m, { t.notes with states := m :: t.notes.states }⟩ a) :
    Tells t act (Chronicled.step act) Q :=
  of_step h hact rfl hlive (.refl _) hchanges hlasts hcurrent ha

/-- A step that makes and binds nothing. -/
theorem step_elsewhere (h : Kept t) (act : Run α) {a : α} {instances : Array Instance}
    {output : String} {calls : List (Native × List Value)}
    (hact : act t.machine = .ok a { t.machine with instances, output, calls })
    (held : ∀ (id : InstanceId) (i : Instance) x v, instances[id]? = some i →
      i.fields.lookup x = some v → (∃ i : Instance, t.machine.instances[id]? = some i ∧
        i.fields.lookup x = some v) ∨ t.Usable v)
    (handed : ∀ f vs v, (f, vs) ∈ calls → v ∈ vs → (f, vs) ∈ t.machine.calls ∨ t.Usable v)
    (ha : ∀ c : Chronicle, Live c.origins { t.machine with instances, output, calls } →
      Q ⟨{ t.machine with instances, output, calls }, c⟩ a) :
    Tells t act (Chronicled.step act) Q := by
  have hlive : Live t.notes.origins { t.machine with instances, output, calls } :=
    h.live.of_eq rfl rfl rfl held handed
  exact step h act hact hlive (.elsewhere _ _ _ _) (.of_eq rfl rfl rfl) rfl (ha _ hlive)

/-- **Another frame** for a purpose. -/
theorem makeFrame (h : Kept t) {p : Purpose} {enclosing : FrameId} {act : Run FrameId}
    (hact : act t.machine = .ok t.machine.forest.nextId
      { t.machine with forest := t.machine.forest.add ⟨some enclosing, p.binding?.toList⟩ })
    (henclosing : enclosing < t.machine.forest.nextId)
    (hp : ∀ x v, p.binding? = some (x, v) → t.Usable v)
    (hreceiver : ∀ v, p = .receiver v → v.IsInstance) :
    Tells t act (Chronicled.makeFrame p act) fun t' f => t'.notes.origins.frames[f]? = some p := by
  have hmade : (t.notes.origins.frames.push p)[t.machine.forest.nextId]? = some p := by
    rw [← h.live.frames_size]
    exact Array.getElem?_push_size
  exact of_step h hact rfl (h.live.add henclosing hp hreceiver)
    (t.notes.origins.extends_addFrame p) (.frame _ _ hmade) (.add _ _) rfl hmade

/-- **Another closure.** -/
theorem makeClosure (h : Kept t) (making : Making) (c : Closure)
    (hhome : c.home < t.machine.forest.nextId) (hfits : c.Fits)
    (htied : ∀ j object, making = .tied j object →
      t.notes.origins.frames[c.home]? = some (.receiver object) ∧
        t.notes.origins.closures[j]? = some .method ∧
        (t.machine.closures[j]?).map Closure.routine = some c.routine) :
    Tells t (newClosure c) (Chronicled.makeClosure making c)
      fun t' id => t'.notes.origins.closures[id]? = some making ∧
        t'.machine.closures[id]? = some c := by
  have hact : newClosure c t.machine = .ok t.machine.closures.size
      { t.machine with closures := t.machine.closures.push c } := rfl
  refine of_step h hact rfl (h.live.pushClosure hhome hfits htied)
    (t.notes.origins.extends_addClosure making) (.closure _ _) (.pushClosure _ _) rfl
    ⟨?_, Array.getElem?_push_size⟩
  show (t.notes.origins.closures.push making)[t.machine.closures.size]? = some making
  rw [← h.live.closures_size]
  exact Array.getElem?_push_size

/-- **A write** to a frame that is for the program to bind names in. -/
theorem write (h : Kept t) {id : FrameId} (hopen : t.notes.origins.IsOpen id) {name : Token}
    (hname : name.IsName) {v : Value} (hv : t.Usable v) :
    Tells t (define id name.lexeme v) (Chronicled.write id name.lexeme v) fun _ _ => True := by
  have hid := h.live.lt_nextId_of_isOpen hopen
  -- the write is entered before the step
  have hstep : Tells
      { t with notes := { t.notes with writes := (id, name.lexeme) :: t.notes.writes } }
      (define id name.lexeme v) (Chronicled.step (define id name.lexeme v)) fun _ _ => True :=
    step (h.enterWrite hopen hname) (define id name.lexeme v) rfl
      (h.live.define hopen (fun heq => absurd heq hname.1) hv) (.binding _ hopen hname v)
      (.define _ hid _ v) rfl trivial
  exact hstep.after ⟨.refl _, List.suffix_rfl, .refl _, rfl⟩

/-- A call is entered. -/
theorem enterCall_bind (h : Kept t) {id : ClosureId} (hid : t.notes.origins.Callable id)
    {f' : Unit → Chronicled α}
    (hf : ∀ t', Kept t' → t.Grows t' → t'.machine = t.machine → Tells t' act (f' ()) Q) :
    Tells t act (Chronicled.enterCall id >>= f') Q :=
  (hf { t with notes := { t.notes with calls := id :: t.notes.calls } } (h.enterCall hid)
    ⟨.refl _, List.suffix_rfl, .refl _, rfl⟩ rfl).after ⟨.refl _, List.suffix_rfl, .refl _, rfl⟩

/-- A run in another frame. -/
theorem inFrame (h : Kept t) {f : FrameId}
    (hact : Tells { t with machine := { t.machine with current := f } } act told Q)
    (hQ : ∀ (t' : Told) a, Q t' a →
      Q { t' with machine := { t'.machine with current := t.machine.current } } a) :
    Tells t (inFrame f act) (inside f told) Q := by
  unfold Tells Run.inFrame Noting.inside
  dsimp only
  unfold Tells at hact
  generalize act { t.machine with current := f } = r,
    told { t with machine := { t.machine with current := f } } = r' at hact ⊢
  -- what was the current frame is still for the program to bind names in
  have hback {t' : Told} (hkept : Kept t')
      (hgrows : Told.Grows { t with machine := { t.machine with current := f } } t') :
      Kept { t' with machine := { t'.machine with current := t.machine.current } } ∧
        t.Grows { t' with machine := { t'.machine with current := t.machine.current } } :=
    ⟨hkept.goTo (h.current.extend hgrows.origins), hgrows.origins, hgrows.states,
      ((Machine.Lasts.goTo _ f).trans hgrows.lasts).trans (.goTo _ _), rfl⟩
  cases hact with
  | ok kept grows post =>
    obtain ⟨hkept, hgrows⟩ := hback kept grows
    exact .ok hkept hgrows (hQ _ _ post)
  | error kept grows =>
    obtain ⟨hkept, hgrows⟩ := hback kept grows
    exact .error hkept hgrows

end Tells

end Run

end LoxInterpreter
