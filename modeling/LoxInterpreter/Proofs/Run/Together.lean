import LoxInterpreter.Proofs.Run.World

/-!
# Runs that keep the invariant

`Together w act act'` says that two runs which begin in a world take the same course there, and that
this course leads to a world that follows, even if it ends early. The second run is there to compare
ways of finding names; where only one is of interest, both are the same.

* What a run may end early for is limited by `Interruption.Explained`: the only fault is the
  assignment to a local variable in its own initializer.
* `Together.bind` puts runs together. Each step of the machine has its own lemma, which says what is
  known of the world after it.
* Functions of the host are outside of all this. `Answers.Honest` is what they are trusted with:
  they answer with values that they can have got hold of.
-/

namespace LoxInterpreter

/-- A failure is for the program to answer for, and a loop may go round too often. A fault is the
assignment to a local variable in its own initializer. -/
def Interruption.Explained (Φ : Site Place → Prop) : Interruption → Prop
  | .fault what => ∃ site, Φ site ∧ site.AssignsOwnInitializer ∧ what = .unassignable site.token
  | .failure _ _ | .exhausted => True

/-! ### Functions of the host -/

/-- A value that names nothing in the store. -/
def Value.IsPlain : Value → Prop
  | .closure _ | .klass _ | .object _ => False
  | _ => True

/-- The values that a function of the host can get hold of: plain ones, classes and instances, and
whatever is bound in a frame, held in a field, or has been handed to a function of the host. -/
inductive Machine.Offers (m : Machine) : Value → Prop where
  | plain {v : Value} : v.IsPlain → Offers m v
  | klass {id : ClassId} : id < m.classes.size → Offers m (.klass id)
  | object {id : InstanceId} : id < m.instances.size → Offers m (.object id)
  | bound {f : FrameId} {x : String} {v : Value} : m.forest.lookup? f x = some v → Offers m v
  | held {id : InstanceId} {i : Instance} {x : String} {v : Value} :
      m.instances[id]? = some i → i.fields.lookup x = some v → Offers m v
  | handed {f : Native} {values : List Value} {v : Value} :
      (f, values) ∈ m.calls → v ∈ values → Offers m v

/-- Called last with the values, a function of the host answers with what it can get hold of. -/
def Answers.Honest (answers : Answers) : Prop :=
  ∀ (m : Machine) f values, m.calls.head? = some (f, values) → m.Offers (answers m f values)

/-- The usual host is honest. -/
theorem Answers.honest_usual : Answers.usual.Honest := by
  intro m f values hcall
  have hmem := List.mem_of_mem_head? hcall
  rw [Answers.usual]
  split
  · exact .plain trivial
  split
  · cases values with
    | nil => exact .plain trivial
    | cons v rest => exact .handed hmem List.mem_cons_self
  split
  · match values with
    | [] | [_] => exact .plain trivial
    | _ :: v :: rest => exact .handed hmem (List.mem_cons_of_mem _ List.mem_cons_self)
  · exact .plain trivial

/-- A value that names nothing is valid. -/
theorem World.valid_of_isPlain {Φ : Site Place → Prop} (w : World Φ) {v : Value} (h : v.IsPlain) :
    w.Valid v := by
  cases v with
  | closure id | klass id | object id => exact h.elim
  | _ => trivial

/-- What can be got hold of is valid. -/
theorem World.Sound.valid_of_offers {Φ : Site Place → Prop} {w : World Φ} (hs : w.Sound) {v : Value}
    (h : w.machine.Offers v) : w.Valid v := by
  cases h with
  | plain h => exact w.valid_of_isPlain h
  | klass h | object h => exact h
  | bound h => exact hs.bound _ _ _ h
  | held hi hx => exact hs.fields _ _ _ _ hi hx
  | handed hcall hv => exact hs.handed _ _ _ hcall hv

namespace Run

variable {Φ : Site Place → Prop} {α β : Type} {w : World Φ} {Q : World Φ → α → Prop}
  {R : World Φ → β → Prop}

/-- The outcome of a run that began in a world. -/
def Keeps (w : World Φ) (Q : World Φ → α → Prop) :
    EStateM.Result Interruption Machine α → Prop
  | .ok a m => ∃ w' : World Φ, w'.machine = m ∧ w.Follows w' ∧ Q w' a
  | .error e m => ∃ w' : World Φ, w'.machine = m ∧ w.Follows w' ∧ e.Explained Φ

/-- Both runs take the same course, and it keeps the invariant. -/
structure Together (w : World Φ) (act act' : Run α) (Q : World Φ → α → Prop) : Prop where
  same : act' w.machine = act w.machine
  keeps : Keeps w Q (act w.machine)

namespace Together

variable {act act' : Run α} {f f' : α → Run β}

/-- A run that ends with a value. -/
theorem of_ok {a : α} (w' : World Φ) (h : act w.machine = .ok a w'.machine) (hw : w.Follows w')
    (ha : Q w' a) : Together w act act Q := by
  refine ⟨rfl, ?_⟩
  rw [h]
  exact ⟨w', rfl, hw, ha⟩

/-- A run that ends early without having done anything. -/
theorem of_error {e : Interruption} (h : act w.machine = .error e w.machine) (hs : w.Sound)
    (he : e.Explained Φ) : Together w act act Q := by
  refine ⟨rfl, ?_⟩
  rw [h]
  exact ⟨w, rfl, .refl hs, he⟩

/-- Runs one after the other. -/
protected theorem bind (h : Together w act act' Q)
    (hf : ∀ w' a, w.Follows w' → Q w' a → Together w' (f a) (f' a) R) :
    Together w (act >>= f) (act' >>= f') R := by
  obtain ⟨hsame, hkeeps⟩ := h
  have hbind : (act >>= f) w.machine = EStateM.bind act f w.machine := rfl
  have hbind' : (act' >>= f') w.machine = EStateM.bind act' f' w.machine := rfl
  constructor
  · rw [hbind, hbind', EStateM.bind, EStateM.bind, hsame]
    cases hact : act w.machine with
    | ok a m =>
      rw [hact] at hkeeps
      obtain ⟨w', rfl, hw, ha⟩ := hkeeps
      exact (hf w' a hw ha).same
    | error e m => rfl
  · rw [hbind, EStateM.bind]
    cases hact : act w.machine with
    | ok a m =>
      rw [hact] at hkeeps
      obtain ⟨w', rfl, hw, ha⟩ := hkeeps
      -- the second run goes on in the world that the first one led to
      have hkeeps' := (hf w' a hw ha).keeps
      show Keeps w R (f a w'.machine)
      cases hfa : f a w'.machine with
      | ok b m =>
        rw [hfa] at hkeeps'
        obtain ⟨w'', hm, hw', hb⟩ := hkeeps'
        exact ⟨w'', hm, hw.trans hw', hb⟩
      | error e m =>
        rw [hfa] at hkeeps'
        obtain ⟨w'', hm, hw', he⟩ := hkeeps'
        exact ⟨w'', hm, hw.trans hw', he⟩
    | error e m =>
      rw [hact] at hkeeps
      exact hkeeps

/-- A run may be compared with another one that takes the same course. -/
theorem with_same (h : Together w act act Q) (hsame : act' w.machine = act w.machine) :
    Together w act act' Q :=
  ⟨hsame, h.keeps⟩

/-- Less may be said of the outcome. -/
theorem mono (h : Together w act act' Q) {Q' : World Φ → α → Prop}
    (hQ : ∀ w' a, w.Follows w' → Q w' a → Q' w' a) : Together w act act' Q' := by
  refine ⟨h.same, ?_⟩
  have hkeeps := h.keeps
  cases hact : act w.machine with
  | ok a m =>
    rw [hact] at hkeeps
    obtain ⟨w', hm, hw, ha⟩ := hkeeps
    exact ⟨w', hm, hw, hQ w' a hw ha⟩
  | error e m => rwa [hact] at hkeeps

protected theorem pure (hs : w.Sound) {a : α} (ha : Q w a) :
    Together w (pure a) (pure a) Q :=
  .of_ok w rfl (.refl hs) ha

/-- A value that is there already. -/
protected theorem pure_bind {a : α} (h : Together w (f a) (f' a) R) :
    Together w (pure a >>= f) (pure a >>= f') R :=
  ⟨h.same, h.keeps⟩

/-- A look at the machine. -/
theorem get_bind {g g' : Machine → Run β} (h : Together w (g w.machine) (g' w.machine) R) :
    Together w (get >>= g) (get >>= g') R :=
  ⟨h.same, h.keeps⟩

/-- An answer of the store that is there. -/
theorem expectSome_bind {a : α} {o : Option α} (ho : o = some a)
    (h : Together w (f a) (f' a) R) : Together w (expectSome o >>= f) (expectSome o >>= f') R := by
  subst ho
  exact ⟨h.same, h.keeps⟩

protected theorem failAt (hs : w.Sound) (token : Token) (cause : RuntimeError) :
    Together w (failAt token cause) (failAt token cause) Q :=
  .of_error rfl hs trivial

/-! ### Steps of the machine -/

/-- A new frame stands for a scope inside of those that the frame around it stands for. -/
theorem newFrame (hs : w.Sound) {home : FrameId} {scopes : Scopes} {outer : List LocalScope}
    (h : w.Stands home scopes outer) (scope : LocalScope) :
    Together w (newFrame home) (newFrame home)
      fun w' id => w'.Stands id ([] :: scopes) (scope :: outer) :=
  .of_ok (w.push home (scope :: outer)) rfl (World.follows_push hs h.standsFor)
    (World.stands_push hs h)

/-- A binding is there for certain. The value has to be valid once it is there. -/
theorem define_new (hs : w.Sound) {id : FrameId} {scopes : Scopes} {around : List LocalScope}
    (h : w.Stands id scopes around) {x : String} {v : Value} (hadmits : Admits around x v)
    (hv : (w.define id x v).Valid v) :
    Together w (define id x v) (define id x v)
      fun w' _ => w'.Stands id (scopes.bind x) around ∧ w'.machine.forest.binds id x :=
  .of_ok (w.define id x v) rfl (World.follows_define hs h.standsFor hadmits hv)
    ⟨World.stands_define hs h, World.binds_define hs h.standsFor⟩

/-- A value that is valid already may be bound. -/
theorem define (hs : w.Sound) {id : FrameId} {scopes : Scopes} {around : List LocalScope}
    (h : w.Stands id scopes around) {x : String} {v : Value} (hadmits : Admits around x v)
    (hv : w.Valid v) :
    Together w (define id x v) (define id x v)
      fun w' _ => w'.Stands id (scopes.bind x) around ∧ w'.machine.forest.binds id x :=
  define_new hs h hadmits ((World.grows_define hs h.standsFor).valid hv)

/-- A step that leaves the frames alone. -/
theorem of_step {a : α} {m : Machine} (h : act w.machine = .ok a m)
    (hcurrent : m.current = w.machine.current) (hset : w.Grows (w.set m) ∧ (w.set m).Sound)
    (ha : Q (w.set m) a) : Together w act act Q :=
  .of_ok (w.set m) h ⟨hset.1, hset.2, hcurrent⟩ ha

/-- A new closure is in the store. -/
theorem newClosure (hs : w.Sound) (c : Closure) :
    Together w (newClosure c) (newClosure c)
      fun w' id => w'.machine.closures[id]? = some c := by
  refine .of_step rfl rfl (World.grows_set_of_eq hs rfl (fun id c' hid => ?_) rfl rfl
    fun _ _ _ hf _ => .inl hf) Array.getElem?_push_size
  obtain ⟨hlt, rfl⟩ := Array.getElem?_eq_some_iff.mp hid
  exact Array.getElem?_push_lt hlt

/-- A new class has methods that can be tied to instances. -/
theorem newClass (hs : w.Sound) (c : ClassRecord)
    (hmethods : ∀ x k, c.methods.lookup x = some k →
      ∃ closure, w.machine.closures[k]? = some closure ∧ w.Ties closure) :
    Together w (newClass c) (newClass c) fun w' id => w'.Valid (.klass id) := by
  have hlt : w.machine.classes.size < (w.machine.classes.push c).size := by
    rw [Array.size_push]
    exact Nat.lt_succ_self _
  refine .of_step rfl rfl (World.grows_set hs rfl (fun _ _ h => h) hlt.le (Nat.le_refl _)
    (fun id i x v hi hx => .inl ⟨i, hi, hx⟩) (fun f vs v hf _ => .inl hf)
    fun id c' x k hc hx => ?_) hlt
  rw [Array.getElem?_push] at hc
  split at hc
  · cases hc
    exact .inr (hmethods x k hx)
  · exact .inl hc

/-- A new instance has no fields. -/
theorem newInstance (hs : w.Sound) (klass : ClassId) :
    Together w (newInstance klass) (newInstance klass)
      fun w' id => w'.Valid (.object id) ∧ w'.machine.classes = w.machine.classes := by
  have hlt : w.machine.instances.size < (w.machine.instances.push ⟨klass, []⟩).size := by
    rw [Array.size_push]
    exact Nat.lt_succ_self _
  refine .of_step rfl rfl (World.grows_set hs rfl (fun _ _ h => h) (Nat.le_refl _) hlt.le
    (fun id i x v hi hx => .inl ⟨i, ?_, hx⟩) (fun f vs v hf _ => .inl hf)
    fun id c x k hc _ => .inl hc) ⟨hlt, rfl⟩
  rw [Array.getElem?_push] at hi
  split at hi
  · -- the new instance has no field to speak of
    cases hi
    cases hx
  · exact hi

/-- A field holds a valid value. -/
theorem setField (hs : w.Sound) (id : InstanceId) (x : String) {v : Value} (hv : w.Valid v) :
    Together w (setField id x v) (setField id x v) fun _ _ => True := by
  refine .of_step rfl rfl (World.grows_set hs rfl (fun _ _ h => h) (Nat.le_refl _) ?_
    (fun id' i y v' hi hy => ?_) (fun f vs v hf _ => .inl hf)
    fun id c x k hc _ => .inl hc) trivial
  · exact Nat.le_of_eq Array.size_modify.symm
  · rw [Array.getElem?_modify] at hi
    split at hi
    · obtain ⟨i, hi', rfl⟩ := Option.map_eq_some_iff.mp hi
      rw [lookup_bindName] at hy
      split at hy
      · cases hy
        exact .inr hv
      · exact .inl ⟨i, hi', hy⟩
    · exact .inl ⟨i, hi, hy⟩

/-- Printing concerns nobody. -/
theorem printLine (hs : w.Sound) (line : String) :
    Together w (printLine line) (printLine line) fun _ _ => True :=
  .of_step rfl rfl
    (World.grows_set_of_eq hs rfl (fun _ _ h => h) rfl rfl fun _ _ _ hf _ => .inl hf) trivial

/-- A run in another frame comes back. -/
theorem inFrame (hs : w.Sound) (id : FrameId)
    (h : Together (w.goTo id) act act' fun w' a => Q (w'.goTo w.machine.current) a) :
    Together w (inFrame id act) (inFrame id act') Q := by
  -- however the run ends, the frame is the one from before
  have hreturn {w' : World Φ} (hw : (w.goTo id).Follows w') :
      w.Follows (w'.goTo w.machine.current) := by
    obtain ⟨hback, hsound⟩ := World.grows_goTo hw.sound w.machine.current
    exact ⟨((World.grows_goTo hs id).1.trans hw.grows).trans hback, hsound, rfl⟩
  obtain ⟨hsame, hkeeps⟩ := h
  replace hsame : act' { w.machine with current := id } = act { w.machine with current := id } :=
    hsame
  replace hkeeps : Keeps _ _ (act { w.machine with current := id }) := hkeeps
  unfold Run.inFrame
  constructor
  · dsimp only
    rw [hsame]
  · cases hact : act { w.machine with current := id } with
    | ok a m =>
      rw [hact] at hkeeps
      obtain ⟨w', rfl, hw, ha⟩ := hkeeps
      exact ⟨_, rfl, hreturn hw, ha⟩
    | error e m =>
      rw [hact] at hkeeps
      obtain ⟨w', rfl, hw, he⟩ := hkeeps
      exact ⟨_, rfl, hreturn hw, he⟩

end Together

end Run

end LoxInterpreter
