import LoxInterpreter.Proofs.Twin.Store
import LoxInterpreter.Run.Failure

/-!
# Twin runs

`InStep G p act act' Q` says that two runs which begin in the machines of a pairing end alike: both
with values, in machines of a pairing that follows, or both early, for reasons that are twins.

* `InStep.bind` puts runs together. Each step of the machine has its own lemma, which says what is
  known of the pairing after it.
* `InStep.braced` is about a run that the second machine does in a spare frame.
-/

namespace LoxInterpreter

/-- The faults are the same but for the guise of tokens. -/
inductive Fault.Twins (G : Guise) : Fault → Fault → Prop where
  | same (what : Fault) : Twins G what what
  | unbound {t t' : Token} : G.of t t' →
      Twins G (.access (.unbound t.lexeme)) (.access (.unbound t'.lexeme))
  | unassignable {t t' : Token} : G.of t t' → Twins G (.unassignable t) (.unassignable t')
  | badOperator {op op' : Token} : G.of op op' → Twins G (.badOperator op) (.badOperator op')

/-- The reasons to end early are the same but for the guise of tokens. -/
inductive Interruption.Twins (G : Guise) : Interruption → Interruption → Prop where
  | failure {t t' : Token} (cause : RuntimeError) : G.of t t' →
      Twins G (.failure t cause) (.failure t' cause)
  | fault {what what' : Fault} : what.Twins G what' → Twins G (.fault what) (.fault what')
  | exhausted : Twins G .exhausted .exhausted

namespace Run

variable {G : Guise} {α α' β β' : Type}

/-- The outcomes of two runs that began in the machines of a pairing. -/
inductive Lead (G : Guise) (p : Pairing) (Q : Pairing → α → α' → Prop) :
    EStateM.Result Interruption Machine α → EStateM.Result Interruption Machine α' → Prop where
  | ok {a : α} {a' : α'} (q : Pairing) :
      p.Follows G q → Q q a a' → Lead G p Q (.ok a q.left) (.ok a' q.right)
  | error {e e' : Interruption} (q : Pairing) :
      p.Follows G q → e.Twins G e' → Lead G p Q (.error e q.left) (.error e' q.right)

/-- The runs end alike. -/
def InStep (G : Guise) (p : Pairing) (act : Run α) (act' : Run α') (Q : Pairing → α → α' → Prop) :
    Prop :=
  Lead G p Q (act p.left) (act' p.right)

/-- Both runs end with the same value. -/
def Gives (Q : Pairing → α → Prop) (q : Pairing) (a a' : α) : Prop := a' = a ∧ Q q a

namespace InStep

variable {p : Pairing} {act : Run α} {act' : Run α'} {f : α → Run β} {f' : α' → Run β'}
  {Q : Pairing → α → α' → Prop} {R : Pairing → β → β' → Prop} {layers : List Layer}
  {i i' : FrameId} {σ : Equiv.Perm String} {x : String} {v : Value}

/-- Runs that end with values. -/
theorem of_ok {a : α} {a' : α'} (q : Pairing) (h : act p.left = .ok a q.left)
    (h' : act' p.right = .ok a' q.right) (hq : p.Follows G q) (ha : Q q a a') :
    InStep G p act act' Q := by
  rw [InStep, h, h']
  exact .ok q hq ha

/-- Runs that end early without having done anything. -/
theorem of_error {e e' : Interruption} (h : act p.left = .error e p.left)
    (h' : act' p.right = .error e' p.right) (hs : p.Sound G) (he : e.Twins G e') :
    InStep G p act act' Q := by
  rw [InStep, h, h']
  exact .error p (.refl hs) he

/-- Runs one after the other. -/
protected theorem bind (h : InStep G p act act' Q)
    (hf : ∀ q a a', p.Follows G q → Q q a a' → InStep G q (f a) (f' a') R) :
    InStep G p (act >>= f) (act' >>= f') R := by
  show Lead G p R (EStateM.bind act f p.left) (EStateM.bind act' f' p.right)
  rw [EStateM.bind, EStateM.bind]
  rw [InStep] at h
  revert h
  generalize act p.left = result
  generalize act' p.right = result'
  rintro (⟨q, hq, ha⟩ | ⟨q, hq, he⟩)
  · have hrest := hf q _ _ hq ha
    rw [InStep] at hrest
    dsimp only
    -- the pairing that the rest leads to follows from the beginning
    revert hrest
    generalize f _ q.left = rest
    generalize f' _ q.right = rest'
    rintro (⟨r, hr, hb⟩ | ⟨r, hr, he⟩)
    · exact .ok r (hq.trans hr) hb
    · exact .error r (hq.trans hr) he
  · exact .error q hq he

/-- Runs one after the other, where the first part gives a value. -/
theorem bind_gives {act' : Run α} {f' : α → Run β'} {P : Pairing → α → Prop}
    (h : InStep G p act act' (Gives P))
    (hf : ∀ q a, p.Follows G q → P q a → InStep G q (f a) (f' a) R) :
    InStep G p (act >>= f) (act' >>= f') R := by
  refine h.bind fun q a a' hq ha => ?_
  obtain ⟨rfl, ha⟩ := ha
  exact hf q a' hq ha

/-- Less may be said of the outcome. -/
theorem mono (h : InStep G p act act' Q) {Q' : Pairing → α → α' → Prop}
    (hQ : ∀ q a a', p.Follows G q → Q q a a' → Q' q a a') : InStep G p act act' Q' := by
  rw [InStep] at h ⊢
  revert h
  generalize act p.left = result
  generalize act' p.right = result'
  rintro (⟨q, hq, ha⟩ | ⟨q, hq, he⟩)
  · exact .ok q hq (hQ q _ _ hq ha)
  · exact .error q hq he

protected theorem pure (hs : p.Sound G) {a : α} {a' : α'} (ha : Q p a a') :
    InStep G p (pure a) (pure a') Q :=
  .of_ok p rfl rfl (.refl hs) ha

/-- The same value on both sides. -/
theorem pure_gives (hs : p.Sound G) {a : α} {P : Pairing → α → Prop} (ha : P p a) :
    InStep G p (pure a) (pure a) (Gives P) :=
  .pure hs ⟨rfl, ha⟩

/-- Values that are there already. -/
theorem pure_bind {a : α} {a' : α'} (h : InStep G p (f a) (f' a') R) :
    InStep G p (pure a >>= f) (pure a' >>= f') R := h

/-- A look at the machines. -/
theorem get_bind {g : Machine → Run β} {g' : Machine → Run β'}
    (h : InStep G p (g p.left) (g' p.right) R) : InStep G p (get >>= g) (get >>= g') R := h

/-- Answers of the store that are there. -/
theorem expectSome_bind {o : Option α} {o' : Option α'} {a : α} {a' : α'} (ho : o = some a)
    (ho' : o' = some a') (h : InStep G p (f a) (f' a') R) :
    InStep G p (expectSome o >>= f) (expectSome o' >>= f') R := by
  subst ho ho'
  exact h

protected theorem failAt (hs : p.Sound G) {t t' : Token} (ht : G.of t t') (cause : RuntimeError) :
    InStep G p (failAt t cause) (failAt t' cause) Q :=
  .of_error rfl rfl hs (.failure cause ht)

protected theorem faultWith (hs : p.Sound G) {what what' : Fault} (h : what.Twins G what') :
    InStep G p (faultWith what) (faultWith what') Q :=
  .of_error rfl rfl hs (.fault h)

/-! ### Steps of the machine -/

/-- New frames in frames that stand at a place. -/
theorem newFrame (hs : p.Sound G) (h : p.Stands layers i i') (σ : Equiv.Perm String) :
    InStep G p (newFrame i) (newFrame i') fun q j j' => q.Stands (.shared σ :: layers) j j' :=
  .of_ok (p.push i i' σ) rfl rfl (Pairing.follows_push hs i i' σ) (Pairing.stands_push hs h σ)

/-- A binding in partners. The value has to be valid once it is there. -/
theorem define_new (hs : p.Sound G) (h : p.Partners i i' σ)
    (hv : (p.define i i' x (σ x) v).Valid G v) :
    InStep G p (define i x v) (define i' (σ x) v) fun q _ _ => q.left.forest.binds i x :=
  .of_ok (p.define i i' x (σ x) v) rfl rfl (Pairing.follows_define hs h hv)
    (Pairing.binds_define hs.matched h)

/-- A value that is valid already may be bound. -/
theorem define (hs : p.Sound G) (h : p.Partners i i' σ) (x : String) (hv : p.Valid G v) :
    InStep G p (define i x v) (define i' (σ x) v) fun q _ _ => q.left.forest.binds i x :=
  define_new hs h ((Pairing.grows_define hs.matched h).valid hv)

/-- A step that leaves the frames alone. -/
theorem of_step {a : α} {a' : α'} {m m' : Machine} (h : act p.left = .ok a m)
    (h' : act' p.right = .ok a' m') (hcurrent : m.current = p.left.current)
    (hcurrent' : m'.current = p.right.current) (hset : p.Grows (p.set m m') ∧ (p.set m m').Sound G)
    (ha : Q (p.set m m') a a') : InStep G p act act' Q :=
  .of_ok (p.set m m') h h' ⟨hset.1, hset.2, hcurrent, hcurrent'⟩ ha

/-- New closures have the same number. -/
theorem newClosure (hs : p.Sound G) (c c' : Closure) :
    InStep G p (newClosure c) (newClosure c')
      (Gives fun q id => q.left.closures[id]? = some c ∧ q.right.closures[id]? = some c') := by
  have hold {closures : Array Closure} {new : Closure} (id : ClosureId) (old : Closure)
      (h : closures[id]? = some old) : (closures.push new)[id]? = some old := by
    obtain ⟨hlt, rfl⟩ := Array.getElem?_eq_some_iff.mp h
    exact Array.getElem?_push_lt hlt
  have hlooks := hs.looksLike
  have hnew : (p.right.closures.push c')[p.left.closures.size]? = some c' := by
    rw [← hs.closures]
    exact Array.getElem?_push_size
  refine .of_step rfl rfl rfl rfl (Pairing.grows_set hs rfl rfl hold hold ?_
    ⟨hlooks.classes, hlooks.instances, hlooks.output, hlooks.clock, hlooks.calls⟩
    (fun _ i _ _ hi hx => .inl ⟨i, hi, hx⟩) (fun _ _ _ hf _ => .inl hf)
    (fun _ _ _ _ hc _ => .inl hc)) ⟨hs.closures, Array.getElem?_push_size, hnew⟩
  rw [Array.size_push, Array.size_push, hs.closures]

/-- New classes have the same number. -/
theorem newClass (hs : p.Sound G) (c : ClassRecord)
    (hmethods : ∀ x k, c.methods.lookup x = some k → p.Tied G k) :
    InStep G p (newClass c) (newClass c) (Gives fun _ _ => True) := by
  have hlooks := hs.looksLike
  refine .of_step rfl rfl rfl rfl (Pairing.grows_set hs rfl rfl (fun _ _ h => h) (fun _ _ h => h)
    hs.closures ⟨congrArg (Array.push · c) hlooks.classes, hlooks.instances, hlooks.output,
      hlooks.clock, hlooks.calls⟩
    (fun _ i _ _ hi hx => .inl ⟨i, hi, hx⟩) (fun _ _ _ hf _ => .inl hf)
    fun id c' x k hc hx => ?_) ⟨congrArg Array.size hlooks.classes, trivial⟩
  rw [Array.getElem?_push] at hc
  split at hc
  · cases hc
    exact .inr (hmethods x k hx)
  · exact .inl hc

/-- New instances have the same number. -/
theorem newInstance (hs : p.Sound G) (klass : ClassId) :
    InStep G p (newInstance klass) (newInstance klass)
      (Gives fun q _ => q.left.classes = p.left.classes) := by
  have hlooks := hs.looksLike
  refine .of_step rfl rfl rfl rfl (Pairing.grows_set hs rfl rfl (fun _ _ h => h) (fun _ _ h => h)
    hs.closures ⟨hlooks.classes, congrArg (Array.push · ⟨klass, []⟩) hlooks.instances,
      hlooks.output, hlooks.clock, hlooks.calls⟩
    (fun id i x v hi hx => .inl ⟨i, ?_, hx⟩) (fun _ _ _ hf _ => .inl hf)
    fun _ _ _ _ hc _ => .inl hc) ⟨congrArg Array.size hlooks.instances, rfl⟩
  rw [Array.getElem?_push] at hi
  split at hi
  · -- the new instance has no field to speak of
    cases hi
    cases hx
  · exact hi

/-- The field of an instance that both machines have. -/
theorem setField (hs : p.Sound G) (id : InstanceId) (x : String) (hv : p.Valid G v) :
    InStep G p (setField id x v) (setField id x v) fun _ _ _ => True := by
  have hlooks := hs.looksLike
  refine .of_step rfl rfl rfl rfl (Pairing.grows_set hs rfl rfl (fun _ _ h => h) (fun _ _ h => h)
    hs.closures ⟨hlooks.classes, ?_, hlooks.output, hlooks.clock, hlooks.calls⟩
    (fun id' i y w hi hy => ?_) (fun _ _ _ hf _ => .inl hf) fun _ _ _ _ hc _ => .inl hc) trivial
  · exact congrArg (fun instances : Array Instance => instances.modify id fun i =>
      { i with fields := bindName x v i.fields }) hlooks.instances
  · rw [Array.getElem?_modify] at hi
    split at hi
    · obtain ⟨i, hi', rfl⟩ := Option.map_eq_some_iff.mp hi
      rw [lookup_bindName] at hy
      split at hy
      · cases hy
        exact .inr hv
      · exact .inl ⟨i, hi', hy⟩
    · exact .inl ⟨i, hi, hy⟩

/-- The same line on both outputs. -/
theorem printLine (hs : p.Sound G) (line : String) :
    InStep G p (printLine line) (printLine line) fun _ _ _ => True := by
  have hlooks := hs.looksLike
  refine .of_step rfl rfl rfl rfl (Pairing.grows_set hs rfl rfl (fun _ _ h => h) (fun _ _ h => h)
    hs.closures ⟨hlooks.classes, hlooks.instances, ?_, hlooks.clock, hlooks.calls⟩
    (fun _ i _ _ hi hx => .inl ⟨i, hi, hx⟩) (fun _ _ _ hf _ => .inl hf)
    fun _ _ _ _ hc _ => .inl hc) trivial
  exact congrArg (· ++ line ++ "\n") hlooks.output

/-! ### Other frames -/

/-- Wherever the runs have been, they come back. -/
theorem follows_return {q : Pairing} (hs : p.Sound G) (hq : (p.goTo i i').Follows G q) :
    p.Follows G (q.goTo p.left.current p.right.current) := by
  obtain ⟨hback, hsound⟩ :=
    Pairing.grows_goTo hq.sound p.left.current p.right.current
  exact ⟨((Pairing.grows_goTo hs i i').1.trans hq.grows).trans hback, hsound, rfl, rfl⟩

/-- Runs in other frames. -/
theorem inFrame (hs : p.Sound G) (h : InStep G (p.goTo i i') act act' fun q a a' =>
      Q (q.goTo p.left.current p.right.current) a a') :
    InStep G p (inFrame i act) (inFrame i' act') Q := by
  replace h : Lead G _ _ (act { p.left with current := i }) (act' { p.right with current := i' }) :=
    h
  unfold InStep Run.inFrame
  dsimp only
  revert h
  generalize act { p.left with current := i } = result
  generalize act' { p.right with current := i' } = result'
  rintro (⟨q, hq, ha⟩ | ⟨q, hq, he⟩)
  · exact .ok _ (follows_return hs hq) ha
  · exact .error _ (follows_return hs hq) he

/-- A run that the second machine does in a spare frame. -/
theorem braced (h : p.Here G layers)
    (hact : ∀ q, q.Here G (.spare :: layers) → InStep G q act act' fun r a a' =>
      Q (r.goTo p.left.current p.right.current) a a') :
    InStep G p act (do
      let frame ← Run.newFrame (← get).current
      Run.inFrame frame act') Q := by
  have hspare := Pairing.follows_pushSpare h.sound p.right.current
  have hhere := Pairing.Here.goTo hspare.sound (Pairing.stands_pushSpare h.sound h.stands)
  have hrun := hact _ hhere
  show Lead G p Q (act p.left) (Run.inFrame p.right.forest.nextId act'
    { p.right with forest := p.right.forest.push (some p.right.current) })
  replace hrun : Lead G _ _ (act p.left) (act'
      { p.right with
        forest := p.right.forest.push (some p.right.current)
        current := p.right.forest.nextId }) := hrun
  unfold Run.inFrame
  dsimp only
  revert hrun
  generalize act p.left = result
  generalize act' _ = result'
  rintro (⟨q, hq, ha⟩ | ⟨q, hq, he⟩)
  -- the first run has never left its frame
  · rw [← q.left_goTo hq.current p.right.current]
    exact .ok _ (hspare.trans (follows_return hspare.sound hq)) ha
  · rw [← q.left_goTo hq.current p.right.current]
    exact .error _ (hspare.trans (follows_return hspare.sound hq)) he

end InStep

end Run

end LoxInterpreter
