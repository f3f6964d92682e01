import LoxInterpreter.Proofs.Run.Notes
import LoxInterpreter.Proofs.Run.World
import LoxInterpreter.Proofs.Twin.Braces
import LoxInterpreter.Proofs.Twin.Moved

/-!
# A machine as its own twin

A machine that belongs to a world can be paired with itself, each frame with itself under the same
names (`Pairing.sound_alone`). The closures in its store mean the same as themselves because they
were written in a text: linked twice in the same scopes, a routine becomes twins
(`Stmt.RoutineWritten.twins`). So runs of twin trees may be compared from any moment of a session
on, not only from a fresh machine.
-/

namespace LoxInterpreter

/-! ### Nothing braced -/

namespace Stmt

mutual

/-- A statement is one in which nothing has been put into a block. -/
theorem Braced.refl (s : Stmt Blank) : s.Braced s := by
  match s with
  | .malformed => exact .malformed
  | .expression value => exact .expression value
  | .print value => exact .print value
  | .declare name initial => exact .declare name initial
  | .block body => exact .block (BodyBraced.refl body)
  | .branch condition whenTrue none => exact .branch condition (Braced.refl whenTrue)
  | .branch condition whenTrue (some whenFalse) =>
    exact .branchElse condition (Braced.refl whenTrue) (Braced.refl whenFalse)
  | .loop condition body => exact .loop condition (Braced.refl body)
  | .function (.mk name params body) => exact .function (.mk name params (BodyBraced.refl body))
  | .giveBack keyword value => exact .giveBack keyword value
  | .klass name superclass methods => exact .klass name superclass (MethodsBraced.refl methods)

theorem BodyBraced.refl (body : List (Stmt Blank)) : BodyBraced body body := by
  match body with
  | [] => exact .nil
  | s :: rest => exact .cons (Braced.refl s) (BodyBraced.refl rest)

theorem MethodsBraced.refl (methods : List (Routine Blank)) : MethodsBraced methods methods := by
  match methods with
  | [] => exact .nil
  | .mk name params body :: rest =>
    exact .cons (.mk name params (BodyBraced.refl body)) (MethodsBraced.refl rest)

end

end Stmt

namespace Scopes

variable {scopes : Scopes}

/-- Nothing need come between scopes and themselves. -/
theorem Regular.spaced (h : scopes.Regular) : Spaced scopes.layers scopes scopes := by
  induction h with
  | topLevel => exact .topLevel
  | scope hscope _ ih => exact .scope hscope ih
  | derived hscope _ ih => exact .derived hscope ih

/-- Where every scope is in both programs, a declaration may stand. -/
theorem open_layers (scopes : Scopes) : Layer.Open scopes.layers := by
  cases scopes <;> trivial

end Scopes

/-- Each scope of a routine that was written somewhere is one of the text. -/
theorem Stmt.RoutineWritten.length_eq {scopes : Scopes} {around : List LocalScope}
    {r : Routine Place} (h : RoutineWritten scopes around r) : scopes.length = around.length := by
  obtain ⟨c, kind, rfl, hcoherent, -⟩ := h
  exact hcoherent.length

theorem Stmt.RoutineFits.written {Φ : Site Place → Prop} {scopes : Scopes}
    {around : List LocalScope} {r : Routine Place} (h : RoutineFits Φ scopes around r) :
    RoutineWritten scopes around r := by
  obtain ⟨name, params, body⟩ := r
  exact h.2.2

/-- A routine of a text is its own twin. -/
theorem Stmt.RoutineWritten.twins {scopes : Scopes} {around : List LocalScope} {r : Routine Place}
    (h : RoutineWritten scopes around r) : RoutineTwins .plain scopes.layers r r := by
  obtain ⟨c, kind, rfl, hcoherent, hshaped, -, hlink⟩ := h
  obtain ⟨name, params, body⟩ := r
  have hspaced := hcoherent.regular.spaced.enterRoutine hshaped.1
  have hbody := twins_linkBody_braced (BodyBraced.refl (unlinkBody body)) hshaped.2 hspaced trivial
  rw [show linkBody (c.scopes.enterRoutine params) (unlinkBody body) = body from
    (Routine.mk.inj hlink).2.2] at hbody
  exact .mk rfl (List.forall₂_same.mpr fun _ _ => rfl) hbody

/-- What a frame binds is found in it, where each name is bound once. -/
theorem Forest.Distinct.lookup?_eq_some {α : Type} {forest : Forest α} (h : Distinct forest)
    {f : FrameId} {x : String} {v : α} (hx : (x, v) ∈ forest.bindingsOf f) :
    forest.lookup? f x = some v := by
  have hnodup : ((forest.bindingsOf f).map Prod.fst).Nodup := by
    rw [bindingsOf]
    cases hframe : forest.frames[f]? with
    | none => exact List.nodup_nil
    | some frame => exact h f frame hframe
  obtain ⟨before, after, hbindings⟩ := List.append_of_mem hx
  rw [lookup?_eq, List.lookup_eq_some_iff]
  refine ⟨before, after, hbindings, fun b hb => ?_⟩
  rw [hbindings, List.map_append, List.map_cons, List.nodup_append] at hnodup
  rw [bne_iff_ne]
  exact (hnodup.2.2 b.1 (List.mem_map_of_mem hb) x List.mem_cons_self).symm

/-! ### Places -/

/-- The frame and those around it bind what the scopes hold, on the way out to the globals. -/
def Forest.Holds {α : Type} (forest : Forest α) : FrameId → Scopes → Prop
  | f, [] => f = Machine.globals
  | f, scope :: outer =>
    (∀ x ∈ scope, forest.binds f x) ∧ ∃ g, forest.enclosing? f = some g ∧ forest.Holds g outer

/-- A frame that stands for the scopes around a place holds what they hold. -/
theorem World.Stands.holds {Φ : Site Place → Prop} {w : World Φ} (hs : w.Sound) {f : FrameId}
    {scopes : Scopes} {around : List LocalScope} (h : w.Stands f scopes around)
    (hlength : scopes.length = around.length) : w.machine.forest.Holds f scopes := by
  induction around generalizing f scopes with
  | nil =>
    obtain rfl := List.eq_nil_of_length_eq_zero hlength
    exact (hs.globals f h.standsFor).1
  | cons scope outer ih =>
    obtain ⟨first, rest, rfl⟩ := List.exists_cons_of_length_eq_add_one hlength
    obtain ⟨hbinds, g, hg, hready⟩ := h.ready
    obtain ⟨g', -, hg', houter⟩ := hs.locals f scope outer h.standsFor
    obtain rfl : g = g' := Option.some.inj (hg.symm.trans hg')
    exact ⟨hbinds, g, hg, ih ⟨houter, hready⟩ (Nat.succ.inj hlength)⟩

/-! ### Each frame its own partner -/

/-- Nothing is renamed. -/
theorem renameKeys_refl {α : Type} (bindings : List (String × α)) :
    renameKeys (.refl String) bindings = bindings :=
  List.map_id bindings

namespace Pairing

/-- The machine on both sides. -/
def alone (m : Machine) : Pairing :=
  ⟨m, m, (List.range m.forest.nextId).map (·, .refl String)⟩

theorem partners_alone_iff {m : Machine} {f f' : FrameId} {σ : Equiv.Perm String} :
    (alone m).Partners f f' σ ↔ f < m.forest.nextId ∧ f' = f ∧ σ = .refl String := by
  show ((List.range m.forest.nextId).map fun f => (f, Equiv.refl String))[f]? = some (f', σ) ↔ _
  rw [List.getElem?_map]
  rcases Nat.lt_or_ge f m.forest.nextId with hlt | hge
  · rw [List.getElem?_range hlt, Option.map_some, Option.some.injEq, Prod.mk.injEq]
    exact ⟨fun ⟨hf, hσ⟩ => ⟨hlt, hf.symm, hσ.symm⟩, fun ⟨_, hf, hσ⟩ => ⟨hf.symm, hσ.symm⟩⟩
  · rw [List.getElem?_eq_none (by simpa using hge)]
    exact ⟨nofun, fun ⟨hlt, _⟩ => absurd hlt (Nat.not_lt_of_le hge)⟩

/-- A place is the same on both sides. -/
theorem stands_alone {m : Machine} {f : FrameId} {scopes : Scopes} (h : m.forest.Holds f scopes) :
    (alone m).Stands scopes.layers f f := by
  induction scopes generalizing f with
  | nil => exact ⟨h, h⟩
  | cons scope outer ih =>
    obtain ⟨-, g, hg, houter⟩ := h
    -- a frame that is enclosed has been made
    have hlt : f < m.forest.nextId := by
      by_contra hle
      rw [Forest.enclosing?, Array.getElem?_eq_none (Nat.le_of_not_lt hle)] at hg
      cases hg
    exact ⟨partners_alone_iff.mpr ⟨hlt, rfl, rfl⟩, g, g, hg, hg, ih houter⟩

section World

variable {w : World fun _ => True} {scopes : Scopes} {around : List LocalScope} {f : FrameId}

/-- A closure that may be run means the same as itself. -/
theorem runs_alone (hs : w.Sound) {c : Closure} (hc : w.Runs c) :
    (alone w.machine).Runs .plain c c := by
  obtain ⟨scopes, around, hstands, hfits, hthis⟩ := hc
  have hwritten := hfits.written
  have hlength := hwritten.length_eq
  refine ⟨scopes.layers, stands_alone (hstands.holds hs hlength), hwritten.twins, rfl,
    fun hinit => ?_⟩
  -- an initializer is at home in the frame that binds its instance
  obtain ⟨⟨outer, rfl⟩, -⟩ := hthis hinit
  obtain ⟨first, rest, rfl⟩ := List.exists_cons_of_length_eq_add_one hlength
  exact ⟨Scopes.layers rest, rfl⟩

/-- So does a method, once it has been tied to an instance. -/
theorem ties_alone (hs : w.Sound) {c : Closure} (hc : w.Ties c) :
    (alone w.machine).Ties .plain c c := by
  obtain ⟨scopes, around, hstands, hfits⟩ := hc
  have hwritten := hfits.written
  exact ⟨scopes.layers, stands_alone (hstands.holds hs (Nat.succ.inj hwritten.length_eq)),
    hwritten.twins, rfl⟩

theorem valid_alone (hs : w.Sound) {v : Value} (hv : w.Valid v) :
    (alone w.machine).Valid .plain v := by
  cases v with
  | closure id =>
    obtain ⟨c, hc, hruns⟩ := hv
    exact ⟨c, c, hc, hc, runs_alone hs hruns⟩
  | _ => trivial

/-- **A machine that belongs to a world is its own twin.** -/
theorem sound_alone (hs : w.Sound) (hglobals : Machine.globals < w.machine.forest.nextId) :
    (alone w.machine).Sound .plain where
  matched :=
    { size := by
        show ((List.range w.machine.forest.nextId).map _).length = _
        rw [List.length_map, List.length_range]
        rfl
      globals := partners_alone_iff.mpr ⟨hglobals, rfl, rfl⟩
      made := by
        intro f f' σ hf
        obtain ⟨hlt, rfl, -⟩ := partners_alone_iff.mp hf
        exact hlt
      injective := by
        intro f g f' σ τ hf hg
        obtain ⟨-, rfl, -⟩ := partners_alone_iff.mp hf
        obtain ⟨-, heq, -⟩ := partners_alone_iff.mp hg
        exact heq
      bindings := by
        intro f f' σ hf
        obtain ⟨-, rfl, rfl⟩ := partners_alone_iff.mp hf
        exact (renameKeys_refl _).symm }
  looksLike := .refl _
  closures := rfl
  bound f x v hx := valid_alone hs (hs.bound f x v (hs.distinct.lookup?_eq_some hx))
  fields id i x v hi hx := valid_alone hs (hs.fields id i x v hi hx)
  handed f vs v hf hv := valid_alone hs (hs.handed f vs v hf hv)
  methods id c x k hc hx := by
    obtain ⟨closure, hclosure, hties⟩ := hs.methods id c x k hc hx
    exact ⟨closure, closure, hclosure, hclosure, ties_alone hs hties⟩

/-- At a place in a text the runs are at the same place on both sides. -/
theorem here_alone (h : w.Here scopes around) (hlength : scopes.length = around.length) :
    (alone w.machine).Here .plain scopes.layers := by
  have hglobals : Machine.globals < w.machine.forest.nextId :=
    Nat.lt_of_le_of_lt (Nat.zero_le _) (h.sound.lt_nextId h.stands.standsFor)
  exact ⟨sound_alone h.sound hglobals, stands_alone (h.stands.holds h.sound hlength)⟩

end World

end Pairing

/-! ### Runs that may be interchanged -/

/-- The machines look alike, are in the same frame, and bind the same in all frames that were made
before that one. -/
structure Machine.SameBefore (id : FrameId) (m m' : Machine) : Prop where
  looksLike : m.LooksLike m'
  current : m'.current = m.current
  globalTexts : m'.globalTexts = m.globalTexts
  bindings : ∀ f < id, m'.forest.bindingsOf f = m.forest.bindingsOf f

namespace Run

variable {α : Type}

/-- Runs that come to the same value, or end early for the same reason, in machines that are the
same as far as frames from before are concerned. -/
inductive SameEnd (id : FrameId) :
    EStateM.Result Interruption Machine α → EStateM.Result Interruption Machine α → Prop where
  | ok (a : α) {m m' : Machine} : m.SameBefore id m' → SameEnd id (.ok a m) (.ok a m')
  | error (e : Interruption) {m m' : Machine} :
      m.SameBefore id m' → SameEnd id (.error e m) (.error e m')

/-- It makes no difference which of the two is run: they end the same, and so does whatever is run
next, at any place from before and under any limits. -/
structure Interchangeable (answers : Answers) (m : Machine) (act act' : Run α) : Prop where
  ends : SameEnd m.forest.nextId (act m) (act' m)
  next : ∀ (limits : Limits) (f : FrameId) (scopes : Scopes) (rest : List (Stmt Blank)),
    m.forest.Holds f scopes → scopes.Regular → Stmt.ShapedBody rest →
    SameEnd m.forest.nextId
      (inFrame f (executeAll (limits.hostBy .byDistance answers) (Stmt.linkBody scopes rest))
        (machineAfter act m))
      (inFrame f (executeAll (limits.hostBy .byDistance answers) (Stmt.linkBody scopes rest))
        (machineAfter act' m))

end Run

/-- Two machines with the same twin are the same as far as those frames are concerned that are
partners of themselves. -/
theorem Pairing.sameBefore {p p' : Pairing} (hs : p.Sound .plain) (hs' : p'.Sound .plain)
    (hright : p'.right = p.right) (hcurrent : p'.left.current = p.left.current) {id : FrameId}
    (hold : ∀ f < id, p.Partners f f (.refl String))
    (hold' : ∀ f < id, p'.Partners f f (.refl String)) : p.left.SameBefore id p'.left := by
  have hlooks := hs'.looksLike
  have hglobals := hs'.globalTexts_eq
  have hbindings (f : FrameId) (hf : f < id) := hs'.matched.bindings f f _ (hold' f hf)
  rw [hright] at hlooks hglobals hbindings
  refine ⟨⟨hlooks.classes.symm.trans hs.looksLike.classes,
    hlooks.instances.symm.trans hs.looksLike.instances,
    hlooks.output.symm.trans hs.looksLike.output, hlooks.clock.symm.trans hs.looksLike.clock,
    hlooks.calls.symm.trans hs.looksLike.calls⟩, hcurrent, hglobals.symm.trans hs.globalTexts_eq,
    fun f hf => ?_⟩
  have hsame := (hbindings f hf).symm.trans (hs.matched.bindings f f _ (hold f hf))
  rwa [renameKeys_refl, renameKeys_refl] at hsame

namespace Run

variable {p p' : Pairing} {act act' uniform : Run α} {Q Q' : Pairing → α → Prop}

/-- Where runs in step lead. -/
theorem Lead.exists_follows {G : Guise} {α' : Type} {Q : Pairing → α → α' → Prop}
    {result : EStateM.Result Interruption Machine α}
    {result' : EStateM.Result Interruption Machine α'} (h : Lead G p Q result result') :
    ∃ q, p.Follows G q ∧
      ((∃ a a', result = .ok a q.left ∧ result' = .ok a' q.right ∧ Q q a a') ∨
        ∃ e e', result = .error e q.left ∧ result' = .error e' q.right ∧ e.Twins G e') := by
  cases h with
  | ok q hq ha => exact ⟨q, hq, .inl ⟨_, _, rfl, rfl, ha⟩⟩
  | error q hq he => exact ⟨q, hq, .inr ⟨_, _, rfl, rfl, he⟩⟩

/-- Runs in other frames give the same, whatever else is known there. -/
theorem InStep.inFrame_gives {G : Guise} {f f' : FrameId} (hs : p.Sound G)
    (h : InStep G (p.goTo f f') act act' (Gives Q)) :
    InStep G p (Run.inFrame f act) (Run.inFrame f' act') (Gives fun _ _ => True) :=
  .inFrame hs (h.mono fun _ _ _ _ ha => ⟨ha.1, trivial⟩)

theorem InStep.exists_machineAfter {G : Guise} {α' : Type} {act' : Run α'}
    {Q : Pairing → α → α' → Prop} (h : InStep G p act act' Q) :
    ∃ q, p.Follows G q ∧ machineAfter act p.left = q.left := by
  obtain ⟨q, hq, ⟨a, a', hact, -⟩ | ⟨e, e', hact, -⟩⟩ := Lead.exists_follows h
  · exact ⟨q, hq, machineAfter_of_ok hact⟩
  · exact ⟨q, hq, machineAfter_of_error hact⟩

/-- Two runs that are in step with the same run end the same. -/
theorem sameEnd_of_inStep (h : InStep .plain p act uniform (Gives Q))
    (h' : InStep .plain p' act' uniform (Gives Q')) (hright : p'.right = p.right)
    (hcurrent : p'.left.current = p.left.current) {id : FrameId}
    (hold : ∀ f < id, p.Partners f f (.refl String))
    (hold' : ∀ f < id, p'.Partners f f (.refl String)) :
    SameEnd id (act p.left) (act' p'.left) ∧ ∃ q q', p.Follows .plain q ∧ p'.Follows .plain q' ∧
      q'.right = q.right ∧ machineAfter act p.left = q.left ∧
      machineAfter act' p'.left = q'.left := by
  obtain ⟨q, hq, hresult⟩ := h.exists_follows
  obtain ⟨q', hq', hresult'⟩ := h'.exists_follows
  have hsame (hrights : q'.right = q.right) : q.left.SameBefore id q'.left :=
    Pairing.sameBefore hq.sound hq'.sound hrights
      (hq'.current.trans (hcurrent.trans hq.current.symm))
      (fun f hf => hq.grows.partners _ _ _ (hold f hf))
      fun f hf => hq'.grows.partners _ _ _ (hold' f hf)
  unfold machineAfter
  rw [hright] at hresult'
  rcases hresult with ⟨a, a₁, hact, hrun, ha, -⟩ | ⟨e, e₁, hact, hrun, he⟩
  · rcases hresult' with ⟨a', a₂, hact', hrun', ha', -⟩ | ⟨e', e₂, hact', hrun', -⟩
    · obtain ⟨hvalue, hrights⟩ := EStateM.Result.ok.inj (hrun'.symm.trans hrun)
      obtain rfl : a' = a := ha'.symm.trans (hvalue.trans ha)
      rw [hact, hact']
      exact ⟨.ok a' (hsame hrights), q, q', hq, hq', hrights, rfl, rfl⟩
    · cases hrun.symm.trans hrun'
  · rcases hresult' with ⟨a', a₂, hact', hrun', -⟩ | ⟨e', e₂, hact', hrun', he'⟩
    · cases hrun.symm.trans hrun'
    · obtain ⟨hreason, hrights⟩ := EStateM.Result.error.inj (hrun'.symm.trans hrun)
      obtain rfl : e' = e := he'.eq.symm.trans (hreason.trans he.eq)
      rw [hact, hact']
      exact ⟨.error e' (hsame hrights), q, q', hq, hq', hrights, rfl, rfl⟩

/-- **Runs that are in step with the same run may be interchanged.** -/
theorem interchangeable_of_inStep {answers : Answers} (honest : answers.Honest)
    (settled : answers.Settled) {m : Machine}
    (h : InStep .plain (.alone m) act uniform (Gives Q))
    (h' : InStep .plain (.alone m) act' uniform (Gives Q')) :
    Interchangeable answers m act act' := by
  have hold (f : FrameId) (hf : f < m.forest.nextId) :
      (Pairing.alone m).Partners f f (.refl String) := Pairing.partners_alone_iff.mpr ⟨hf, rfl, rfl⟩
  obtain ⟨hends, q, q', hq, hq', hright, hlast, hlast'⟩ := sameEnd_of_inStep h h' rfl rfl hold hold
  refine ⟨hends, fun limits f scopes rest hf hscopes hrest => ?_⟩
  have hosts := twins_hostBy (G := .plain) honest settled limits
  have htwins := Stmt.twins_linkBody_braced (.refl rest) hrest hscopes.spaced (Scopes.open_layers _)
  have hstands := Pairing.stands_alone hf
  have hstep {q : Pairing} (hq : (Pairing.alone m).Follows .plain q) :
      InStep .plain q
        (inFrame f (executeAll (limits.hostBy .byDistance answers) (Stmt.linkBody scopes rest)))
        (inFrame f (executeAll (limits.hostBy .byDistance answers) (Stmt.linkBody scopes rest)))
        (Gives fun _ _ => True) :=
    .inFrame_gives hq.sound
      (inStep_executeAll hosts htwins (.goTo hq.sound (hq.grows.stands hstands)))
  show SameEnd _ (inFrame f _ (machineAfter act (Pairing.alone m).left))
    (inFrame f _ (machineAfter act' (Pairing.alone m).left))
  rw [hlast, hlast']
  exact (sameEnd_of_inStep (hstep hq) (hstep hq') hright (hq'.current.trans hq.current.symm)
    (fun f hf => hq.grows.partners _ _ _ (hold f hf))
    fun f hf => hq'.grows.partners _ _ _ (hold f hf)).1

end Run

end LoxInterpreter
