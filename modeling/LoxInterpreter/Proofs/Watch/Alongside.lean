import LoxInterpreter.Proofs.Run.Together
import LoxInterpreter.Proofs.Watch.Quiet

/-!
# Runs with a ledger that is right

The frames from one outward *hold* a bond (`Machine.Holds`) if those of them that bind `this` and
`super` bind them to what the bond says. The ledger is right (`Watch.Right`) if the home of every
closure holds the bond of the closure, and all that has been entered is right.

`Alongside w bond act watched` says that from a world, in code with a bond that the current frame
holds, the run with a ledger takes the course of the plain run, and leaves a right ledger right.
`Alongside.bind` puts such runs together. What is known of the world in between is taken from the
plain run (`Together`).
-/

namespace LoxInterpreter

open Run Noting

/-! ### Frames and bonds -/

/-- The frames from one outward bind the keywords to what the bond says. -/
inductive Machine.Holds (m : Machine) : FrameId → Bond → Prop where
  | globals {f : FrameId} (hf : f < m.forest.nextId) (henclosing : m.forest.enclosing? f = none) :
      Holds m f []
  | plain {f g : FrameId} {bond : Bond} (henclosing : m.forest.enclosing? f = some g)
      (hthis : m.forest.lookup? f "this" = none) (hsuper : m.forest.lookup? f "super" = none)
      (hg : Holds m g bond) : Holds m f bond
  | receiver {f g : FrameId} {bond : Bond} {object : Value}
      (henclosing : m.forest.enclosing? f = some g)
      (hthis : m.forest.lookup? f "this" = some object) (hg : Holds m g bond) :
      Holds m f (.receiver object :: bond)
  | superclass {f g : FrameId} {bond : Bond} {id : ClassId}
      (henclosing : m.forest.enclosing? f = some g)
      (hsuper : m.forest.lookup? f "super" = some (.klass id)) (hg : Holds m g bond) :
      Holds m f (.superclass id :: bond)

namespace Machine.Holds

variable {m m' : Machine} {f : FrameId} {bond : Bond}

/-- What frames hold they hold for ever. -/
theorem ages (h : m.Holds f bond) (hm : m.Ages m') : m'.Holds f bond := by
  -- every frame on the way outward is an old one
  have hold {f g : FrameId} (henclosing : m.forest.enclosing? f = some g) :
      m'.forest.enclosing? f = some g ∧
        m'.forest.lookup? f "this" = m.forest.lookup? f "this" ∧
        m'.forest.lookup? f "super" = m.forest.lookup? f "super" := by
    have hf := Forest.lt_nextId_of_enclosing? _ henclosing
    exact ⟨(hm.enclosing f hf).trans henclosing, hm.keywords f hf _ (.inl rfl),
      hm.keywords f hf _ (.inr rfl)⟩
  induction h with
  | globals hf henclosing =>
    exact .globals (hf.trans_le hm.nextId) ((hm.enclosing _ hf).trans henclosing)
  | plain henclosing hthis hsuper _ ih =>
    obtain ⟨henclosing, hthis', hsuper'⟩ := hold henclosing
    exact .plain henclosing (hthis'.trans hthis) (hsuper'.trans hsuper) ih
  | receiver henclosing hthis _ ih =>
    obtain ⟨henclosing, hthis', -⟩ := hold henclosing
    exact .receiver henclosing (hthis'.trans hthis) ih
  | superclass henclosing hsuper _ ih =>
    obtain ⟨henclosing, -, hsuper'⟩ := hold henclosing
    exact .superclass henclosing (hsuper'.trans hsuper) ih

/-- A new frame that binds nothing holds what the frame around it holds. -/
theorem push (h : m.Holds f bond) :
    Machine.Holds { m with forest := m.forest.push (some f) } m.forest.nextId bond := by
  refine .plain ((Forest.enclosing?_push _ _ _).trans (if_pos rfl)) ?_ ?_ (h.ages (.push m _)) <;>
    exact (Forest.lookup?_push _ _ _ _).trans (Forest.lookup?_nextId _ _)

/-- A new frame that binds `this` adds the instance. -/
theorem push_this (h : m.Holds f bond) (object : Value) :
    Machine.Holds
      { m with forest := (m.forest.push (some f)).define m.forest.nextId "this" object }
      m.forest.nextId (.receiver object :: bond) := by
  obtain ⟨henclosing, hthis⟩ := m.forest.push_define (some f) "this" object
  exact .receiver henclosing hthis (h.ages (.push_define m _ _ _))

/-- A new frame that binds `super` adds the superclass. -/
theorem push_super (h : m.Holds f bond) (id : ClassId) :
    Machine.Holds
      { m with forest := (m.forest.push (some f)).define m.forest.nextId "super" (.klass id) }
      m.forest.nextId (.superclass id :: bond) := by
  obtain ⟨henclosing, hsuper⟩ := m.forest.push_define (some f) "super" (.klass id)
  exact .superclass henclosing hsuper (h.ages (.push_define m _ _ _))

end Machine.Holds

/-! ### The ledger -/

/-- **The ledger is right.** Closures have the bonds that their homes hold, and keywords and calls
came to what they should. -/
structure Watch.Right (s : Watch) : Prop where
  size : s.notes.origins.size = s.machine.closures.size
  origins : ∀ (id : ClosureId) c origin, s.machine.closures[id]? = some c →
    s.notes.origins[id]? = some origin → s.machine.Holds c.home origin.bond ∧
      c.isInitializer = (origin.isMethod && c.routine.name.lexeme == initializerName)
  sightings : ∀ sighting ∈ s.notes.sightings, sighting.Right
  calls : ∀ call ∈ s.notes.calls, call.Right

namespace Watch.Right

variable {m m' : Machine} {ledger : Ledger}

/-- The ledger stays right as the machine ages. -/
theorem ages (h : Right ⟨m, ledger⟩) (hm : m.Ages m') (hclosures : m'.closures = m.closures) :
    Right ⟨m', ledger⟩ where
  size := h.size.trans (congrArg _ hclosures.symm)
  origins id c origin hc ho := by
    obtain ⟨hholds, hinit⟩ := h.origins id c origin (hclosures ▸ hc) ho
    exact ⟨hholds.ages hm, hinit⟩
  sightings := h.sightings
  calls := h.calls

/-- A closure may be added with what its home holds. -/
theorem push (h : Right ⟨m, ledger⟩) {c : Closure} {origin : Origin} (hm : m.Ages m')
    (hclosures : m'.closures = m.closures.push c) (hholds : m'.Holds c.home origin.bond)
    (hinit : c.isInitializer = (origin.isMethod && c.routine.name.lexeme == initializerName)) :
    Right ⟨m', { ledger with origins := ledger.origins.push origin }⟩ where
  size := by
    show (ledger.origins.push origin).size = m'.closures.size
    rw [hclosures, Array.size_push, Array.size_push]
    exact congrArg (· + 1) h.size
  origins id c' origin' hc ho := by
    replace hc : m'.closures[id]? = some c' := hc
    replace ho : (ledger.origins.push origin)[id]? = some origin' := ho
    have hsize : ledger.origins.size = m.closures.size := h.size
    rw [hclosures, Array.getElem?_push] at hc
    rw [Array.getElem?_push, hsize] at ho
    split at hc
    · next hid =>
      rw [if_pos hid] at ho
      cases hc
      cases ho
      exact ⟨hholds, hinit⟩
    · next hid =>
      rw [if_neg hid] at ho
      obtain ⟨hholds, hinit⟩ := h.origins id c' origin' hc ho
      exact ⟨hholds.ages hm, hinit⟩
  sightings := h.sightings
  calls := h.calls

/-- The ledger tells of every closure where it comes from. -/
theorem exists_origin (h : Right ⟨m, ledger⟩) {id : ClosureId} {c : Closure}
    (hc : m.closures[id]? = some c) :
    ∃ origin, ledger.origins[id]? = some origin ∧ m.Holds c.home origin.bond ∧
      c.isInitializer = (origin.isMethod && c.routine.name.lexeme == initializerName) := by
  have hlt : id < ledger.origins.size :=
    (Array.getElem?_eq_some_iff.mp hc).1.trans_eq h.size.symm
  have horigin := Array.getElem?_eq_getElem hlt
  exact ⟨_, horigin, h.origins id c _ hc horigin⟩

end Watch.Right

/-! ### Runs side by side -/

namespace Run

variable {Φ : Site Place → Prop} {α β : Type}

/-- A method is tied to an instance by a frame between the home of the method and its calls. -/
theorem bindMethod_eq_ok {m : Machine} {k : ClosureId} {c : Closure}
    (hc : m.closures[k]? = some c) (receiver : Value) :
    bindMethod k receiver m = .ok m.closures.size
      { m with
        forest := (m.forest.push (some c.home)).define m.forest.nextId "this" receiver
        closures := m.closures.push { c with home := m.forest.nextId } } := by
  unfold bindMethod
  refine (get_bind_apply _ m).trans ?_
  rw [hc]
  rfl

/-- With a ledger the run takes the same course, and it leaves the ledger right. -/
def Alongside (w : World Φ) (bond : Bond) (act : Run α) (watched : Watched α) : Prop :=
  ∀ ledger, Watch.Right ⟨w.machine, ledger⟩ → w.machine.Holds w.machine.current bond →
    bare (watched ⟨w.machine, ledger⟩) = act w.machine ∧
      Watch.Right (last (watched ⟨w.machine, ledger⟩)) ∧
      w.machine.Ages (last (watched ⟨w.machine, ledger⟩)).machine

/-- The run comes to the value, and leads to the world. -/
structure Reaches (w : World Φ) (act : Run α) (w' : World Φ) (a : α) : Prop where
  eq : act w.machine = .ok a w'.machine
  follows : w.Follows w'
  ages : w.machine.Ages w'.machine

namespace Alongside

variable {w : World Φ} {bond : Bond} {act : Run α} {watched : Watched α} {f : α → Run β}
  {watched' : α → Watched β}

/-- A step that is none of the ledger's business. -/
theorem lift (h : Quiet act) : Alongside w bond act (Noting.lift act) := by
  intro ledger hright _
  obtain ⟨hages, hclosures⟩ := h w.machine
  rw [bare_lift, last_lift]
  exact ⟨rfl, hright.ages hages hclosures, hages⟩

protected theorem pure (a : α) : Alongside w bond (pure a) (pure a) :=
  fun _ hright _ => ⟨rfl, hright, .refl _⟩

/-- Runs one after the other. -/
protected theorem bind {Q : World Φ → α → Prop} (h : Alongside w bond act watched)
    (ht : Together w act act Q)
    (hf : ∀ w' a, Reaches w act w' a → Q w' a → Alongside w' bond (f a) (watched' a)) :
    Alongside w bond (act >>= f) (watched >>= watched') := by
  intro ledger hright hholds
  obtain ⟨hbare, hright₁, hages₁⟩ := h ledger hright hholds
  have hkeeps := ht.keeps
  have hbind : (act >>= f) w.machine = EStateM.bind act f w.machine := rfl
  have hbind' : (watched >>= watched') ⟨w.machine, ledger⟩ =
      EStateM.bind watched watched' ⟨w.machine, ledger⟩ := rfl
  rw [hbind, hbind', EStateM.bind, EStateM.bind, ← hbare]
  cases hwatched : watched ⟨w.machine, ledger⟩ with
  | ok a s =>
    obtain ⟨m, ledger₁⟩ := s
    rw [hwatched] at hbare hright₁ hages₁
    rw [← hbare] at hkeeps
    obtain ⟨w', rfl, hw, ha⟩ := hkeeps
    -- back in the frame where it began, the run still has the bond
    have hholds' : w'.machine.Holds w'.machine.current bond := by
      rw [hw.current]
      exact hholds.ages hages₁
    obtain ⟨hbare₂, hright₂, hages₂⟩ :=
      hf w' a ⟨hbare.symm, hw, hages₁⟩ ha ledger₁ hright₁ hholds'
    exact ⟨hbare₂, hright₂, hages₁.trans hages₂⟩
  | error e s =>
    rw [hwatched] at hright₁ hages₁
    exact ⟨rfl, hright₁, hages₁⟩

/-- To hand on a value is to do nothing. -/
theorem of_bind_pure (h : Alongside w bond (act >>= pure) watched) :
    Alongside w bond act watched := by
  rwa [bind_pure] at h

/-- What the current frame holds may be used. -/
theorem of_holds (h : w.machine.Holds w.machine.current bond → Alongside w bond act watched) :
    Alongside w bond act watched :=
  fun ledger hright hholds => h hholds ledger hright hholds

/-- A look at the machine. -/
theorem get_bind {g : Machine → Run β} {watched' : Watch → Watched β}
    (h : ∀ s, s.machine = w.machine → Alongside w bond (g w.machine) (watched' s)) :
    Alongside w bond (get >>= g) (get >>= watched') :=
  fun ledger hright hholds => h ⟨w.machine, ledger⟩ rfl ledger hright hholds

/-- A look at the machine that the plain run does not take. -/
theorem get_bind_right {act : Run β} {watched' : Watch → Watched β}
    (h : ∀ s, s.machine = w.machine → Alongside w bond act (watched' s)) :
    Alongside w bond act (get >>= watched') :=
  fun ledger hright hholds => h ⟨w.machine, ledger⟩ rfl ledger hright hholds

/-- A step that is known to come to a value and to change nothing. -/
theorem ok_bind {a : α} (hact : act w.machine = .ok a w.machine)
    (h : Alongside w bond (f a) (watched' a)) :
    Alongside w bond (act >>= f) (Noting.lift act >>= watched') := by
  intro ledger hright hholds
  have hbind : (act >>= f) w.machine = f a w.machine := by
    show EStateM.bind act f w.machine = _
    rw [EStateM.bind, hact]
  rw [hbind, lift_bind_of_eq_ok hact]
  exact h ledger hright hholds

/-- An answer of the store that is there. -/
theorem expectSome_bind {a : α} {o : Option α} (ho : o = some a)
    (h : Alongside w bond (f a) (watched' a)) :
    Alongside w bond (expectSome o >>= f) (Noting.lift (expectSome o) >>= watched') := by
  subst ho
  exact .ok_bind rfl h

/-! ### Entries -/

/-- The origin of a closure is in the ledger. -/
theorem originOf_bind {act : Run β} {watched' : Origin → Watched β} {id : ClosureId} {c : Closure}
    (hc : w.machine.closures[id]? = some c)
    (h : ∀ origin, w.machine.Holds c.home origin.bond →
      c.isInitializer = (origin.isMethod && c.routine.name.lexeme == initializerName) →
      Alongside w bond act (watched' origin)) :
    Alongside w bond act (Watched.originOf id >>= watched') := by
  intro ledger hright hholds
  obtain ⟨origin, horigin, hhome, hinit⟩ := hright.exists_origin hc
  have hget : (Watched.originOf id >>= watched') ⟨w.machine, ledger⟩ =
      watched' (ledger.origins.getD id ⟨[], false⟩) ⟨w.machine, ledger⟩ := rfl
  rw [hget, Array.getD_eq_getD_getElem?, horigin, Option.getD_some]
  exact h origin hhome hinit ledger hright hholds

/-- What is right may be entered. -/
theorem enterSighting_bind {act : Run β} {watched' : Unit → Watched β} {sighting : Sighting}
    (hsighting : sighting.Right) (h : Alongside w bond act (watched' ())) :
    Alongside w bond act (Watched.enterSighting sighting >>= watched') :=
  fun ledger hright hholds =>
    h { ledger with sightings := sighting :: ledger.sightings }
      ⟨hright.size, hright.origins, List.forall_mem_cons.mpr ⟨hsighting, hright.sightings⟩,
        hright.calls⟩ hholds

/-- What is right may be entered. -/
theorem enterCall_bind {act : Run β} {watched' : Unit → Watched β} {call : CallRecord}
    (hcall : call.Right) (h : Alongside w bond act (watched' ())) :
    Alongside w bond act (Watched.enterCall call >>= watched') :=
  fun ledger hright hholds =>
    h { ledger with calls := call :: ledger.calls }
      ⟨hright.size, hright.origins, hright.sightings,
        List.forall_mem_cons.mpr ⟨hcall, hright.calls⟩⟩ hholds

/-- A closure may be made where its home holds the bond. -/
theorem newClosure {c : Closure} {origin : Origin} (hholds : w.machine.Holds c.home origin.bond)
    (hinit : c.isInitializer = (origin.isMethod && c.routine.name.lexeme == initializerName)) :
    Alongside w bond (newClosure c) (Watched.newClosure origin c) := by
  intro ledger hright _
  have hages : w.machine.Ages { w.machine with closures := w.machine.closures.push c } :=
    .of_eq rfl rfl
  exact ⟨rfl, hright.push hages rfl (hholds.ages hages) hinit, hages⟩

/-- Tied to an instance, a method has the instance in its bond. -/
theorem bindMethod {k : ClosureId} {c : Closure} (hc : w.machine.closures[k]? = some c)
    (receiver : Value) :
    Alongside w bond (bindMethod k receiver) (Watched.bindMethod k receiver) := by
  refine originOf_bind hc fun origin hhome hinit ledger hright _ => ?_
  have hbound := bindMethod_eq_ok hc receiver
  have hpush := Machine.Ages.push_define w.machine (some c.home) "this" receiver
  rw [lift_bind_of_eq_ok hbound, hbound]
  exact ⟨rfl, hright.push (hpush.trans (.of_eq rfl rfl)) rfl
    ((hhome.push_this receiver).ages (.of_eq rfl rfl)) hinit, hpush.trans (.of_eq rfl rfl)⟩

/-- A run in another frame, which holds another bond, comes back. -/
theorem inFrame {id : FrameId} {inner : Bond} (hinner : w.machine.Holds id inner)
    (h : Alongside (w.goTo id) inner act watched) :
    Alongside w bond (inFrame id act) (Noting.inside id watched) := by
  intro ledger hright _
  -- frames and closures are what they are, whichever frame is the current one
  have hgo (m : Machine) (f : FrameId) : m.Ages { m with current := f } := .of_eq rfl rfl
  obtain ⟨hbare, hright', hages⟩ :=
    h ledger (hright.ages (hgo _ id) rfl) (hinner.ages (hgo _ id))
  unfold Noting.inside Run.inFrame
  replace hbare : bare (watched ⟨{ w.machine with current := id }, ledger⟩) =
    act { w.machine with current := id } := hbare
  dsimp only
  rw [← hbare]
  cases hwatched : watched ⟨{ w.machine with current := id }, ledger⟩ with
  | ok a s | error e s =>
    replace hright' : Watch.Right (last (watched ⟨{ w.machine with current := id }, ledger⟩)) :=
      hright'
    replace hages : Machine.Ages { w.machine with current := id }
      (last (watched ⟨{ w.machine with current := id }, ledger⟩)).machine := hages
    rw [hwatched] at hright' hages
    exact ⟨rfl, hright'.ages (hgo s.machine _) rfl, ((hgo _ id).trans hages).trans (hgo _ _)⟩

end Alongside

end Run

end LoxInterpreter
