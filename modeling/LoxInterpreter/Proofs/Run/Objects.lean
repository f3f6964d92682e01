import LoxInterpreter.Proofs.Run.Together

/-!
# Names, objects and calls

The parts of evaluation that do not follow the tree keep the invariant. A mention that fits is read
and written without a fault, but for the exception that `Interruption.Explained` makes. Methods of
valid instances are tied to them, and become closures that may be run.

`Host.Matches` relates two hosts. The first finds names by distance; the second finds them in some
other way that comes to the same at every mention that fits (`Names.Agree`).
-/

namespace LoxInterpreter.Run

variable {Φ : Site Place → Prop} {w : World Φ} {scopes : Scopes} {around : List LocalScope}

/-! ### Names -/

/-- A name may be bound anew where it is bound already. -/
theorem together_rebind (hs : w.Sound) {i : FrameId} {x : String} {v : Value}
    (hbinds : w.machine.forest.binds i x) (hx : x ≠ "super") (hv : w.Valid v) :
    Together w (define i x v) (define i x v) fun _ _ => True := by
  obtain ⟨old, hold⟩ := Option.isSome_iff_exists.mp hbinds
  obtain ⟨around, hi⟩ := hs.exists_standsFor hold
  have hadmits := (hs.admits i around x old hi hold).replace hx v
  have hstands : w.Stands i [] around := ⟨hi, trivial⟩
  exact (Together.define hs hstands hadmits hv).mono fun _ _ _ _ => trivial

/-- A search by name finds a valid value or fails. -/
theorem together_readFrom (hs : w.Sound) (i : FrameId) (name : Token) :
    Together w (readFrom i name) (readFrom i name) World.Valid := by
  rw [readFrom]
  refine .get_bind ?_
  cases hget : w.machine.forest.get? i name.lexeme with
  | none => exact .failAt hs _ _
  | some v =>
    obtain ⟨j, -, hj⟩ := Option.bind_eq_some_iff.mp hget
    exact .pure hs (hs.bound j name.lexeme v hj)

/-- A search by name finds a binding to change or fails. -/
theorem together_assignFrom (hs : w.Sound) (i : FrameId) {name : Token}
    (hname : name.lexeme ≠ "super") {v : Value} (hv : w.Valid v) :
    Together w (assignFrom i name v) (assignFrom i name v) fun _ _ => True := by
  rw [assignFrom]
  refine .get_bind ?_
  cases hholder : w.machine.forest.holder? i name.lexeme with
  | none => exact .failAt hs _ _
  | some j => exact together_rebind hs (Forest.binds_of_holder? _ hholder) hname hv

/-- A frame that binds the name is read by its distance. -/
theorem together_readAt (hs : w.Sound) {distance : Nat} {x : String} {i : FrameId}
    (hi : w.machine.forest.ancestor? distance w.machine.current = some i)
    (hbinds : w.machine.forest.binds i x) :
    Together w (readAt distance x) (readAt distance x)
      fun w' v => w'.Valid v ∧ w.machine.forest.lookup? i x = some v := by
  obtain ⟨v, hv⟩ := Option.isSome_iff_exists.mp hbinds
  rw [readAt]
  refine .get_bind ?_
  rw [Forest.getAt_eq_ok hi hv]
  exact .pure hs ⟨hs.bound i x v hv, hv⟩

/-- A mention that fits is read by its link. -/
theorem together_read {site : Site Place} (h : w.Here scopes site.around)
    (hfits : site.ReadFits Φ scopes) :
    Together w (Names.byDistance.read site.mention.reference)
      (Names.byDistance.read site.mention.reference) World.Valid := by
  obtain ⟨-, hplace⟩ := hfits
  rw [Names.byDistance]
  dsimp only
  cases hlink : site.mention.reference.link with
  | global => exact together_readFrom h.sound _ _
  | outward distance =>
    rw [Site.link, hlink] at hplace
    obtain ⟨i, hi, hbinds⟩ := h.stands.ready.exists_of_placeOf hplace.symm
    exact (together_readAt h.sound hi hbinds).mono fun _ _ _ hv => hv.1

/-- A frame that binds the name is written by its distance. -/
theorem together_assignAt (hs : w.Sound) {distance : Nat} {name : Token} {i : FrameId}
    (hi : w.machine.forest.ancestor? distance w.machine.current = some i)
    (hbinds : w.machine.forest.binds i name.lexeme) (hname : name.lexeme ≠ "super") {v : Value}
    (hv : w.Valid v) :
    Together w (assignAt distance name v) (assignAt distance name v) fun _ _ => True := by
  rw [assignAt]
  refine .get_bind ?_
  rw [Forest.holderAt_eq_ok hi hbinds]
  exact together_rebind hs hbinds hname hv

/-- A mention that fits is written by its link. A variable that is not there yet cannot be written
in its own initializer. -/
theorem together_write {site : Site Place} (h : w.Here scopes site.around)
    (hfits : site.WriteFits Φ scopes) {v : Value} (hv : w.Valid v) :
    Together w (Names.byDistance.write site.mention.reference v)
      (Names.byDistance.write site.mention.reference v) fun _ _ => True := by
  obtain ⟨hsite, ⟨-, hname⟩, hplace⟩ := hfits
  rw [Names.byDistance]
  dsimp only
  rw [Site.link] at hplace
  cases hlink : site.mention.reference.link with
  | global => exact together_assignFrom h.sound _ hname hv
  | outward distance =>
    dsimp only
    rw [hlink] at hplace
    rcases hplace with hplace | ⟨hzero, hown⟩
    · obtain ⟨i, hi, hbinds⟩ := h.stands.ready.exists_of_placeOf hplace.symm
      exact together_assignAt h.sound hi hbinds hname hv
    · cases hzero
      -- if the frame had the variable already, the assignment would go well
      cases hbinds : w.machine.forest.binds w.machine.current site.token.lexeme with
      | true => exact together_assignAt h.sound rfl hbinds hname hv
      | false =>
        have hholder : w.machine.forest.holderAt w.machine.current 0 site.token.lexeme =
            .error (.unbound site.token.lexeme) := by
          rw [Forest.holderAt, Forest.ancestor?]
          dsimp only
          rw [hbinds]
          rfl
        rw [assignAt]
        refine .get_bind ?_
        rw [hholder]
        exact .of_error rfl h.sound ⟨site, hsite, hown, rfl⟩

/-! ### Objects -/

/-- The methods that a class has, its own or inherited, can be tied to instances. -/
theorem ties_of_findMethodWithin (hs : w.Sound) {fuel : Nat} {id : ClassId} {name : String}
    {k : ClosureId} (h : w.machine.findMethodWithin fuel id name = some k) :
    ∃ c, w.machine.closures[k]? = some c ∧ w.Ties c := by
  induction fuel generalizing id with
  | zero => cases h
  | succ fuel ih =>
    rw [Machine.findMethodWithin] at h
    obtain ⟨record, hrecord, h⟩ := Option.bind_eq_some_iff.mp h
    cases hown : record.methods.lookup name with
    | some k' =>
      rw [hown] at h
      cases h
      exact hs.methods id record name k hrecord hown
    | none =>
      rw [hown] at h
      obtain ⟨parent, -, h⟩ := Option.bind_eq_some_iff.mp h
      exact ih h

/-- Tied to an instance, a method may be run. -/
theorem together_bindMethod (hs : w.Sound) {k : ClosureId} {c : Closure}
    (hc : w.machine.closures[k]? = some c) (hties : w.Ties c) {receiver : Value}
    (hv : w.Valid receiver) :
    Together w (bindMethod k receiver) (bindMethod k receiver) fun w' id =>
      ∃ c', w'.machine.closures[id]? = some c' ∧ w'.Runs c' ∧ c'.routine = c.routine := by
  obtain ⟨scopes, around, hstands, hfits⟩ := hties
  rw [bindMethod]
  refine .get_bind (.expectSome_bind hc ?_)
  -- the frame between the home of the method and its calls
  refine (Together.newFrame hs hstands (.keyword "this")).bind fun w₁ home hw₁ hhome => ?_
  have hadmits : Admits (.keyword "this" :: around) "this" receiver :=
    ⟨rfl, fun h => absurd h (by decide)⟩
  refine (Together.define hw₁.sound hhome hadmits (hw₁.grows.valid hv)).bind
    fun w₂ _ hw₂ ⟨hhome, hthis⟩ => ?_
  refine (Together.newClosure hw₂.sound _).mono fun w₃ id hw₃ hid => ?_
  exact ⟨_, hid, ⟨["this"] :: scopes, _, hw₃.grows.stands hhome, hfits,
    fun _ => ⟨⟨_, rfl⟩, hw₃.grows.binds _ _ hthis⟩⟩, rfl⟩

/-- A method that a class has makes a valid value with any valid receiver. -/
theorem together_boundMethod (hs : w.Sound) {id : ClassId} {name : String} {k : ClosureId}
    (hmethod : w.machine.findMethod? id name = some k) {receiver : Value}
    (hv : w.Valid receiver) :
    Together w (do return .closure (← bindMethod k receiver))
      (do return .closure (← bindMethod k receiver)) World.Valid := by
  obtain ⟨c, hc, hties⟩ := ties_of_findMethodWithin hs hmethod
  refine (together_bindMethod hs hc hties hv).bind fun w₁ id hw₁ ⟨c', hc', hruns, _⟩ => ?_
  exact .pure hw₁.sound ⟨c', hc', hruns⟩

/-- A property is a valid value, or it is not there. -/
theorem together_readProperty (hs : w.Sound) {object : Value} (hv : w.Valid object)
    (name : Token) :
    Together w (readProperty object name) (readProperty object name) World.Valid := by
  cases object with
  | object id =>
    rw [readProperty]
    refine .get_bind (.expectSome_bind (Array.getElem?_eq_getElem hv) ?_)
    cases hfield : w.machine.instances[id].fields.lookup name.lexeme with
    | some v =>
      dsimp only
      exact .pure hs (hs.fields id _ name.lexeme v (Array.getElem?_eq_getElem hv) hfield)
    | none =>
      dsimp only
      cases hmethod : w.machine.findMethod? w.machine.instances[id].klass name.lexeme with
      | none => exact .failAt hs _ _
      | some k => exact together_boundMethod hs hmethod hv
  | _ => exact .failAt hs _ _

/-- A method of the superclass is found through the frames that bind `super` and `this`. -/
theorem together_readInherited (h : w.Here scopes around) {superclass : Reference Place}
    (hfits : SuperFits scopes around superclass.link) (method : Token) :
    Together w (readInherited superclass method) (readInherited superclass method)
      World.Valid := by
  obtain ⟨distance, inner, outer, rest, hlink, hinner, hthis, houter, hsuper, hmethod⟩ := hfits
  obtain ⟨i, hi, hi'⟩ := h.stands.ready.exists_ancestor houter hsuper
  rw [readInherited, hlink]
  dsimp only
  refine (together_readAt h.sound hi hi').bind fun w₁ parent hw₁ ⟨hparent, hlookup⟩ => ?_
  -- what binds `super` stands for a scope that admits nothing but a class
  obtain ⟨id, rfl⟩ : ∃ id, parent = .klass id := by
    have hstands := h.sound.standsFor_ancestor h.stands.standsFor hi
    have hadmits := h.sound.admits i _ "super" parent hstands hlookup
    rw [List.drop_add_one_eq_tail_drop, hmethod.drop_eq] at hadmits
    exact hadmits.2 rfl
  obtain ⟨j, hj, hj'⟩ := (h.follow hw₁).stands.ready.exists_ancestor hinner hthis
  refine (together_readAt hw₁.sound hj hj').bind fun w₂ receiver hw₂ ⟨hreceiver, _⟩ => ?_
  refine .get_bind ?_
  cases hmethod : w₂.machine.findMethod? id method.lexeme with
  | none => exact .failAt hw₂.sound _ _
  | some k => exact together_boundMethod hw₂.sound hmethod hreceiver

/-! ### Hosts -/

/-- The way to find names comes to the same as following links, at every mention that fits. -/
structure Names.Agree (Φ : Site Place → Prop) (names : Names) : Prop where
  read : ∀ (w : World Φ) scopes (site : Site Place), w.Here scopes site.around →
    site.ReadFits Φ scopes → names.read site.mention.reference w.machine =
      Names.byDistance.read site.mention.reference w.machine
  write : ∀ (w : World Φ) scopes (site : Site Place) v, w.Here scopes site.around →
    site.WriteFits Φ scopes → names.write site.mention.reference v w.machine =
      Names.byDistance.write site.mention.reference v w.machine

theorem Names.agree_byDistance : Names.byDistance.Agree Φ :=
  ⟨fun _ _ _ _ _ => rfl, fun _ _ _ _ _ _ => rfl⟩

/-- The hosts differ at most in how they find names, which makes no difference. Closures that may be
run keep the invariant, whichever host runs them. -/
structure Host.Matches (Φ : Site Place → Prop) (host host' : Host) : Prop where
  names : host.names = .byDistance
  agree : host'.names.Agree Φ
  honest : host.answers.Honest
  answers : host'.answers = host.answers
  rounds : host'.rounds = host.rounds
  invoke : ∀ (w : World Φ) paren (id : ClosureId) c values, w.Sound →
    w.machine.closures[id]? = some c → w.Runs c → values.length = c.routine.params.length →
    (∀ v ∈ values, w.Valid v) →
    Together w (host.invoke paren id values) (host'.invoke paren id values) World.Valid

section Calls

variable {host host' : Host} (hosts : host.Matches Φ host')

include hosts

/-- A mention that fits is read alike by both hosts. -/
theorem together_hostRead {site : Site Place} (h : w.Here scopes site.around)
    (hfits : site.ReadFits Φ scopes) :
    Together w (host.names.read site.mention.reference) (host'.names.read site.mention.reference)
      World.Valid := by
  rw [hosts.names]
  exact (together_read h hfits).with_same (hosts.agree.read w scopes site h hfits)

/-- A mention that fits is written alike by both hosts. -/
theorem together_hostWrite {site : Site Place} (h : w.Here scopes site.around)
    (hfits : site.WriteFits Φ scopes) {v : Value} (hv : w.Valid v) :
    Together w (host.names.write site.mention.reference v)
      (host'.names.write site.mention.reference v) fun _ _ => True := by
  rw [hosts.names]
  exact (together_write h hfits hv).with_same (hosts.agree.write w scopes site v h hfits)

/-- An honest function of the host answers with a valid value. -/
theorem together_callNative (hs : w.Sound) (f : Native) {values : List Value}
    (hvalues : ∀ v ∈ values, w.Valid v) :
    Together w (callNative host f values) (callNative host' f values) World.Valid := by
  have hset := World.grows_set_of_eq hs
    (m := { w.machine with calls := (f, values) :: w.machine.calls }) rfl (fun _ _ h => h) rfl rfl
    fun f' vs v hf hv => by
      rcases List.mem_cons.mp hf with heq | hf
      · cases heq
        exact .inr (hvalues v hv)
      · exact .inl hf
  have hsame : callNative host' f values = callNative host f values := by
    unfold callNative
    rw [hosts.answers]
  rw [hsame]
  exact .of_step rfl rfl hset (hset.2.valid_of_offers (hosts.honest _ f values rfl))

/-- A class that has as many arguments as it takes makes a valid instance. -/
theorem together_construct (hs : w.Sound) (paren : Token) (klass : ClassId) {values : List Value}
    (harity : ∀ k c, w.machine.findMethod? klass initializerName = some k →
      w.machine.closures[k]? = some c → values.length = c.routine.params.length)
    (hvalues : ∀ v ∈ values, w.Valid v) :
    Together w (construct host paren klass values) (construct host' paren klass values)
      World.Valid := by
  rw [construct]
  refine (Together.newInstance hs klass).bind fun w₁ id hw₁ ⟨hid, hclasses⟩ => .get_bind ?_
  -- the classes are the same as before the instance was made
  have hfind : w₁.machine.findMethod? klass initializerName =
      w.machine.findMethod? klass initializerName := Machine.findMethod?_congr hclasses _ _
  rw [hfind]
  cases hmethod : w.machine.findMethod? klass initializerName with
  | none => exact .pure hw₁.sound hid
  | some k =>
    obtain ⟨c, hc, hties⟩ := ties_of_findMethodWithin hs hmethod
    refine (together_bindMethod hw₁.sound (hw₁.grows.closures k c hc) (hw₁.grows.ties hties)
      hid).bind fun w₂ k' hw₂ ⟨c', hc', hruns, hroutine⟩ => ?_
    have hlength : values.length = c'.routine.params.length := by
      rw [hroutine]
      exact harity k c hmethod hc
    have hvalues₂ : ∀ v ∈ values, w₂.Valid v := fun v hv =>
      hw₂.grows.valid (hw₁.grows.valid (hvalues v hv))
    refine (hosts.invoke w₂ paren k' c' values hw₂.sound hc' hruns hlength hvalues₂).bind
      fun w₃ _ hw₃ _ => ?_
    exact .pure hw₃.sound ((hw₂.trans hw₃).grows.valid hid)

/-- A call of a valid value with valid values comes to a valid value. -/
theorem together_callValue (hs : w.Sound) (paren : Token) {callee : Value} {values : List Value}
    (hcallee : w.Valid callee) (hvalues : ∀ v ∈ values, w.Valid v) :
    Together w (callValue host paren callee values) (callValue host' paren callee values)
      World.Valid := by
  unfold callValue
  refine .get_bind ?_
  cases harity : arity? w.machine callee with
  | none => exact .failAt hs _ _
  | some arity =>
    dsimp only
    split
    · exact .failAt hs _ _
    next hlength =>
    rw [Decidable.not_not] at hlength
    cases callee with
    | native f => exact together_callNative hosts hs f hvalues
    | closure id =>
      obtain ⟨c, hc, hruns⟩ := hcallee
      rw [arity?, hc, Option.map_some, ← hlength] at harity
      exact hosts.invoke w paren id c values hs hc hruns (Option.some.inj harity).symm hvalues
    | klass id =>
      -- a class takes as many arguments as its initializer
      refine together_construct hosts hs paren id (fun k c hmethod hc => ?_) hvalues
      rw [arity?, hmethod, Option.bind_some, hc, ← hlength] at harity
      exact (Option.some.inj harity).symm
    | _ => exact .failAt hs _ _

end Calls

end LoxInterpreter.Run
