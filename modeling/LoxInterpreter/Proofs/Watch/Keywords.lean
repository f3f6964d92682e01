import LoxInterpreter.Proofs.Run.Objects
import LoxInterpreter.Proofs.Watch.Alongside

/-!
# Keywords, objects and calls with a ledger

Where `this` and `super` may stand, the frames that they are read from bind them to what the bond of
the code says (`World.Sound.holds_this`, `World.Sound.holds_super`): only scopes without keywords
come between, the scope around those is the one of a method, and the scope around that one is the
one of a class with a superclass. Methods that are fetched and values that are called keep the
ledger right.

`Watcher.Faithful` is what the walk over the tree asks of the watcher.
-/

namespace LoxInterpreter

open Run

variable {Φ : Site Place → Prop} {w : World Φ} {scopes : Scopes} {around : List LocalScope}

/-! ### Where the keywords are bound -/

namespace World.Sound

/-- A scope without keywords binds none. -/
theorem lookup?_keyword (hs : w.Sound) {f : FrameId} {l : LocalScope} {outer : List LocalScope}
    (hf : w.StandsFor f (l :: outer)) (hl : l.IsPlain) {word : String}
    (hword : word = "this" ∨ word = "super") : w.machine.forest.lookup? f word = none := by
  obtain ⟨names, rfl, hnames⟩ := hl
  by_contra hsome
  obtain ⟨v, hv⟩ := Option.ne_none_iff_exists'.mp hsome
  obtain ⟨name, hname, rfl⟩ := hs.admits f _ word v hf hv
  rcases hword with hword | hword
  · exact (hnames name hname).1 hword
  · exact (hnames name hname).2 hword

/-- The frame at the distance of the method around the code holds the bond of the code. -/
theorem holds_method (hs : w.Sound) {f : FrameId} {distance : Nat} {outer : List LocalScope}
    (hf : w.StandsFor f around) (hmethod : InMethod around distance outer) {bond : Bond}
    (h : w.machine.Holds f bond) :
    ∃ i, w.machine.forest.ancestor? distance f = some i ∧
      w.StandsFor i (.keyword "this" :: outer) ∧ w.machine.Holds i bond := by
  obtain ⟨inner, rfl, rfl, hplain⟩ := hmethod
  induction inner generalizing f with
  | nil => exact ⟨f, rfl, hf, h⟩
  | cons l inner ih =>
    obtain ⟨hl, hinner⟩ := List.forall_mem_cons.mp hplain
    obtain ⟨g, -, hg, hstands⟩ := hs.locals f l _ hf
    have hthis := hs.lookup?_keyword hf hl (.inl rfl)
    have hsuper := hs.lookup?_keyword hf hl (.inr rfl)
    have houter : w.machine.Holds g bond := by
      cases h with
      | globals _ henclosing =>
        rw [henclosing] at hg
        cases hg
      | plain henclosing _ _ h =>
        rw [hg] at henclosing
        cases henclosing
        exact h
      | receiver _ hthis' _ =>
        rw [hthis] at hthis'
        cases hthis'
      | superclass _ hsuper' _ =>
        rw [hsuper] at hsuper'
        cases hsuper'
    obtain ⟨i, hi, hresult⟩ := ih houter hstands hinner
    refine ⟨i, ?_, hresult⟩
    rw [List.length_cons, Forest.ancestor?, hg, Option.bind_some, hi]

/-- The frame of a method binds `this` to the instance of the bond. -/
theorem holds_this (hs : w.Sound) {i : FrameId} {outer : List LocalScope}
    (hi : w.StandsFor i (.keyword "this" :: outer)) {object : Value}
    (hobject : w.machine.forest.lookup? i "this" = some object) {bond : Bond}
    (h : w.machine.Holds i bond) :
    ∃ g inner, bond = .receiver object :: inner ∧ w.machine.forest.enclosing? i = some g ∧
      w.StandsFor g outer ∧ w.machine.Holds g inner := by
  obtain ⟨g, -, hg, hstands⟩ := hs.locals i _ _ hi
  cases h with
  | globals _ henclosing =>
    rw [henclosing] at hg
    cases hg
  | plain _ hthis =>
    rw [hobject] at hthis
    cases hthis
  | receiver henclosing hthis h =>
    rw [hobject] at hthis
    rw [hg] at henclosing
    cases hthis
    cases henclosing
    exact ⟨g, _, rfl, hg, hstands, h⟩
  | superclass _ hsuper =>
    -- the frame of a method does not bind the superclass
    exact absurd (hs.admits i _ "super" _ hi hsuper).1 (by decide)

/-- The frame of a class binds `super` to the superclass of the bond. -/
theorem holds_super (hs : w.Sound) {g : FrameId} {outer : List LocalScope}
    (hg : w.StandsFor g (.keyword "super" :: outer)) {id : ClassId}
    (hid : w.machine.forest.lookup? g "super" = some (.klass id)) {bond : Bond}
    (h : w.machine.Holds g bond) : ∃ inner, bond = .superclass id :: inner := by
  obtain ⟨g', -, hg', -⟩ := hs.locals g _ _ hg
  cases h with
  | globals _ henclosing =>
    rw [henclosing] at hg'
    cases hg'
  | plain _ _ hsuper =>
    rw [hid] at hsuper
    cases hsuper
  | receiver _ hthis =>
    exact absurd (hs.admits g _ "this" _ hg hthis).1 (by decide)
  | superclass _ hsuper =>
    rw [hid] at hsuper
    cases hsuper
    exact ⟨_, rfl⟩

end World.Sound

/-! ### Watchers -/

/-- The host of the watcher keeps the invariant, and with a ledger it runs closures as without. -/
structure Watcher.Faithful (Φ : Site Place → Prop) (watcher : Watcher) : Prop where
  hosts : watcher.host.Matches Φ watcher.host
  invoke : ∀ (w : World Φ) bond paren (id : ClosureId) c values, w.Sound →
    w.machine.closures[id]? = some c → w.Runs c → values.length = c.routine.params.length →
    (∀ v ∈ values, w.Valid v) →
    Alongside w bond (watcher.host.invoke paren id values) (watcher.invoke paren id values)

namespace Run

/-- A binding is read by its distance. -/
theorem readAt_eq_ok {m : Machine} {distance : Nat} {x : String} {i : FrameId} {v : Value}
    (hi : m.forest.ancestor? distance m.current = some i)
    (hv : m.forest.lookup? i x = some v) : readAt distance x m = .ok v m := by
  unfold readAt
  refine (get_bind_apply _ m).trans ?_
  rw [Forest.getAt_eq_ok hi hv]
  rfl

variable {bond : Bond}

/-- **`this`** comes to the instance of the bond. -/
theorem alongside_this (h : w.Here scopes around) {receiver : Reference Place}
    {initializing : Option Token} (hname : receiver.name = "this")
    (hthis : ThisFits around receiver.link) (hfits : Site.ReadFits Φ scopes
      ⟨.this, ⟨receiver, (Expr.this receiver).label⟩, around, initializing⟩) :
    Alongside w bond (Names.byDistance.read receiver) (do
      let object ← Noting.lift (Names.byDistance.read receiver)
      Watched.enterSighting (.this bond object)
      return object) := by
  obtain ⟨distance, outer, hlink, hmethod⟩ := hthis
  obtain ⟨-, hplace⟩ := hfits
  replace hplace : receiver.link = scopes.placeOf receiver.name := hplace
  rw [hlink, hname] at hplace
  have hread : Names.byDistance.read receiver = readAt distance "this" := by
    rw [Names.byDistance]
    dsimp only
    rw [hlink]
    exact congrArg (readAt distance) hname
  refine .of_holds fun hholds => ?_
  obtain ⟨i, hi, hstands, hmethodHolds⟩ := h.sound.holds_method h.stands.standsFor hmethod hholds
  -- the place of the name is the one of the method
  obtain ⟨j, hj, hbinds⟩ := h.stands.ready.exists_of_placeOf hplace.symm
  obtain rfl : j = i := Option.some.inj (hj.symm.trans hi)
  obtain ⟨object, hobject⟩ := Option.isSome_iff_exists.mp hbinds
  obtain ⟨g, inner, rfl, -⟩ := h.sound.holds_this hstands hobject hmethodHolds
  rw [hread]
  refine (Alongside.ok_bind (readAt_eq_ok hi hobject) ?_).of_bind_pure
  exact .enterSighting_bind rfl (.pure object)

/-! ### Objects -/

/-- A method that a class has can be fetched for any valid receiver. -/
theorem alongside_boundMethod (hs : w.Sound) {id : ClassId} {name : String} {k : ClosureId}
    (hmethod : w.machine.findMethod? id name = some k) {receiver : Value}
    (hv : w.Valid receiver) :
    Alongside w bond (do return Value.closure (← bindMethod k receiver))
      (do return Value.closure (← Watched.bindMethod k receiver)) := by
  obtain ⟨c, hc, hties⟩ := ties_of_findMethodWithin hs hmethod
  exact (Alongside.bindMethod hc receiver).bind (together_bindMethod hs hc hties hv)
    fun _ _ _ _ => .pure _

theorem alongside_readProperty (hs : w.Sound) {object : Value} (hv : w.Valid object)
    (name : Token) :
    Alongside w bond (readProperty object name) (Watched.readProperty object name) := by
  cases object with
  | object id =>
    rw [readProperty, Watched.readProperty]
    refine .get_bind fun s hs' => ?_
    rw [hs']
    refine .expectSome_bind (Array.getElem?_eq_getElem hv) ?_
    cases w.machine.instances[id].fields.lookup name.lexeme with
    | some v =>
      dsimp only
      exact .pure v
    | none =>
      dsimp only
      cases hmethod : w.machine.findMethod? w.machine.instances[id].klass name.lexeme with
      | none => exact .lift (.failAt _ _)
      | some k => exact alongside_boundMethod hs hmethod hv
  | _ => exact .lift (.failAt _ _)

/-- **`super`** comes to the superclass and the instance of the bond. -/
theorem alongside_readInherited (h : w.Here scopes around) {superclass : Reference Place}
    (hfits : SuperFits scopes around superclass.link) (method : Token) :
    Alongside w bond (readInherited superclass method)
      (Watched.readInherited bond superclass method) := by
  obtain ⟨distance, inner, outer, rest, hlink, hinner, hthis, houter, hsuper, hmethod⟩ := hfits
  refine .of_holds fun hholds => ?_
  obtain ⟨i, hi, hstands, hmethodHolds⟩ := h.sound.holds_method h.stands.standsFor hmethod hholds
  obtain ⟨i', hi', hbindsThis⟩ := h.stands.ready.exists_ancestor hinner hthis
  obtain rfl : i' = i := Option.some.inj (hi'.symm.trans hi)
  obtain ⟨object, hobject⟩ := Option.isSome_iff_exists.mp hbindsThis
  obtain ⟨g, b, rfl, hg, hclass, hclassHolds⟩ := h.sound.holds_this hstands hobject hmethodHolds
  -- the frame that binds `super` is the one around the frame of the method
  obtain ⟨j, hj, hbindsSuper⟩ := h.stands.ready.exists_ancestor houter hsuper
  obtain rfl : j = g := by
    rw [Forest.ancestor?_add_one, hi, Option.bind_some, hg] at hj
    exact (Option.some.inj hj).symm
  obtain ⟨parent, hparent⟩ := Option.isSome_iff_exists.mp hbindsSuper
  obtain ⟨id, rfl⟩ := (h.sound.admits j _ "super" parent hclass hparent).2 rfl
  obtain ⟨b', rfl⟩ := h.sound.holds_super hclass hparent hclassHolds
  rw [readInherited, Watched.readInherited, hlink]
  refine .ok_bind (readAt_eq_ok hj hparent) (.ok_bind (readAt_eq_ok hi hobject) ?_)
  refine .enterSighting_bind ⟨rfl, rfl⟩ (.get_bind fun s hs => ?_)
  rw [hs]
  cases hfind : w.machine.findMethod? id method.lexeme with
  | none => exact .lift (.failAt _ _)
  | some k => exact alongside_boundMethod h.sound hfind (h.sound.bound i' "this" object hobject)

/-! ### Calls -/

section Calls

variable {watcher : Watcher} (hwatcher : watcher.Faithful Φ)

include hwatcher

/-- A class that has as many arguments as it takes makes a new instance of itself, whatever its
initializer does. -/
theorem alongside_construct (hs : w.Sound) (paren : Token) (klass : ClassId) {values : List Value}
    (harity : ∀ k c, w.machine.findMethod? klass initializerName = some k →
      w.machine.closures[k]? = some c → values.length = c.routine.params.length)
    (hvalues : ∀ v ∈ values, w.Valid v) :
    Alongside w bond (construct watcher.host paren klass values) (do
      let result ← Watched.construct watcher paren klass values
      Watched.enterCall (.made klass w.machine.instances.size result
        (Watched.classOf? (← get).machine result))
      return result) := by
  unfold construct Watched.construct
  simp only [bind_assoc]
  refine (Alongside.lift (quiet_newInstance klass)).bind (Together.newInstance hs klass)
    fun w₁ id hw₁ hnew => ?_
  obtain ⟨hid, hclasses⟩ := hnew
  -- what has been made is the next instance, and its class is known from then on
  have hmade : id = w.machine.instances.size ∧
      Watched.classOf? w₁.machine (.object id) = some klass := by
    obtain ⟨rfl, hmachine⟩ := EStateM.Result.ok.inj hw₁.eq
    refine ⟨rfl, ?_⟩
    rw [← hmachine]
    show (w.machine.instances.push ⟨klass, []⟩)[w.machine.instances.size]?.map _ = _
    rw [Array.getElem?_push_size]
    rfl
  have hlast {w' : World Φ} (hages : w₁.machine.Ages w'.machine) :
      Alongside w' bond (pure (Value.object id)) (do
        let s ← get
        Watched.enterCall (.made klass w.machine.instances.size (.object id)
          (Watched.classOf? s.machine (.object id)))
        return Value.object id) := by
    refine .get_bind_right fun s hs' => ?_
    rw [hs']
    exact .enterCall_bind ⟨congrArg _ hmade.1, hages.klass _ _ hmade.2⟩ (.pure _)
  refine .get_bind fun s hs' => ?_
  have hfind : w₁.machine.findMethod? klass initializerName =
      w.machine.findMethod? klass initializerName := Machine.findMethod?_congr hclasses _ _
  rw [hs', hfind]
  cases hmethod : w.machine.findMethod? klass initializerName with
  | none => exact hlast (.refl _)
  | some k =>
    obtain ⟨c, hc, hties⟩ := ties_of_findMethodWithin hs hmethod
    have hc₁ := hw₁.follows.grows.closures k c hc
    dsimp only
    simp only [bind_assoc]
    refine (Alongside.bindMethod hc₁ _).bind (together_bindMethod hw₁.follows.sound hc₁
      (hw₁.follows.grows.ties hties) hid) fun w₂ k' hw₂ hbound => ?_
    obtain ⟨c', hc', hruns, hroutine⟩ := hbound
    have hlength : values.length = c'.routine.params.length := by
      rw [hroutine]
      exact harity k c hmethod hc
    have hvalues₂ : ∀ v ∈ values, w₂.Valid v := fun v hv =>
      (hw₁.follows.trans hw₂.follows).grows.valid (hvalues v hv)
    refine (hwatcher.invoke w₂ bond paren k' c' values hw₂.follows.sound hc' hruns hlength
      hvalues₂).bind (hwatcher.hosts.invoke w₂ paren k' c' values hw₂.follows.sound hc' hruns
        hlength hvalues₂) fun w₃ _ hw₃ _ => ?_
    exact hlast (hw₂.ages.trans hw₃.ages)

theorem alongside_callValue (hs : w.Sound) (paren : Token) {callee : Value} {values : List Value}
    (hcallee : w.Valid callee) (hvalues : ∀ v ∈ values, w.Valid v) :
    Alongside w bond (callValue watcher.host paren callee values)
      (Watched.callValue watcher paren callee values) := by
  unfold callValue Watched.callValue
  refine .get_bind fun s hs' => ?_
  rw [hs']
  cases harity : arity? w.machine callee with
  | none => exact .lift (.failAt _ _)
  | some arity =>
    dsimp only
    split
    · exact .lift (.failAt _ _)
    next hlength =>
    rw [Decidable.not_not] at hlength
    cases callee with
    | native f => exact .lift (quiet_callNative _ _ _)
    | closure id =>
      obtain ⟨c, hc, hruns⟩ := hcallee
      rw [arity?, hc, Option.map_some, ← hlength] at harity
      exact hwatcher.invoke w bond paren id c values hs hc hruns (Option.some.inj harity).symm
        hvalues
    | klass id =>
      refine .get_bind_right fun s hs' => ?_
      rw [hs']
      refine alongside_construct hwatcher hs paren id (fun k c hmethod hc => ?_) hvalues
      rw [arity?, hmethod, Option.bind_some, hc, ← hlength] at harity
      exact (Option.some.inj harity).symm
    | _ => exact .lift (.failAt _ _)

end Calls

end Run

end LoxInterpreter
