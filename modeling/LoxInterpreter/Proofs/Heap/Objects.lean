import LoxInterpreter.Proofs.Heap.Steps
import LoxInterpreter.Proofs.Watch.Quiet

/-!
# Names, objects and calls with a chronicle

What steps that only look at the machine come to may be used by the program (`Looks`). An assignment
writes to a frame that is for the program to bind names in: the others bind keywords, and the name
is none (`Kept.isOpen_of_binds`). What is found in the table of a class is a method, and is tied to
an instance before it gets into the hands of the program (`Tells.boundMethod`).

`Scribe.Faithful` is what the walk over the tree asks of the scribe.
-/

namespace LoxInterpreter

open Run Noting

/-! ### What may be used -/

/-- A value that names nothing may be used. -/
theorem Value.IsPlain.usable {v : Value} (h : v.IsPlain) (o : Origins) (m : Machine) :
    o.Usable m v := by
  cases v with
  | closure id | klass id | object id => exact h.elim
  | _ => trivial

namespace Forest

variable {α : Type} {forest : Forest α} {f i : FrameId} {distance : Nat} {x : String} {v : α}

/-- The frame that is found at a distance does bind the name. -/
theorem binds_of_holderAt (h : forest.holderAt f distance x = .ok i) : forest.binds i x := by
  rw [holderAt] at h
  split at h
  · cases h
  · split at h
    · next hbinds =>
      cases h
      exact hbinds
    · cases h

/-- What is found at a distance is bound there. -/
theorem exists_of_getAt_eq_ok (h : forest.getAt f distance x = .ok v) :
    ∃ i, forest.ancestor? distance f = some i ∧ forest.lookup? i x = some v := by
  rw [getAt] at h
  split at h
  · cases h
  · next i hi =>
    split at h
    · next hv =>
      cases h
      exact ⟨i, hi, hv⟩
    · cases h

end Forest

theorem Machine.Offers.of_getAt {m : Machine} {f : FrameId} {distance : Nat} {x : String}
    {v : Value} (h : m.forest.getAt f distance x = .ok v) : m.Offers v := by
  obtain ⟨i, -, hv⟩ := Forest.exists_of_getAt_eq_ok h
  exact .bound hv

namespace Run.Looks

variable {m : Machine}

/-- Operators come to values that name nothing. -/
theorem of_operation {known : Prop} {op op' : Token} {act act' : Run Value}
    (h : Operation known op op' act act') : Looks m act Value.IsPlain := by
  cases h with
  | value hplain => exact .pure hplain
  | blame _ => exact .failAt _ _
  | unknown _ => exact .faultWith _

/-- What is found by searching for a name is bound somewhere. -/
theorem readFrom (f : FrameId) (name : Token) : Looks m (readFrom f name) m.Offers := by
  refine get_bind ?_
  cases hget : m.forest.get? f name.lexeme with
  | none => exact .failAt _ _
  | some v =>
    obtain ⟨g, -, hv⟩ := Option.bind_eq_some_iff.mp hget
    exact .pure (.bound hv)

theorem readAt (distance : Nat) (x : String) :
    Looks m (readAt distance x) fun v => m.forest.getAt m.current distance x = .ok v := by
  refine get_bind ?_
  cases hget : m.forest.getAt m.current distance x with
  | error e => exact .faultWith _
  | ok v => exact .pure rfl

/-- A mention comes to a value that is bound somewhere. -/
theorem read (target : Reference Place) : Looks m (Names.byDistance.read target) m.Offers := by
  rw [Names.byDistance]
  dsimp only
  split
  · exact readFrom _ _
  · exact (readAt _ _).mono fun _ hv => .of_getAt hv

end Run.Looks

/-- The methods that a class has, its own or inherited, have been declared as methods. -/
theorem Origins.Describes.method_of_findMethodWithin {o : Origins} {m : Machine}
    (h : o.Describes m) {fuel : Nat} {id : ClassId} {name : String} {method : ClosureId}
    (hmethod : m.findMethodWithin fuel id name = some method) :
    o.closures[method]? = some .method := by
  induction fuel generalizing id with
  | zero => cases hmethod
  | succ fuel ih =>
    rw [Machine.findMethodWithin] at hmethod
    obtain ⟨k, hk, hmethod⟩ := Option.bind_eq_some_iff.mp hmethod
    cases hown : k.methods.lookup name with
    | some j =>
      rw [hown] at hmethod
      cases hmethod
      exact (h.methods id k name method hk hown).1
    | none =>
      rw [hown] at hmethod
      obtain ⟨parent, -, hmethod⟩ := Option.bind_eq_some_iff.mp hmethod
      exact ih hmethod

/-! ### Names -/

variable {t : Told}

/-- What binds a name that is no keyword is for the program to bind names in. -/
theorem Kept.isOpen_of_binds (h : Kept t) {f : FrameId} {name : Token} (hname : name.IsName)
    (hf : t.machine.forest.binds f name.lexeme) : t.notes.origins.IsOpen f := by
  have hlt := (Forest.lt_nextId_of_binds hf).trans_eq h.live.frames_size.symm
  refine ⟨_, Array.getElem?_eq_getElem hlt, ?_⟩
  by_contra hsome
  obtain ⟨b, hb⟩ := Option.ne_none_iff_exists'.mp hsome
  obtain ⟨v, hv⟩ := Option.isSome_iff_exists.mp hf
  obtain ⟨frame, hframe, hv⟩ := Option.bind_eq_some_iff.mp hv
  -- otherwise it would bind a keyword and nothing else
  rw [h.live.describes.keywords f _ b frame (Array.getElem?_eq_getElem hlt) hb hframe] at hv
  have hkeyword : b.1 = "this" ∨ b.1 = "super" := by
    cases hp : t.notes.origins.frames[f] with
    | receiver object =>
      rw [hp] at hb
      cases hb
      exact .inl rfl
    | superclass id =>
      rw [hp] at hb
      cases hb
      exact .inr rfl
    | _ =>
      rw [hp] at hb
      cases hb
  obtain ⟨x, w⟩ := b
  replace hv := List.lookup_cons.symm.trans hv
  split at hv
  · next heq =>
    rw [beq_iff_eq] at heq
    rcases hkeyword with rfl | rfl
    · exact hname.1 heq
    · exact hname.2 heq
  · cases hv

/-- What `this` is bound to inside of another frame is an instance. -/
theorem Kept.isInstance_of_getAt (h : Kept t) {f : FrameId} {distance : Nat} {x : String}
    {outer v : Value} (houter : t.machine.forest.getAt f (distance + 1) x = .ok outer)
    (hv : t.machine.forest.getAt f distance "this" = .ok v) : v.IsInstance := by
  obtain ⟨i, hi, hv⟩ := Forest.exists_of_getAt_eq_ok hv
  obtain ⟨j, hj, -⟩ := Forest.exists_of_getAt_eq_ok houter
  rcases h.live.instances.this i v hv with hnone | hinstance
  · rw [Forest.ancestor?_add_one, hi, Option.bind_some, hnone] at hj
    cases hj
  · exact hinstance

namespace Run.Tells

theorem assignFrom (h : Kept t) (f : FrameId) {name : Token} (hname : name.IsName) {v : Value}
    (hv : t.Usable v) :
    Tells t (assignFrom f name v) (Chronicled.assignFrom f name v) fun _ _ => True := by
  refine .get_bind ?_
  cases hholder : t.machine.forest.holder? f name.lexeme with
  | none => exact .failAt h _ _
  | some holder =>
    exact write h (h.isOpen_of_binds hname (Forest.binds_of_holder? _ hholder)) hname hv

theorem assignAt (h : Kept t) (distance : Nat) {name : Token} (hname : name.IsName) {v : Value}
    (hv : t.Usable v) :
    Tells t (assignAt distance name v) (Chronicled.assignAt distance name v)
      fun _ _ => True := by
  refine .get_bind ?_
  dsimp only
  cases hholder : t.machine.forest.holderAt t.machine.current distance name.lexeme with
  | error e =>
    cases e with
    | offChain d => exact .faultWith h _
    | unbound x => exact .faultWith h _
  | ok holder =>
    exact write h (h.isOpen_of_binds hname (Forest.binds_of_holderAt hholder)) hname hv

/-- **An assignment** writes to a frame that is for the program to bind names in. -/
theorem assign (h : Kept t) {target : Reference Place} (hname : target.token.IsName) {v : Value}
    (hv : t.Usable v) :
    Tells t (Names.byDistance.write target v) (Chronicled.assign target v) fun _ _ => True := by
  rw [Names.byDistance, Chronicled.assign]
  dsimp only
  cases target.link with
  | global => exact assignFrom h _ hname hv
  | outward distance => exact assignAt h distance hname hv

/-! ### Objects -/

/-- A frame for a keyword binds the keyword. -/
theorem makeFrameBinding (h : Kept t) {p : Purpose} {x : String} {v : Value}
    (hp : p.binding? = some (x, v)) {enclosing : FrameId}
    (henclosing : enclosing < t.machine.forest.nextId) (hv : t.Usable v)
    (hreceiver : ∀ v, p = .receiver v → v.IsInstance) :
    Tells t (Watched.newFrameBinding enclosing x v)
      (Chronicled.makeFrame p (Watched.newFrameBinding enclosing x v))
      fun t' f => t'.notes.origins.frames[f]? = some p := by
  refine makeFrame h ?_ henclosing (fun y w hy => ?_) hreceiver
  · rw [hp]
    exact congrArg (fun forest => EStateM.Result.ok _ { t.machine with forest })
      (Forest.push_define_eq _ _ _)
  · cases hp.symm.trans hy
    exact hv

/-- Tied to an instance, a method may be called. -/
theorem bindMethod (h : Kept t) {method : ClosureId}
    (hmethod : t.notes.origins.closures[method]? = some .method) {receiver : Value}
    (hreceiver : receiver.IsInstance) :
    Tells t (bindMethod method receiver) (Chronicled.bindMethod method receiver)
      fun t' id => t'.notes.origins.Callable id := by
  have hbound : Tells t
      (do
        let c ← expectSome (← get).closures[method]?
        let home ← Watched.newFrameBinding c.home "this" receiver
        newClosure { c with home := home })
      (Chronicled.bindMethod method receiver) fun t' id => t'.notes.origins.Callable id := by
    refine .get_bind (.lift_bind h (.expectSome fun c hc => hc) fun c hc => ?_)
    obtain ⟨hhome, hfits⟩ := h.live.closures method c hc
    have husable : t.Usable receiver := by
      obtain ⟨id, rfl⟩ := hreceiver
      trivial
    refine (makeFrameBinding h rfl hhome husable fun v hv => Purpose.receiver.inj hv ▸ hreceiver).bind
      fun t₁ home h₁ hg₁ hmade => ?_
    refine (makeClosure h₁ (.tied method receiver) { c with home := home }
      (h₁.live.lt_nextId hmade) hfits fun j object heq => ?_).mono
      fun t₂ id _ _ hid => ⟨_, hid.1, nofun⟩
    cases heq
    refine ⟨hmade, hg₁.origins.closure hmethod, ?_⟩
    rw [hg₁.lasts.closures method c hc]
    rfl
  exact hbound

/-- A method that a class has is tied before the program gets it. -/
theorem boundMethod (h : Kept t) {id : ClassId} {name : String} {method : ClosureId}
    (hmethod : t.machine.findMethod? id name = some method) {receiver : Value}
    (hreceiver : receiver.IsInstance) :
    Tells t (do return Value.closure (← Run.bindMethod method receiver))
      (do return Value.closure (← Chronicled.bindMethod method receiver)) Told.Usable := by
  have hmade := h.live.describes.method_of_findMethodWithin hmethod
  exact (bindMethod h hmade hreceiver).bind fun t₁ id h₁ _ hid => .pure h₁ hid

theorem readProperty (h : Kept t) (object : Value) (name : Token) :
    Tells t (readProperty object name) (Chronicled.readProperty object name) Told.Usable := by
  cases object with
  | object id =>
    refine .get_bind (.lift_bind h (.expectSome fun i hi => hi) fun found hfound => ?_)
    cases hfield : found.fields.lookup name.lexeme with
    | some v => exact .pure h (h.usable (.held hfound hfield))
    | none =>
      dsimp only
      cases hmethod : t.machine.findMethod? found.klass name.lexeme with
      | none => exact .failAt h _ _
      | some method => exact boundMethod h hmethod ⟨id, rfl⟩
  | _ => exact .failAt h _ _

/-- **What `super` is read for** is tied to an instance: the frame that binds `this` is enclosed by
the one that binds `super`, so that it is not the one of the globals. -/
theorem readInherited (h : Kept t) {scopes : Scopes} {around : List LocalScope}
    {superclass : Reference Place} (hfits : SuperFits scopes around superclass.link)
    (method : Token) :
    Tells t (readInherited superclass method) (Chronicled.readInherited superclass method)
      Told.Usable := by
  obtain ⟨distance, -, -, -, hlink, -⟩ := hfits
  rw [Run.readInherited, Chronicled.readInherited, hlink]
  refine .lift_bind h (.readAt (distance + 1) "super") fun parent hparent => ?_
  refine .lift_bind h (.readAt distance "this") fun receiver hreceiver => ?_
  cases parent with
  | klass id =>
    refine .get_bind ?_
    cases hmethod : t.machine.findMethod? id method.lexeme with
    | none => exact .failAt h _ _
    | some found => exact boundMethod h hmethod (h.isInstance_of_getAt hparent hreceiver)
  | _ => exact .faultWith h _

end Run.Tells

/-! ### Calls -/

/-- The host keeps the chronicle right, and closures are run alike with a chronicle. -/
structure Scribe.Faithful (scribe : Scribe) : Prop where
  names : scribe.host.names = .byDistance
  honest : scribe.host.answers.Honest
  invoke : ∀ t paren id values, Kept t → t.notes.origins.Callable id →
    (∀ v ∈ values, t.Usable v) →
    Tells t (scribe.host.invoke paren id values) (scribe.invoke paren id values) Told.Usable

namespace Run.Tells

section Calls

variable {scribe : Scribe} {values : List Value}

/-- A mention comes to a value that may be used. -/
theorem read (hscribe : scribe.Faithful) (h : Kept t) (target : Reference Place) :
    Tells t (scribe.host.names.read target) (Noting.lift (scribe.host.names.read target))
      Told.Usable := by
  rw [hscribe.names]
  exact (lift h (.read target)).mono fun _ _ _ hg hv => hg.usable (h.usable hv)

/-- A function of the host answers with what the program may use. -/
theorem callNative (h : Kept t) {host : Host} (honest : host.answers.Honest) (f : Native)
    (hvalues : ∀ v ∈ values, t.Usable v) :
    Tells t (callNative host f values) (Chronicled.step (Run.callNative host f values))
      Told.Usable := by
  refine step_elsewhere h (Run.callNative host f values) rfl
    (fun _ i _ _ hi hx => .inl ⟨i, hi, hx⟩) (fun g vs v hg hv => ?_)
    fun c hlive => hlive.usable _ (honest _ f values rfl)
  rcases List.mem_cons.mp hg with heq | hg
  · cases heq
    exact .inr (hvalues v hv)
  · exact .inl hg

theorem newInstance (h : Kept t) (klass : ClassId) :
    Tells t (newInstance klass) (Chronicled.step (Run.newInstance klass)) fun _ _ => True := by
  refine step_elsewhere h (Run.newInstance klass) rfl (fun id i x v hi hx => ?_)
    (fun _ _ _ hf _ => .inl hf) fun _ _ => trivial
  -- the new instance holds nothing
  rcases eq_or_of_getElem?_push hi with ⟨-, rfl⟩ | hi
  · cases hx
  · exact .inl ⟨i, hi, hx⟩

theorem construct (hscribe : scribe.Faithful) (h : Kept t) (paren : Token) (klass : ClassId)
    (hvalues : ∀ v ∈ values, t.Usable v) :
    Tells t (construct scribe.host paren klass values)
      (Chronicled.construct scribe paren klass values) Told.Usable := by
  refine (newInstance h klass).bind fun t₁ id h₁ hg₁ _ => .get_bind ?_
  cases hmethod : t₁.machine.findMethod? klass initializerName with
  | none => exact .pure h₁ trivial
  | some method =>
    have hmade := h₁.live.describes.method_of_findMethodWithin hmethod
    refine (bindMethod h₁ hmade ⟨id, rfl⟩).bind
      fun t₂ initializer h₂ hg₂ hinitializer => ?_
    refine (hscribe.invoke t₂ paren initializer values h₂ hinitializer
      fun v hv => (hg₁.trans hg₂).usable (hvalues v hv)).bind fun t₃ _ h₃ _ _ => ?_
    exact .pure h₃ trivial

/-- **Only what may be used is called**, hence no method that has still to be tied. -/
theorem callValue (hscribe : scribe.Faithful) (h : Kept t) (paren : Token) {callee : Value}
    (hcallee : t.Usable callee) (hvalues : ∀ v ∈ values, t.Usable v) :
    Tells t (callValue scribe.host paren callee values)
      (Chronicled.callValue scribe paren callee values) Told.Usable := by
  refine .get_bind ?_
  cases arity? t.machine callee with
  | none => exact .failAt h _ _
  | some arity =>
    dsimp only
    split
    · exact .failAt h _ _
    cases callee with
    | native f => exact callNative h hscribe.honest f hvalues
    | closure id => exact hscribe.invoke t paren id values h hcallee hvalues
    | klass id => exact construct hscribe h paren id hvalues
    | _ => exact .failAt h _ _

end Calls

end Run.Tells

end LoxInterpreter
