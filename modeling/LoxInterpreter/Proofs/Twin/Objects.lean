import LoxInterpreter.Proofs.Run.Together
import LoxInterpreter.Proofs.Twin.Run
import LoxInterpreter.Run.Evaluate

/-!
# Twin names, objects and calls

The parts of evaluation that do not follow the tree are in step. References that are twins are read
and written alike. Methods are tied to instances in new frames that are partners.

`Host.Twins` relates two hosts that find names by distance. Their functions of the host answer alike
if they look at nothing but what both machines share (`Answers.Settled`).
-/

namespace LoxInterpreter

/-- Machines that differ in nothing but their frames and closures get the same answers. -/
def Answers.Settled (answers : Answers) : Prop :=
  ∀ (m m' : Machine) f values, m.LooksLike m' → answers m' f values = answers m f values

/-- The usual host looks at nothing but the clock. -/
theorem Answers.settled_usual : Answers.usual.Settled := by
  intro m m' f values h
  rw [Answers.usual, Answers.usual, h.clock]

/-- A value that names nothing is valid. -/
theorem Pairing.valid_of_isPlain {G : Guise} (p : Pairing) {v : Value} (h : v.IsPlain) :
    p.Valid G v := by
  cases v with
  | closure id => exact h.elim
  | _ => trivial

/-- What can be got hold of is valid. -/
theorem Pairing.Sound.valid_of_offers {G : Guise} {p : Pairing} (hs : p.Sound G) {v : Value}
    (h : p.left.Offers v) : p.Valid G v := by
  cases h with
  | plain h => exact p.valid_of_isPlain h
  | klass | object => trivial
  | bound h => exact hs.bound _ _ _ (Forest.mem_bindingsOf h)
  | held hi hx => exact hs.fields _ _ _ _ hi hx
  | handed hcall hv => exact hs.handed _ _ _ hcall hv

namespace Run

variable {G : Guise} {p : Pairing} {layers : List Layer}

/-! ### Names -/

/-- The globals are the outermost frame: a search from there ends there. -/
theorem holder?_globals {f : Forest Value} {x : String} (h : f.binds Machine.globals x = false) :
    f.holder? Machine.globals x = none := by
  have hchain : f.chain Machine.globals = [Machine.globals] := by
    rw [Forest.chain, Forest.chainWithin]
    cases f.enclosing? Machine.globals <;> rfl
  rw [Forest.holder?, hchain, List.find?_cons, h, List.find?_nil]

/-- The same globals are bound in both machines. -/
theorem binds_globals (hs : p.Sound G) (x : String) :
    p.right.forest.binds Machine.globals x = p.left.forest.binds Machine.globals x :=
  hs.matched.binds_partner hs.matched.globals x

theorem inStep_readGlobal (hs : p.Sound G) {t t' : Token} (ht : G.Alike t t') :
    InStep G p (readFrom Machine.globals t) (readFrom Machine.globals t')
      (Gives fun q v => q.Valid G v) := by
  obtain ⟨hguise, hlexeme⟩ := ht
  rw [readFrom, readFrom, hlexeme]
  refine .get_bind ?_
  have hsame := binds_globals hs t.lexeme
  rw [Forest.get?, Forest.get?]
  cases hbinds : p.left.forest.binds Machine.globals t.lexeme with
  | true =>
    rw [hbinds] at hsame
    obtain ⟨v, hv⟩ := Option.isSome_iff_exists.mp hbinds
    have hv' : p.right.forest.lookup? Machine.globals t.lexeme = some v :=
      (hs.matched.lookup?_partner hs.matched.globals t.lexeme).trans hv
    rw [Forest.holder?_of_binds _ hbinds, Forest.holder?_of_binds _ hsame, Option.bind_some,
      Option.bind_some, hv, hv']
    exact .pure_gives hs (hs.bound _ _ v (Forest.mem_bindingsOf hv))
  | false =>
    rw [hbinds] at hsame
    rw [holder?_globals hbinds, holder?_globals hsame, Option.bind_none, Option.bind_none]
    exact .failAt hs hguise _

theorem inStep_assignGlobal (hs : p.Sound G) {t t' : Token} (ht : G.Alike t t') {v : Value}
    (hv : p.Valid G v) :
    InStep G p (assignFrom Machine.globals t v) (assignFrom Machine.globals t' v)
      fun _ _ _ => True := by
  obtain ⟨hguise, hlexeme⟩ := ht
  rw [assignFrom, assignFrom, hlexeme]
  refine .get_bind ?_
  have hsame := binds_globals hs t.lexeme
  cases hbinds : p.left.forest.binds Machine.globals t.lexeme with
  | true =>
    rw [hbinds] at hsame
    rw [Forest.holder?_of_binds _ hbinds, Forest.holder?_of_binds _ hsame]
    exact (InStep.define hs hs.matched.globals t.lexeme hv).mono fun _ _ _ _ _ => trivial
  | false =>
    rw [hbinds] at hsame
    rw [holder?_globals hbinds, holder?_globals hsame]
    exact .failAt hs hguise _

/-- A name that is bound where the search begins is bound anew there. -/
theorem inStep_rebind (hs : p.Sound G) {f f' : FrameId} {σ : Equiv.Perm String}
    (hf : p.Partners f f' σ) {t t' : Token} (ht : t'.lexeme = σ t.lexeme)
    (hbinds : p.left.forest.binds f t.lexeme) {v : Value} (hv : p.Valid G v) :
    InStep G p (assignFrom f t v) (assignFrom f' t' v) fun _ _ _ => True := by
  have hbinds' := (hs.matched.binds_partner hf t.lexeme).trans hbinds
  rw [assignFrom, assignFrom, ht]
  refine .get_bind ?_
  rw [Forest.holder?_of_binds _ hbinds, Forest.holder?_of_binds _ hbinds']
  exact (InStep.define hs hf t.lexeme hv).mono fun _ _ _ _ _ => trivial

/-- Twin frames are read alike. A name that is not bound may be told by its renaming. -/
theorem inStep_readAt (h : p.Here G layers) {d d' : Nat} {σ : Equiv.Perm String}
    (hreaches : Layer.Reaches layers d d' σ) {x x' : String} (hx : x' = σ x)
    (hfault : Fault.Twins G (.access (.unbound x)) (.access (.unbound x'))) :
    InStep G p (readAt d x) (readAt d' x') (Gives fun q v => q.Valid G v) := by
  obtain ⟨g, g', hg, hg', hpartners⟩ := h.stands.exists_of_reaches hreaches
  have hlookup := h.sound.matched.lookup?_partner hpartners x
  rw [← hx] at hlookup
  rw [readAt, readAt]
  refine .get_bind ?_
  rw [Forest.getAt, Forest.getAt, hg, hg']
  dsimp only
  rw [hlookup]
  cases hv : p.left.forest.lookup? g x with
  | none => exact .faultWith h.sound hfault
  | some v => exact .pure_gives h.sound (h.sound.bound _ _ v (Forest.mem_bindingsOf hv))

/-- Twin frames are written alike. -/
theorem inStep_assignAt (h : p.Here G layers) {d d' : Nat} {σ : Equiv.Perm String}
    (hreaches : Layer.Reaches layers d d' σ) {t t' : Token} (hguise : G.of t t')
    (ht : t'.lexeme = σ t.lexeme) {v : Value} (hv : p.Valid G v) :
    InStep G p (assignAt d t v) (assignAt d' t' v) fun _ _ _ => True := by
  obtain ⟨g, g', hg, hg', hpartners⟩ := h.stands.exists_of_reaches hreaches
  have hbinds := h.sound.matched.binds_partner hpartners t.lexeme
  rw [assignAt, assignAt, ht]
  refine .get_bind ?_
  rw [Forest.holderAt, Forest.holderAt, hg, hg']
  dsimp only
  rw [hbinds]
  cases p.left.forest.binds g t.lexeme with
  | true => exact (InStep.define h.sound hpartners t.lexeme hv).mono fun _ _ _ _ _ => trivial
  | false => exact .faultWith h.sound (.unassignable hguise)

/-- References that are twins are read alike. -/
theorem inStep_read (h : p.Here G layers) {r r' : Reference Place} (hr : r.Twins G layers r') :
    InStep G p (Names.byDistance.read r) (Names.byDistance.read r')
      (Gives fun q v => q.Valid G v) := by
  obtain ⟨t, link⟩ := r
  obtain ⟨t', link'⟩ := r'
  obtain ⟨hguise, hplace⟩ := hr
  cases hplace with
  | global hname => exact inStep_readGlobal h.sound ⟨hguise, hname⟩
  | outward hreaches hname => exact inStep_readAt h hreaches hname (.unbound hguise)

/-- References that are twins are written alike. -/
theorem inStep_write (h : p.Here G layers) {r r' : Reference Place} (hr : r.Twins G layers r')
    {v : Value} (hv : p.Valid G v) :
    InStep G p (Names.byDistance.write r v) (Names.byDistance.write r' v) fun _ _ _ => True := by
  obtain ⟨t, link⟩ := r
  obtain ⟨t', link'⟩ := r'
  obtain ⟨hguise, hplace⟩ := hr
  cases hplace with
  | global hname => exact inStep_assignGlobal h.sound ⟨hguise, hname⟩ hv
  | outward hreaches hname => exact inStep_assignAt h hreaches hguise hname hv

/-! ### Objects -/

/-- Both machines find the same methods. -/
theorem findMethod?_eq (hs : p.Sound G) (id : ClassId) (name : String) :
    p.right.findMethod? id name = p.left.findMethod? id name :=
  Machine.findMethod?_congr hs.looksLike.classes id name

/-- The methods that a class has, its own or inherited, can be tied to instances. -/
theorem tied_of_findMethodWithin (hs : p.Sound G) {fuel : Nat} {id : ClassId} {name : String}
    {k : ClosureId} (h : p.left.findMethodWithin fuel id name = some k) : p.Tied G k := by
  induction fuel generalizing id with
  | zero => cases h
  | succ fuel ih =>
    rw [Machine.findMethodWithin] at h
    obtain ⟨record, hrecord, h⟩ := Option.bind_eq_some_iff.mp h
    cases hown : record.methods.lookup name with
    | some k' =>
      rw [hown] at h
      cases h
      exact hs.methods id record name k hrecord hown
    | none =>
      rw [hown] at h
      obtain ⟨parent, -, h⟩ := Option.bind_eq_some_iff.mp h
      exact ih h

/-- Tied to an instance, a method may be run. -/
theorem inStep_bindMethod (hs : p.Sound G) {k : ClosureId} (hk : p.Tied G k) {receiver : Value}
    (hv : p.Valid G receiver) :
    InStep G p (bindMethod k receiver) (bindMethod k receiver)
      (Gives fun q id => q.Valid G (.closure id)) := by
  obtain ⟨c, c', hc, hc', layers, hstands, hroutine, hinit⟩ := hk
  rw [bindMethod]
  refine .get_bind (.expectSome_bind hc hc' ?_)
  -- the frames between the homes of the method and its calls
  refine (InStep.newFrame hs hstands (.refl String)).bind fun q₁ home home' hq₁ hhome => ?_
  refine (InStep.define hq₁.sound hhome.1 "this" (hq₁.grows.valid hv)).bind fun q₂ _ _ hq₂ _ => ?_
  refine (InStep.newClosure hq₂.sound _ _).mono fun q₃ id id' hq₃ ⟨hid, hnew, hnew'⟩ => ?_
  refine ⟨hid, _, _, hnew, hnew', .same :: layers, ?_, hroutine, hinit, fun _ => ⟨layers, rfl⟩⟩
  exact (hq₂.grows.trans hq₃.grows).stands hhome

/-- A method that a class has makes a valid value with any valid receiver. -/
theorem inStep_boundMethod (hs : p.Sound G) {id : ClassId} {name : String} {k : ClosureId}
    (hmethod : p.left.findMethod? id name = some k) {receiver : Value} (hv : p.Valid G receiver) :
    InStep G p (do return .closure (← bindMethod k receiver))
      (do return .closure (← bindMethod k receiver)) (Gives fun q v => q.Valid G v) :=
  (inStep_bindMethod hs (tied_of_findMethodWithin hs hmethod) hv).bind_gives
    fun _ _ hq hvalid => .pure_gives hq.sound hvalid

/-- Properties are read alike. -/
theorem inStep_readProperty (hs : p.Sound G) {object : Value} (hv : p.Valid G object)
    {name name' : Token} (hname : G.Alike name name') :
    InStep G p (readProperty object name) (readProperty object name')
      (Gives fun q v => q.Valid G v) := by
  obtain ⟨hguise, hlexeme⟩ := hname
  cases object with
  | object id =>
    rw [readProperty, readProperty, hlexeme]
    refine .get_bind ?_
    rw [hs.looksLike.instances]
    cases hi : p.left.instances[id]? with
    | none => exact .faultWith hs (.same _)
    | some i =>
      refine .expectSome_bind rfl rfl ?_
      rw [findMethod?_eq hs]
      cases hfield : i.fields.lookup name.lexeme with
      | some v => exact .pure_gives hs (hs.fields id i name.lexeme v hi hfield)
      | none =>
        dsimp only
        cases hmethod : p.left.findMethod? i.klass name.lexeme with
        | none => exact .failAt hs hguise _
        | some k => exact inStep_boundMethod hs hmethod hv
  | _ => exact .failAt hs hguise _

/-- Methods of the superclass are found alike, through frames that bind `super` and `this` in
both machines. -/
theorem inStep_readInherited (h : p.Here G layers) {superclass superclass' : Reference Place}
    (hsuper : superclass.link.SuperTwins layers superclass'.link) {method method' : Token}
    (hmethod : G.Alike method method') :
    InStep G p (readInherited superclass method) (readInherited superclass' method')
      (Gives fun q v => q.Valid G v) := by
  obtain ⟨hguise, hlexeme⟩ := hmethod
  obtain ⟨t, link⟩ := superclass
  obtain ⟨t', link'⟩ := superclass'
  rw [readInherited, readInherited, hlexeme]
  cases hsuper with
  | global => exact .faultWith h.sound (.same _)
  | outward hreaches hkeyword hreaches' hkeyword' =>
    dsimp only
    refine (inStep_readAt h hreaches hkeyword.symm (.same _)).bind_gives
      fun q₁ parent hq₁ hparent => ?_
    refine (inStep_readAt (h.follow hq₁) hreaches' hkeyword'.symm (.same _)).bind_gives
      fun q₂ receiver hq₂ hreceiver => ?_
    cases parent with
    | klass id =>
      refine .get_bind ?_
      rw [findMethod?_eq hq₂.sound]
      cases hfound : q₂.left.findMethod? id method.lexeme with
      | none => exact .failAt hq₂.sound hguise _
      | some k => exact inStep_boundMethod hq₂.sound hfound hreceiver
    | _ => exact .faultWith hq₂.sound (.same _)

/-! ### Hosts -/

/-- The hosts find names by distance and get settled answers. What they run alike are closures that
mean the same in both machines. -/
structure Host.Twins (G : Guise) (host host' : Host) : Prop where
  names : host.names = .byDistance
  names' : host'.names = .byDistance
  honest : host.answers.Honest
  settled : host.answers.Settled
  answers : host'.answers = host.answers
  rounds : host'.rounds = host.rounds
  invoke : ∀ (p : Pairing) paren paren' (id : ClosureId) values, p.Sound G → G.of paren paren' →
    p.Valid G (.closure id) → (∀ v ∈ values, p.Valid G v) →
    InStep G p (host.invoke paren id values) (host'.invoke paren' id values)
      (Gives fun q v => q.Valid G v)

section Calls

variable {host host' : Host} (hosts : host.Twins G host')

/-- Parameters of twins are as many. -/
theorem length_params {routine routine' : Routine Place}
    (h : Stmt.RoutineTwins G layers routine routine') :
    routine'.params.length = routine.params.length := by
  cases h with
  | mk _ hparams _ => exact hparams.length_eq.symm

/-- Values that mean the same in both machines take as many arguments. -/
theorem arity?_eq (hs : p.Sound G) {callee : Value} (hv : p.Valid G callee) :
    arity? p.right callee = arity? p.left callee := by
  cases callee with
  | closure id =>
    obtain ⟨c, c', hc, hc', _, -, hroutine, -⟩ := hv
    rw [arity?, arity?, hc, hc']
    exact congrArg some (length_params hroutine)
  | klass id =>
    rw [arity?, arity?, findMethod?_eq hs]
    cases hmethod : p.left.findMethod? id initializerName with
    | none => rfl
    | some k =>
      obtain ⟨c, c', hc, hc', _, -, hroutine, -⟩ := tied_of_findMethodWithin hs hmethod
      rw [Option.bind_some, Option.bind_some, hc, hc', Option.map_some, Option.map_some,
        length_params hroutine]
  | _ => rfl

include hosts

/-- Functions of the host answer alike. -/
theorem inStep_callNative (hs : p.Sound G) (f : Native) {values : List Value}
    (hvalues : ∀ v ∈ values, p.Valid G v) :
    InStep G p (callNative host f values) (callNative host' f values)
      (Gives fun q v => q.Valid G v) := by
  have hlooks := hs.looksLike
  let m : Machine := { p.left with calls := (f, values) :: p.left.calls }
  let m' : Machine := { p.right with calls := (f, values) :: p.right.calls }
  have hcalls : m.LooksLike m' :=
    ⟨hlooks.classes, hlooks.instances, hlooks.output, hlooks.clock,
      congrArg (List.cons _) hlooks.calls⟩
  have hset : p.Grows (p.set m m') ∧ (p.set m m').Sound G :=
    Pairing.grows_set hs rfl rfl (fun _ _ h => h) (fun _ _ h => h) hs.closures hcalls
      (fun _ i _ _ hi hx => .inl ⟨i, hi, hx⟩)
      (fun f' vs v hf hv => by
        rcases List.mem_cons.mp hf with heq | hf
        · cases heq
          exact .inr (hvalues v hv)
        · exact .inl hf)
      fun _ _ _ _ hc _ => .inl hc
  refine .of_step rfl rfl rfl rfl hset ⟨?_, hset.2.valid_of_offers (hosts.honest _ f values rfl)⟩
  rw [hosts.answers]
  exact hosts.settled _ _ f values hcalls

/-- Instances are made alike. -/
theorem inStep_construct (hs : p.Sound G) {paren paren' : Token} (hparen : G.of paren paren')
    (klass : ClassId) {values : List Value} (hvalues : ∀ v ∈ values, p.Valid G v) :
    InStep G p (construct host paren klass values) (construct host' paren' klass values)
      (Gives fun q v => q.Valid G v) := by
  rw [construct, construct]
  refine (InStep.newInstance hs klass).bind_gives fun q₁ id hq₁ _ => .get_bind ?_
  rw [findMethod?_eq hq₁.sound]
  cases hmethod : q₁.left.findMethod? klass initializerName with
  | none => exact .pure_gives hq₁.sound trivial
  | some k =>
    have hobject : q₁.Valid G (.object id) := trivial
    refine (inStep_bindMethod hq₁.sound (tied_of_findMethodWithin hq₁.sound hmethod)
      hobject).bind_gives fun q₂ k' hq₂ hk' => ?_
    have hvalues₂ : ∀ v ∈ values, q₂.Valid G v := fun v hv =>
      hq₂.grows.valid (hq₁.grows.valid (hvalues v hv))
    refine (hosts.invoke q₂ paren paren' k' values hq₂.sound hparen hk' hvalues₂).bind_gives
      fun q₃ _ hq₃ _ => ?_
    exact .pure_gives hq₃.sound trivial

/-- Valid values are called alike. -/
theorem inStep_callValue (hs : p.Sound G) {paren paren' : Token} (hparen : G.of paren paren')
    {callee : Value} {values : List Value} (hcallee : p.Valid G callee)
    (hvalues : ∀ v ∈ values, p.Valid G v) :
    InStep G p (callValue host paren callee values) (callValue host' paren' callee values)
      (Gives fun q v => q.Valid G v) := by
  unfold callValue
  refine .get_bind ?_
  rw [arity?_eq hs hcallee]
  cases arity? p.left callee with
  | none => exact .failAt hs hparen _
  | some arity =>
    dsimp only
    split
    · exact .failAt hs hparen _
    · cases callee with
      | native f => exact inStep_callNative hosts hs f hvalues
      | closure id => exact hosts.invoke p paren paren' id values hs hparen hcallee hvalues
      | klass id => exact inStep_construct hosts hs hparen id hvalues
      | _ => exact .failAt hs hparen _

end Calls

end Run

end LoxInterpreter
