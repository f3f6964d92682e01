import LoxInterpreter.Proofs.Run.Operation
import LoxInterpreter.Proofs.Twin.Objects

/-!
# Twin trees are evaluated in step

Twin trees, run by twin hosts from the machines of a sound pairing, end alike.

* `inStep_evaluate` goes by recursion on the tree, and `inStep_execute` by recursion on how the two
  trees are related: where the second one has braces of its own, the first one stays the same.
* `inStep_runClosure` runs the bodies of a closure in partners. From it `twins_hostBy` ties the knot,
  by induction on the depth of calls.
* `inStep_interpret` is about whole programs.
-/

namespace LoxInterpreter.Run

variable {G : Guise} {p : Pairing} {layers : List Layer}

/-! ### Operators -/

theorem Operation.inStep (hs : p.Sound G) {known : Prop} {op op' : Token} (hop : G.of op op')
    {act act' : Run Value} (h : Operation known op op' act act') :
    InStep G p act act' (Gives fun q v => q.Valid G v) := by
  cases h with
  | value hplain => exact .pure_gives hs (p.valid_of_isPlain hplain)
  | blame _ => exact .failAt hs hop _
  | unknown _ => exact .faultWith hs (.badOperator hop)

theorem settles_eq {op op' : Token} (hop : G.of op op') (left : Value) :
    settles op' left = settles op left := by
  rw [settles, settles, G.kind hop]

/-! ### Expressions -/

section Trees

variable {host host' : Host}

/-- References that are twins are read alike by twin hosts. -/
theorem inStep_hostRead (hosts : host.Twins G host') (h : p.Here G layers)
    {r r' : Reference Place} (hr : r.Twins G layers r') :
    InStep G p (host.names.read r) (host'.names.read r') (Gives fun q v => q.Valid G v) := by
  rw [hosts.names, hosts.names']
  exact inStep_read h hr

mutual

/-- Twin expressions have the same value. -/
theorem inStep_evaluate (hosts : host.Twins G host') (e e' : Expr Place) {p : Pairing}
    (h : p.Here G layers) (he : e.Twins G layers e') :
    InStep G p (evaluate host e) (evaluate host' e') (Gives fun q v => q.Valid G v) := by
  cases e' with
  | literal value =>
    cases he
    cases value <;> exact .pure_gives h.sound trivial
  | grouping inner' =>
    cases he with
    | @grouping inner _ hinner => exact inStep_evaluate hosts inner inner' h hinner
  | unary op' operand' =>
    cases he with
    | unary hop hoperand =>
      refine (inStep_evaluate hosts _ operand' h hoperand).bind_gives fun q₁ x hq₁ _ => ?_
      exact (operation_unary (G.kind hop) x).inStep hq₁.sound hop
  | binary left' op' right' =>
    cases he with
    | binary hleft hop hright =>
      refine (inStep_evaluate hosts _ left' h hleft).bind_gives fun q₁ x hq₁ _ => ?_
      refine (inStep_evaluate hosts _ right' (h.follow hq₁) hright).bind_gives
        fun q₂ y hq₂ _ => ?_
      exact (operation_binary (G.kind hop) x y).inStep hq₂.sound hop
  | logical left' op' right' =>
    cases he with
    | logical hleft hop hright =>
      refine (inStep_evaluate hosts _ left' h hleft).bind_gives fun q₁ x hq₁ hx => ?_
      rw [settles_eq hop]
      split
      · exact .pure_gives hq₁.sound hx
      · exact inStep_evaluate hosts _ right' (h.follow hq₁) hright
  | reference target' =>
    cases he with
    | reference htarget => exact inStep_hostRead hosts h htarget
  | assign target' value' =>
    cases he with
    | assign htarget hvalue =>
      refine (inStep_evaluate hosts _ value' h hvalue).bind_gives fun q₁ x hq₁ hx => ?_
      rw [hosts.names, hosts.names']
      refine (inStep_write (h.follow hq₁) htarget hx).bind fun q₂ _ _ hq₂ _ => ?_
      exact .pure_gives hq₂.sound (hq₂.grows.valid hx)
  | call callee' paren' values' =>
    cases he with
    | call hcallee hparen hvalues =>
      refine (inStep_evaluate hosts _ callee' h hcallee).bind_gives fun q₁ f hq₁ hf => ?_
      refine (inStep_evaluateAll hosts _ values' (h.follow hq₁) hvalues).bind_gives
        fun q₂ xs hq₂ hxs => ?_
      exact inStep_callValue hosts hq₂.sound hparen (hq₂.grows.valid hf) hxs
  | property object' name' =>
    cases he with
    | property hobject hname =>
      refine (inStep_evaluate hosts _ object' h hobject).bind_gives fun q₁ x hq₁ hx => ?_
      exact inStep_readProperty hq₁.sound hx hname
  | setProperty object' name' value' =>
    cases he with
    | setProperty hobject hname hvalue =>
      refine (inStep_evaluate hosts _ object' h hobject).bind_gives fun q₁ x hq₁ _ => ?_
      cases x with
      | object id =>
        refine (inStep_evaluate hosts _ value' (h.follow hq₁) hvalue).bind_gives
          fun q₂ y hq₂ hy => ?_
        rw [hname.2]
        refine (InStep.setField hq₂.sound id _ hy).bind fun q₃ _ _ hq₃ _ => ?_
        exact .pure_gives hq₃.sound (hq₃.grows.valid hy)
      | _ => exact .failAt hq₁.sound hname.1 _
  | this receiver' =>
    cases he with
    | this hreceiver => exact inStep_hostRead hosts h hreceiver
  | inherited superclass' method' =>
    cases he with
    | inherited hsuper hmethod => exact inStep_readInherited h hsuper hmethod

/-- Twin expressions have the same values, in order. -/
theorem inStep_evaluateAll (hosts : host.Twins G host') (es es' : List (Expr Place)) {p : Pairing}
    (h : p.Here G layers) (hes : List.Forall₂ (Expr.Twins G layers) es es') :
    InStep G p (evaluateAll host es) (evaluateAll host' es')
      (Gives fun q xs => ∀ x ∈ xs, q.Valid G x) := by
  cases es' with
  | nil =>
    cases hes
    exact .pure_gives h.sound (List.forall_mem_nil _)
  | cons e' rest' =>
    cases hes with
    | cons he hrest =>
      refine (inStep_evaluate hosts _ e' h he).bind_gives fun q₁ x hq₁ hx => ?_
      refine (inStep_evaluateAll hosts _ rest' (h.follow hq₁) hrest).bind_gives
        fun q₂ xs hq₂ hxs => ?_
      exact .pure_gives hq₂.sound (List.forall_mem_cons.mpr ⟨hq₂.grows.valid hx, hxs⟩)

end

theorem inStep_evaluateOptional (hosts : host.Twins G host') {value value' : Option (Expr Place)}
    (h : p.Here G layers) (hvalue : Option.Rel (Expr.Twins G layers) value value') :
    InStep G p (evaluateOptional host value) (evaluateOptional host' value')
      (Gives fun q v => q.Valid G v) := by
  cases hvalue with
  | none => exact .pure_gives h.sound trivial
  | some he => exact inStep_evaluate hosts _ _ h he

/-! ### Statements -/

/-- A statement carries on, or hands back a valid value. -/
def Ending (G : Guise) (q : Pairing) : Completion → Prop
  | .normal => True
  | .returning value => q.Valid G value

/-- In another frame the value is as valid. -/
theorem Ending.goTo {q : Pairing} (hs : q.Sound G) {c : Completion} (h : Ending G q c)
    (f f' : FrameId) : Ending G (q.goTo f f') c := by
  cases c with
  | normal => trivial
  | returning value => exact (Pairing.grows_goTo hs f f').1.valid h

/-- A statement alone ends as it does among others. -/
theorem executeAll_singleton (host : Host) (s : Stmt Place) :
    executeAll host [s] = execute host s := by
  funext m
  rw [executeAll]
  show EStateM.bind (execute host s) _ m = _
  rw [EStateM.bind]
  cases hrun : execute host s m with
  | ok c m =>
    cases c with
    | normal => rfl
    | returning value => rfl
  | error e m => rfl

/-- Loops end as their bodies do. -/
theorem inStep_repeatWhile {test test' : Run Bool} {body body' : Run Completion}
    (htest : ∀ p : Pairing, p.Here G layers → InStep G p test test' (Gives fun _ _ => True))
    (hbody : ∀ p : Pairing, p.Here G layers → InStep G p body body' (Gives (Ending G)))
    (rounds : Nat) {p : Pairing} (h : p.Here G layers) :
    InStep G p (repeatWhile test body rounds) (repeatWhile test' body' rounds)
      (Gives (Ending G)) := by
  induction rounds generalizing p with
  | zero => exact .of_error rfl rfl h.sound .exhausted
  | succ rounds ih =>
    refine (htest p h).bind_gives fun q₁ goesOn hq₁ _ => ?_
    cases goesOn with
    | false => exact .pure_gives hq₁.sound trivial
    | true =>
      refine (hbody q₁ (h.follow hq₁)).bind_gives fun q₂ c hq₂ hc => ?_
      cases c with
      | normal => exact ih (h.follow (hq₁.trans hq₂))
      | returning value => exact .pure_gives hq₂.sound hc

/-- The heads of twin classes name the same superclass. -/
theorem inStep_superclassOf (hosts : host.Twins G host')
    {superclass superclass' : Option (Reference Place)} (h : p.Here G layers)
    (hsuper : Option.Rel (Reference.Twins G layers) superclass superclass') :
    InStep G p (superclassOf host superclass) (superclassOf host' superclass')
      (Gives fun _ parent => parent.isSome = superclass.isSome) := by
  cases hsuper with
  | none => exact .pure_gives h.sound rfl
  | some htarget =>
    refine (inStep_hostRead hosts h htarget).bind_gives fun q₁ x hq₁ _ => ?_
    cases x with
    | klass id => exact .pure_gives hq₁.sound rfl
    | _ => exact .failAt hq₁.sound htarget.token _

/-- Twin methods can be tied to instances. -/
theorem inStep_newMethods {home home' : FrameId} {methods methods' : List (Routine Place)}
    (hmethods : Stmt.MethodsTwins G (.same :: layers) methods methods') {p : Pairing}
    (hs : p.Sound G) (hhome : p.Stands layers home home') {table : List (String × ClosureId)}
    (htable : ∀ x k, table.lookup x = some k → p.Tied G k) :
    InStep G p (newMethods home table methods) (newMethods home' table methods')
      (Gives fun q table => ∀ x k, table.lookup x = some k → q.Tied G k) := by
  induction methods generalizing methods' p table with
  | nil =>
    cases hmethods
    exact .pure_gives hs htable
  | cons m rest ih =>
    cases hmethods with
    | @cons _ _ m' _ rest' hm hrest =>
      rw [newMethods, newMethods]
      have hname : m'.name.lexeme = m.name.lexeme := by
        cases hm with
        | mk hname _ _ => exact hname
      rw [hname]
      refine (InStep.newClosure hs _ _).bind_gives fun q₁ id hq₁ ⟨hid, hid'⟩ => ?_
      have hhome₁ := hq₁.grows.stands hhome
      refine ih hrest hq₁.sound hhome₁ fun x k hk => ?_
      rw [lookup_bindName] at hk
      split at hk
      · cases hk
        exact ⟨_, _, hid, hid', layers, hhome₁, hm, rfl⟩
      · exact hq₁.grows.tied (htable x k hk)

/-- Twin classes are declared alike. -/
theorem inStep_declareClass (hosts : host.Twins G host') {name name' : Token}
    {superclass superclass' : Option (Reference Place)} {methods methods' : List (Routine Place)}
    (h : p.Here G layers) (hdeclares : Layer.Declares layers name.lexeme name'.lexeme)
    (hname : G.Alike name name')
    (hsuper : Option.Rel (Reference.Twins G layers) superclass superclass')
    (hmethods : Stmt.MethodsTwins G (.same :: Layer.aroundMethods superclass layers) methods
      methods') :
    InStep G p (declareClass host name superclass methods)
      (declareClass host' name' superclass' methods') fun _ _ _ => True := by
  rw [declareClass, declareClass]
  refine (inStep_superclassOf hosts h hsuper).bind_gives fun q₁ parent hq₁ hsome => ?_
  have h₁ := h.follow hq₁
  refine .get_bind ?_
  obtain ⟨σ, hpartners, hlexeme⟩ :=
    h₁.stands.exists_of_declares h₁.sound.matched hdeclares
  rw [hlexeme]
  refine (InStep.define h₁.sound hpartners name.lexeme (v := .nil) trivial).bind
    fun q₂ _ _ hq₂ hbinds => ?_
  have hhome := hq₂.grows.stands h₁.stands
  -- what remains is the same whether there is a superclass or not
  have hfinish {natal natal' : FrameId} {outer : List Layer} {q₃ : Pairing}
      (hq₃ : q₂.Follows G q₃) (hnatal : q₃.Stands outer natal natal')
      (htwins : Stmt.MethodsTwins G (.same :: outer) methods methods') :
      InStep G q₃
        (do
          let table ← newMethods natal [] methods
          let id ← newClass ⟨name.lexeme, parent, table⟩
          assignFrom q₁.left.current name (.klass id))
        (do
          let table ← newMethods natal' [] methods'
          let id ← newClass ⟨σ name.lexeme, parent, table⟩
          assignFrom q₁.right.current name' (.klass id))
        fun _ _ _ => True := by
    have hrecord : σ name.lexeme = name.lexeme := hlexeme.symm.trans hname.2
    rw [hrecord]
    refine (inStep_newMethods htwins hq₃.sound hnatal (by simp)).bind_gives
      fun q₄ table hq₄ htable => ?_
    refine (InStep.newClass hq₄.sound _ htable).bind_gives fun q₅ id hq₅ _ => ?_
    -- the name was bound before the methods were made, and still is
    have hq := (hq₃.trans hq₄).trans hq₅
    exact inStep_rebind hq₅.sound ((hq₂.trans hq).grows.partners _ _ _ hpartners) hlexeme
      (hq.grows.binds _ _ hbinds) trivial
  cases superclass with
  | none =>
    obtain rfl : parent = none :=
      Option.isNone_iff_eq_none.mp (Option.isSome_eq_false_iff.mp hsome)
    exact hfinish (.refl hq₂.sound) hhome hmethods
  | some target =>
    obtain ⟨id, rfl⟩ := Option.isSome_iff_exists.mp hsome
    refine (InStep.newFrame hq₂.sound hhome (.refl String)).bind
      fun q₃ natal natal' hq₃ hnatal => ?_
    refine (InStep.define hq₃.sound hnatal.1 "super" (v := .klass id) trivial).bind
      fun q₄ _ _ hq₄ _ => ?_
    exact .pure_bind (hfinish (hq₃.trans hq₄) (hq₄.grows.stands hnatal) hmethods)

mutual

/-- Twin statements are executed alike. -/
theorem inStep_execute (hosts : host.Twins G host') {s s' : Stmt Place} {layers : List Layer}
    (hs : s.Twins G layers s') {p : Pairing} (h : p.Here G layers) :
    InStep G p (execute host s) (execute host' s') (Gives (Ending G)) := by
  match layers, s, s', hs with
  | _, _, _, .malformed => exact .pure_gives h.sound trivial
  | _, _, _, .expression hvalue =>
    refine (inStep_evaluate hosts _ _ h hvalue).bind_gives fun q₁ x hq₁ _ => ?_
    exact .pure_gives hq₁.sound trivial
  | _, _, _, .print hvalue =>
    refine (inStep_evaluate hosts _ _ h hvalue).bind_gives fun q₁ x hq₁ hx => .get_bind ?_
    rw [hq₁.sound.textOf_eq hx]
    refine (InStep.printLine hq₁.sound _).bind fun q₂ _ _ hq₂ _ => ?_
    exact .pure_gives hq₂.sound trivial
  | _, _, _, .declare hdeclares hinitial =>
    refine (inStep_evaluateOptional hosts h hinitial).bind_gives fun q₁ x hq₁ hx => .get_bind ?_
    have h₁ := h.follow hq₁
    obtain ⟨σ, hpartners, hlexeme⟩ := h₁.stands.exists_of_declares h₁.sound.matched hdeclares
    rw [hlexeme]
    refine (InStep.define h₁.sound hpartners _ hx).bind fun q₂ _ _ hq₂ _ => ?_
    exact .pure_gives hq₂.sound trivial
  | _, _, _, @Stmt.Twins.block _ _ σ _ _ hbody =>
    refine .get_bind ?_
    refine (InStep.newFrame h.sound h.stands σ).bind fun q₁ frame frame' hq₁ hframe => ?_
    have hrun := inStep_executeAll hosts hbody (.goTo hq₁.sound hframe)
    refine .inFrame hq₁.sound (hrun.mono fun q₂ c c' hq₂ hc => ?_)
    exact ⟨hc.1, hc.2.goTo hq₂.sound _ _⟩
  | _, _, _, .branch hcondition htrue =>
    refine (inStep_evaluate hosts _ _ h hcondition).bind_gives fun q₁ x hq₁ _ => ?_
    split
    · exact inStep_execute hosts htrue (h.follow hq₁)
    · exact .pure_gives hq₁.sound trivial
  | _, _, _, .branchElse hcondition htrue hfalse =>
    refine (inStep_evaluate hosts _ _ h hcondition).bind_gives fun q₁ x hq₁ _ => ?_
    split
    · exact inStep_execute hosts htrue (h.follow hq₁)
    · exact inStep_execute hosts hfalse (h.follow hq₁)
  | layers, _, _, @Stmt.Twins.loop _ _ condition condition' body body' hcondition hbody =>
    have htest (p : Pairing) (h : p.Here G layers) :
        InStep G p (do return (← evaluate host condition).truthy)
          (do return (← evaluate host' condition').truthy) (Gives fun _ _ => True) :=
      (inStep_evaluate hosts _ _ h hcondition).bind_gives fun q₁ x hq₁ _ =>
        .pure_gives hq₁.sound trivial
    have hround (p : Pairing) (h : p.Here G layers) :
        InStep G p (execute host body) (execute host' body') (Gives (Ending G)) :=
      inStep_execute hosts hbody h
    have hloop := inStep_repeatWhile htest hround host.rounds h
    unfold execute
    rw [hosts.rounds]
    exact hloop
  | layers, _, _, .function hdeclares hroutine =>
    refine .get_bind ?_
    refine (InStep.newClosure h.sound _ _).bind_gives fun q₁ id hq₁ ⟨hid, hid'⟩ => ?_
    have hhome := hq₁.grows.stands h.stands
    obtain ⟨σ, hpartners, hlexeme⟩ := hhome.exists_of_declares hq₁.sound.matched hdeclares
    rw [hlexeme]
    -- what the closure means does not depend on its name being bound
    have hvalid : q₁.Valid G (.closure id) :=
      ⟨_, _, hid, hid', layers, hhome, hroutine, rfl, nofun⟩
    refine (InStep.define hq₁.sound hpartners _ hvalid).bind fun q₂ _ _ hq₂ _ => ?_
    exact .pure_gives hq₂.sound trivial
  | _, _, _, .giveBack hvalue =>
    refine (inStep_evaluateOptional hosts h hvalue).bind_gives fun q₁ x hq₁ hx => ?_
    exact .pure_gives hq₁.sound hx
  | _, _, _, .klass hdeclares hname hsuper hmethods =>
    refine (inStep_declareClass hosts h hdeclares hname hsuper hmethods).bind
      fun q₁ _ _ hq₁ _ => ?_
    exact .pure_gives hq₁.sound trivial
  | _, _, _, .braced hbraced =>
    refine .braced h fun q hq => ?_
    have hrun := inStep_execute hosts hbraced hq
    rw [executeAll_singleton]
    exact hrun.mono fun q₁ c c' hq₁ hc => ⟨hc.1, hc.2.goTo hq₁.sound _ _⟩

/-- Twin statements are executed alike, one after the other. -/
theorem inStep_executeAll (hosts : host.Twins G host') {body body' : List (Stmt Place)}
    {layers : List Layer} (hbody : Stmt.BodyTwins G layers body body') {p : Pairing}
    (h : p.Here G layers) :
    InStep G p (executeAll host body) (executeAll host' body') (Gives (Ending G)) := by
  match layers, body, body', hbody with
  | _, _, _, .nil => exact .pure_gives h.sound trivial
  | _, _, _, .cons hs hrest =>
    refine (inStep_execute hosts hs h).bind_gives fun q₁ c hq₁ hc => ?_
    cases c with
    | normal => exact inStep_executeAll hosts hrest (h.follow hq₁)
    | returning value => exact .pure_gives hq₁.sound hc

end

/-! ### Closures -/

/-- Parameters are bound to the same values in partners. -/
theorem inStep_bindParams {frame frame' : FrameId} {σ : Equiv.Perm String}
    {params params' : List Token} {values : List Value}
    (hparams : List.Forall₂ (fun param param' => param'.lexeme = σ param.lexeme) params params')
    {p : Pairing} (hs : p.Sound G) (hframe : p.Partners frame frame' σ)
    (hvalues : ∀ v ∈ values, p.Valid G v) :
    InStep G p (bindParams frame params values) (bindParams frame' params' values)
      fun _ _ _ => True := by
  induction hparams generalizing values p with
  | nil =>
    cases values with
    | nil | cons => exact .pure hs trivial
  | cons hparam _ ih =>
    cases values with
    | nil => exact .pure hs trivial
    | cons value values =>
      obtain ⟨hvalue, hvalues⟩ := List.forall_mem_cons.mp hvalues
      rw [bindParams, bindParams, hparam]
      refine (InStep.define hs hframe _ hvalue).bind fun q₁ _ _ hq₁ _ => ?_
      exact ih hq₁.sound (hq₁.grows.partners _ _ _ hframe)
        fun v hv => hq₁.grows.valid (hvalues v hv)

/-- A closure that means the same in both machines is run alike. -/
theorem inStep_runClosure (hosts : host.Twins G host') {p : Pairing} (hs : p.Sound G)
    {id : ClosureId} (hid : p.Valid G (.closure id)) {values : List Value}
    (hvalues : ∀ v ∈ values, p.Valid G v) :
    InStep G p (runClosure host id values) (runClosure host' id values)
      (Gives fun q v => q.Valid G v) := by
  obtain ⟨⟨routine, home, isInitializer⟩, ⟨routine', home', isInitializer'⟩, hc, hc', layers,
    hhome, hroutine, rfl, hthis⟩ := hid
  rw [runClosure, runClosure]
  refine .get_bind (.expectSome_bind hc hc' ?_)
  cases hroutine with
  | @mk _ σ _ _ _ _ body body' _ hparams hbody =>
    refine (InStep.newFrame hs hhome σ).bind fun q₁ frame frame' hq₁ hframe => ?_
    refine (inStep_bindParams hparams hq₁.sound hframe.1 fun v hv =>
      hq₁.grows.valid (hvalues v hv)).bind fun q₂ _ _ hq₂ _ => ?_
    have hrun := inStep_executeAll hosts hbody (.goTo hq₂.sound (hq₂.grows.stands hframe))
    refine (InStep.inFrame (Q := Gives (Ending G)) hq₂.sound (hrun.mono fun q₃ c c' hq₃ hc =>
      ⟨hc.1, hc.2.goTo hq₃.sound _ _⟩)).bind_gives fun q₃ completion hq₃ hcompletion => ?_
    dsimp only
    split
    · next hinit =>
      -- an initializer was tied to its instance, which the homes bind to the same value
      obtain ⟨outer, rfl⟩ := hthis hinit
      have hq := (hq₁.trans hq₂).trans hq₃
      have hpartners := hq.grows.partners _ _ _ hhome.1
      refine .get_bind ?_
      have hlookup : q₃.right.forest.lookup? home' "this" = q₃.left.forest.lookup? home "this" :=
        hq₃.sound.matched.lookup?_partner hpartners "this"
      rw [Forest.getAt, Forest.getAt, Forest.ancestor?, Forest.ancestor?]
      dsimp only
      rw [hlookup]
      cases hv : q₃.left.forest.lookup? home "this" with
      | none => exact .faultWith hq₃.sound (.same _)
      | some v => exact .pure_gives hq₃.sound (hq₃.sound.bound _ _ v (Forest.mem_bindingsOf hv))
    · cases completion with
      | normal => exact .pure_gives hq₃.sound trivial
      | returning value => exact .pure_gives hq₃.sound hcompletion

end Trees

/-- **The knot.** Hosts under the same limits are twins, however deep calls may be. -/
theorem twins_hostBy {answers : Answers} (honest : answers.Honest) (settled : answers.Settled)
    (limits : Limits) :
    (limits.hostBy .byDistance answers).Twins G (limits.hostBy .byDistance answers) := by
  refine ⟨rfl, rfl, honest, settled, rfl, rfl, ?_⟩
  show ∀ (p : Pairing) paren paren' (id : ClosureId) values, p.Sound G → G.of paren paren' →
    p.Valid G (.closure id) → (∀ v ∈ values, p.Valid G v) →
    InStep G p (invokeAt .byDistance answers limits.rounds limits.depth paren id values)
      (invokeAt .byDistance answers limits.rounds limits.depth paren' id values)
      (Gives fun q v => q.Valid G v)
  induction limits.depth with
  | zero =>
    intro p paren paren' id values hs hparen _ _
    exact .failAt hs hparen .stackOverflow
  | succ depth ih =>
    intro p paren paren' id values hs _ hid hvalues
    have hosts : Host.Twins G
        ⟨.byDistance, answers, invokeAt .byDistance answers limits.rounds depth, limits.rounds⟩
        ⟨.byDistance, answers, invokeAt .byDistance answers limits.rounds depth, limits.rounds⟩ :=
      ⟨rfl, rfl, honest, settled, rfl, rfl, ih⟩
    exact inStep_runClosure hosts hs hid hvalues

/-- Twin programs end alike. -/
theorem inStep_interpret {host host' : Host} (hosts : host.Twins G host')
    {program program' : List (Stmt Place)} {p : Pairing} (h : p.Here G [])
    (hprogram : Stmt.BodyTwins G [] program program') :
    InStep G p (interpret host program) (interpret host' program') fun _ _ _ => True := by
  induction program generalizing program' p with
  | nil =>
    cases hprogram
    exact .pure h.sound trivial
  | cons s rest ih =>
    cases hprogram with
    | cons hs hrest =>
      refine (inStep_execute hosts hs h).bind_gives fun q₁ c hq₁ _ => ?_
      cases c with
      | normal => exact ih (h.follow hq₁) hrest
      | returning value => exact .faultWith hq₁.sound (.same _)

end LoxInterpreter.Run
