import LoxInterpreter.Proofs.Run.Objects
import LoxInterpreter.Proofs.Run.Operation

/-!
# Evaluation keeps the invariant

What fits a place may be evaluated and executed there: the run keeps the invariant, and matching
hosts run it alike.

* `together_evaluate` and `together_execute` go by recursion on the tree. After a statement the name
  that it declares is bound for certain, and only inside of a routine does a statement hand a value
  back (`Carries`).
* `together_runClosure` runs the body of a closure in a new frame. From it `matches_hostBy` ties the
  knot, by induction on the depth of calls.
-/

namespace LoxInterpreter.Run

variable {Φ : Site Place → Prop} {scopes : Scopes} {around : List LocalScope}

/-! ### Operators -/

section Operators

variable {w : World Φ}

theorem Operation.together (hs : w.Sound) {known : Prop} (hknown : known) {op : Token}
    {act act' : Run Value} (h : Operation known op op act act') :
    Together w act act' World.Valid := by
  cases h with
  | value hplain => exact .pure hs (w.valid_of_isPlain hplain)
  | blame _ => exact .failAt hs _ _
  | unknown hunknown => exact absurd hknown hunknown

end Operators

/-! ### Expressions -/

section Trees

variable {host host' : Host}

mutual

/-- An expression that fits has a valid value. -/
theorem together_evaluate (hosts : host.Matches Φ host') (e : Expr Place) {w : World Φ}
    {initializing : Option Token} (h : w.Here scopes around)
    (hfits : e.Fits Φ scopes around initializing) :
    Together w (evaluate host e) (evaluate host' e) World.Valid := by
  cases e with
  | literal value => cases value <;> exact .pure h.sound trivial
  | grouping inner => exact together_evaluate hosts inner h hfits
  | unary op operand =>
    obtain ⟨hop, hoperand⟩ := hfits
    refine (together_evaluate hosts operand h hoperand).bind fun w₁ x hw₁ _ => ?_
    exact (operation_unary rfl x).together hw₁.sound hop
  | binary left op right =>
    obtain ⟨hop, hleft, hright⟩ := hfits
    refine (together_evaluate hosts left h hleft).bind fun w₁ x hw₁ _ => ?_
    refine (together_evaluate hosts right (h.follow hw₁) hright).bind fun w₂ y hw₂ _ => ?_
    exact (operation_binary rfl x y).together hw₂.sound hop
  | logical left op right =>
    obtain ⟨hleft, hright⟩ := hfits
    refine (together_evaluate hosts left h hleft).bind fun w₁ x hw₁ hx => ?_
    split
    · exact .pure hw₁.sound hx
    · exact together_evaluate hosts right (h.follow hw₁) hright
  | reference target => exact together_hostRead hosts h hfits
  | assign target value =>
    obtain ⟨htarget, hvalue⟩ := hfits
    refine (together_evaluate hosts value h hvalue).bind fun w₁ x hw₁ hx => ?_
    refine (together_hostWrite hosts (h.follow hw₁) htarget hx).bind fun w₂ _ hw₂ _ => ?_
    exact .pure hw₂.sound (hw₂.grows.valid hx)
  | call callee paren values =>
    obtain ⟨hcallee, hvalues⟩ := hfits
    refine (together_evaluate hosts callee h hcallee).bind fun w₁ f hw₁ hf => ?_
    refine (together_evaluateAll hosts values (h.follow hw₁) hvalues).bind fun w₂ xs hw₂ hxs => ?_
    exact together_callValue hosts hw₂.sound paren (hw₂.grows.valid hf) hxs
  | property object name =>
    refine (together_evaluate hosts object h hfits).bind fun w₁ x hw₁ hx => ?_
    exact together_readProperty hw₁.sound hx name
  | setProperty object name value =>
    obtain ⟨hobject, hvalue⟩ := hfits
    refine (together_evaluate hosts object h hobject).bind fun w₁ x hw₁ _ => ?_
    cases x with
    | object id =>
      refine (together_evaluate hosts value (h.follow hw₁) hvalue).bind fun w₂ y hw₂ hy => ?_
      refine (Together.setField hw₂.sound id name.lexeme hy).bind fun w₃ _ hw₃ _ => ?_
      exact .pure hw₃.sound (hw₃.grows.valid hy)
    | _ => exact .failAt hw₁.sound _ _
  | this receiver => exact together_hostRead hosts h hfits.2.2
  | inherited superclass method => exact together_readInherited h hfits method

/-- Expressions that fit have valid values. -/
theorem together_evaluateAll (hosts : host.Matches Φ host') (es : List (Expr Place))
    {w : World Φ} {initializing : Option Token} (h : w.Here scopes around)
    (hfits : Expr.FitAll Φ scopes around initializing es) :
    Together w (evaluateAll host es) (evaluateAll host' es) fun w' xs => ∀ x ∈ xs, w'.Valid x := by
  cases es with
  | nil => exact .pure h.sound (List.forall_mem_nil _)
  | cons e rest =>
    obtain ⟨he, hrest⟩ := hfits
    refine (together_evaluate hosts e h he).bind fun w₁ x hw₁ hx => ?_
    refine (together_evaluateAll hosts rest (h.follow hw₁) hrest).bind fun w₂ xs hw₂ hxs => ?_
    exact .pure hw₂.sound (List.forall_mem_cons.mpr ⟨hw₂.grows.valid hx, hxs⟩)

end

theorem together_evaluateOptional (hosts : host.Matches Φ host') {value : Option (Expr Place)}
    {w : World Φ} {initializing : Option Token} (h : w.Here scopes around)
    (hfits : ∀ e ∈ value, e.Fits Φ scopes around initializing) :
    Together w (evaluateOptional host value) (evaluateOptional host' value) World.Valid := by
  cases value with
  | none => exact .pure h.sound trivial
  | some e => exact together_evaluate hosts e h (hfits e rfl)

/-! ### Statements -/

/-- A statement carries on, or it hands a valid value back to the call around it. -/
def Ends (inRoutine : Bool) (w : World Φ) : Completion → Prop
  | .normal => True
  | .returning value => inRoutine ∧ w.Valid value

/-- Where a statement carries on, what it declares is bound for certain. -/
def Carries (scopes : Scopes) (around : List LocalScope) (inRoutine : Bool) (w : World Φ)
    (c : Completion) : Prop :=
  Ends inRoutine w c ∧ (c = .normal → w.Stands w.machine.current scopes around)

theorem Ends.mono {inRoutine : Bool} {w w' : World Φ} {c : Completion} (h : Ends inRoutine w c)
    (hw : w.Grows w') : Ends inRoutine w' c := by
  cases c with
  | normal => trivial
  | returning value => exact ⟨h.1, hw.valid h.2⟩

/-- A statement that declares nothing carries on in the same scopes. -/
theorem Ends.carries {inRoutine : Bool} {w w' : World Φ} {c : Completion} (hc : Ends inRoutine w' c)
    (h : w.Here scopes around) (hw : w.Follows w') : Carries scopes around inRoutine w' c :=
  ⟨hc, fun _ => (h.follow hw).stands⟩

/-- A loop ends as its body does. -/
theorem together_repeatWhile {inRoutine : Bool} {test test' : Run Bool}
    {body body' : Run Completion}
    (htest : ∀ w : World Φ, w.Here scopes around → Together w test test' fun _ _ => True)
    (hbody : ∀ w : World Φ, w.Here scopes around → Together w body body' (Ends inRoutine))
    (rounds : Nat) {w : World Φ} (h : w.Here scopes around) :
    Together w (repeatWhile test body rounds) (repeatWhile test' body' rounds)
      (Ends inRoutine) := by
  induction rounds generalizing w with
  | zero => exact .of_error rfl h.sound trivial
  | succ rounds ih =>
    refine (htest w h).bind fun w₁ goesOn hw₁ _ => ?_
    cases goesOn with
    | false => exact .pure hw₁.sound trivial
    | true =>
      refine (hbody w₁ (h.follow hw₁)).bind fun w₂ c hw₂ hc => ?_
      -- a round has bound nothing new, and the next one starts from the same place
      cases c with
      | normal => exact ih (h.follow (hw₁.trans hw₂))
      | returning value => exact .pure hw₂.sound hc

/-- What the head of a class names is a class, or the declaration fails. -/
theorem together_superclassOf (hosts : host.Matches Φ host') {superclass : Option (Reference Place)}
    {w : World Φ} (h : w.Here scopes around) (hfits : ∀ target ∈ superclass,
      Site.ReadFits Φ scopes ⟨.read, ⟨target, target.label⟩, around, none⟩) :
    Together w (superclassOf host superclass) (superclassOf host' superclass) fun w' parent =>
      parent.isSome = superclass.isSome ∧ ∀ id ∈ parent, w'.Valid (.klass id) := by
  cases superclass with
  | none => exact .pure h.sound ⟨rfl, by simp⟩
  | some target =>
    refine (together_hostRead hosts h (hfits target rfl)).bind fun w₁ x hw₁ hx => ?_
    cases x with
    | klass id =>
      refine .pure hw₁.sound ⟨rfl, ?_⟩
      rintro _ ⟨⟩
      exact hx
    | _ => exact .failAt hw₁.sound _ _

/-- The methods of a class can be tied to its instances. -/
theorem together_newMethods {home : FrameId} {methods : List (Routine Place)}
    (hfits : Stmt.MethodsFit Φ (["this"] :: scopes) (.keyword "this" :: around) methods)
    {w : World Φ} (hs : w.Sound) (hhome : w.Stands home scopes around)
    {table : List (String × ClosureId)}
    (htable : ∀ x k, table.lookup x = some k →
      ∃ c, w.machine.closures[k]? = some c ∧ w.Ties c) :
    Together w (newMethods home table methods) (newMethods home table methods) fun w' table' =>
      ∀ x k, table'.lookup x = some k → ∃ c, w'.machine.closures[k]? = some c ∧ w'.Ties c := by
  induction methods generalizing w table with
  | nil => exact .pure hs htable
  | cons m rest ih =>
    obtain ⟨hm, hrest⟩ := hfits
    rw [newMethods]
    refine (Together.newClosure hs _).bind fun w₁ id hw₁ hid => ?_
    have hhome₁ := hw₁.grows.stands hhome
    refine ih hrest hw₁.sound hhome₁ fun x k hk => ?_
    rw [lookup_bindName] at hk
    split at hk
    · cases hk
      exact ⟨_, hid, scopes, around, hhome₁, hm⟩
    · obtain ⟨c, hc, hties⟩ := htable x k hk
      exact ⟨c, hw₁.grows.closures k c hc, hw₁.grows.ties hties⟩

/-- After its declaration a class is bound for certain. -/
theorem together_declareClass (hosts : host.Matches Φ host') {name : Token}
    {superclass : Option (Reference Place)} {methods : List (Routine Place)} {w : World Φ}
    (h : w.Here scopes around) (hdeclared : DeclaredAround around name) (hname : name.IsName)
    (hsuper : ∀ target ∈ superclass,
      Site.ReadFits Φ scopes ⟨.read, ⟨target, target.label⟩, around, none⟩)
    (hmethods : Stmt.MethodsFit Φ ((scopes.bind name.lexeme).enterClass superclass)
      (LocalScope.aroundMethods superclass around) methods) :
    Together w (declareClass host name superclass methods)
      (declareClass host' name superclass methods)
      fun w' _ => w'.Stands w'.machine.current (scopes.bind name.lexeme) around := by
  rw [declareClass]
  refine (together_superclassOf hosts h hsuper).bind fun w₁ parent hw₁ ⟨hsome, hparent⟩ => ?_
  have h₁ := h.follow hw₁
  refine .get_bind ?_
  refine (Together.define h₁.sound h₁.stands (hdeclared.admits .nil) trivial).bind
    fun w₂ _ hw₂ ⟨hhome, _⟩ => ?_
  -- what remains is the same whether there is a superclass or not
  have hfinish {natal : FrameId} {outer : Scopes} {inner : List LocalScope} {w₃ : World Φ}
      (hw₃ : w₂.Follows w₃) (hnatal : w₃.Stands natal outer inner)
      (hfit : Stmt.MethodsFit Φ (["this"] :: outer) (.keyword "this" :: inner) methods) :
      Together w₃
        (do
          let table ← newMethods natal [] methods
          let id ← newClass ⟨name.lexeme, parent, table⟩
          assignFrom w₁.machine.current name (.klass id))
        (do
          let table ← newMethods natal [] methods
          let id ← newClass ⟨name.lexeme, parent, table⟩
          assignFrom w₁.machine.current name (.klass id))
        fun w' _ => w'.Stands w'.machine.current (scopes.bind name.lexeme) around := by
    refine (together_newMethods hfit hw₃.sound hnatal (by simp)).bind fun w₄ table hw₄ htable => ?_
    refine (Together.newClass hw₄.sound _ htable).bind fun w₅ id hw₅ hid => ?_
    refine (together_assignFrom hw₅.sound _ hname.2 hid).mono fun w₆ _ hw₆ _ => ?_
    have hw := ((hw₃.trans hw₄).trans hw₅).trans hw₆
    -- the name was bound before the methods were made, and still is
    rw [hw.current, hw₂.current]
    exact hw.grows.stands hhome
  cases superclass with
  | none =>
    obtain rfl : parent = none :=
      Option.isNone_iff_eq_none.mp (Option.isSome_eq_false_iff.mp hsome)
    exact hfinish (.refl hw₂.sound) hhome hmethods
  | some target =>
    obtain ⟨id, rfl⟩ := Option.isSome_iff_exists.mp hsome
    refine (Together.newFrame hw₂.sound hhome (.keyword "super")).bind fun w₃ natal hw₃ hnatal => ?_
    have hid : w₃.Valid (.klass id) := (hw₂.trans hw₃).grows.valid (hparent id rfl)
    refine (Together.define hw₃.sound hnatal ⟨rfl, fun _ => ⟨id, rfl⟩⟩ hid).bind
      fun w₄ _ hw₄ ⟨hnatal, _⟩ => ?_
    exact .pure_bind (hfinish (hw₃.trans hw₄) hnatal hmethods)

mutual

/-- A statement that fits keeps the invariant, and binds what it declares. -/
theorem together_execute (hosts : host.Matches Φ host') (s : Stmt Place) {scopes : Scopes}
    {around : List LocalScope} {inRoutine : Bool} {w : World Φ} (h : w.Here scopes around)
    (hfits : s.Fits Φ scopes around inRoutine) :
    Together w (execute host s) (execute host' s)
      (Carries (scopes.enter s) around inRoutine) := by
  match s with
  | .malformed => exact .pure h.sound ⟨trivial, fun _ => h.stands⟩
  | .expression value =>
    refine (together_evaluate hosts value h hfits).bind fun w₁ x hw₁ _ => ?_
    exact .pure hw₁.sound (Ends.carries trivial h hw₁)
  | .print value =>
    refine (together_evaluate hosts value h hfits).bind fun w₁ x hw₁ _ => .get_bind ?_
    refine (Together.printLine hw₁.sound _).bind fun w₂ _ hw₂ _ => ?_
    exact .pure hw₂.sound (Ends.carries trivial h (hw₁.trans hw₂))
  | .declare name initial =>
    obtain ⟨hdeclared, -, hinitial⟩ := hfits
    refine (together_evaluateOptional hosts h hinitial).bind fun w₁ x hw₁ hx => .get_bind ?_
    have h₁ := h.follow hw₁
    refine (Together.define h₁.sound h₁.stands (hdeclared.admits x) hx).bind
      fun w₂ _ hw₂ ⟨hstands, _⟩ => ?_
    refine .pure hw₂.sound ⟨trivial, fun _ => ?_⟩
    rw [hw₂.current]
    exact hstands
  | .block body =>
    refine .get_bind ?_
    refine (Together.newFrame h.sound h.stands (.declaring (declaredIn body))).bind
      fun w₁ frame hw₁ hframe => ?_
    have hbody := together_executeAll hosts body (.goTo hw₁.sound hframe) hfits
    refine (Together.inFrame hw₁.sound frame (hbody.mono fun w₂ c hw₂ hc => ?_)).mono
      fun w₂ c hw₂ hc => Ends.carries hc h (hw₁.trans hw₂)
    exact hc.mono (World.grows_goTo hw₂.sound _).1
  | .branch condition whenTrue none =>
    obtain ⟨hcondition, hnone, htrue⟩ := hfits
    refine (together_evaluate hosts condition h hcondition).bind fun w₁ x hw₁ _ => ?_
    split
    · have hbranch := together_execute hosts whenTrue (h.follow hw₁) htrue
      exact hbranch.mono fun w₂ c hw₂ hc => hc.1.carries h (hw₁.trans hw₂)
    · exact .pure hw₁.sound (Ends.carries trivial h hw₁)
  | .branch condition whenTrue (some whenFalse) =>
    obtain ⟨hcondition, ⟨-, htrue⟩, -, hfalse⟩ := hfits
    refine (together_evaluate hosts condition h hcondition).bind fun w₁ x hw₁ _ => ?_
    split
    · have hbranch := together_execute hosts whenTrue (h.follow hw₁) htrue
      exact hbranch.mono fun w₂ c hw₂ hc => hc.1.carries h (hw₁.trans hw₂)
    · have hbranch := together_execute hosts whenFalse (h.follow hw₁) hfalse
      exact hbranch.mono fun w₂ c hw₂ hc => hc.1.carries h (hw₁.trans hw₂)
  | .loop condition body =>
    obtain ⟨hcondition, -, hbody⟩ := hfits
    have htest (w : World Φ) (h : w.Here scopes around) :
        Together w (do return (← evaluate host condition).truthy)
          (do return (← evaluate host' condition).truthy) fun _ _ => True :=
      (together_evaluate hosts condition h hcondition).bind fun w₁ x hw₁ _ =>
        .pure hw₁.sound trivial
    have hround (w : World Φ) (h : w.Here scopes around) :
        Together w (execute host body) (execute host' body) (Ends inRoutine) :=
      (together_execute hosts body h hbody).mono fun w₁ c hw₁ hc => hc.1
    have hloop := together_repeatWhile htest hround host.rounds h
    unfold execute
    rw [hosts.rounds]
    exact hloop.mono fun w₁ c hw₁ hc => hc.carries h hw₁
  | .function routine =>
    obtain ⟨hdeclared, -, hroutine⟩ := hfits
    refine .get_bind ?_
    refine (Together.newClosure h.sound _).bind fun w₁ id hw₁ hid => ?_
    have hhome := hw₁.grows.stands h.stands
    -- the closure is valid once its name has been bound, which is what its body counts on
    have hvalid : (w₁.define w.machine.current routine.name.lexeme (.closure id)).Valid
        (.closure id) :=
      ⟨_, hid, _, around, World.stands_define hw₁.sound hhome, hroutine, nofun⟩
    refine (Together.define_new hw₁.sound hhome (hdeclared.admits _) hvalid).bind
      fun w₂ _ hw₂ ⟨hstands, _⟩ => ?_
    refine .pure hw₂.sound ⟨trivial, fun _ => ?_⟩
    rw [(hw₁.trans hw₂).current]
    exact hstands
  | .giveBack _ value =>
    obtain ⟨hin, hvalue⟩ := hfits
    refine (together_evaluateOptional hosts h hvalue).bind fun w₁ x hw₁ hx => ?_
    exact .pure hw₁.sound (Ends.carries ⟨hin, hx⟩ h hw₁)
  | .klass name superclass methods =>
    obtain ⟨hdeclared, hname, hsuper, hmethods⟩ := hfits
    refine (together_declareClass hosts h hdeclared hname hsuper hmethods).bind
      fun w₁ _ hw₁ hstands => ?_
    exact .pure hw₁.sound ⟨trivial, fun _ => hstands⟩

/-- Statements that fit keep the invariant, one after the other. -/
theorem together_executeAll (hosts : host.Matches Φ host') (body : List (Stmt Place))
    {scopes : Scopes} {around : List LocalScope} {inRoutine : Bool} {w : World Φ}
    (h : w.Here scopes around) (hfits : Stmt.BodyFits Φ scopes around inRoutine body) :
    Together w (executeAll host body) (executeAll host' body) (Ends inRoutine) := by
  match body with
  | [] => exact .pure h.sound trivial
  | s :: rest =>
    obtain ⟨hs, hrest⟩ := hfits
    refine (together_execute hosts s h hs).bind fun w₁ c hw₁ ⟨hc, hstands⟩ => ?_
    cases c with
    | normal => exact together_executeAll hosts rest ⟨hw₁.sound, hstands rfl⟩ hrest
    | returning value => exact .pure hw₁.sound hc

end

/-! ### Closures -/

/-- With as many values as there are parameters, all parameters are bound. -/
theorem together_bindParams (seen : List Token) {frame : FrameId} {names params : List Token}
    {values : List Value} {w : World Φ} (hs : w.Sound)
    (hframe : w.Stands frame (stackOf seen :: scopes) (.declaring names :: around))
    (hparams : ∀ param ∈ params, param ∈ names) (hlength : values.length = params.length)
    (hvalues : ∀ v ∈ values, w.Valid v) :
    Together w (bindParams frame params values) (bindParams frame params values) fun w' _ =>
      w'.Stands frame (stackOf (seen ++ params) :: scopes) (.declaring names :: around) := by
  induction params generalizing seen values w with
  | nil =>
    obtain rfl := List.eq_nil_of_length_eq_zero hlength
    rw [List.append_nil]
    exact .pure hs hframe
  | cons param params ih =>
    cases values with
    | nil => cases hlength
    | cons value values =>
      obtain ⟨hvalue, hvalues⟩ := List.forall_mem_cons.mp hvalues
      obtain ⟨hparam, hparams⟩ := List.forall_mem_cons.mp hparams
      rw [bindParams]
      refine (Together.define hs hframe ⟨param, hparam, rfl⟩ hvalue).bind
        fun w₁ _ hw₁ ⟨hframe₁, _⟩ => ?_
      have hstack : Scopes.bind param.lexeme (stackOf seen :: scopes) =
          stackOf (seen ++ [param]) :: scopes := by
        simp [stackOf, Scopes.bind]
      rw [hstack] at hframe₁
      have hrest := ih (seen ++ [param]) hw₁.sound hframe₁ hparams (Nat.succ.inj hlength)
        fun v hv => hw₁.grows.valid (hvalues v hv)
      rwa [List.append_assoc] at hrest

/-- A closure that may be run, and gets as many valid values as it takes, comes to a valid value. -/
theorem together_runClosure (hosts : host.Matches Φ host') {w : World Φ} (hs : w.Sound)
    {id : ClosureId} {c : Closure} (hc : w.machine.closures[id]? = some c) (hruns : w.Runs c)
    {values : List Value} (hlength : values.length = c.routine.params.length)
    (hvalues : ∀ v ∈ values, w.Valid v) :
    Together w (runClosure host id values) (runClosure host' id values) World.Valid := by
  obtain ⟨scopes, around, hhome, hfits, hthis⟩ := hruns
  obtain ⟨⟨name, params, body⟩, home, isInitializer⟩ := c
  obtain ⟨-, hfits, -⟩ := hfits
  rw [runClosure]
  refine .get_bind (.expectSome_bind hc ?_)
  refine (Together.newFrame hs hhome (.declaring (params ++ declaredIn body))).bind
    fun w₁ frame hw₁ hframe => ?_
  refine (together_bindParams [] hw₁.sound hframe
    (fun param hparam => List.mem_append_left _ hparam) hlength
    fun v hv => hw₁.grows.valid (hvalues v hv)).bind fun w₂ _ hw₂ hframe₂ => ?_
  have hbody := together_executeAll hosts body (.goTo hw₂.sound hframe₂) hfits
  refine (Together.inFrame (Q := Ends true) hw₂.sound frame (hbody.mono fun w₃ c hw₃ hc =>
    hc.mono (World.grows_goTo hw₃.sound _).1)).bind fun w₃ completion hw₃ hcompletion => ?_
  dsimp only
  split
  · next hinit =>
    -- an initializer was tied to its instance, which it hands back
    have hbinds := ((hw₁.trans hw₂).trans hw₃).grows.binds home "this" (hthis hinit).2
    obtain ⟨receiver, hreceiver⟩ := Option.isSome_iff_exists.mp hbinds
    refine .get_bind ?_
    rw [Forest.getAt_eq_ok rfl hreceiver]
    exact .pure hw₃.sound (hw₃.sound.bound home "this" receiver hreceiver)
  · cases completion with
    | normal => exact .pure hw₃.sound trivial
    | returning value => exact .pure hw₃.sound hcompletion.2

end Trees

/-- **The knot.** Hosts that find names by distance and in a way that comes to the same match,
however deep calls may be. -/
theorem matches_hostBy {names : Names} (hnames : names.Agree Φ) {answers : Answers}
    (hanswers : answers.Honest) (limits : Limits) :
    (limits.hostBy .byDistance answers).Matches Φ (limits.hostBy names answers) := by
  refine ⟨rfl, hnames, hanswers, rfl, rfl, ?_⟩
  show ∀ (w : World Φ) paren (id : ClosureId) c values, w.Sound →
    w.machine.closures[id]? = some c → w.Runs c → values.length = c.routine.params.length →
    (∀ v ∈ values, w.Valid v) →
    Together w (invokeAt .byDistance answers limits.rounds limits.depth paren id values)
      (invokeAt names answers limits.rounds limits.depth paren id values) World.Valid
  induction limits.depth with
  | zero => exact fun w paren id c values hs _ _ _ _ => .failAt hs paren .stackOverflow
  | succ depth ih =>
    intro w paren id c values hs hc hruns hlength hvalues
    have hosts : Host.Matches Φ
        ⟨.byDistance, answers, invokeAt .byDistance answers limits.rounds depth, limits.rounds⟩
        ⟨names, answers, invokeAt names answers limits.rounds depth, limits.rounds⟩ :=
      ⟨rfl, hnames, hanswers, rfl, rfl, ih⟩
    exact together_runClosure hosts hs hc hruns hlength hvalues

/-- A program that fits the top level keeps the invariant. -/
theorem together_interpret {host host' : Host} (hosts : host.Matches Φ host')
    (program : List (Stmt Place)) {w : World Φ} (h : w.Here [] [])
    (hfits : Stmt.BodyFits Φ [] [] false program) :
    Together w (interpret host program) (interpret host' program) fun _ _ => True := by
  induction program generalizing w with
  | nil => exact .pure h.sound trivial
  | cons s rest ih =>
    obtain ⟨hs, hrest⟩ := hfits
    refine (together_execute hosts s h hs).bind fun w₁ c hw₁ ⟨hc, _⟩ => ?_
    cases c with
    | normal =>
      have henter : Scopes.enter [] s = [] :=
        List.eq_nil_of_length_eq_zero (Scopes.length_enter s)
      rw [henter] at hrest
      exact ih (h.follow hw₁) hrest
    | returning value =>
      -- nothing hands a value back at the top level
      exact absurd hc.1 Bool.false_ne_true

end LoxInterpreter.Run
