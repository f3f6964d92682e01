import LoxInterpreter.Proofs.Run.Evaluation
import LoxInterpreter.Proofs.Watch.Keywords

/-!
# Evaluation with a ledger

What fits a place may be evaluated and executed there with a ledger: the run takes the course of the
plain run, and the ledger stays right. The recursion on the tree is that of evaluation; each step
takes what it needs to know of the world from the plain run (`together_evaluate`,
`together_execute`). `faithful_watcher` ties the knot, by induction on the depth of calls.
-/

namespace LoxInterpreter.Run

variable {Φ : Site Place → Prop} {scopes : Scopes} {around : List LocalScope} {bond : Bond}
  {watcher : Watcher}

/-! ### Expressions -/

mutual

/-- An expression that fits is evaluated alike with a ledger. -/
theorem alongside_evaluate (hwatcher : watcher.Faithful Φ) (e : Expr Place) {w : World Φ}
    {initializing : Option Token} (h : w.Here scopes around)
    (hfits : e.Fits Φ scopes around initializing) :
    Alongside w bond (evaluate watcher.host e) (Watched.evaluate watcher bond e) := by
  have hosts := hwatcher.hosts
  cases e with
  | literal value => exact .pure _
  | grouping inner => exact alongside_evaluate hwatcher inner h hfits
  | unary op operand =>
    obtain ⟨-, hoperand⟩ := hfits
    refine (alongside_evaluate hwatcher operand h hoperand).bind
      (together_evaluate hosts operand h hoperand) fun w₁ x hw₁ _ => ?_
    exact .lift (operation_unary rfl x).quiet
  | binary left op right =>
    obtain ⟨-, hleft, hright⟩ := hfits
    refine (alongside_evaluate hwatcher left h hleft).bind
      (together_evaluate hosts left h hleft) fun w₁ x hw₁ _ => ?_
    have h₁ := h.follow hw₁.follows
    refine (alongside_evaluate hwatcher right h₁ hright).bind
      (together_evaluate hosts right h₁ hright) fun w₂ y hw₂ _ => ?_
    exact .lift (operation_binary rfl x y).quiet
  | logical left op right =>
    obtain ⟨hleft, hright⟩ := hfits
    refine (alongside_evaluate hwatcher left h hleft).bind
      (together_evaluate hosts left h hleft) fun w₁ x hw₁ _ => ?_
    split
    · exact .pure x
    · exact alongside_evaluate hwatcher right (h.follow hw₁.follows) hright
  | reference target =>
    rw [evaluate, Watched.evaluate, hosts.names]
    exact .lift (quiet_read target)
  | assign target value =>
    obtain ⟨htarget, hvalue⟩ := hfits
    refine (alongside_evaluate hwatcher value h hvalue).bind
      (together_evaluate hosts value h hvalue) fun w₁ x hw₁ hx => ?_
    have hwrite := together_hostWrite hosts (h.follow hw₁.follows) htarget hx
    rw [hosts.names] at hwrite ⊢
    exact (Alongside.lift (quiet_write htarget.2.1 x)).bind hwrite fun w₂ _ _ _ => .pure x
  | call callee paren values =>
    obtain ⟨hcallee, hvalues⟩ := hfits
    refine (alongside_evaluate hwatcher callee h hcallee).bind
      (together_evaluate hosts callee h hcallee) fun w₁ f hw₁ hf => ?_
    have h₁ := h.follow hw₁.follows
    refine (alongside_evaluateAll hwatcher values h₁ hvalues).bind
      (together_evaluateAll hosts values h₁ hvalues) fun w₂ xs hw₂ hxs => ?_
    exact alongside_callValue hwatcher hw₂.follows.sound paren (hw₂.follows.grows.valid hf) hxs
  | property object name =>
    refine (alongside_evaluate hwatcher object h hfits).bind
      (together_evaluate hosts object h hfits) fun w₁ x hw₁ hx => ?_
    exact alongside_readProperty hw₁.follows.sound hx name
  | setProperty object name value =>
    obtain ⟨hobject, hvalue⟩ := hfits
    refine (alongside_evaluate hwatcher object h hobject).bind
      (together_evaluate hosts object h hobject) fun w₁ x hw₁ _ => ?_
    have h₁ := h.follow hw₁.follows
    cases x with
    | object id =>
      refine (alongside_evaluate hwatcher value h₁ hvalue).bind
        (together_evaluate hosts value h₁ hvalue) fun w₂ y hw₂ hy => ?_
      exact (Alongside.lift (quiet_setField id name.lexeme y)).bind
        (Together.setField hw₂.follows.sound id name.lexeme hy) fun w₃ _ _ _ => .pure y
    | _ => exact .lift (.failAt _ _)
  | this receiver =>
    obtain ⟨hname, hthis, hplace⟩ := hfits
    rw [evaluate, Watched.evaluate, hosts.names]
    exact alongside_this h hname hthis hplace
  | inherited superclass method => exact alongside_readInherited h hfits method

/-- Expressions that fit are evaluated alike with a ledger. -/
theorem alongside_evaluateAll (hwatcher : watcher.Faithful Φ) (es : List (Expr Place))
    {w : World Φ} {initializing : Option Token} (h : w.Here scopes around)
    (hfits : Expr.FitAll Φ scopes around initializing es) :
    Alongside w bond (evaluateAll watcher.host es) (Watched.evaluateAll watcher bond es) := by
  have hosts := hwatcher.hosts
  cases es with
  | nil => exact .pure _
  | cons e rest =>
    obtain ⟨he, hrest⟩ := hfits
    refine (alongside_evaluate hwatcher e h he).bind
      (together_evaluate hosts e h he) fun w₁ x hw₁ _ => ?_
    have h₁ := h.follow hw₁.follows
    exact (alongside_evaluateAll hwatcher rest h₁ hrest).bind
      (together_evaluateAll hosts rest h₁ hrest) fun w₂ xs _ _ => .pure _

end

theorem alongside_evaluateOptional (hwatcher : watcher.Faithful Φ) {value : Option (Expr Place)}
    {w : World Φ} {initializing : Option Token} (h : w.Here scopes around)
    (hfits : ∀ e ∈ value, e.Fits Φ scopes around initializing) :
    Alongside w bond (evaluateOptional watcher.host value)
      (Watched.evaluateOptional watcher bond value) := by
  cases value with
  | none => exact .pure _
  | some e => exact alongside_evaluate hwatcher e h (hfits e rfl)

/-! ### Statements -/

/-- A new frame holds what the frame around it holds. -/
theorem holds_newFrame {w w' : World Φ} {home frame : FrameId} (h : w.machine.Holds home bond)
    (hw' : Reaches w (newFrame home) w' frame) : w'.machine.Holds frame bond := by
  obtain ⟨rfl, hmachine⟩ := EStateM.Result.ok.inj hw'.eq
  rw [← hmachine]
  exact h.push

/-- A loop is gone round alike with a ledger. -/
theorem alongside_repeatWhile {test : Run Bool} {body : Run Completion} {test' : Watched Bool}
    {body' : Watched Completion}
    (htest : ∀ w : World Φ, w.Here scopes around → Alongside w bond test test' ∧
      Together w test test fun _ _ => True)
    (hbody : ∀ w : World Φ, w.Here scopes around → Alongside w bond body body' ∧
      Together w body body fun _ _ => True)
    (rounds : Nat) {w : World Φ} (h : w.Here scopes around) :
    Alongside w bond (repeatWhile test body rounds) (Watched.repeatWhile test' body' rounds) := by
  induction rounds generalizing w with
  | zero => exact .lift (.throw _)
  | succ rounds ih =>
    obtain ⟨htest₁, htest₂⟩ := htest w h
    refine htest₁.bind htest₂ fun w₁ goesOn hw₁ _ => ?_
    cases goesOn with
    | false => exact .pure _
    | true =>
      have h₁ := h.follow hw₁.follows
      obtain ⟨hbody₁, hbody₂⟩ := hbody w₁ h₁
      refine hbody₁.bind hbody₂ fun w₂ c hw₂ _ => ?_
      cases c with
      | normal => exact ih (h₁.follow hw₂.follows)
      | returning value => exact .pure _

/-- Methods are made with the bond that their home holds. -/
theorem alongside_newMethods {home : FrameId} {inner : Bond} (methods : List (Routine Place))
    {w : World Φ} (hs : w.Sound) (hhome : w.machine.Holds home inner)
    (table : List (String × ClosureId)) :
    Alongside w bond (newMethods home table methods)
      (Watched.newMethods inner home table methods) := by
  induction methods generalizing w table with
  | nil => exact .pure _
  | cons m rest ih =>
    rw [newMethods, Watched.newMethods]
    refine (Alongside.newClosure hhome rfl).bind (Together.newClosure hs _) fun w₁ id hw₁ _ => ?_
    exact ih hw₁.follows.sound (hhome.ages hw₁.ages) _

/-- The frame of a class binds `super` to the superclass. -/
theorem together_newFrameBinding {w : World Φ} (hs : w.Sound) {home : FrameId}
    (hhome : w.Stands home scopes around) {id : ClassId} (hid : w.Valid (.klass id)) :
    Together w (Watched.newFrameBinding home "super" (.klass id))
      (Watched.newFrameBinding home "super" (.klass id))
      fun w' natal => w'.Stands natal (["super"] :: scopes) (.keyword "super" :: around) := by
  refine (Together.newFrame hs hhome (.keyword "super")).bind fun w₁ natal hw₁ hnatal => ?_
  refine (Together.define hw₁.sound hnatal ⟨rfl, fun _ => ⟨id, rfl⟩⟩ (hw₁.grows.valid hid)).bind
    fun w₂ _ hw₂ ⟨hnatal, _⟩ => ?_
  exact .pure hw₂.sound hnatal

/-- A class puts its superclass around its methods. -/
theorem alongside_declareClass (hwatcher : watcher.Faithful Φ) {name : Token}
    {superclass : Option (Reference Place)} {methods : List (Routine Place)} {w : World Φ}
    (h : w.Here scopes around) (hdeclared : DeclaredAround around name) (hname : name.IsName)
    (hsuper : ∀ target ∈ superclass,
      Site.ReadFits Φ scopes ⟨.read, ⟨target, target.label⟩, around, none⟩)
    (hmethods : Stmt.MethodsFit Φ ((scopes.bind name.lexeme).enterClass superclass)
      (LocalScope.aroundMethods superclass around) methods) :
    Alongside w bond (declareClass watcher.host name superclass methods)
      (Watched.declareClass watcher bond name superclass methods) := by
  have hosts := hwatcher.hosts
  rw [declareClass, Watched.declareClass]
  refine (Alongside.lift (quiet_superclassOf hosts.names superclass)).bind
    (together_superclassOf hosts h hsuper) fun w₁ parent hw₁ hclass => ?_
  obtain ⟨hsome, hparent⟩ := hclass
  have h₁ := h.follow hw₁.follows
  refine .get_bind fun s hs => ?_
  rw [hs]
  refine (Alongside.lift (quiet_define _ hname _)).bind
    (Together.define h₁.sound h₁.stands (hdeclared.admits .nil) trivial)
    fun w₂ _ hw₂ hbound => .of_holds fun hholds => ?_
  obtain ⟨hhome, -⟩ := hbound
  rw [hw₂.follows.current] at hholds
  -- what remains is the same whether there is a superclass or not
  have hfinish {natal : FrameId} {outer : Scopes} {inner : List LocalScope} {w₃ : World Φ}
      (hs : w₃.Sound) (hnatal : w₃.Stands natal outer inner)
      (hfit : Stmt.MethodsFit Φ (["this"] :: outer) (.keyword "this" :: inner) methods)
      (hholds : w₃.machine.Holds natal (bond.inClass parent)) :
      Alongside w₃ bond
        (do
          let table ← newMethods natal [] methods
          let id ← newClass ⟨name.lexeme, parent, table⟩
          assignFrom w₁.machine.current name (.klass id))
        (do
          let table ← Watched.newMethods (bond.inClass parent) natal [] methods
          let id ← Noting.lift (newClass ⟨name.lexeme, parent, table⟩)
          Noting.lift (assignFrom w₁.machine.current name (.klass id))) := by
    refine (alongside_newMethods methods hs hholds []).bind
      (together_newMethods hfit hs hnatal (by simp)) fun w₄ table hw₄ htable => ?_
    refine (Alongside.lift (quiet_newClass _)).bind
      (Together.newClass hw₄.follows.sound _ htable) fun w₅ id hw₅ _ => ?_
    exact .lift (quiet_assignFrom _ hname _)
  cases superclass with
  | none =>
    obtain rfl : parent = none :=
      Option.isNone_iff_eq_none.mp (Option.isSome_eq_false_iff.mp hsome)
    exact hfinish hw₂.follows.sound hhome hmethods hholds
  | some target =>
    obtain ⟨id, rfl⟩ := Option.isSome_iff_exists.mp hsome
    have hid : w₂.Valid (.klass id) := hw₂.follows.grows.valid (hparent id rfl)
    have hnatal (w₃ : World Φ) (natal : FrameId) (hw₃ : Reaches w₂
        (Watched.newFrameBinding w₁.machine.current "super" (.klass id)) w₃ natal) :
        w₃.machine.Holds natal (.superclass id :: bond) := by
      obtain ⟨rfl, hmachine⟩ := EStateM.Result.ok.inj hw₃.eq
      rw [← hmachine]
      exact hholds.push_super id
    have hrest := (Alongside.lift (quiet_newFrameBinding _ _ _)).bind
      (together_newFrameBinding hw₂.follows.sound hhome hid) fun w₃ natal hw₃ hstands =>
        hfinish hw₃.follows.sound hstands hmethods (hnatal w₃ natal hw₃)
    exact hrest

mutual

/-- A statement that fits is executed alike with a ledger. -/
theorem alongside_execute (hwatcher : watcher.Faithful Φ) (s : Stmt Place) {scopes : Scopes}
    {around : List LocalScope} {bond : Bond} {inRoutine : Bool} {w : World Φ}
    (h : w.Here scopes around) (hfits : s.Fits Φ scopes around inRoutine) :
    Alongside w bond (execute watcher.host s) (Watched.execute watcher bond s) := by
  have hosts := hwatcher.hosts
  match s with
  | .malformed => exact .pure _
  | .expression value =>
    exact (alongside_evaluate hwatcher value h hfits).bind (together_evaluate hosts value h hfits)
      fun w₁ x _ _ => .pure _
  | .print value =>
    refine (alongside_evaluate hwatcher value h hfits).bind
      (together_evaluate hosts value h hfits) fun w₁ x hw₁ _ => .get_bind fun s hs => ?_
    rw [hs]
    exact (Alongside.lift (quiet_printLine _)).bind (Together.printLine hw₁.follows.sound _)
      fun w₂ _ _ _ => .pure _
  | .declare name initial =>
    obtain ⟨hdeclared, hname, hinitial⟩ := hfits
    refine (alongside_evaluateOptional hwatcher h hinitial).bind
      (together_evaluateOptional hosts h hinitial) fun w₁ x hw₁ hx => .get_bind fun s hs => ?_
    rw [hs]
    have h₁ := h.follow hw₁.follows
    exact (Alongside.lift (quiet_define _ hname x)).bind
      (Together.define h₁.sound h₁.stands (hdeclared.admits x) hx) fun w₂ _ _ _ => .pure _
  | .block body =>
    refine .get_bind fun s hs => .of_holds fun hholds => ?_
    rw [hs]
    refine (Alongside.lift (quiet_newFrame _)).bind
      (Together.newFrame h.sound h.stands (.declaring (declaredIn body)))
      fun w₁ frame hw₁ hframe => ?_
    refine .inFrame ?_ (alongside_executeAll hwatcher body (.goTo hw₁.follows.sound hframe) hfits)
    exact holds_newFrame hholds hw₁
  | .branch condition whenTrue none =>
    obtain ⟨hcondition, -, htrue⟩ := hfits
    refine (alongside_evaluate hwatcher condition h hcondition).bind
      (together_evaluate hosts condition h hcondition) fun w₁ x hw₁ _ => ?_
    split
    · exact alongside_execute hwatcher whenTrue (h.follow hw₁.follows) htrue
    · exact .pure _
  | .branch condition whenTrue (some whenFalse) =>
    obtain ⟨hcondition, ⟨-, htrue⟩, -, hfalse⟩ := hfits
    refine (alongside_evaluate hwatcher condition h hcondition).bind
      (together_evaluate hosts condition h hcondition) fun w₁ x hw₁ _ => ?_
    split
    · exact alongside_execute hwatcher whenTrue (h.follow hw₁.follows) htrue
    · exact alongside_execute hwatcher whenFalse (h.follow hw₁.follows) hfalse
  | .loop condition body =>
    obtain ⟨hcondition, -, hbody⟩ := hfits
    refine alongside_repeatWhile (fun w h => ⟨?_, ?_⟩) (fun w h => ⟨?_, ?_⟩) watcher.host.rounds h
    · exact (alongside_evaluate hwatcher condition h hcondition).bind
        (together_evaluate hosts condition h hcondition) fun w₁ x _ _ => .pure _
    · exact (together_evaluate hosts condition h hcondition).bind fun w₁ x hw₁ _ =>
        .pure hw₁.sound trivial
    · exact alongside_execute hwatcher body h hbody
    · exact (together_execute hosts body h hbody).mono fun _ _ _ _ => trivial
  | .function routine =>
    obtain ⟨hdeclared, hname, hroutine⟩ := hfits
    refine .get_bind fun s hs => .of_holds fun hholds => ?_
    rw [hs]
    refine (Alongside.newClosure hholds rfl).bind (Together.newClosure h.sound _)
      fun w₁ id hw₁ hid => ?_
    have hhome := hw₁.follows.grows.stands h.stands
    have hvalid : (w₁.define w.machine.current routine.name.lexeme (.closure id)).Valid
        (.closure id) :=
      ⟨_, hid, _, around, World.stands_define hw₁.follows.sound hhome, hroutine, nofun⟩
    exact (Alongside.lift (quiet_define _ hname _)).bind
      (Together.define_new hw₁.follows.sound hhome (hdeclared.admits _) hvalid)
      fun w₂ _ _ _ => .pure _
  | .giveBack _ value =>
    exact (alongside_evaluateOptional hwatcher h hfits.2).bind
      (together_evaluateOptional hosts h hfits.2) fun w₁ x _ _ => .pure _
  | .klass name superclass methods =>
    obtain ⟨hdeclared, hname, hsuper, hmethods⟩ := hfits
    exact (alongside_declareClass hwatcher h hdeclared hname hsuper hmethods).bind
      (together_declareClass hosts h hdeclared hname hsuper hmethods) fun w₁ _ _ _ => .pure _

/-- Statements that fit are executed alike with a ledger. -/
theorem alongside_executeAll (hwatcher : watcher.Faithful Φ) (body : List (Stmt Place))
    {scopes : Scopes} {around : List LocalScope} {bond : Bond} {inRoutine : Bool} {w : World Φ}
    (h : w.Here scopes around) (hfits : Stmt.BodyFits Φ scopes around inRoutine body) :
    Alongside w bond (executeAll watcher.host body) (Watched.executeAll watcher bond body) := by
  match body with
  | [] => exact .pure _
  | s :: rest =>
    obtain ⟨hs, hrest⟩ := hfits
    refine (alongside_execute hwatcher s h hs).bind (together_execute hwatcher.hosts s h hs)
      fun w₁ c hw₁ ⟨_, hstands⟩ => ?_
    cases c with
    | normal => exact alongside_executeAll hwatcher rest ⟨hw₁.follows.sound, hstands rfl⟩ hrest
    | returning value => exact .pure _

end

/-! ### Closures -/

/-- An initializer hands its instance back, and any other closure what its body comes to. -/
theorem right_ended {origin : Origin} {name : String} {isInitializer : Bool}
    {completion : Completion} {result : Value}
    (hinit : isInitializer = (origin.isMethod && name == initializerName))
    (h : if isInitializer then origin.bond.receiver? = some result
      else result = completion.value) :
    (CallRecord.ended origin name completion result).Right := by
  subst hinit
  simpa [CallRecord.Right] using h

/-- An initializer hands back what its home binds to `this`. -/
theorem resultOf_initializer {m : Machine} {c : Closure} (hinit : c.isInitializer = true)
    (completion : Completion) {receiver : Value}
    (h : m.forest.lookup? c.home "this" = some receiver) :
    resultOf c completion m = .ok receiver m := by
  have hget : m.forest.getAt c.home 0 "this" = .ok receiver := Forest.getAt_eq_ok rfl h
  unfold resultOf
  rw [if_pos hinit]
  refine (get_bind_apply _ m).trans ?_
  rw [hget]
  rfl

/-- **A call** of a closure that may be run goes alike with a ledger. The body runs with the bond of
the closure, whatever the bond is of the code that calls it; and what the call comes to is right. -/
theorem alongside_runClosure (hwatcher : watcher.Faithful Φ) {w : World Φ} (hs : w.Sound)
    {id : ClosureId} {c : Closure} (hc : w.machine.closures[id]? = some c) (hruns : w.Runs c)
    {values : List Value} (hlength : values.length = c.routine.params.length)
    (hvalues : ∀ v ∈ values, w.Valid v) :
    Alongside w bond (runClosure watcher.host id values)
      (Watched.runClosure watcher id values) := by
  obtain ⟨scopes, around, hhome, hfits, hthis⟩ := hruns
  obtain ⟨⟨name, params, body⟩, home, isInitializer⟩ := c
  obtain ⟨hparams, hfits, -⟩ := hfits
  rw [runClosure, Watched.runClosure]
  refine .get_bind fun s hs' => ?_
  rw [hs']
  refine .expectSome_bind hc (.originOf_bind hc fun origin hholds hinit => ?_)
  refine (Alongside.lift (quiet_newFrame _)).bind
    (Together.newFrame hs hhome (.declaring (params ++ declaredIn body)))
    fun w₁ frame hw₁ hframe => ?_
  refine (Alongside.lift (quiet_bindParams frame hparams values)).bind
    (together_bindParams [] hw₁.follows.sound hframe
      (fun param hparam => List.mem_append_left _ hparam) hlength
      fun v hv => hw₁.follows.grows.valid (hvalues v hv)) fun w₂ _ hw₂ hframe₂ => ?_
  have hbody := together_executeAll hwatcher.hosts body (.goTo hw₂.follows.sound hframe₂) hfits
  refine (Alongside.inFrame ((holds_newFrame hholds hw₁).ages hw₂.ages)
    (alongside_executeAll hwatcher body (.goTo hw₂.follows.sound hframe₂) hfits)).bind
    (Together.inFrame (Q := Ends true) hw₂.follows.sound frame (hbody.mono fun w₃ c hw₃ hc =>
      hc.mono (World.grows_goTo hw₃.sound _).1)) fun w₃ completion hw₃ hcompletion => ?_
  have hlast (result : Value)
      (hresult : resultOf ⟨⟨name, params, body⟩, home, isInitializer⟩ completion
        w₃.machine = .ok result w₃.machine)
      (hright : CallRecord.Right (.ended origin name.lexeme completion result)) :
      Alongside w₃ bond
        (resultOf ⟨⟨name, params, body⟩, home, isInitializer⟩ completion) (do
          let result ← Noting.lift
            (resultOf ⟨⟨name, params, body⟩, home, isInitializer⟩ completion)
          Watched.enterCall (.ended origin name.lexeme completion result)
          return result) :=
    (Alongside.ok_bind hresult (.enterCall_bind hright (.pure result))).of_bind_pure
  have hgrows := ((hw₁.follows.trans hw₂.follows).trans hw₃.follows).grows
  cases isInitializer with
  | true =>
    obtain ⟨⟨outer, rfl⟩, hbinds⟩ := hthis rfl
    obtain ⟨receiver, hreceiver⟩ := Option.isSome_iff_exists.mp (hgrows.binds home "this" hbinds)
    have hholds₃ := hholds.ages ((hw₁.ages.trans hw₂.ages).trans hw₃.ages)
    obtain ⟨-, inner, hbond, -⟩ := hw₃.follows.sound.holds_this
      (hgrows.standsFor home _ hhome.standsFor) hreceiver hholds₃
    exact hlast receiver (resultOf_initializer rfl completion hreceiver)
      (right_ended hinit (congrArg Bond.receiver? hbond))
  | false =>
    refine hlast completion.value ?_ (right_ended hinit rfl)
    cases completion <;> rfl

/-! ### Texts -/

/-- **The knot.** The usual host is watched faithfully, however deep calls may be. -/
theorem faithful_watcher {answers : Answers} (hanswers : answers.Honest) (limits : Limits) :
    (limits.watcher answers).Faithful Φ := by
  refine ⟨matches_hostBy Names.agree_byDistance hanswers limits, ?_⟩
  show ∀ (w : World Φ) bond paren (id : ClosureId) c values, w.Sound →
    w.machine.closures[id]? = some c → w.Runs c → values.length = c.routine.params.length →
    (∀ v ∈ values, w.Valid v) →
    Alongside w bond (invokeAt .byDistance answers limits.rounds limits.depth paren id values)
      (Watched.invokeAt answers limits.rounds limits.depth paren id values)
  -- the hosts inside differ from the usual one in nothing but the depth
  generalize hdepth : limits.depth = depth
  clear hdepth
  induction depth with
  | zero => exact fun w bond paren id c values _ _ _ _ _ => .lift (.failAt _ _)
  | succ depth ih =>
    intro w bond paren id c values hs hc hruns hlength hvalues
    have hwatcher : Watcher.Faithful Φ
        ⟨⟨.byDistance, answers, invokeAt .byDistance answers limits.rounds depth, limits.rounds⟩,
          Watched.invokeAt answers limits.rounds depth⟩ :=
      ⟨matches_hostBy Names.agree_byDistance hanswers ⟨depth, limits.rounds⟩, ih⟩
    exact alongside_runClosure hwatcher hs hc hruns hlength hvalues

/-- A program that fits the top level is run alike with a ledger. -/
theorem alongside_interpret (hwatcher : watcher.Faithful Φ) (program : List (Stmt Place))
    {w : World Φ} (h : w.Here [] []) (hfits : Stmt.BodyFits Φ [] [] false program) :
    Alongside w [] (interpret watcher.host program) (Watched.interpret watcher program) := by
  induction program generalizing w with
  | nil => exact .pure _
  | cons s rest ih =>
    obtain ⟨hs, hrest⟩ := hfits
    refine (alongside_execute hwatcher s h hs).bind (together_execute hwatcher.hosts s h hs)
      fun w₁ c hw₁ _ => ?_
    cases c with
    | normal =>
      have henter : Scopes.enter [] s = [] :=
        List.eq_nil_of_length_eq_zero (Scopes.length_enter s)
      rw [henter] at hrest
      exact ih (h.follow hw₁.follows) hrest
    | returning value => exact .lift (.faultWith _)

end LoxInterpreter.Run
