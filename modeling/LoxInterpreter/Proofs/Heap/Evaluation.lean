import LoxInterpreter.Proofs.Heap.Objects

/-!
# Evaluation with a chronicle

What fits somewhere may be evaluated and executed with a chronicle: the run takes the course of the
plain run, and the chronicle stays right. The recursion on the tree is that of evaluation.
`faithful_scribe` ties the knot, by induction on the depth of calls.
-/

namespace LoxInterpreter.Run

variable {scribe : Scribe} {scopes : Scopes} {around : List LocalScope}

/-! ### Expressions -/

/-- Setting a field changes nothing but what an instance holds. -/
theorem tells_setField {t : Told} (h : Kept t) (id : InstanceId) (x : String) {v : Value}
    (hv : t.Usable v) :
    Tells t (setField id x v) (Chronicled.step (setField id x v)) fun _ _ => True := by
  refine Tells.step_elsewhere h (setField id x v) rfl (fun j i y w hi hw => ?_)
    (fun _ _ _ hf _ => .inl hf) fun _ _ => trivial
  replace hi := Array.getElem?_modify.symm.trans hi
  split at hi
  · obtain ⟨old, hold, rfl⟩ := Option.map_eq_some_iff.mp hi
    replace hw := (lookup_bindName x y v old.fields).symm.trans hw
    split at hw
    · cases hw
      exact .inr hv
    · exact .inl ⟨old, hold, hw⟩
  · exact .inl ⟨i, hi, hw⟩

mutual

/-- An expression that fits is evaluated alike with a chronicle, to a value that may be used. -/
theorem tells_evaluate (hscribe : scribe.Faithful) (e : Expr Place) {t : Told}
    {initializing : Option Token} (h : Kept t)
    (hfits : e.Fits (fun _ => True) scopes around initializing) :
    Tells t (evaluate scribe.host e) (Chronicled.evaluate scribe e) Told.Usable := by
  cases e with
  | literal value =>
    have hplain : value.toValue.IsPlain := by cases value <;> trivial
    exact .pure h (hplain.usable _ _)
  | grouping inner => exact tells_evaluate hscribe inner h hfits
  | unary op operand =>
    obtain ⟨-, hoperand⟩ := hfits
    refine (tells_evaluate hscribe operand h hoperand).bind fun t₁ x h₁ _ _ => ?_
    exact (Tells.lift h₁ (.of_operation (operation_unary rfl x))).mono fun _ _ _ _ hv => hv.usable _ _
  | binary left op right =>
    obtain ⟨-, hleft, hright⟩ := hfits
    refine (tells_evaluate hscribe left h hleft).bind fun t₁ x h₁ _ _ => ?_
    refine (tells_evaluate hscribe right h₁ hright).bind fun t₂ y h₂ _ _ => ?_
    exact (Tells.lift h₂ (.of_operation (operation_binary rfl x y))).mono fun _ _ _ _ hv => hv.usable _ _
  | logical left op right =>
    obtain ⟨hleft, hright⟩ := hfits
    refine (tells_evaluate hscribe left h hleft).bind fun t₁ x h₁ _ hx => ?_
    split
    · exact .pure h₁ hx
    · exact tells_evaluate hscribe right h₁ hright
  | reference target => exact .read hscribe h target
  | assign target value =>
    obtain ⟨⟨-, hname, -⟩, hvalue⟩ := hfits
    refine (tells_evaluate hscribe value h hvalue).bind fun t₁ x h₁ _ hx => ?_
    rw [hscribe.names]
    exact (Tells.assign h₁ hname hx).bind fun t₂ _ h₂ hg₂ _ => .pure h₂ (hg₂.usable hx)
  | call callee paren values =>
    obtain ⟨hcallee, hvalues⟩ := hfits
    refine (tells_evaluate hscribe callee h hcallee).bind fun t₁ f h₁ _ hf => ?_
    refine (tells_evaluateAll hscribe values h₁ hvalues).bind fun t₂ xs h₂ hg₂ hxs => ?_
    exact .callValue hscribe h₂ paren (hg₂.usable hf) hxs
  | property object name =>
    exact (tells_evaluate hscribe object h hfits).bind fun t₁ x h₁ _ _ =>
      .readProperty h₁ x name
  | setProperty object name value =>
    obtain ⟨hobject, hvalue⟩ := hfits
    refine (tells_evaluate hscribe object h hobject).bind fun t₁ x h₁ _ _ => ?_
    cases x with
    | object id =>
      refine (tells_evaluate hscribe value h₁ hvalue).bind fun t₂ y h₂ _ hy => ?_
      exact (tells_setField h₂ id name.lexeme hy).bind fun t₃ _ h₃ hg₃ _ =>
        .pure h₃ (hg₃.usable hy)
    | _ => exact .failAt h₁ _ _
  | this receiver => exact .read hscribe h receiver
  | inherited superclass method => exact .readInherited h hfits method

/-- Expressions that fit are evaluated alike with a chronicle. -/
theorem tells_evaluateAll (hscribe : scribe.Faithful) (es : List (Expr Place)) {t : Told}
    {initializing : Option Token} (h : Kept t)
    (hfits : Expr.FitAll (fun _ => True) scopes around initializing es) :
    Tells t (evaluateAll scribe.host es) (Chronicled.evaluateAll scribe es)
      fun t' xs => ∀ x ∈ xs, t'.Usable x := by
  cases es with
  | nil => exact .pure h (List.forall_mem_nil _)
  | cons e rest =>
    obtain ⟨he, hrest⟩ := hfits
    refine (tells_evaluate hscribe e h he).bind fun t₁ x h₁ _ hx => ?_
    refine (tells_evaluateAll hscribe rest h₁ hrest).bind fun t₂ xs h₂ hg₂ hxs => ?_
    exact .pure h₂ (List.forall_mem_cons.mpr ⟨hg₂.usable hx, hxs⟩)

end

theorem tells_evaluateOptional (hscribe : scribe.Faithful) {value : Option (Expr Place)}
    {t : Told} {initializing : Option Token} (h : Kept t)
    (hfits : ∀ e ∈ value, e.Fits (fun _ => True) scopes around initializing) :
    Tells t (evaluateOptional scribe.host value) (Chronicled.evaluateOptional scribe value)
      Told.Usable := by
  cases value with
  | none => exact .pure h trivial
  | some e => exact tells_evaluate hscribe e h (hfits e rfl)

/-! ### Statements -/

/-- A loop is gone round alike with a chronicle. -/
theorem tells_repeatWhile {test : Run Bool} {body : Run Completion} {test' : Chronicled Bool}
    {body' : Chronicled Completion}
    (htest : ∀ t, Kept t → Tells t test test' fun _ _ => True)
    (hbody : ∀ t, Kept t → Tells t body body' fun t' c => t'.Usable c.value)
    (rounds : Nat) {t : Told} (h : Kept t) :
    Tells t (repeatWhile test body rounds) (Chronicled.repeatWhile test' body' rounds)
      fun t' c => t'.Usable c.value := by
  induction rounds generalizing t with
  | zero => exact .error h (.refl t)
  | succ rounds ih =>
    refine (htest t h).bind fun t₁ goesOn h₁ _ _ => ?_
    cases goesOn with
    | false => exact .pure h₁ trivial
    | true =>
      refine (hbody t₁ h₁).bind fun t₂ c h₂ _ hc => ?_
      cases c with
      | normal => exact ih h₂
      | returning value => exact .pure h₂ hc

/-- The class that a superclass comes to is there. -/
theorem tells_superclassOf (hscribe : scribe.Faithful) {t : Told} (h : Kept t)
    (superclass : Option (Reference Place)) :
    Tells t (superclassOf scribe.host superclass)
      (Noting.lift (superclassOf scribe.host superclass))
      fun t' parent => ∀ id ∈ parent, t'.Usable (.klass id) := by
  have hlooks : Looks t.machine (superclassOf scribe.host superclass)
      fun parent => ∀ id ∈ parent, t.machine.Offers (.klass id) := by
    cases superclass with
    | none => exact .pure nofun
    | some target =>
      rw [superclassOf, hscribe.names]
      refine (Looks.read target).bind fun v hv => ?_
      cases v with
      | klass id =>
        refine .pure fun id' hid => ?_
        cases hid
        exact hv
      | _ => exact .failAt _ _
  exact (Tells.lift h hlooks).mono fun _ parent _ hg hparent id hid =>
    hg.usable (h.usable (hparent id hid))

/-- A frame in which the program may bind names. -/
theorem tells_newFrame {t : Told} (h : Kept t) {p : Purpose} (hp : p.binding? = none)
    {enclosing : FrameId} (henclosing : enclosing < t.machine.forest.nextId) :
    Tells t (newFrame enclosing) (Chronicled.makeFrame p (newFrame enclosing))
      fun t' f => t'.notes.origins.IsOpen f := by
  refine (Tells.makeFrame h ?_ henclosing (fun x v hx => ?_) fun v hv => ?_).mono
    fun _ f _ _ hf => ⟨p, hf, hp⟩
  · rw [hp]
    rfl
  · cases hp.symm.trans hx
  · rw [hv] at hp
    cases hp

/-- The table of a class has the methods that are declared with it, and they have the home that is
meant for them. -/
theorem tells_newMethods {home : FrameId} {parent : Option ClassId}
    (methods : List (Routine Place)) {t : Told} (h : Kept t)
    (hhome : home < t.machine.forest.nextId)
    (hparent : ∀ s ∈ parent, t.notes.origins.frames[home]? = some (.superclass s))
    (hfits : Stmt.MethodsFit (fun _ => True) scopes around methods)
    {table : List (String × ClosureId)}
    (htable : ∀ x j, table.lookup x = some j → t.notes.origins.Declares t.machine parent j) :
    Tells t (newMethods home table methods) (Chronicled.newMethods home table methods)
      fun t' table => ∀ x j, table.lookup x = some j →
        t'.notes.origins.Declares t'.machine parent j := by
  induction methods generalizing t table with
  | nil => exact .pure h htable
  | cons m rest ih =>
    obtain ⟨hm, hrest⟩ := hfits
    refine (Tells.makeClosure h .method ⟨m, home, m.name.lexeme == initializerName⟩ hhome
      ⟨_, _, hm⟩ fun _ _ heq => nomatch heq).bind fun t₁ id h₁ hg₁ hid => ?_
    have hparent₁ (s : ClassId) (hs : s ∈ parent) :
        t₁.notes.origins.frames[home]? = some (.superclass s) :=
      hg₁.origins.frame (hparent s hs)
    refine ih h₁ (hhome.trans_le hg₁.lasts.nextId) hparent₁ hrest fun x j hx => ?_
    rw [lookup_bindName] at hx
    split at hx
    · cases hx
      exact ⟨hid.1, fun s hs => ⟨_, hid.2, hparent₁ s hs⟩⟩
    · exact (htable x j hx).grow hg₁.origins hg₁.lasts.closures

/-- **A class** gets a superclass that is there, and the methods that are declared with it. Its name
is bound in the current frame. -/
theorem tells_declareClass (hscribe : scribe.Faithful) {name : Token}
    {superclass : Option (Reference Place)} {methods : List (Routine Place)} {t : Told}
    (h : Kept t) (hname : name.IsName)
    (hmethods : Stmt.MethodsFit (fun _ => True) scopes around methods) :
    Tells t (declareClass scribe.host name superclass methods)
      (Chronicled.declareClass scribe name superclass methods) fun _ _ => True := by
  refine (tells_superclassOf hscribe h superclass).bind fun t₁ parent h₁ hg₁ hparent => ?_
  refine .get_bind ((Tells.write h₁ h₁.current hname (v := .nil) trivial).bind
    fun t₂ _ h₂ hg₂ _ => ?_)
  have hhome : t₁.machine.current < t₂.machine.forest.nextId :=
    h₁.current_lt.trans_le hg₂.lasts.nextId
  -- what remains is the same whether there is a superclass or not
  have hfinish {natal : FrameId} {t₃ : Told} (h₃ : Kept t₃)
      (hlt : natal < t₃.machine.forest.nextId)
      (hnatal : ∀ s ∈ parent, t₃.notes.origins.frames[natal]? = some (.superclass s))
      (hparent : ∀ s ∈ parent, t₃.Usable (.klass s)) :
      Tells t₃
        (do
          let table ← newMethods natal [] methods
          let id ← newClass ⟨name.lexeme, parent, table⟩
          assignFrom t₁.machine.current name (.klass id))
        (do
          let table ← Chronicled.newMethods natal [] methods
          let id ← Chronicled.step (newClass ⟨name.lexeme, parent, table⟩)
          Chronicled.assignFrom t₁.machine.current name (.klass id)) fun _ _ => True := by
    have hempty (x : String) (j : ClosureId) (hx : [].lookup x = some j) :
        t₃.notes.origins.Declares t₃.machine parent j := nomatch hx
    refine (tells_newMethods methods h₃ hlt hnatal hmethods hempty).bind
      fun t₄ table h₄ hg₄ htable => ?_
    have hclass : Tells t₄ (newClass ⟨name.lexeme, parent, table⟩)
        (Chronicled.step (newClass ⟨name.lexeme, parent, table⟩))
        fun t' id => t'.Usable (.klass id) := by
      refine Tells.step h₄ (newClass ⟨name.lexeme, parent, table⟩) rfl
        (h₄.live.pushClass (fun s hs => hg₄.usable (hparent s hs)) htable) (.klass _ _)
        (.pushClass _ _) rfl ?_
      show t₄.machine.classes.size < (t₄.machine.classes.push _).size
      rw [Array.size_push]
      exact Nat.lt_succ_self _
    exact hclass.bind fun t₅ id h₅ _ hid => .assignFrom h₅ _ hname hid
  have hparent₂ (s : ClassId) (hs : s ∈ parent) : t₂.Usable (.klass s) :=
    hg₂.usable (hparent s hs)
  cases parent with
  | none => exact hfinish h₂ hhome nofun hparent₂
  | some id =>
    have hrest := (Tells.makeFrameBinding h₂ (p := .superclass id) rfl hhome (hparent₂ id rfl)
      nofun).bind fun t₃ natal h₃ hg₃ hnatal => by
        refine hfinish h₃ (h₃.live.lt_nextId hnatal) (fun s hs => ?_)
          fun s hs => hg₃.usable (hparent₂ s hs)
        cases hs
        exact hnatal
    exact hrest

mutual

/-- A statement that fits is executed alike with a chronicle. What it hands back may be used. -/
theorem tells_execute (hscribe : scribe.Faithful) (s : Stmt Place) {scopes : Scopes}
    {around : List LocalScope} {inRoutine : Bool} {t : Told} (h : Kept t)
    (hfits : s.Fits (fun _ => True) scopes around inRoutine) :
    Tells t (execute scribe.host s) (Chronicled.execute scribe s)
      fun t' c => t'.Usable c.value := by
  match s with
  | .malformed => exact .pure h trivial
  | .expression value =>
    exact (tells_evaluate hscribe value h hfits).bind fun t₁ x h₁ _ _ => .pure h₁ trivial
  | .print value =>
    refine (tells_evaluate hscribe value h hfits).bind fun t₁ x h₁ _ _ => .get_bind ?_
    exact (Tells.step_elsewhere (Q := fun _ _ => True) h₁ (printLine (t₁.machine.textOf x)) rfl
      (fun _ i _ _ hi hx => .inl ⟨i, hi, hx⟩) (fun _ _ _ hf _ => .inl hf)
      fun _ _ => trivial).bind fun t₂ _ h₂ _ _ => .pure h₂ trivial
  | .declare name initial =>
    obtain ⟨-, hname, hinitial⟩ := hfits
    refine (tells_evaluateOptional hscribe h hinitial).bind fun t₁ x h₁ _ hx => .get_bind ?_
    exact (Tells.write h₁ h₁.current hname hx).bind fun t₂ _ h₂ _ _ => .pure h₂ trivial
  | .block body =>
    refine .get_bind ((tells_newFrame h (p := .block) rfl h.current_lt).bind
      fun t₁ frame h₁ _ hframe => ?_)
    exact .inFrame h₁ (tells_executeAll hscribe body (h₁.goTo hframe) hfits) fun _ _ hc => hc
  | .branch condition whenTrue none =>
    obtain ⟨hcondition, -, htrue⟩ := hfits
    refine (tells_evaluate hscribe condition h hcondition).bind fun t₁ x h₁ _ _ => ?_
    split
    · exact tells_execute hscribe whenTrue h₁ htrue
    · exact .pure h₁ trivial
  | .branch condition whenTrue (some whenFalse) =>
    obtain ⟨hcondition, ⟨-, htrue⟩, -, hfalse⟩ := hfits
    refine (tells_evaluate hscribe condition h hcondition).bind fun t₁ x h₁ _ _ => ?_
    split
    · exact tells_execute hscribe whenTrue h₁ htrue
    · exact tells_execute hscribe whenFalse h₁ hfalse
  | .loop condition body =>
    obtain ⟨hcondition, -, hbody⟩ := hfits
    refine tells_repeatWhile (fun t h => ?_) (fun t h => ?_) scribe.host.rounds h
    · exact (tells_evaluate hscribe condition h hcondition).bind fun t₁ x h₁ _ _ => .pure h₁ trivial
    · exact tells_execute hscribe body h hbody
  | .function routine =>
    obtain ⟨-, hname, hroutine⟩ := hfits
    refine .get_bind ((Tells.makeClosure h .function ⟨routine, t.machine.current, false⟩
      h.current_lt ⟨_, _, hroutine⟩ nofun).bind fun t₁ id h₁ hg₁ hid => ?_)
    have hcallable : t₁.Usable (.closure id) := ⟨_, hid.1, nofun⟩
    exact (Tells.write h₁ (h.current.extend hg₁.origins) hname hcallable).bind
      fun t₂ _ h₂ _ _ => .pure h₂ trivial
  | .giveBack _ value =>
    exact (tells_evaluateOptional hscribe h hfits.2).bind fun t₁ x h₁ _ hx => .pure h₁ hx
  | .klass name superclass methods =>
    obtain ⟨-, hname, -, hmethods⟩ := hfits
    exact (tells_declareClass hscribe h hname hmethods).bind fun t₁ _ h₁ _ _ => .pure h₁ trivial

/-- Statements that fit are executed alike with a chronicle. -/
theorem tells_executeAll (hscribe : scribe.Faithful) (body : List (Stmt Place)) {scopes : Scopes}
    {around : List LocalScope} {inRoutine : Bool} {t : Told} (h : Kept t)
    (hfits : Stmt.BodyFits (fun _ => True) scopes around inRoutine body) :
    Tells t (executeAll scribe.host body) (Chronicled.executeAll scribe body)
      fun t' c => t'.Usable c.value := by
  match body with
  | [] => exact .pure h trivial
  | s :: rest =>
    obtain ⟨hs, hrest⟩ := hfits
    refine (tells_execute hscribe s h hs).bind fun t₁ c h₁ _ hc => ?_
    cases c with
    | normal => exact tells_executeAll hscribe rest h₁ hrest
    | returning value => exact .pure h₁ hc

end

/-! ### Closures -/

theorem tells_bindParams {frame : FrameId} {params : List Token} {values : List Value} {t : Told}
    (h : Kept t) (hframe : t.notes.origins.IsOpen frame) (hparams : ∀ param ∈ params, param.IsName)
    (hvalues : ∀ v ∈ values, t.Usable v) :
    Tells t (bindParams frame params values) (Chronicled.bindParams frame params values)
      fun _ _ => True := by
  induction params generalizing t values with
  | nil => exact .pure h trivial
  | cons param params ih =>
    cases values with
    | nil => exact .pure h trivial
    | cons value values =>
      obtain ⟨hvalue, hvalues⟩ := List.forall_mem_cons.mp hvalues
      obtain ⟨hparam, hparams⟩ := List.forall_mem_cons.mp hparams
      refine (Tells.write h hframe hparam hvalue).bind fun t₁ _ h₁ hg₁ _ => ?_
      exact ih h₁ (hframe.extend hg₁.origins) hparams fun v hv => hg₁.usable (hvalues v hv)

/-- A closure hands back what is bound somewhere or what its body comes to. -/
theorem Looks.resultOf (m : Machine) (c : Closure) (completion : Completion) :
    Looks m (resultOf c completion) fun v => m.Offers v ∨ v = completion.value := by
  unfold Run.resultOf
  split
  · refine get_bind ?_
    cases hget : m.forest.getAt c.home 0 "this" with
    | error e => exact .faultWith _
    | ok receiver => exact .pure (.inl (Machine.Offers.of_getAt hget))
  · cases completion <;> exact .pure (.inr rfl)

/-- **A call** is entered, and its frame is for the program to bind names in. -/
theorem tells_runClosure (hscribe : scribe.Faithful) {t : Told} (h : Kept t) {id : ClosureId}
    (hid : t.notes.origins.Callable id) {values : List Value}
    (hvalues : ∀ v ∈ values, t.Usable v) :
    Tells t (runClosure scribe.host id values) (Chronicled.runClosure scribe id values)
      Told.Usable := by
  rw [runClosure, Chronicled.runClosure]
  refine .enterCall_bind h hid fun t₁ h₁ hg₁ hmachine => ?_
  refine .get_bind (.lift_bind h₁ (.expectSome fun c hc => hc) fun c hc => ?_)
  obtain ⟨hhome, scopes, around, hfits⟩ := h₁.live.closures id c hc
  obtain ⟨⟨name, params, body⟩, home, isInitializer⟩ := c
  obtain ⟨hparams, hbody, -⟩ := hfits
  refine (tells_newFrame h₁ (p := .call id) rfl hhome).bind fun t₂ frame h₂ hg₂ hframe => ?_
  refine (tells_bindParams h₂ hframe hparams
    fun v hv => (hg₁.trans hg₂).usable (hvalues v hv)).bind fun t₃ _ h₃ hg₃ _ => ?_
  refine (Tells.inFrame h₃ (tells_executeAll hscribe body
    (h₃.goTo (hframe.extend hg₃.origins)) hbody) fun _ _ hc => hc).bind
    fun t₄ completion h₄ _ hc => ?_
  have hresult := (Tells.lift h₄ (.resultOf t₄.machine
    ⟨⟨name, params, body⟩, home, isInitializer⟩ completion)).mono
    fun t₅ v _ hg₅ hv => hg₅.usable (hv.elim h₄.usable fun heq => heq ▸ hc)
  exact hresult

/-! ### Texts -/

/-- **The knot.** The usual host keeps the chronicle right, however deep calls may be. -/
theorem faithful_scribe {answers : Answers} (hanswers : answers.Honest) (limits : Limits) :
    (limits.scribe answers).Faithful := by
  refine ⟨rfl, hanswers, ?_⟩
  show ∀ t paren id values, Kept t → t.notes.origins.Callable id →
    (∀ v ∈ values, t.Usable v) →
    Tells t (invokeAt .byDistance answers limits.rounds limits.depth paren id values)
      (Chronicled.invokeAt answers limits.rounds limits.depth paren id values) Told.Usable
  -- the hosts inside differ from the usual one in nothing but the depth
  generalize hdepth : limits.depth = depth
  clear hdepth
  induction depth with
  | zero => exact fun t paren id values h _ _ => .failAt h _ _
  | succ depth ih =>
    intro t paren id values h hid hvalues
    have hscribe : Scribe.Faithful
        ⟨⟨.byDistance, answers, invokeAt .byDistance answers limits.rounds depth, limits.rounds⟩,
          Chronicled.invokeAt answers limits.rounds depth⟩ := ⟨rfl, hanswers, ih⟩
    exact tells_runClosure hscribe h hid hvalues

/-- A program that fits the top level is run alike with a chronicle. -/
theorem tells_interpret (hscribe : scribe.Faithful) (program : List (Stmt Place)) {t : Told}
    (h : Kept t) (hfits : Stmt.BodyFits (fun _ => True) [] [] false program) :
    Tells t (interpret scribe.host program) (Chronicled.interpret scribe program)
      fun _ _ => True := by
  induction program generalizing t with
  | nil => exact .pure h trivial
  | cons s rest ih =>
    obtain ⟨hs, hrest⟩ := hfits
    refine (tells_execute hscribe s h hs).bind fun t₁ c h₁ _ _ => ?_
    cases c with
    | normal =>
      have henter : Scopes.enter [] s = [] :=
        List.eq_nil_of_length_eq_zero (Scopes.length_enter s)
      rw [henter] at hrest
      exact ih h₁ hrest
    | returning value => exact .faultWith h₁ _

end LoxInterpreter.Run
