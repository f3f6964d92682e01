import LoxInterpreter.Proofs.Run.Notes
import LoxInterpreter.Proofs.Run.Operation
import LoxInterpreter.Proofs.Run.Sessions

/-!
# The current frame comes back

Blocks and calls move to another frame for the time that their statements run. They end in many
ways: statements may return, fail or go round too often, and a call may be at home in a frame that
has nothing to do with the one it is made from. The current frame comes back each time
(`current_comes_back`), so that every text of a session starts among the globals.

A step is `Homing` if it leaves the current frame as it was, however it ends. Only `inFrame` moves
at all, and it is homing whatever happens inside; all else is the rules for single steps and for
`>>=`, along the recursions of evaluation. Nothing is asked of the machine or of the program.
-/

namespace LoxInterpreter

open Run

namespace Run

variable {α β : Type}

/-- A step that leaves the current frame as it was, however it ends. -/
def Homing (act : Run α) : Prop := ∀ m, (machineAfter act m).current = m.current

namespace Homing

variable {act : Run α} {f : α → Run β}

protected theorem pure (a : α) : Homing (pure a) := fun _ => rfl

protected theorem throw (why : Interruption) : Homing (throw why : Run α) := fun _ => rfl

theorem failAt (token : Token) (cause : RuntimeError) : Homing (failAt token cause : Run α) :=
  .throw _

theorem faultWith (what : Fault) : Homing (faultWith what : Run α) := .throw _

protected theorem bind (h : Homing act) (hf : ∀ a, Homing (f a)) : Homing (act >>= f) :=
  rel_machineAfter_bind (fun m m' => m'.current = m.current) (fun h h' => h'.trans h) h hf

/-- A look at the machine. -/
theorem get_bind {g : Machine → Run β} (h : ∀ m, Homing (g m)) : Homing (get >>= g) :=
  fun m => h m m

/-- A change of the store. -/
protected theorem modify {change : Machine → Machine} (h : ∀ m, (change m).current = m.current) :
    Homing (modify change) :=
  h

/-- What happens in another frame stays there. -/
theorem inFrame (id : FrameId) (act : Run α) : Homing (inFrame id act) := by
  intro m
  rw [machineAfter_inFrame]

end Homing

/-! ### Steps of the machine -/

theorem homing_expectSome (a : Option α) : Homing (expectSome a) := by
  cases a with
  | none => exact .faultWith _
  | some a => exact .pure _

theorem homing_define (id : FrameId) (name : String) (v : Value) : Homing (define id name v) :=
  .modify fun _ => rfl

theorem homing_newFrame (enclosing : FrameId) : Homing (newFrame enclosing) := fun _ => rfl

theorem homing_newClosure (c : Closure) : Homing (newClosure c) := fun _ => rfl

theorem homing_newClass (c : ClassRecord) : Homing (newClass c) := fun _ => rfl

theorem homing_newInstance (klass : ClassId) : Homing (newInstance klass) := fun _ => rfl

theorem homing_setField (id : InstanceId) (name : String) (v : Value) :
    Homing (setField id name v) :=
  .modify fun _ => rfl

theorem homing_printLine (line : String) : Homing (printLine line) := .modify fun _ => rfl

/-! ### Operators and names -/

theorem Operation.homing {known : Prop} {op op' : Token} {act act' : Run Value}
    (h : Operation known op op' act act') : Homing act := by
  cases h with
  | value _ => exact .pure _
  | blame _ => exact .failAt _ _
  | unknown _ => exact .faultWith _

theorem homing_readFrom (id : FrameId) (name : Token) : Homing (readFrom id name) := by
  refine .get_bind fun m => ?_
  split
  · exact .pure _
  · exact .failAt _ _

theorem homing_assignFrom (id : FrameId) (name : Token) (v : Value) :
    Homing (assignFrom id name v) := by
  refine .get_bind fun m => ?_
  split
  · exact homing_define _ _ _
  · exact .failAt _ _

theorem homing_readAt (distance : Nat) (name : String) : Homing (readAt distance name) := by
  refine .get_bind fun m => ?_
  split
  · exact .pure _
  · exact .faultWith _

theorem homing_assignAt (distance : Nat) (name : Token) (v : Value) :
    Homing (assignAt distance name v) := by
  refine .get_bind fun m => ?_
  split
  · exact homing_define _ _ _
  · exact .faultWith _
  · exact .faultWith _

/-- Names are found without a move. -/
structure Names.Homing (names : Names) : Prop where
  read : ∀ r, Run.Homing (names.read r)
  write : ∀ r v, Run.Homing (names.write r v)

theorem Names.homing_byDistance : Names.byDistance.Homing where
  read r := by
    rw [Names.byDistance]
    dsimp only
    split
    · exact homing_readFrom _ _
    · exact homing_readAt _ _
  write r v := by
    rw [Names.byDistance]
    dsimp only
    split
    · exact homing_assignFrom _ _ _
    · exact homing_assignAt _ _ _

/-! ### Objects -/

theorem homing_bindMethod (method : ClosureId) (receiver : Value) :
    Homing (bindMethod method receiver) := by
  refine .get_bind fun m => .bind (homing_expectSome _) fun c => ?_
  refine .bind (homing_newFrame _) fun home => .bind (homing_define _ _ _) fun _ => ?_
  exact homing_newClosure _

theorem homing_readProperty (object : Value) (name : Token) :
    Homing (readProperty object name) := by
  unfold readProperty
  split
  · refine .get_bind fun m => .bind (homing_expectSome _) fun found => ?_
    split
    · exact .pure _
    · split
      · exact .bind (homing_bindMethod _ _) fun _ => .pure _
      · exact .failAt _ _
  · exact .failAt _ _

theorem homing_readInherited (superclass : Reference Place) (method : Token) :
    Homing (readInherited superclass method) := by
  unfold readInherited
  split
  · exact .faultWith _
  · refine .bind (homing_readAt _ _) fun parent => .bind (homing_readAt _ _) fun receiver => ?_
    split
    · refine .get_bind fun m => ?_
      split
      · exact .bind (homing_bindMethod _ _) fun _ => .pure _
      · exact .failAt _ _
    · exact .faultWith _

/-! ### Evaluation -/

/-- A host that finds names without a move, and whose calls are homing. -/
structure Host.Homing (host : Host) : Prop where
  names : host.names.Homing
  invoke : ∀ paren id values, Run.Homing (host.invoke paren id values)

theorem homing_repeatWhile {test : Run Bool} {body : Run Completion} (htest : Homing test)
    (hbody : Homing body) (rounds : Nat) : Homing (repeatWhile test body rounds) := by
  induction rounds with
  | zero => exact .throw _
  | succ rounds ih =>
    refine .bind htest fun goesOn => ?_
    split
    · refine .bind hbody fun completion => ?_
      split
      · exact ih
      · exact .pure _
    · exact .pure _

theorem homing_newMethods (home : FrameId) (methods : List (String × ClosureId))
    (routines : List (Routine Place)) : Homing (newMethods home methods routines) := by
  induction routines generalizing methods with
  | nil => exact .pure _
  | cons m rest ih => exact .bind (homing_newClosure _) fun id => ih _

theorem homing_bindParams (frame : FrameId) (params : List Token) (values : List Value) :
    Homing (bindParams frame params values) := by
  induction params generalizing values with
  | nil => exact .pure _
  | cons param params ih =>
    cases values with
    | nil => exact .pure _
    | cons value values => exact .bind (homing_define _ _ _) fun _ => ih values

section Host

variable {host : Host}

theorem homing_callNative (f : Native) (values : List Value) :
    Homing (callNative host f values) :=
  .bind (.modify fun _ => rfl) fun _ => .get_bind fun _ => .pure _

theorem homing_construct (h : host.Homing) (paren : Token) (klass : ClassId)
    (values : List Value) : Homing (construct host paren klass values) := by
  refine .bind (homing_newInstance _) fun object => .get_bind fun m => ?_
  split
  · exact .pure _
  · refine .bind (homing_bindMethod _ _) fun initializer => ?_
    exact .bind (h.invoke _ _ _) fun _ => .pure _

theorem homing_callValue (h : host.Homing) (paren : Token) (callee : Value)
    (values : List Value) : Homing (callValue host paren callee values) := by
  refine .get_bind fun m => ?_
  split
  · exact .failAt _ _
  · split
    · exact .failAt _ _
    · cases callee with
      | native f => exact homing_callNative f values
      | closure id => exact h.invoke _ _ _
      | klass id => exact homing_construct h _ _ _
      | nil | bool | number | text | object => exact .failAt _ _

mutual

theorem homing_evaluate (h : host.Homing) : ∀ e : Expr Place, Homing (evaluate host e)
  | .literal value => .pure _
  | .grouping inner => homing_evaluate h inner
  | .unary op operand => .bind (homing_evaluate h operand) fun x => (operation_unary rfl x).homing
  | .binary left op right =>
    .bind (homing_evaluate h left) fun x => .bind (homing_evaluate h right) fun y =>
      (operation_binary rfl x y).homing
  | .logical left op right => by
    refine .bind (homing_evaluate h left) fun x => ?_
    split
    · exact .pure _
    · exact homing_evaluate h right
  | .reference target => h.names.read target
  | .assign target value =>
    .bind (homing_evaluate h value) fun x => .bind (h.names.write target x) fun _ => .pure _
  | .call callee paren values =>
    .bind (homing_evaluate h callee) fun f => .bind (homing_evaluateAll h values) fun xs =>
      homing_callValue h paren f xs
  | .property object name => .bind (homing_evaluate h object) fun x => homing_readProperty x name
  | .setProperty object name value => by
    refine .bind (homing_evaluate h object) fun x => ?_
    split
    · exact .bind (homing_evaluate h value) fun y =>
        .bind (homing_setField _ _ _) fun _ => .pure _
    · exact .failAt _ _
  | .this receiver => h.names.read receiver
  | .inherited superclass method => homing_readInherited superclass method

theorem homing_evaluateAll (h : host.Homing) :
    ∀ es : List (Expr Place), Homing (evaluateAll host es)
  | [] => .pure _
  | e :: rest =>
    .bind (homing_evaluate h e) fun _ => .bind (homing_evaluateAll h rest) fun _ => .pure _

end

theorem homing_evaluateOptional (h : host.Homing) :
    ∀ e : Option (Expr Place), Homing (evaluateOptional host e)
  | none => .pure _
  | some e => homing_evaluate h e

theorem homing_superclassOf (h : host.Homing) (superclass : Option (Reference Place)) :
    Homing (superclassOf host superclass) := by
  cases superclass with
  | none => exact .pure _
  | some target =>
    refine .bind (h.names.read target) fun x => ?_
    split
    · exact .pure _
    · exact .failAt _ _

theorem homing_declareClass (h : host.Homing) (name : Token)
    (superclass : Option (Reference Place)) (methods : List (Routine Place)) :
    Homing (declareClass host name superclass methods) := by
  refine .bind (homing_superclassOf h superclass) fun parent => .get_bind fun m => ?_
  refine .bind (homing_define _ _ _) fun _ => ?_
  -- the class is made alike in both frames that its methods may be at home in
  have hmade (natal : FrameId) : Homing (newMethods natal [] methods >>= fun table =>
      newClass ⟨name.lexeme, parent, table⟩ >>= fun id =>
        assignFrom m.current name (.klass id)) :=
    .bind (homing_newMethods _ _ _) fun _ => .bind (homing_newClass _) fun _ =>
      homing_assignFrom _ _ _
  cases parent with
  | none => exact hmade _
  | some id =>
    exact .bind (homing_newFrame _) fun frame => .bind (homing_define _ _ _) fun _ => hmade frame

/-- Nothing need be known of what a block does, as it is done in a frame of its own. -/
theorem homing_execute (h : host.Homing) : ∀ s : Stmt Place, Homing (execute host s)
  | .malformed => .pure _
  | .expression value => .bind (homing_evaluate h value) fun _ => .pure _
  | .print value =>
    .bind (homing_evaluate h value) fun _ => .get_bind fun _ =>
      .bind (homing_printLine _) fun _ => .pure _
  | .declare name initial =>
    .bind (homing_evaluateOptional h initial) fun _ => .get_bind fun _ =>
      .bind (homing_define _ _ _) fun _ => .pure _
  | .block body => .get_bind fun _ => .bind (homing_newFrame _) fun _ => .inFrame _ _
  | .branch condition whenTrue none => by
    rw [execute]
    refine .bind (homing_evaluate h condition) fun x => ?_
    split
    · exact homing_execute h whenTrue
    · exact .pure _
  | .branch condition whenTrue (some whenFalse) => by
    rw [execute]
    refine .bind (homing_evaluate h condition) fun x => ?_
    split
    · exact homing_execute h whenTrue
    · exact homing_execute h whenFalse
  | .loop condition body =>
    homing_repeatWhile (.bind (homing_evaluate h condition) fun _ => .pure _)
      (homing_execute h body) _
  | .function routine =>
    .get_bind fun _ => .bind (homing_newClosure _) fun _ => .bind (homing_define _ _ _) fun _ =>
      .pure _
  | .giveBack _ value => .bind (homing_evaluateOptional h value) fun _ => .pure _
  | .klass name superclass methods =>
    .bind (homing_declareClass h name superclass methods) fun _ => .pure _

theorem homing_interpret (h : host.Homing) (program : List (Stmt Place)) :
    Homing (interpret host program) := by
  induction program with
  | nil => exact .pure _
  | cons s rest ih =>
    refine .bind (homing_execute h s) fun completion => ?_
    split
    · exact ih
    · exact .faultWith _

/-- Nor need anything be known of the host of a call: the body runs in the frame of the call. -/
theorem homing_runClosure (host : Host) (id : ClosureId) (values : List Value) :
    Homing (runClosure host id values) := by
  refine .get_bind fun m => .bind (homing_expectSome _) fun c => ?_
  refine .bind (homing_newFrame _) fun frame => .bind (homing_bindParams _ _ _) fun _ => ?_
  refine .bind (.inFrame _ _) fun completion => ?_
  split
  · refine .get_bind fun m => ?_
    split
    · exact .pure _
    · exact .faultWith _
  · split
    · exact .pure _
    · exact .pure _

end Host

/-- Calls are homing at any depth, also where they are too deep. -/
theorem homing_invokeAt (names : Names) (answers : Answers) (rounds depth : Nat) (paren : Token)
    (id : ClosureId) (values : List Value) :
    Homing (invokeAt names answers rounds depth paren id values) := by
  cases depth with
  | zero => exact .failAt _ _
  | succ depth => exact homing_runClosure _ id values

theorem Limits.homing_hostBy (answers : Answers) (limits : Limits) :
    (limits.hostBy .byDistance answers).Homing :=
  ⟨Names.homing_byDistance, homing_invokeAt _ _ _ _⟩

end Run

/-! ### Sessions -/

namespace Session

/-- A text leaves the current frame of the session as it was, whatever comes of it. -/
theorem current_run (limits : Limits) (text : String) (s : Session) :
    (s.run limits text).1.machine.current = s.machine.current := by
  unfold run runBy
  split
  · rfl
  · rfl
  · next program report _ =>
    have hback := homing_interpret (limits.homing_hostBy s.answers) program s.machine
    unfold machineAfter at hback
    cases hrun : interpret (limits.hostBy .byDistance s.answers) program s.machine with
    | ok _ machine =>
      rw [hrun] at hback
      exact hback
    | error e machine =>
      rw [hrun] at hback
      cases e <;> exact hback

/-- So do all texts before the next one. -/
theorem current_after (limits : Limits) (texts : List String) (s : Session) :
    (s.after .byDistance limits texts).machine.current = s.machine.current := by
  induction texts generalizing s with
  | nil => rw [after_nil]
  | cons text rest ih =>
    rw [after_cons, ih, reset_machine]
    exact current_run limits text s

/-- So does a line of an interactive session. -/
theorem current_respond (limits : Limits) (line : String) (s : Session) :
    (s.respond limits line).session.machine.current = s.machine.current := by
  have hback := current_run limits line s
  unfold respond
  split <;> · next heq => rw [heq] at hback; exact hback

end Session

/-- **The current frame comes back.** Under any limits, expressions, statements, calls and whole
programs leave the current frame of any machine as it was: if they come to a value or carry on, if
they return, and if they fail, in whatever way. Hence each text of a session, and each line of an
interactive one, starts and ends among the globals. -/
theorem current_comes_back (answers : Answers) (limits : Limits) :
    let host := limits.hostBy .byDistance answers
    (∀ e, Homing (evaluate host e)) ∧ (∀ s, Homing (execute host s)) ∧
      (∀ paren callee values, Homing (callValue host paren callee values)) ∧
      (∀ program, Homing (interpret host program)) ∧
      ∀ report natives clock earlier text,
        let start : Session := ⟨report, .initial natives clock, answers⟩
        let before := start.after .byDistance limits earlier
        before.machine.current = Machine.globals ∧
          (before.run limits text).1.machine.current = Machine.globals ∧
          (before.respond limits text).session.machine.current = Machine.globals := by
  have hhost := limits.homing_hostBy answers
  refine ⟨homing_evaluate hhost, homing_execute hhost, homing_callValue hhost,
    homing_interpret hhost, fun report natives clock earlier text => ?_⟩
  have hbefore := Session.current_after limits earlier
    ⟨report, .initial natives clock, answers⟩
  exact ⟨hbefore, (Session.current_run limits text _).trans hbefore,
    (Session.current_respond limits text _).trans hbefore⟩

end LoxInterpreter
