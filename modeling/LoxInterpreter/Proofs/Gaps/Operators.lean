import LoxInterpreter.Proofs.Gaps.Parsed
import LoxInterpreter.Proofs.Gaps.Visits
import LoxInterpreter.Proofs.Run.Notes
import LoxInterpreter.Proofs.Run.Operation
import LoxInterpreter.Proofs.Tape.Progress
import LoxInterpreter.Run.Evaluate

/-!
# What is parsed can be handled

Evaluation has no answer to a token in the place of an operator that is none. It is never asked for
one: the trees that it runs have been parsed, those that a call runs have been part of such a tree,
and parsing puts operators alone in these places.

A step is `Operable` if it keeps the code of closures well made, and does not end at a token that is
no operator. The code of a well made tree is operable (`operable_evaluate`, `operable_execute`), and
so are calls at any depth.

The main theorem (`parse_fits_later_passes`) is about all token lists whose last token alone stands
for the end of the text: what the parser returns is well made, the report holds an issue for each
gap in it, printing and scope analysis are led to no gap, and no run meets a token in the place of
an operator that is none.
-/

namespace LoxInterpreter

open Run

/-- The closures of the machine run well made code. -/
def Machine.WellMade (m : Machine) : Prop := ∀ c ∈ m.closures, Stmt.WellMadeRoutine c.routine

namespace Run

variable {α β : Type}

/-- A step that keeps machines well made, however it ends, and knows the operators that it meets on
them. -/
structure Operable (act : Run α) : Prop where
  wellMade : ∀ m, m.WellMade → (machineAfter act m).WellMade
  ne_badOperator : ∀ m op m', m.WellMade → act m ≠ .error (.fault (.badOperator op)) m'

namespace Operable

variable {act : Run α} {f : α → Run β}

protected theorem pure (a : α) : Operable (pure a) := ⟨fun _ h => h, fun _ _ _ _ => nofun⟩

protected theorem throw {why : Interruption} (h : ∀ op, why ≠ .fault (.badOperator op)) :
    Operable (throw why : Run α) where
  wellMade _ hm := hm
  ne_badOperator _ op _ _ hthrow := by
    injection hthrow with hwhy
    exact h op hwhy

theorem failAt (token : Token) (cause : RuntimeError) : Operable (failAt token cause : Run α) :=
  .throw fun _ => nofun

theorem faultWith {what : Fault} (h : ∀ op, what ≠ .badOperator op) :
    Operable (faultWith what : Run α) :=
  .throw fun op hwhat => h op (by injection hwhat)

protected theorem bind (h : Operable act) (hf : ∀ a, Operable (f a)) : Operable (act >>= f) where
  wellMade :=
    rel_machineAfter_bind (fun m m' => m.WellMade → m'.WellMade) (fun h h' hm => h' (h hm))
      h.wellMade fun a => (hf a).wellMade
  ne_badOperator m op m' hm := by
    have hact := h.wellMade m hm
    cases heq : act m with
    | ok a m₁ =>
      rw [machineAfter_of_ok heq] at hact
      rw [bind_apply_of_ok heq]
      exact (hf a).ne_badOperator m₁ op m' hact
    | error e m₁ =>
      rw [bind_apply_of_error heq]
      intro hbad
      cases hbad
      exact h.ne_badOperator m op m' hm heq

/-- A look at the machine. -/
theorem get_bind {g : Machine → Run β} (h : ∀ m, m.WellMade → Operable (g m)) :
    Operable (get >>= g) where
  wellMade m hm := (h m hm).wellMade m hm
  ne_badOperator m op m' hm := (h m hm).ne_badOperator m op m' hm

/-- A change of the store that makes no closure. -/
protected theorem modify {change : Machine → Machine}
    (h : ∀ m, (change m).closures = m.closures) : Operable (modify change) where
  wellMade m hm := by
    have hclosures : (machineAfter (modify change) m).closures = m.closures := h m
    rw [Machine.WellMade, hclosures]
    exact hm
  ne_badOperator _ _ _ _ := nofun

/-- It does not matter in which frame a step is done. -/
protected theorem inFrame (id : FrameId) (h : Operable act) : Operable (inFrame id act) where
  wellMade m hm := by
    rw [machineAfter_inFrame]
    exact h.wellMade _ hm
  ne_badOperator m op m' hm hbad := by
    unfold inFrame at hbad
    cases heq : act { m with current := id } with
    | ok a m₁ => rw [heq] at hbad; cases hbad
    | error e m₁ =>
      rw [heq] at hbad
      cases hbad
      exact h.ne_badOperator { m with current := id } op m₁ hm heq

end Operable

/-! ### Steps of the machine -/

theorem operable_expectSome (a : Option α) : Operable (expectSome a) := by
  cases a with
  | none => exact .faultWith fun _ => nofun
  | some a => exact .pure a

theorem operable_define (id : FrameId) (name : String) (v : Value) :
    Operable (define id name v) :=
  .modify fun _ => rfl

theorem operable_newFrame (enclosing : FrameId) : Operable (newFrame enclosing) :=
  .get_bind fun _ _ => .bind (.modify fun _ => rfl) fun _ => .pure _

theorem operable_newClass (c : ClassRecord) : Operable (newClass c) :=
  .get_bind fun _ _ => .bind (.modify fun _ => rfl) fun _ => .pure _

theorem operable_newInstance (klass : ClassId) : Operable (newInstance klass) :=
  .get_bind fun _ _ => .bind (.modify fun _ => rfl) fun _ => .pure _

theorem operable_newClosure {c : Closure} (hc : Stmt.WellMadeRoutine c.routine) :
    Operable (newClosure c) where
  wellMade m hm := by
    have hclosures : (machineAfter (newClosure c) m).closures = m.closures.push c := rfl
    rw [Machine.WellMade, hclosures]
    intro d hd
    rcases Array.mem_push.mp hd with hd | rfl
    · exact hm d hd
    · exact hc
  ne_badOperator _ _ _ _ := nofun

/-- A closure of the machine runs well made code. -/
theorem Operable.closure_bind {m : Machine} (hm : m.WellMade) (id : ClosureId)
    {f : Closure → Run β} (hf : ∀ c, Stmt.WellMadeRoutine c.routine → Operable (f c)) :
    Operable (expectSome m.closures[id]? >>= f) := by
  cases hc : m.closures[id]? with
  | none =>
    show Operable (Run.faultWith .dangling)
    exact .faultWith fun _ => nofun
  | some c => exact hf c (hm c (Array.mem_of_getElem? hc))

/-! ### Operators and names -/

/-- The kinds of prefix operators are those of the list. -/
theorem isPrefix_of_mem_prefixOperators {kind : TokenKind} (h : kind ∈ prefixOperators) :
    kind.IsPrefix := by
  simpa [prefixOperators, TokenKind.IsPrefix] using h

/-- There is a meaning for each operator of the list. -/
theorem isBinary_of_mem_binaryOperators : ∀ kind ∈ binaryOperators, kind.IsBinary := by
  unfold TokenKind.IsBinary
  decide

theorem Operation.operable {known : Prop} (hknown : known) {op op' : Token} {act act' : Run Value}
    (h : Operation known op op' act act') : Operable act := by
  cases h with
  | value _ => exact .pure _
  | blame _ => exact .failAt _ _
  | unknown hunknown => exact absurd hknown hunknown

theorem operable_readFrom (id : FrameId) (name : Token) : Operable (readFrom id name) := by
  refine .get_bind fun m _ => ?_
  split
  · exact .pure _
  · exact .failAt _ _

theorem operable_assignFrom (id : FrameId) (name : Token) (v : Value) :
    Operable (assignFrom id name v) := by
  refine .get_bind fun m _ => ?_
  split
  · exact operable_define _ _ _
  · exact .failAt _ _

theorem operable_readAt (distance : Nat) (name : String) : Operable (readAt distance name) := by
  refine .get_bind fun m _ => ?_
  split
  · exact .pure _
  · exact .faultWith fun _ => nofun

theorem operable_assignAt (distance : Nat) (name : Token) (v : Value) :
    Operable (assignAt distance name v) := by
  refine .get_bind fun m _ => ?_
  split
  · exact operable_define _ _ _
  · exact .faultWith fun _ => nofun
  · exact .faultWith fun _ => nofun

/-- Names are found without operators. -/
structure Names.Operable (names : Names) : Prop where
  read : ∀ r, Run.Operable (names.read r)
  write : ∀ r v, Run.Operable (names.write r v)

theorem Names.operable_byDistance : Names.byDistance.Operable where
  read r := by
    rw [Names.byDistance]
    dsimp only
    split
    · exact operable_readFrom _ _
    · exact operable_readAt _ _
  write r v := by
    rw [Names.byDistance]
    dsimp only
    split
    · exact operable_assignFrom _ _ _
    · exact operable_assignAt _ _ _

/-! ### Objects -/

theorem operable_bindMethod (method : ClosureId) (receiver : Value) :
    Operable (bindMethod method receiver) := by
  refine .get_bind fun m hm => .closure_bind hm method fun c hc => ?_
  refine .bind (operable_newFrame _) fun home => .bind (operable_define _ _ _) fun _ => ?_
  exact operable_newClosure hc

theorem operable_readProperty (object : Value) (name : Token) :
    Operable (readProperty object name) := by
  unfold readProperty
  split
  · refine .get_bind fun m _ => .bind (operable_expectSome _) fun found => ?_
    split
    · exact .pure _
    · split
      · exact .bind (operable_bindMethod _ _) fun _ => .pure _
      · exact .failAt _ _
  · exact .failAt _ _

theorem operable_readInherited (superclass : Reference Place) (method : Token) :
    Operable (readInherited superclass method) := by
  unfold readInherited
  split
  · exact .faultWith fun _ => nofun
  · refine .bind (operable_readAt _ _) fun parent => ?_
    refine .bind (operable_readAt _ _) fun receiver => ?_
    split
    · refine .get_bind fun m _ => ?_
      split
      · exact .bind (operable_bindMethod _ _) fun _ => .pure _
      · exact .failAt _ _
    · exact .faultWith fun _ => nofun

/-! ### Evaluation -/

/-- A host that finds names without operators, and whose calls are operable. -/
structure Host.Operable (host : Host) : Prop where
  names : host.names.Operable
  invoke : ∀ paren id values, Run.Operable (host.invoke paren id values)

theorem operable_repeatWhile {test : Run Bool} {body : Run Completion} (htest : Operable test)
    (hbody : Operable body) (rounds : Nat) : Operable (repeatWhile test body rounds) := by
  induction rounds with
  | zero => exact .throw fun _ => nofun
  | succ rounds ih =>
    refine .bind htest fun goesOn => ?_
    split
    · refine .bind hbody fun completion => ?_
      split
      · exact ih
      · exact .pure _
    · exact .pure _

theorem operable_newMethods (home : FrameId) (methods : List (String × ClosureId))
    {routines : List (Routine Place)} (h : Stmt.WellMadeMethods routines) :
    Operable (newMethods home methods routines) := by
  induction routines generalizing methods with
  | nil => exact .pure _
  | cons m rest ih => exact .bind (operable_newClosure h.1) fun id => ih _ h.2

theorem operable_bindParams (frame : FrameId) (params : List Token) (values : List Value) :
    Operable (bindParams frame params values) := by
  induction params generalizing values with
  | nil => exact .pure _
  | cons param params ih =>
    cases values with
    | nil => exact .pure _
    | cons value values => exact .bind (operable_define _ _ _) fun _ => ih values

section Host

variable {host : Host}

theorem operable_callNative (f : Native) (values : List Value) :
    Operable (callNative host f values) :=
  .bind (.modify fun _ => rfl) fun _ => .get_bind fun _ _ => .pure _

theorem operable_construct (h : host.Operable) (paren : Token) (klass : ClassId)
    (values : List Value) : Operable (construct host paren klass values) := by
  refine .bind (operable_newInstance _) fun object => .get_bind fun m _ => ?_
  split
  · exact .pure _
  · refine .bind (operable_bindMethod _ _) fun initializer => ?_
    exact .bind (h.invoke _ _ _) fun _ => .pure _

theorem operable_callValue (h : host.Operable) (paren : Token) (callee : Value)
    (values : List Value) : Operable (callValue host paren callee values) := by
  refine .get_bind fun m _ => ?_
  split
  · exact .failAt _ _
  · split
    · exact .failAt _ _
    · cases callee with
      | native f => exact operable_callNative f values
      | closure id => exact h.invoke _ _ _
      | klass id => exact operable_construct h _ _ _
      | nil | bool | number | text | object => exact .failAt _ _

mutual

/-- Evaluating a well made expression is operable. -/
theorem operable_evaluate (h : host.Operable) {e : Expr Place} (he : e.WellMade) :
    Operable (evaluate host e) := by
  match e, he with
  | .literal value, _ => exact .pure _
  | .grouping inner, he => exact operable_evaluate h (e := inner) he
  | .unary op operand, ⟨hop, he⟩ =>
    have hknown := isPrefix_of_mem_prefixOperators hop
    exact .bind (operable_evaluate h he) fun x => (operation_unary rfl x).operable hknown
  | .binary left op right, ⟨hleft, hop, hright⟩ =>
    have hknown := isBinary_of_mem_binaryOperators _ hop
    exact .bind (operable_evaluate h hleft) fun x => .bind (operable_evaluate h hright) fun y =>
      (operation_binary rfl x y).operable hknown
  | .logical left op right, ⟨hleft, _, hright⟩ =>
    refine .bind (operable_evaluate h hleft) fun x => ?_
    split
    · exact .pure _
    · exact operable_evaluate h hright
  | .reference target, _ => exact h.names.read target
  | .assign target value, he =>
    exact .bind (operable_evaluate h (e := value) he) fun x =>
      .bind (h.names.write target x) fun _ => .pure _
  | .call callee paren values, ⟨hcallee, hvalues⟩ =>
    exact .bind (operable_evaluate h hcallee) fun f => .bind (operable_evaluateAll h hvalues)
      fun xs => operable_callValue h paren f xs
  | .property object name, he =>
    exact .bind (operable_evaluate h (e := object) he) fun x => operable_readProperty x name
  | .setProperty object name value, ⟨hobject, hvalue⟩ =>
    refine .bind (operable_evaluate h hobject) fun x => ?_
    split
    · exact .bind (operable_evaluate h hvalue) fun y =>
        .bind (.modify fun _ => rfl) fun _ => .pure _
    · exact .failAt _ _
  | .this receiver, _ => exact h.names.read receiver
  | .inherited superclass method, _ => exact operable_readInherited superclass method

theorem operable_evaluateAll (h : host.Operable) {es : List (Expr Place)}
    (hes : Expr.WellMadeAll es) : Operable (evaluateAll host es) := by
  match es, hes with
  | [], _ => exact .pure _
  | e :: rest, ⟨he, hrest⟩ =>
    exact .bind (operable_evaluate h he) fun _ =>
      .bind (operable_evaluateAll h hrest) fun _ => .pure _

end

theorem operable_evaluateOptional (h : host.Operable) {o : Option (Expr Place)}
    (ho : ∀ e ∈ o, e.WellMade) : Operable (evaluateOptional host o) := by
  cases o with
  | none => exact .pure _
  | some e => exact operable_evaluate h (ho e rfl)

theorem operable_superclassOf (h : host.Operable) (superclass : Option (Reference Place)) :
    Operable (superclassOf host superclass) := by
  cases superclass with
  | none => exact .pure _
  | some target =>
    refine .bind (h.names.read target) fun x => ?_
    split
    · exact .pure _
    · exact .failAt _ _

theorem operable_declareClass (h : host.Operable) (name : Token)
    (superclass : Option (Reference Place)) {methods : List (Routine Place)}
    (hmethods : Stmt.WellMadeMethods methods) :
    Operable (declareClass host name superclass methods) := by
  refine .bind (operable_superclassOf h superclass) fun parent => .get_bind fun m _ => ?_
  refine .bind (operable_define _ _ _) fun _ => ?_
  -- the class is made alike in both frames that its methods may be at home in
  have hmade (natal : FrameId) : Operable (newMethods natal [] methods >>= fun table =>
      newClass ⟨name.lexeme, parent, table⟩ >>= fun id =>
        assignFrom m.current name (.klass id)) :=
    .bind (operable_newMethods _ _ hmethods) fun _ => .bind (operable_newClass _) fun _ =>
      operable_assignFrom _ _ _
  cases parent with
  | none => exact hmade _
  | some id =>
    exact .bind (operable_newFrame _) fun frame => .bind (operable_define _ _ _) fun _ =>
      hmade frame

/-- A gap among statements does nothing. -/
theorem operable_execute_element {s : Stmt Place} (hs : s = .malformed ∨ s.WellMade)
    (h : s.WellMade → Operable (execute host s)) : Operable (execute host s) := by
  rcases hs with rfl | hs
  · exact .pure _
  · exact h hs

mutual

/-- Executing a well made statement is operable. -/
theorem operable_execute (h : host.Operable) {s : Stmt Place} (hs : s.WellMade) :
    Operable (execute host s) := by
  match s, hs with
  | .expression value, hs => exact .bind (operable_evaluate h (e := value) hs) fun _ => .pure _
  | .print value, hs =>
    exact .bind (operable_evaluate h (e := value) hs) fun _ => .get_bind fun _ _ =>
      .bind (.modify fun _ => rfl) fun _ => .pure _
  | .declare name initial, hs =>
    exact .bind (operable_evaluateOptional h hs) fun _ => .get_bind fun _ _ =>
      .bind (operable_define _ _ _) fun _ => .pure _
  | .block body, hs =>
    exact .get_bind fun _ _ => .bind (operable_newFrame _) fun _ =>
      .inFrame _ (operable_executeAll h (show Stmt.WellMadeBody body from hs))
  | .branch condition whenTrue none, ⟨hcondition, _, hs⟩ =>
    rw [execute]
    refine .bind (operable_evaluate h hcondition) fun x => ?_
    split
    · exact operable_execute h hs
    · exact .pure _
  | .branch condition whenTrue (some whenFalse), ⟨hcondition, ⟨_, hs⟩, _, hs'⟩ =>
    rw [execute]
    refine .bind (operable_evaluate h hcondition) fun x => ?_
    split
    · exact operable_execute h hs
    · exact operable_execute h hs'
  | .loop condition body, ⟨hcondition, _, hs⟩ =>
    exact operable_repeatWhile (.bind (operable_evaluate h hcondition) fun _ => .pure _)
      (operable_execute h hs) _
  | .function routine, hs =>
    exact .get_bind fun _ _ => .bind (operable_newClosure hs) fun _ =>
      .bind (operable_define _ _ _) fun _ => .pure _
  | .giveBack _ value, hs => exact .bind (operable_evaluateOptional h hs) fun _ => .pure _
  | .klass name superclass methods, hs =>
    exact .bind (operable_declareClass h name superclass hs) fun _ => .pure _

/-- Executing well made statements and gaps is operable. -/
theorem operable_executeAll (h : host.Operable) {body : List (Stmt Place)}
    (hbody : Stmt.WellMadeBody body) : Operable (executeAll host body) := by
  match body, hbody with
  | [], _ => exact .pure _
  | s :: rest, ⟨hs, hrest⟩ =>
    rw [executeAll]
    refine .bind (operable_execute_element hs (operable_execute h)) fun completion => ?_
    split
    · exact operable_executeAll h hrest
    · exact .pure _

end

theorem operable_interpret (h : host.Operable) {program : List (Stmt Place)}
    (hprogram : Stmt.WellMadeBody program) : Operable (interpret host program) := by
  induction program with
  | nil => exact .pure _
  | cons s rest ih =>
    refine .bind (operable_execute_element hprogram.1 (operable_execute h)) fun completion => ?_
    split
    · exact ih hprogram.2
    · exact .faultWith fun _ => nofun

/-- What a call runs has been well made since the closure was. -/
theorem operable_runClosure (h : host.Operable) (id : ClosureId) (values : List Value) :
    Operable (runClosure host id values) := by
  refine .get_bind fun m hm => .closure_bind hm id fun c hc => ?_
  refine .bind (operable_newFrame _) fun frame => .bind (operable_bindParams _ _ _) fun _ => ?_
  have hbody : Operable (executeAll host c.routine.body) := by
    cases hroutine : c.routine with
    | mk name params body =>
      rw [hroutine] at hc
      exact operable_executeAll h hc
  refine .bind (.inFrame _ hbody) fun completion => ?_
  split
  · refine .get_bind fun m _ => ?_
    split
    · exact .pure _
    · exact .faultWith fun _ => nofun
  · split
    · exact .pure _
    · exact .pure _

end Host

/-- Calls are operable at any depth, also where they are too deep. -/
theorem operable_invokeAt {names : Names} (hnames : names.Operable) (answers : Answers)
    (rounds depth : Nat) (paren : Token) (id : ClosureId) (values : List Value) :
    Operable (invokeAt names answers rounds depth paren id values) := by
  induction depth generalizing paren id values with
  | zero => exact .failAt _ _
  | succ depth ih =>
    have hhost : Host.Operable ⟨names, answers, invokeAt names answers rounds depth, rounds⟩ :=
      ⟨hnames, ih⟩
    exact operable_runClosure hhost id values

theorem Limits.operable_hostBy (answers : Answers) (limits : Limits) :
    (limits.hostBy .byDistance answers).Operable :=
  ⟨Names.operable_byDistance, operable_invokeAt Names.operable_byDistance _ _ _⟩

end Run

/-! ### Machines that programs lead to -/

/-- A machine that programs lead to which have been parsed from any tokens, and linked in any way.
What they have printed may have been taken away in between. -/
inductive Machine.Reached : Machine → Prop
  | initial (natives : List Native) (clock : Float) : Reached (.initial natives clock)
  | interpreted (limits : Limits) (answers : Answers) {tokens : List Token}
    {linked : List (Stmt Place)} {m : Machine} :
    Reached m → Stmt.unlinkBody linked = (parse tokens).statements →
      Reached (machineAfter (interpret (limits.hostBy .byDistance answers) linked) m)
  | drained {m : Machine} : Reached m → Reached { m with output := "" }

/-- However it is linked, what has been parsed is well made. -/
theorem Stmt.wellMadeBody_of_unlinkBody_eq {linked : List (Stmt Place)} {tokens : List Token}
    (h : unlinkBody linked = (parse tokens).statements) : WellMadeBody linked := by
  rw [← wellMadeBody_unlinkBody, h]
  exact wellMadeBody_statements tokens

/-- Programs lead to well made machines. -/
theorem Machine.Reached.wellMade {m : Machine} (h : m.Reached) : m.WellMade := by
  induction h with
  | initial natives clock => exact nofun
  | interpreted limits answers _ hlinked ih =>
    exact (operable_interpret (limits.operable_hostBy answers)
      (Stmt.wellMadeBody_of_unlinkBody_eq hlinked)).wellMade _ ih
  | drained _ ih => exact ih

/-- **What is parsed can be handled by what comes after parsing.** Let the last token of a list
alone stand for the end of the text, and let the parser return a program, whatever mistakes it has
reported. Then the program is well made: every operator exists and stands in its place, branches and
loop bodies are there and declare nothing, and gaps are elements of lists. There is an issue for
each gap. Printing and scope analysis are led to no gap. And however the program is linked, no run
of it meets a token in the place of an operator that is none, on any machine that such programs lead
to. -/
theorem parse_fits_later_passes {body : List Token} {eof : Token}
    (hbody : ∀ t ∈ body, t.kind ≠ .endOfText) (heof : eof.kind = .endOfText) {report : Report}
    {program : List (Stmt Blank)} {s : Tape.Head}
    (hparse : Tape.parse (body ++ [eof]) report = .ok program s) :
    Stmt.WellMadeBody program ∧
      report.issues.size + Stmt.gapsIn program ≤ s.report.issues.size ∧
      Stmt.printedEach? program = some (Stmt.renderAll program) ∧
      Stmt.analysedEach? .topLevel program = some ⟨scopeMistakes program, linkProgram program⟩ ∧
      ∀ (limits : Limits) answers linked m op m', Stmt.unlinkBody linked = program → m.Reached →
        interpret (limits.hostBy .byDistance answers) linked m ≠
          .error (.fault (.badOperator op)) m' := by
  have hagree := Tape.agree_parse ⟨body, eof, report, hbody, heof⟩
  dsimp only at hagree
  rw [hparse] at hagree
  cases hagree with
  | ok hs _ =>
    have hwell := wellMadeBody_statements body
    refine ⟨hwell, ?_, Stmt.printedEach?_eq_some hwell, Stmt.analysedEach?_eq_some _ hwell, ?_⟩
    · have hissues : report.issues.size + (parse body).mistakes.length ≤ s.report.issues.size :=
        Reporting.length_le_size_of_forM (fun _ _ _ => Reporting.lt_size_of_error) hs.recorded
      exact Nat.le_trans (Nat.add_le_add_left (gapsIn_statements_le body) _) hissues
    · intro limits answers linked m op m' hlinked hm
      exact (operable_interpret (limits.operable_hostBy answers)
        (Stmt.wellMadeBody_of_unlinkBody_eq hlinked)).ne_badOperator m op m' hm.wellMade

/-- The parser returns a program if the report has room for all mistakes. -/
theorem Tape.exists_parse_eq_ok {body : List Token} {eof : Token} {report : Report}
    (hbody : ∀ t ∈ body, t.kind ≠ .endOfText) (heof : eof.kind = .endOfText)
    (hroom : (record eof (LoxInterpreter.parse body).mistakes).run' report = some ()) :
    ∃ s, parse (body ++ [eof]) report = .ok (LoxInterpreter.parse body).statements s := by
  have hagree := agree_parse ⟨body, eof, report, hbody, heof⟩
  dsimp only at hagree
  generalize parse (body ++ [eof]) report = r at hagree ⊢
  cases hagree with
  | @ok _ _ s _ _ => exact ⟨s, rfl⟩
  | gaveUp hs =>
    have hfull := hs.recorded
    dsimp only [mistakesOf] at hfull
    delta EStateM.run' EStateM.run at hroom
    rw [hfull] at hroom
    cases hroom

/-- A declaration without a name, a statement without an expression in a block, and a loop in a
function there whose body breaks off. -/
def gapped : String :=
  "var 1; \x7b print !; fun f(a) \x7b if (a or !a) -a + 1; while (a) return a print a; \x7d \x7d"

/-- The text that has gaps at the top level, in a block and in a function can be handled. -/
theorem parse_fits_later_passes_gapped :
    let body := (scan gapped).tokens
    let eof := (scan gapped).endToken
    let report := Report.fresh false 25 (.ofFaces [])
    (∀ t ∈ body, t.kind ≠ .endOfText) ∧ eof.kind = .endOfText ∧ ∃ program s,
      Tape.parse (body ++ [eof]) report = .ok program s ∧ Stmt.gapsIn program = 3 ∧
      Stmt.WellMadeBody program ∧
      report.issues.size + Stmt.gapsIn program ≤ s.report.issues.size ∧
      Stmt.printedEach? program = some (Stmt.renderAll program) ∧
      Stmt.analysedEach? .topLevel program = some ⟨scopeMistakes program, linkProgram program⟩ ∧
      ∀ (limits : Limits) answers linked m op m', Stmt.unlinkBody linked = program → m.Reached →
        interpret (limits.hostBy .byDistance answers) linked m ≠
          .error (.fault (.badOperator op)) m' := by
  intro body eof report
  have hbody (t : Token) (ht : t ∈ body) : t.kind ≠ .endOfText :=
    (spelled_of_mem_tokens ht).kind_ne_endOfText
  have hgaps : Stmt.gapsIn (parse body).statements = 3 := by decide +kernel
  have hroom : (Tape.record eof (parse body).mistakes).run' report = some () := by
    decide +kernel
  obtain ⟨s, hparse⟩ := Tape.exists_parse_eq_ok hbody rfl hroom
  exact ⟨hbody, rfl, _, s, hparse, hgaps, parse_fits_later_passes hbody rfl hparse⟩

end LoxInterpreter
