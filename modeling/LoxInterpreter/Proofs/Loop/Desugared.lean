import LoxInterpreter.Proofs.Grammar.Soundness
import LoxInterpreter.Proofs.Loop.InStep
import LoxInterpreter.Proofs.Run.Arrival

/-!
# A `for` loop written with `while` and blocks

The trees that a parser makes of `for` statements (`Grammar.Statement.exists_forLoop`) have up to
three scopes, according to the clauses that are there, and the distances in them differ. Still each
of them does what a `for` statement means (`ForLoop.interchangeable_tree_run`), wherever it stands in
an accepted text and whenever a run arrives there.

`ForLoop.bodyFrames_spec` is about the frames: all rounds are inside of one frame, and a body that
is a block has a frame of its own in each of them.
-/

namespace LoxInterpreter

open Run

/-! ### One frame around those of the rounds -/

/-- No frame is lost, and those that are enclosed stay where they are. -/
structure Machine.Extends (m m' : Machine) : Prop where
  nextId : m.forest.nextId ≤ m'.forest.nextId
  enclosing : ∀ f g, m.forest.enclosing? f = some g → m'.forest.enclosing? f = some g

protected theorem Machine.Extends.refl (m : Machine) : m.Extends m :=
  ⟨Nat.le_refl _, fun _ _ h => h⟩

protected theorem Machine.Extends.trans {m m' m'' : Machine} (h : m.Extends m')
    (h' : m'.Extends m'') : m.Extends m'' :=
  ⟨h.nextId.trans h'.nextId, fun f g hf => h'.enclosing f g (h.enclosing f g hf)⟩

/-- No partner is lost. -/
theorem Pairing.Follows.extends {G : Guise} {p q : Pairing} (hs : p.Sound G) (h : p.Follows G q) :
    p.left.Extends q.left := by
  refine ⟨?_, h.grows.enclosing⟩
  by_contra hlt
  rw [Nat.not_le, ← hs.matched.size] at hlt
  have hpartners := h.grows.partners _ _ _ (List.getElem?_eq_getElem hlt)
  exact Nat.lt_irrefl _ (h.sound.matched.lt_nextId hpartners)

/-- On the way from the first machine to the second the frames are made one after the other, all of
them inside of the one frame. -/
structure Machine.Makes (frame : FrameId) (frames : List FrameId) (m m' : Machine) : Prop where
  extending : m.Extends m'
  made : ∀ g ∈ frames, m.forest.nextId ≤ g
  enclosing : ∀ g ∈ frames, m'.forest.enclosing? g = some frame
  increasing : frames.Pairwise (· < ·)

namespace Machine.Makes

variable {frame : FrameId} {frames : List FrameId} {m m₁ m₂ m' : Machine}

protected theorem nil (h : m.Extends m') : m.Makes frame [] m' :=
  ⟨h, List.forall_mem_nil _, List.forall_mem_nil _, .nil⟩

/-- The next frame is made in a step, and then the others are. -/
protected theorem cons (h : m.Extends m₁) (hstep : m₁.Extends m₂)
    (hmade : m₁.forest.nextId < m₂.forest.nextId)
    (hframe : m₂.forest.enclosing? m₁.forest.nextId = some frame)
    (hrest : m₂.Makes frame frames m') : m.Makes frame (m₁.forest.nextId :: frames) m' where
  extending := (h.trans hstep).trans hrest.extending
  made := List.forall_mem_cons.mpr
    ⟨h.nextId, fun g hg => (h.trans hstep).nextId.trans (hrest.made g hg)⟩
  enclosing := List.forall_mem_cons.mpr
    ⟨hrest.extending.enclosing _ _ hframe, hrest.enclosing⟩
  increasing := List.pairwise_cons.mpr
    ⟨fun g hg => hmade.trans_le (hrest.made g hg), hrest.increasing⟩

end Machine.Makes

namespace ForLoop

variable {l : ForLoop Blank} {scopes : Scopes}

section Frames

variable {host : Host} (hosts : host.Twins .plain host) (hhost : host.Homing) (hl : l.Shaped)
  (hscopes : scopes.Regular) {p : Pairing} {frame frame' : FrameId} {stmts : List (Stmt Blank)}
  (hbody : l.body = .block stmts)

include hosts hhost hl hscopes hbody

omit hhost in
/-- In a round a block makes the next frame. -/
theorem extends_turn (h : p.Here .plain (l.inside scopes).layers) :
    Machine.Extends { p.left with forest := p.left.forest.push (some p.left.current) }
      (machineAfter ((l.link scopes).turn host) p.left) := by
  have hshape := hl.body
  have hpushed := Pairing.follows_push h.sound p.left.current p.right.current (.refl String)
  have hstands := Pairing.stands_push h.sound h.stands (.refl String)
  have hspaced := (hl.regular_inside hscopes).spaced
  rw [hbody] at hshape
  have htwins := Stmt.twins_linkBody_braced (.refl stmts) hshape
    (hspaced.scope List.not_mem_nil) trivial
  have hblock := inStep_executeAll hosts htwins (.goTo hpushed.sound hstands)
  have hturn := (InStep.inFrame_gives hpushed.sound hblock).bind_gives fun q c hq _ =>
    inStep_conclude hosts hl hscopes (h.follow (hpushed.trans hq)) c
  obtain ⟨q, hq, hlast⟩ := hturn.exists_machineAfter
  have hsame : (l.link scopes).turn host p.left =
      (inFrame p.left.forest.nextId
        (executeAll host (Stmt.linkBody ([] :: l.inside scopes) stmts)) >>=
          (l.link scopes).conclude host)
        { p.left with forest := p.left.forest.push (some p.left.current) } := by
    rw [turn, link, hbody, Stmt.link, execute]
    rfl
  have hafter : machineAfter ((l.link scopes).turn host) p.left = q.left := by
    rw [← hlast, machineAfter, machineAfter, hsame]
    rfl
  rw [hafter]
  exact hq.extends hpushed.sound

/-- So each round has a frame of its own, inside of the frame of the loop. -/
theorem extends_round (hs : p.Sound .plain)
    (hframe : p.Stands (l.inside scopes).layers frame frame') :
    ∃ q, p.Follows .plain q ∧ machineAfter ((l.link scopes).round host frame) p.left = q.left ∧
      p.left.forest.nextId < q.left.forest.nextId ∧
      q.left.forest.enclosing? p.left.forest.nextId = some frame := by
  have hhere : (p.goTo frame frame').Here .plain (l.inside scopes).layers := .goTo hs hframe
  obtain ⟨q, hq, hlast⟩ :=
    (InStep.inFrame_gives hs (inStep_turn hosts hl hscopes hhere)).exists_machineAfter
  rw [← round_eq hhost] at hlast
  obtain ⟨hnextId, henclosing⟩ := extends_turn hosts hl hscopes hbody hhere
  have hforest : (machineAfter ((l.link scopes).turn host) (p.goTo frame frame').left).forest =
      q.left.forest := by
    rw [← hlast, round_eq hhost, machineAfter_inFrame]
    rfl
  rw [hforest] at hnextId henclosing
  refine ⟨q, hq, hlast, ?_, henclosing _ _ ?_⟩
  · have hpushed : (p.left.forest.push (some frame)).nextId ≤ q.left.forest.nextId := hnextId
    rw [Forest.nextId_push] at hpushed
    exact hpushed
  · show (p.left.forest.push (some frame)).enclosing? _ = _
    rw [Forest.enclosing?_push, if_pos rfl]

/-- **One frame around those of the rounds.** A body that is a block gets a new frame in each round,
all of them inside of the frame of the loop, where they stay. -/
theorem makes_roundFrames (n : Nat) (hs : p.Sound .plain)
    (hframe : p.Stands (l.inside scopes).layers frame frame') :
    p.left.Makes frame ((l.link scopes).roundFrames host frame n p.left)
      (machineAfter ((l.link scopes).rounds host frame n) p.left) := by
  induction n generalizing p with
  | zero => exact .nil (.refl _)
  | succ n ih =>
    have hhere : (p.goTo frame frame').Here .plain (l.inside scopes).layers := .goTo hs hframe
    obtain ⟨q, hq, hlast⟩ :=
      (InStep.inFrame_gives hs (inStep_goesOn hosts hl hscopes hhere)).exists_machineAfter
    have hextends := hq.extends hs
    rw [rounds, roundFrames]
    cases hgoesOn : inFrame frame ((l.link scopes).goesOn host) p.left with
    | error e m =>
      obtain rfl := (machineAfter_of_error hgoesOn).symm.trans hlast
      rw [machineAfter_bind_of_error hgoesOn]
      exact .nil hextends
    | ok b m =>
      obtain rfl := (machineAfter_of_ok hgoesOn).symm.trans hlast
      rw [machineAfter_bind_of_ok hgoesOn]
      cases b with
      | false => exact .nil hextends
      | true =>
        obtain ⟨r, hr, hlast, hmade, henclosing⟩ :=
          extends_round hosts hhost hl hscopes hbody hq.sound (hq.grows.stands hframe)
        refine .cons hextends (hr.extends hq.sound) hmade henclosing ?_
        rw [if_pos rfl]
        cases hround : (l.link scopes).round host frame q.left with
        | error e m =>
          obtain rfl := (machineAfter_of_error hround).symm.trans hlast
          rw [machineAfter_bind_of_error hround]
          exact .nil (.refl _)
        | ok c m =>
          obtain rfl := (machineAfter_of_ok hround).symm.trans hlast
          rw [machineAfter_bind_of_ok hround]
          cases c with
          | returning value => exact .nil (.refl _)
          | normal => exact ih hr.sound ((hq.trans hr).grows.stands hframe)

/-- So it is in the whole run, which makes the frame of the loop first. -/
theorem bodyFrames_spec (h : p.Here .plain scopes.layers) :
    let last := machineAfter ((l.link scopes).run host) p.left
    ((l.link scopes).bodyFrames host p.left).Pairwise (· < ·) ∧
      ∀ g ∈ (l.link scopes).bodyFrames host p.left, p.left.forest.nextId < g ∧
        last.forest.enclosing? g = some p.left.forest.nextId := by
  intro last
  have hpushed := Pairing.follows_push h.sound p.left.current p.right.current (.refl String)
  have hframe := Pairing.stands_push h.sound h.stands (.refl String)
  rw [← Layer.same, ← layers_inside (l := l)] at hframe
  obtain ⟨q, hq, hlast⟩ := (InStep.inFrame_gives hpushed.sound
    (inStep_start hosts hl hscopes (.goTo hpushed.sound hframe))).exists_machineAfter
  cases hresult : inFrame p.left.forest.nextId ((l.link scopes).start host)
      { p.left with forest := p.left.forest.push (some p.left.current) } with
  | error e m =>
    rw [bodyFrames, hresult]
    exact ⟨.nil, List.forall_mem_nil _⟩
  | ok c m =>
    cases c with
    | returning value =>
      rw [bodyFrames, hresult]
      exact ⟨.nil, List.forall_mem_nil _⟩
    | normal =>
      obtain rfl := (machineAfter_of_ok hresult).symm.trans hlast
      have hrun := run_apply_of_start hresult
      have hmakes := makes_roundFrames hosts hhost hl hscopes hbody host.rounds hq.sound
        (hq.grows.stands hframe)
      rw [bodyFrames_of_start hresult]
      refine ⟨hmakes.increasing, fun g hg => ⟨?_, ?_⟩⟩
      · have hmade := (hq.extends hpushed.sound).nextId.trans (hmakes.made g hg)
        have hnew : (p.left.forest.push (some p.left.current)).nextId ≤ g := hmade
        rw [Forest.nextId_push] at hnew
        exact hnew
      · show (machineAfter _ _).forest.enclosing? g = _
        rw [machineAfter, hrun]
        exact hmakes.enclosing g hg

end Frames

end ForLoop

/-! ### The desugared loop -/

/-- What is derived from tokens that begin with `for` is the tree of a loop, and its body declares
nothing. -/
theorem Grammar.Statement.exists_forLoop {tail : Tail} {word : Token} {us : List Token}
    {s : Stmt Blank} (h : Statement tail (word :: us) s) (hword : word.kind = .forWord) :
    ∃ l : ForLoop Blank, s = l.tree ∧ l.body.declared? = none := by
  generalize hts : word :: us = ts at h
  cases h with
  | forLoop _ _ _ _ _ _ _ hbody =>
    exact ⟨⟨_, _, _, _⟩, (Parse.forLoop_eq_forTree _ _ _ _).symm, hbody.declared?_eq_none⟩
  | expression h =>
    -- no expression begins so
    obtain ⟨t, vs, rfl, ht⟩ := h.head_mem
    obtain ⟨rfl, -⟩ := List.cons.inj hts
    rw [hword] at ht
    exact absurd ht (by decide)
  | print hw | giveBack hw | block hw | ifThen hw | ifElse hw | loop hw =>
    obtain ⟨rfl, -⟩ := List.cons.inj hts
    rw [hw] at hword
    cases hword

namespace ForLoop

/-- **A desugared `for` loop is a `for` loop.** A run of an accepted text, after any texts before,
has arrived at the tree of a loop. Then the tree has been linked at that place, and it makes no
difference whether it is executed or the loop is run: they complete the same or fail the same, print
the same, and leave the same in all frames from before, and so does whatever is run next, closures
from the loop included.

A body that is a block gets a frame in each round that has not been there before. All of them are
inside of the one frame of the loop, so what is captured in different rounds has the variable of the
loop in common and the variables of the body not. -/
theorem interchangeable_tree_run {answers : Answers} (honest : answers.Honest)
    (settled : answers.Settled) (report : Report) (natives : List Native) (clock : Float)
    (limits : Limits) (earlier : List String) {text : String} {program : List (Stmt Place)}
    (haccepted : Accepted text program) {limits' : Limits} {s : Stmt Place} {m : Machine}
    (harrives : Arrives answers
      ⟨limits, .statements program, (Session.after .byDistance limits earlier
        ⟨report, .initial natives clock, answers⟩).machine⟩
      ⟨limits', .statement s, m⟩)
    {l : ForLoop Blank} (hs : s.unlink = l.tree) (hbody : l.body.declared? = none) :
    let host := limits'.hostBy .byDistance answers
    ∃ scopes, s = l.tree.link scopes ∧ m.forest.Holds m.current scopes ∧
      Interchangeable answers m (execute host s) ((l.link scopes).run host) ∧
      ∀ stmts, l.body = .block stmts →
        ((l.link scopes).bodyFrames host m).Pairwise (· < ·) ∧
        ∀ g ∈ (l.link scopes).bodyFrames host m, m.forest.nextId < g ∧
          (machineAfter ((l.link scopes).run host) m).forest.enclosing? g =
            some m.forest.nextId := by
  intro host
  have hstart := inOrder_of_accepted honest report natives clock limits earlier haccepted
  obtain ⟨w, rfl, c, around, hhere, hwritten⟩ := inOrder_of_arrives honest harrives hstart
  have hdeclared : l.tree.declared? = none := (braced_tree hbody).declared?_eq.symm
  have hlink := hwritten.link
  have hshaped := hwritten.shaped
  rw [hs, Scopes.enter, hdeclared] at hlink
  rw [hs] at hshaped
  have hl := shaped_of_tree hbody hshaped
  have hregular := hwritten.coherent.regular
  have hlength := hwritten.coherent.length
  have hhost := limits'.homing_hostBy answers
  have hosts := twins_hostBy (G := .plain) honest settled limits'
  -- the machine is paired with itself, and both ways to run the loop with the tree with all blocks
  have halone := Pairing.here_alone hhere hlength
  have htree := inStep_execute hosts (Stmt.twins_link_braced (braced_tree hbody) hshaped
    hregular.spaced (.inl hdeclared)) halone
  have hrun := inStep_run hosts hl hregular hhost halone
  rw [hlink] at htree
  exact ⟨c.scopes, hlink.symm, hhere.stands.holds hhere.sound hlength,
    interchangeable_of_inStep honest settled htree hrun,
    fun stmts hstmts => bodyFrames_spec hosts hhost hl hregular hstmts halone⟩

end ForLoop

/-- A loop that goes round twice, with a function that captures its variable. -/
def capturing : String := "for (var i; !i; i = i == false) \x7b fun f() \x7b return i; \x7d \x7d"

/-- The parts of the loop. -/
def capturingLoop : ForLoop Blank where
  initializer := some (.declare ⟨.identifier, "i", none, 1, 9⟩ none)
  condition := some (.unary ⟨.bang, "!", none, 1, 12⟩
    (.reference ⟨⟨.identifier, "i", none, 1, 13⟩, ()⟩))
  increment := some (.assign ⟨⟨.identifier, "i", none, 1, 16⟩, ()⟩
    (.binary (.reference ⟨⟨.identifier, "i", none, 1, 20⟩, ()⟩) ⟨.equalEqual, "==", none, 1, 22⟩
      (.literal (.bool false))))
  body := .block [.function (.mk ⟨.identifier, "f", none, 1, 38⟩ []
    [.giveBack ⟨.returnWord, "return", none, 1, 44⟩
      (some (.reference ⟨⟨.identifier, "i", none, 1, 51⟩, ()⟩))])]

/-- The tokens of the text. -/
def capturingTokens : List Token :=
  [⟨.forWord, "for", none, 1, 0⟩, ⟨.leftParen, "(", none, 1, 4⟩, ⟨.varWord, "var", none, 1, 5⟩,
    ⟨.identifier, "i", none, 1, 9⟩, ⟨.semicolon, ";", none, 1, 10⟩, ⟨.bang, "!", none, 1, 12⟩,
    ⟨.identifier, "i", none, 1, 13⟩, ⟨.semicolon, ";", none, 1, 14⟩,
    ⟨.identifier, "i", none, 1, 16⟩, ⟨.equal, "=", none, 1, 18⟩, ⟨.identifier, "i", none, 1, 20⟩,
    ⟨.equalEqual, "==", none, 1, 22⟩, ⟨.falseWord, "false", none, 1, 25⟩,
    ⟨.rightParen, ")", none, 1, 30⟩, ⟨.leftBrace, "\x7b", none, 1, 32⟩,
    ⟨.funWord, "fun", none, 1, 34⟩, ⟨.identifier, "f", none, 1, 38⟩,
    ⟨.leftParen, "(", none, 1, 39⟩, ⟨.rightParen, ")", none, 1, 40⟩,
    ⟨.leftBrace, "\x7b", none, 1, 42⟩, ⟨.returnWord, "return", none, 1, 44⟩,
    ⟨.identifier, "i", none, 1, 51⟩, ⟨.semicolon, ";", none, 1, 52⟩,
    ⟨.rightBrace, "\x7d", none, 1, 54⟩, ⟨.rightBrace, "\x7d", none, 1, 56⟩]

/-- The text consists of that loop. -/
theorem statements_capturing :
    (parse (scan capturing).tokens).statements = [capturingLoop.tree] := by
  have htokens : (scan capturing).tokens = capturingTokens := by decide +kernel
  rw [htokens]
  rfl

/-- Both rounds have a frame of their own for the function, inside of the one frame of the loop. -/
theorem interchangeable_tree_run_capturing :
    let host := Limits.hostBy .byDistance .usual ⟨9, 9⟩
    let m := Machine.initial Native.all 0
    let s := capturingLoop.tree.link []
    Answers.usual.Honest ∧ Answers.usual.Settled ∧ Accepted capturing [s] ∧
      Arrives .usual ⟨⟨9, 9⟩, .statements [s], m⟩ ⟨⟨9, 9⟩, .statement s, m⟩ ∧
      s.unlink = capturingLoop.tree ∧ capturingLoop.body.declared? = none ∧
      (capturingLoop.link []).bodyFrames host m = [2, 3] ∧
      ∃ scopes, s = capturingLoop.tree.link scopes ∧ m.forest.Holds m.current scopes ∧
        Interchangeable .usual m (execute host s) ((capturingLoop.link scopes).run host) ∧
        ∀ stmts, capturingLoop.body = .block stmts →
          ((capturingLoop.link scopes).bodyFrames host m).Pairwise (· < ·) ∧
          ∀ g ∈ (capturingLoop.link scopes).bodyFrames host m, m.forest.nextId < g ∧
            (machineAfter ((capturingLoop.link scopes).run host) m).forest.enclosing? g =
              some m.forest.nextId := by
  intro host m s
  have haccepted : Accepted capturing [s] := by
    have h : Accepted capturing (linkProgram (parse (scan capturing).tokens).statements) :=
      accepted_of_nothing_wrong (by decide +kernel)
    rwa [statements_capturing] at h
  have harrives : Arrives .usual ⟨⟨9, 9⟩, .statements [s], m⟩ ⟨⟨9, 9⟩, .statement s, m⟩ :=
    .single (.here _ _ _ _)
  have hs : s.unlink = capturingLoop.tree := Stmt.unlink_link _ _
  exact ⟨Answers.honest_usual, Answers.settled_usual, haccepted, harrives, hs, rfl,
    by decide +kernel, ForLoop.interchangeable_tree_run Answers.honest_usual Answers.settled_usual
      (.quiet "") Native.all 0 ⟨9, 9⟩ [] haccepted harrives hs rfl⟩

end LoxInterpreter
