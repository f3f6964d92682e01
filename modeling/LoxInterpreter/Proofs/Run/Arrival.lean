import Mathlib.Logic.Relation
import LoxInterpreter.Proofs.Run.Sessions
import LoxInterpreter.Proofs.Scope.Written

/-!
# Where a run arrives

A run does one thing in order to do another: it evaluates the parts of an expression, executes the
statements of a body, and runs the bodies of the closures that it calls. `Leads` has one case for
each of these steps, and `Arrives` says that a run gets to a moment by any number of them. So what
is said of all moments at which a run arrives at a statement is said of the statement wherever it
stands in a program, and whenever it is executed.

A step from a moment that is in order leads to one that is in order (`inOrder_of_leads`): the
machine belongs to a sound world, and what there is to do is written where the world has come to.
With that, a run of an accepted text never arrives anywhere else (`inOrder_of_arrives`).
-/

namespace LoxInterpreter.Run

/-- What there is to do. -/
inductive Task where
  | expression (e : Expr Place)
  | expressions (es : List (Expr Place))
  | statement (s : Stmt Place)
  | statements (body : List (Stmt Place))
  /-- Call a value. -/
  | call (callee : Value) (values : List Value)
  /-- Run a closure. -/
  | closure (id : ClosureId) (values : List Value)

/-- A moment of a run: what is about to be done, in which machine, and under which limits. -/
structure Moment where
  limits : Limits
  task : Task
  machine : Machine

/-- The first thing is done, and on the way there the second is about to be done. -/
inductive Leads (answers : Answers) : Moment → Moment → Prop where
  | grouping (limits : Limits) (m : Machine) (inner : Expr Place) :
      Leads answers ⟨limits, .expression (.grouping inner), m⟩ ⟨limits, .expression inner, m⟩
  | operand (limits : Limits) (m : Machine) (op : Token) (operand : Expr Place) :
      Leads answers ⟨limits, .expression (.unary op operand), m⟩ ⟨limits, .expression operand, m⟩
  | left (limits : Limits) (m : Machine) (left : Expr Place) (op : Token) (right : Expr Place) :
      Leads answers ⟨limits, .expression (.binary left op right), m⟩ ⟨limits, .expression left, m⟩
  | right {limits : Limits} {m m' : Machine} {left : Expr Place} {x : Value}
      (hleft : evaluate (limits.hostBy .byDistance answers) left m = .ok x m') (op : Token)
      (right : Expr Place) :
      Leads answers ⟨limits, .expression (.binary left op right), m⟩
        ⟨limits, .expression right, m'⟩
  | first (limits : Limits) (m : Machine) (left : Expr Place) (op : Token) (right : Expr Place) :
      Leads answers ⟨limits, .expression (.logical left op right), m⟩ ⟨limits, .expression left, m⟩
  | second {limits : Limits} {m m' : Machine} {left : Expr Place} {op : Token} {x : Value}
      (hleft : evaluate (limits.hostBy .byDistance answers) left m = .ok x m')
      (hopen : settles op x = false) (right : Expr Place) :
      Leads answers ⟨limits, .expression (.logical left op right), m⟩
        ⟨limits, .expression right, m'⟩
  | assigned (limits : Limits) (m : Machine) (target : Reference Place) (value : Expr Place) :
      Leads answers ⟨limits, .expression (.assign target value), m⟩ ⟨limits, .expression value, m⟩
  | callee (limits : Limits) (m : Machine) (callee : Expr Place) (paren : Token)
      (values : List (Expr Place)) :
      Leads answers ⟨limits, .expression (.call callee paren values), m⟩
        ⟨limits, .expression callee, m⟩
  | arguments {limits : Limits} {m m' : Machine} {callee : Expr Place} {f : Value}
      (hcallee : evaluate (limits.hostBy .byDistance answers) callee m = .ok f m') (paren : Token)
      (values : List (Expr Place)) :
      Leads answers ⟨limits, .expression (.call callee paren values), m⟩
        ⟨limits, .expressions values, m'⟩
  | called {limits : Limits} {m m' m'' : Machine} {callee : Expr Place} {f : Value}
      {values : List (Expr Place)} {xs : List Value}
      (hcallee : evaluate (limits.hostBy .byDistance answers) callee m = .ok f m')
      (hvalues : evaluateAll (limits.hostBy .byDistance answers) values m' = .ok xs m'')
      (paren : Token) :
      Leads answers ⟨limits, .expression (.call callee paren values), m⟩
        ⟨limits, .call f xs, m''⟩
  | object (limits : Limits) (m : Machine) (object : Expr Place) (name : Token) :
      Leads answers ⟨limits, .expression (.property object name), m⟩
        ⟨limits, .expression object, m⟩
  | owner (limits : Limits) (m : Machine) (object : Expr Place) (name : Token)
      (value : Expr Place) :
      Leads answers ⟨limits, .expression (.setProperty object name value), m⟩
        ⟨limits, .expression object, m⟩
  | field {limits : Limits} {m m' : Machine} {object : Expr Place} {id : InstanceId}
      (hobject : evaluate (limits.hostBy .byDistance answers) object m = .ok (.object id) m')
      (name : Token) (value : Expr Place) :
      Leads answers ⟨limits, .expression (.setProperty object name value), m⟩
        ⟨limits, .expression value, m'⟩
  | head (limits : Limits) (m : Machine) (e : Expr Place) (rest : List (Expr Place)) :
      Leads answers ⟨limits, .expressions (e :: rest), m⟩ ⟨limits, .expression e, m⟩
  | tail {limits : Limits} {m m' : Machine} {e : Expr Place} {x : Value}
      (he : evaluate (limits.hostBy .byDistance answers) e m = .ok x m')
      (rest : List (Expr Place)) :
      Leads answers ⟨limits, .expressions (e :: rest), m⟩ ⟨limits, .expressions rest, m'⟩
  | closure {m : Machine} {id : ClosureId} {values : List Value}
      (harity : arity? m (.closure id) = some values.length) (limits : Limits) :
      Leads answers ⟨limits, .call (.closure id) values, m⟩ ⟨limits, .closure id values, m⟩
  | initializer {m m' m'' : Machine} {klass : ClassId} {id : InstanceId} {k k' : ClosureId}
      {values : List Value} (harity : arity? m (.klass klass) = some values.length)
      (hnew : newInstance klass m = .ok id m')
      (hmethod : m'.findMethod? klass initializerName = some k)
      (hbind : bindMethod k (.object id) m' = .ok k' m'') (limits : Limits) :
      Leads answers ⟨limits, .call (.klass klass) values, m⟩ ⟨limits, .closure k' values, m''⟩
  | body {m m' m'' : Machine} {id : ClosureId} {c : Closure} {values : List Value}
      {frame : FrameId} {u : Unit} (hc : m.closures[id]? = some c)
      (hframe : newFrame c.home m = .ok frame m')
      (hparams : bindParams frame c.routine.params values m' = .ok u m'') (depth rounds : Nat) :
      Leads answers ⟨⟨depth + 1, rounds⟩, .closure id values, m⟩
        ⟨⟨depth, rounds⟩, .statements c.routine.body, { m'' with current := frame }⟩
  | value (limits : Limits) (m : Machine) (value : Expr Place) :
      Leads answers ⟨limits, .statement (.expression value), m⟩ ⟨limits, .expression value, m⟩
  | printed (limits : Limits) (m : Machine) (value : Expr Place) :
      Leads answers ⟨limits, .statement (.print value), m⟩ ⟨limits, .expression value, m⟩
  | initial (limits : Limits) (m : Machine) (name : Token) (initial : Expr Place) :
      Leads answers ⟨limits, .statement (.declare name (some initial)), m⟩
        ⟨limits, .expression initial, m⟩
  | result (limits : Limits) (m : Machine) (keyword : Token) (value : Expr Place) :
      Leads answers ⟨limits, .statement (.giveBack keyword (some value)), m⟩
        ⟨limits, .expression value, m⟩
  | block {m m' : Machine} {frame : FrameId} (hframe : newFrame m.current m = .ok frame m')
      (limits : Limits) (body : List (Stmt Place)) :
      Leads answers ⟨limits, .statement (.block body), m⟩
        ⟨limits, .statements body, { m' with current := frame }⟩
  | condition (limits : Limits) (m : Machine) (condition : Expr Place) (whenTrue : Stmt Place)
      (whenFalse : Option (Stmt Place)) :
      Leads answers ⟨limits, .statement (.branch condition whenTrue whenFalse), m⟩
        ⟨limits, .expression condition, m⟩
  | whenTrue {limits : Limits} {m m' : Machine} {condition : Expr Place} {x : Value}
      (hcondition : evaluate (limits.hostBy .byDistance answers) condition m = .ok x m')
      (hx : x.truthy = true) (whenTrue : Stmt Place) (whenFalse : Option (Stmt Place)) :
      Leads answers ⟨limits, .statement (.branch condition whenTrue whenFalse), m⟩
        ⟨limits, .statement whenTrue, m'⟩
  | whenFalse {limits : Limits} {m m' : Machine} {condition : Expr Place} {x : Value}
      (hcondition : evaluate (limits.hostBy .byDistance answers) condition m = .ok x m')
      (hx : x.truthy = false) (whenTrue whenFalse : Stmt Place) :
      Leads answers ⟨limits, .statement (.branch condition whenTrue (some whenFalse)), m⟩
        ⟨limits, .statement whenFalse, m'⟩
  | test (limits : Limits) (m : Machine) (condition : Expr Place) (body : Stmt Place) :
      Leads answers ⟨limits, .statement (.loop condition body), m⟩
        ⟨limits, .expression condition, m⟩
  | round {limits : Limits} {m m' : Machine} {condition : Expr Place} {x : Value}
      (hcondition : evaluate (limits.hostBy .byDistance answers) condition m = .ok x m')
      (hx : x.truthy = true) (body : Stmt Place) :
      Leads answers ⟨limits, .statement (.loop condition body), m⟩ ⟨limits, .statement body, m'⟩
  /-- After a round the loop is as it was at first. -/
  | again {limits : Limits} {m m' m'' : Machine} {condition : Expr Place} {x : Value}
      {body : Stmt Place}
      (hcondition : evaluate (limits.hostBy .byDistance answers) condition m = .ok x m')
      (hx : x.truthy = true)
      (hbody : execute (limits.hostBy .byDistance answers) body m' = .ok .normal m'') :
      Leads answers ⟨limits, .statement (.loop condition body), m⟩
        ⟨limits, .statement (.loop condition body), m''⟩
  | here (limits : Limits) (m : Machine) (s : Stmt Place) (rest : List (Stmt Place)) :
      Leads answers ⟨limits, .statements (s :: rest), m⟩ ⟨limits, .statement s, m⟩
  | next {limits : Limits} {m m' : Machine} {s : Stmt Place}
      (hs : execute (limits.hostBy .byDistance answers) s m = .ok .normal m')
      (rest : List (Stmt Place)) :
      Leads answers ⟨limits, .statements (s :: rest), m⟩ ⟨limits, .statements rest, m'⟩

/-- The run gets from the first moment to the second. -/
abbrev Arrives (answers : Answers) : Moment → Moment → Prop := Relation.ReflTransGen (Leads answers)

/-! ### Moments that are in order -/

/-- What there is to do is written where the world has come to. -/
def Task.Fits (w : World fun _ => True) : Task → Prop
  | .expression e => ∃ scopes around initializing, w.Here scopes around ∧
      e.Fits (fun _ => True) scopes around initializing
  | .expressions es => ∃ scopes around initializing, w.Here scopes around ∧
      Expr.FitAll (fun _ => True) scopes around initializing es
  | .statement s => ∃ (c : Surroundings) (around : List LocalScope), w.Here c.scopes around ∧
      s.Written c around
  | .statements body => ∃ (c : Surroundings) (around : List LocalScope), w.Here c.scopes around ∧
      Stmt.BodyWritten c around body
  | .call callee values => w.Sound ∧ w.Valid callee ∧ ∀ v ∈ values, w.Valid v
  | .closure id values => w.Sound ∧ (∃ c, w.machine.closures[id]? = some c ∧ w.Runs c ∧
      values.length = c.routine.params.length) ∧ ∀ v ∈ values, w.Valid v

/-- The machine belongs to a world, and what there is to do fits there. -/
def Moment.InOrder (moment : Moment) : Prop :=
  ∃ w : World fun _ => True, w.machine = moment.machine ∧ moment.task.Fits w

/-- What is known of a world after a run that ended with a value. -/
theorem Together.exists_of_eq_ok {Φ : Site Place → Prop} {α : Type} {w : World Φ}
    {act act' : Run α} {Q : World Φ → α → Prop} (h : Together w act act' Q) {a : α} {m : Machine}
    (hact : act w.machine = .ok a m) :
    ∃ w' : World Φ, w'.machine = m ∧ w.Follows w' ∧ Q w' a := by
  have hkeeps := h.keeps
  rwa [hact] at hkeeps

section Steps

variable {answers : Answers} (honest : answers.Honest) {limits : Limits}
  {w : World fun _ => True} {scopes : Scopes} {around : List LocalScope}

include honest

/-- Where an expression has been evaluated, the run is still at its place. -/
theorem exists_here_of_evaluate (h : w.Here scopes around) {e : Expr Place}
    {initializing : Option Token} (hfits : e.Fits (fun _ => True) scopes around initializing)
    {x : Value} {m : Machine}
    (he : evaluate (limits.hostBy .byDistance answers) e w.machine = .ok x m) :
    ∃ w' : World fun _ => True, w'.machine = m ∧ w.Follows w' ∧ w'.Here scopes around ∧
      w'.Valid x := by
  have hosts := matches_hostBy (Φ := fun _ => True) Names.agree_byDistance honest limits
  obtain ⟨w', hw', hfollows, hx⟩ := (together_evaluate hosts e h hfits).exists_of_eq_ok he
  exact ⟨w', hw', hfollows, h.follow hfollows, hx⟩

/-- Where a statement has carried on, the run is at the next one. -/
theorem exists_here_of_execute {c : Surroundings} (h : w.Here c.scopes around) {s : Stmt Place}
    (hs : s.Written c around) {m : Machine}
    (hrun : execute (limits.hostBy .byDistance answers) s w.machine = .ok .normal m) :
    ∃ w' : World fun _ => True, w'.machine = m ∧ w.Follows w' ∧
      w'.Here (c.enter s.unlink).scopes around := by
  have hosts := matches_hostBy (Φ := fun _ => True) Names.agree_byDistance honest limits
  obtain ⟨w', hw', hfollows, -, hstands⟩ :=
    (together_execute hosts s h hs.fits).exists_of_eq_ok hrun
  have hscopes : (c.enter s.unlink).scopes = c.scopes.enter s := by
    show c.scopes.enter s.unlink = c.scopes.enter s
    rw [Scopes.enter, Scopes.enter, Stmt.declared?_unlink]
  rw [hscopes]
  exact ⟨w', hw', hfollows, hfollows.sound, hstands rfl⟩

omit honest in
/-- In the frame of a block the run is at its first statement. -/
theorem exists_here_of_newFrame {f frame : FrameId} (hs : w.Sound) (hf : w.Stands f scopes around)
    (scope : LocalScope) {m : Machine} (hframe : newFrame f w.machine = .ok frame m) :
    ∃ w' : World fun _ => True, w'.machine = { m with current := frame } ∧
      w'.Here ([] :: scopes) (scope :: around) := by
  obtain ⟨w', rfl, hfollows, hstands⟩ := (Together.newFrame hs hf scope).exists_of_eq_ok hframe
  exact ⟨w'.goTo frame, rfl, .goTo hfollows.sound hstands⟩

omit honest in
/-- Tied to a new instance, the initializer of a class may be run. -/
theorem exists_runs_of_bindMethod {klass : ClassId} {id : InstanceId} {k k' : ClosureId}
    {values : List Value} {m m' : Machine} (hs : w.Sound)
    (harity : arity? w.machine (.klass klass) = some values.length)
    (hnew : newInstance klass w.machine = .ok id m)
    (hmethod : m.findMethod? klass initializerName = some k)
    (hbind : bindMethod k (.object id) m = .ok k' m') :
    ∃ w' : World fun _ => True, w'.machine = m' ∧ w.Follows w' ∧
      ∃ c, w'.machine.closures[k']? = some c ∧ w'.Runs c ∧
        values.length = c.routine.params.length := by
  obtain ⟨w₁, rfl, hfollows, hid, hclasses⟩ := (Together.newInstance hs klass).exists_of_eq_ok hnew
  -- the classes are the same as before the instance was made
  rw [Machine.findMethod?_congr hclasses] at hmethod
  obtain ⟨c, hc, hties⟩ := ties_of_findMethodWithin hs hmethod
  obtain ⟨w₂, hw₂, hfollows', c', hc', hruns, hroutine⟩ :=
    (together_bindMethod hfollows.sound (hfollows.grows.closures k c hc)
      (hfollows.grows.ties hties) hid).exists_of_eq_ok hbind
  rw [arity?, hmethod, Option.bind_some, hc] at harity
  refine ⟨w₂, hw₂, hfollows.trans hfollows', c', hc', hruns, ?_⟩
  rw [hroutine]
  exact (Option.some.inj harity).symm

omit honest in
/-- In the frame of a call the run is at the first statement of the body. -/
theorem exists_here_of_bindParams {c : Closure} (hs : w.Sound) (hruns : w.Runs c)
    {values : List Value} (hlength : values.length = c.routine.params.length)
    (hvalues : ∀ v ∈ values, w.Valid v) {frame : FrameId} {u : Unit} {m m' : Machine}
    (hframe : newFrame c.home w.machine = .ok frame m)
    (hparams : bindParams frame c.routine.params values m = .ok u m') :
    ∃ (w' : World fun _ => True) (c' : Surroundings) (around : List LocalScope),
      w'.machine = { m' with current := frame } ∧ w'.Here c'.scopes around ∧
      Stmt.BodyWritten c' around c.routine.body := by
  obtain ⟨scopes, outer, hhome, hfits, -⟩ := hruns
  obtain ⟨⟨name, params, body⟩, home, isInitializer⟩ := c
  obtain ⟨c', hscopes, hwritten⟩ := hfits.2.2.body
  obtain ⟨w₁, rfl, hfollows, hstands⟩ := (Together.newFrame hs hhome
    (.declaring (params ++ declaredIn (Stmt.unlinkBody body)))).exists_of_eq_ok hframe
  obtain ⟨w₂, rfl, hfollows', hstands⟩ := (together_bindParams [] hfollows.sound hstands
    (fun param hparam => List.mem_append_left _ hparam) hlength
    fun v hv => hfollows.grows.valid (hvalues v hv)).exists_of_eq_ok hparams
  refine ⟨w₂.goTo frame, c', _, rfl, .goTo hfollows'.sound ?_, hwritten⟩
  rw [hscopes]
  exact hstands

end Steps

/-- **A step** from a moment that is in order leads to one that is. -/
theorem inOrder_of_leads {answers : Answers} (honest : answers.Honest) {x y : Moment}
    (h : Leads answers x y) (hx : x.InOrder) : y.InOrder := by
  obtain ⟨w, hw, hfits⟩ := hx
  cases h with
  | grouping limits m inner => exact ⟨w, hw, hfits⟩
  | operand | assigned =>
    obtain ⟨scopes, around, initializing, h, hfits⟩ := hfits
    exact ⟨w, hw, scopes, around, initializing, h, hfits.2⟩
  | left =>
    obtain ⟨scopes, around, initializing, h, hfits⟩ := hfits
    exact ⟨w, hw, scopes, around, initializing, h, hfits.2.1⟩
  | right hleft op right =>
    obtain ⟨scopes, around, initializing, h, hfits⟩ := hfits
    obtain rfl := hw
    obtain ⟨w₁, hw₁, -, h₁, -⟩ := exists_here_of_evaluate honest h hfits.2.1 hleft
    exact ⟨w₁, hw₁, scopes, around, initializing, h₁, hfits.2.2⟩
  | first | callee | owner =>
    obtain ⟨scopes, around, initializing, h, hfits⟩ := hfits
    exact ⟨w, hw, scopes, around, initializing, h, hfits.1⟩
  | object => exact ⟨w, hw, hfits⟩
  | second hleft | arguments hleft | field hleft =>
    obtain ⟨scopes, around, initializing, h, hfits⟩ := hfits
    obtain rfl := hw
    obtain ⟨w₁, hw₁, -, h₁, -⟩ := exists_here_of_evaluate honest h hfits.1 hleft
    exact ⟨w₁, hw₁, scopes, around, initializing, h₁, hfits.2⟩
  | called hcallee hvalues =>
    obtain ⟨scopes, around, initializing, h, hfits⟩ := hfits
    obtain rfl := hw
    obtain ⟨w₁, rfl, -, h₁, hcallee⟩ := exists_here_of_evaluate honest h hfits.1 hcallee
    have hosts := matches_hostBy (Φ := fun _ => True) Names.agree_byDistance honest
    obtain ⟨w₂, hw₂, hfollows, hvalues⟩ :=
      (together_evaluateAll (hosts _) _ h₁ hfits.2).exists_of_eq_ok hvalues
    exact ⟨w₂, hw₂, hfollows.sound, hfollows.grows.valid hcallee, hvalues⟩
  | head =>
    obtain ⟨scopes, around, initializing, h, hfits⟩ := hfits
    exact ⟨w, hw, scopes, around, initializing, h, hfits.1⟩
  | tail he =>
    obtain ⟨scopes, around, initializing, h, hfits⟩ := hfits
    obtain rfl := hw
    obtain ⟨w₁, hw₁, -, h₁, -⟩ := exists_here_of_evaluate honest h hfits.1 he
    exact ⟨w₁, hw₁, scopes, around, initializing, h₁, hfits.2⟩
  | closure harity =>
    obtain ⟨hs, ⟨c, hc, hruns⟩, hvalues⟩ := hfits
    obtain rfl := hw
    rw [arity?, hc] at harity
    exact ⟨w, rfl, hs, ⟨c, hc, hruns, (Option.some.inj harity).symm⟩, hvalues⟩
  | initializer harity hnew hmethod hbind =>
    obtain ⟨hs, -, hvalues⟩ := hfits
    obtain rfl := hw
    obtain ⟨w₁, hw₁, hfollows, hruns⟩ := exists_runs_of_bindMethod hs harity hnew hmethod hbind
    exact ⟨w₁, hw₁, hfollows.sound, hruns, fun v hv => hfollows.grows.valid (hvalues v hv)⟩
  | body hc hframe hparams =>
    obtain ⟨hs, ⟨c, hc', hruns, hlength⟩, hvalues⟩ := hfits
    obtain rfl := hw
    obtain rfl := Option.some.inj (hc.symm.trans hc')
    obtain ⟨w₁, c', around, hw₁, h₁, hbody⟩ :=
      exists_here_of_bindParams hs hruns hlength hvalues hframe hparams
    exact ⟨w₁, hw₁, c', around, h₁, hbody⟩
  | value | printed =>
    obtain ⟨c, around, h, hs⟩ := hfits
    exact ⟨w, hw, c.scopes, around, none, h, hs.fits⟩
  | initial limits m name initial =>
    obtain ⟨c, around, h, hs⟩ := hfits
    exact ⟨w, hw, c.scopes, around, some name, h, hs.fits.2.2 initial rfl⟩
  | result limits m keyword value =>
    obtain ⟨c, around, h, hs⟩ := hfits
    exact ⟨w, hw, c.scopes, around, none, h, hs.fits.2 value rfl⟩
  | block hframe limits body =>
    obtain ⟨c, around, h, hs⟩ := hfits
    obtain rfl := hw
    obtain ⟨w₁, hw₁, h₁⟩ := exists_here_of_newFrame h.sound h.stands
      (.declaring (declaredIn (Stmt.unlinkBody body))) hframe
    exact ⟨w₁, hw₁, c.inBlock, _, h₁, hs.block⟩
  | condition =>
    obtain ⟨c, around, h, hs⟩ := hfits
    exact ⟨w, hw, c.scopes, around, none, h, hs.fits_condition⟩
  | whenTrue hcondition =>
    obtain ⟨c, around, h, hs⟩ := hfits
    obtain rfl := hw
    obtain ⟨w₁, hw₁, -, h₁, -⟩ := exists_here_of_evaluate honest h hs.fits_condition hcondition
    exact ⟨w₁, hw₁, c, around, h₁, hs.whenTrue⟩
  | whenFalse hcondition =>
    obtain ⟨c, around, h, hs⟩ := hfits
    obtain rfl := hw
    obtain ⟨w₁, hw₁, -, h₁, -⟩ := exists_here_of_evaluate honest h hs.fits_condition hcondition
    exact ⟨w₁, hw₁, c, around, h₁, hs.whenFalse⟩
  | test =>
    obtain ⟨c, around, h, hs⟩ := hfits
    exact ⟨w, hw, c.scopes, around, none, h, hs.fits.1⟩
  | round hcondition =>
    obtain ⟨c, around, h, hs⟩ := hfits
    obtain rfl := hw
    obtain ⟨w₁, hw₁, -, h₁, -⟩ := exists_here_of_evaluate honest h hs.fits.1 hcondition
    exact ⟨w₁, hw₁, c, around, h₁, hs.loop⟩
  | again hcondition _ hbody =>
    obtain ⟨c, around, h, hs⟩ := hfits
    obtain rfl := hw
    obtain ⟨w₁, rfl, -, h₁, -⟩ := exists_here_of_evaluate honest h hs.fits.1 hcondition
    obtain ⟨w₂, hw₂, hfollows, -⟩ := exists_here_of_execute honest h₁ hs.loop hbody
    exact ⟨w₂, hw₂, c, around, h₁.follow hfollows, hs⟩
  | here =>
    obtain ⟨c, around, h, hbody⟩ := hfits
    exact ⟨w, hw, c, around, h, hbody.head⟩
  | next hrun rest =>
    obtain ⟨c, around, h, hbody⟩ := hfits
    obtain rfl := hw
    obtain ⟨w₁, hw₁, -, h₁⟩ := exists_here_of_execute honest h hbody.head hrun
    exact ⟨w₁, hw₁, _, around, h₁, hbody.tail⟩

/-- **A run** that started in order is in order wherever it arrives. -/
theorem inOrder_of_arrives {answers : Answers} (honest : answers.Honest) {x y : Moment}
    (h : Arrives answers x y) (hx : x.InOrder) : y.InOrder := by
  induction h with
  | refl => exact hx
  | tail _ hleads ih => exact inOrder_of_leads honest hleads ih

/-- The run of an accepted text starts in order, whatever texts have been run before. -/
theorem inOrder_of_accepted {answers : Answers} (honest : answers.Honest) (report : Report)
    (natives : List Native) (clock : Float) (limits : Limits) (earlier : List String)
    {text : String} {program : List (Stmt Place)} (haccepted : Accepted text program) :
    Moment.InOrder ⟨limits, .statements program, (Session.after .byDistance limits earlier
      ⟨report, .initial natives clock, answers⟩).machine⟩ := by
  have hinitial := Session.sound_initial (Φ := fun _ => True) honest report natives clock
  obtain ⟨-, hafter⟩ := Session.after_together Names.agree_byDistance hinitial
    (fun _ _ _ _ _ _ => trivial) limits
  obtain ⟨w, hw, h⟩ := hafter.world
  exact ⟨w, hw, .topLevel, [], h, haccepted.written⟩

end LoxInterpreter.Run
