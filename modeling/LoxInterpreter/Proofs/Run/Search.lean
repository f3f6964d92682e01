import Mathlib.Data.Nat.Find
import LoxInterpreter.Proofs.Run.Sessions

/-!
# Following links is searching by name

Links are found without running a program, and a frame may come to bind more names after a closure
has captured it. Hence a link need not lead to the binding that a search from the current frame
would find first. In an *orderly* program it does: there no mention of a name comes before the end
of a declaration that would concern it (`Site.Orderly`).

* Every frame strictly inside of the one that a link leads to stands for a scope that cannot bind
  the name, now or later (`Site.not_canBind_of_outward`, `Site.not_canBind_of_global`).
* Hence searching and following links come to the same frame at every mention
  (`findsAlike_of_site`), and programs run alike either way (`search_eq_distance`).
-/

namespace LoxInterpreter

open Run

/-! ### Orderly programs -/

namespace LocalScope

/-- The names that are declared in the scope. -/
def declared : LocalScope → List Token
  | keyword _ => []
  | declaring names => names

/-- The scope binds the name, be it from some point on. -/
def CanBind (scope : LocalScope) (x : String) : Prop :=
  match scope with
  | keyword word => x = word
  | declaring names => ∃ name ∈ names, name.lexeme = x

end LocalScope

namespace Site

/-- Every declaration of the name in a scope around the mention is over when the mention comes,
unless the mention is linked to a scope further in. The declaration of a variable is over behind
its initializer. -/
def Orderly (site : Site Place) : Prop :=
  ∀ i, ∀ hi : i < site.around.length, ∀ name ∈ site.around[i].declared,
    name.lexeme = site.token.lexeme → (∃ j, j < i ∧ site.link = .outward j) ∨
      name.offset < site.token.offset ∧ site.initializing ≠ some name

instance (site : Site Place) : Decidable site.Orderly :=
  inferInstanceAs (Decidable (∀ i, ∀ hi : i < site.around.length,
    ∀ name ∈ site.around[i].declared, name.lexeme = site.token.lexeme →
      (∃ j, j < i ∧ site.link = .outward j) ∨
        name.offset < site.token.offset ∧ site.initializing ≠ some name))

variable {site : Site Place}

/-- What can bind the name of an orderly site, and is not passed over, binds it before the
mention. -/
theorem Orderly.binds (h : site.Orderly) {i : Nat} (hi : i < site.around.length)
    (hcan : site.around[i].CanBind site.token.lexeme)
    (hlink : ∀ j, j < i → site.link ≠ .outward j) : site.around[i].Binds site.token := by
  have horderly := h i hi
  cases hscope : site.around[i] with
  | keyword word =>
    rw [hscope] at hcan
    exact hcan
  | declaring names =>
    rw [hscope] at hcan horderly
    obtain ⟨name, hname, hlexeme⟩ := hcan
    rcases horderly name hname hlexeme with ⟨j, hj, hplace⟩ | ⟨hbefore, -⟩
    · exact absurd hplace (hlink j hj)
    · exact ⟨name, hname, hlexeme, hbefore⟩

/-- No scope that is passed over on the way to the place of a mention can bind its name. -/
theorem not_canBind_of_outward (hlawful : site.Lawful) (horderly : site.Orderly) {distance : Nat}
    (hlink : site.link = .outward distance) :
    ∀ scope ∈ site.around.take distance, ¬scope.CanBind site.token.lexeme := by
  obtain ⟨hlt, -, hno⟩ := (hlawful distance).mp hlink
  intro scope hscope hcan
  obtain ⟨i, hi, rfl⟩ := List.getElem_of_mem hscope
  rw [List.length_take, Nat.lt_min] at hi
  rw [List.getElem_take] at hcan
  refine hno i hi.1 (horderly.binds hi.2 hcan fun j hj hplace => ?_)
  obtain rfl : distance = j := Place.outward.inj (hlink.symm.trans hplace)
  exact absurd hi.1 (Nat.not_lt_of_lt hj)

/-- No local scope can bind the name of a mention that is left to the globals. -/
theorem not_canBind_of_global (hlawful : site.Lawful) (horderly : site.Orderly)
    (hlink : site.link = .global) : ∀ scope ∈ site.around, ¬scope.CanBind site.token.lexeme := by
  intro scope hscope hcan
  obtain ⟨i, hi, rfl⟩ := List.getElem_of_mem hscope
  have hno (distance : Nat) : site.link ≠ .outward distance := by
    rw [hlink]
    exact Place.noConfusion
  have hex : ∃ i, ∃ hi : i < site.around.length, site.around[i].Binds site.token :=
    ⟨i, hi, horderly.binds hi hcan fun j _ => hno j⟩
  -- the first scope that binds the name is where the law would have placed the mention
  classical
  obtain ⟨hfirst, hbinds⟩ := Nat.find_spec hex
  refine hno (Nat.find hex) ((hlawful _).mpr ⟨hfirst, hbinds, fun j hj hbinds => ?_⟩)
  exact Nat.find_min hex hj ⟨hj.trans hfirst, hbinds⟩

end Site

/-! ### Searches in a sound world -/

/-- A frame binds nothing but what its scope can bind. -/
theorem Admits.canBind {scope : LocalScope} {outer : List LocalScope} {x : String} {v : Value}
    (h : Admits (scope :: outer) x v) : scope.CanBind x := by
  cases scope with
  | keyword word => exact h.1
  | declaring names => exact h

namespace World

variable {Φ : Site Place → Prop} {w : World Φ} {f i : FrameId} {x : String}
  {around : List LocalScope}

/-- A search that has come far enough not to run out of fuel takes the whole chain. -/
theorem Sound.chainWithin_eq_chain (hs : w.Sound) (hf : w.StandsFor f around) {fuel : Nat}
    (hfuel : f < fuel) : w.machine.forest.chainWithin fuel f = w.machine.forest.chain f := by
  induction around generalizing f fuel with
  | nil =>
    obtain ⟨-, hnone⟩ := hs.globals f hf
    cases fuel with
    | zero => cases hfuel
    | succ fuel => rw [Forest.chain, Forest.chainWithin, Forest.chainWithin, hnone]
  | cons scope outer ih =>
    obtain ⟨g, hlt, hg, houter⟩ := hs.locals f scope outer hf
    cases fuel with
    | zero => cases hfuel
    | succ fuel =>
      rw [Forest.chain, Forest.chainWithin, Forest.chainWithin, hg]
      dsimp only
      rw [ih houter (Nat.lt_of_lt_of_le hlt (Nat.le_of_lt_succ hfuel)), ih houter hlt]

/-- A frame that does not bind the name is passed over. -/
theorem Sound.holder?_enclosing (hs : w.Sound) {g : FrameId} (hg : w.StandsFor g around)
    (henclosing : w.machine.forest.enclosing? f = some g) (hlt : g < f)
    (hbinds : w.machine.forest.binds f x = false) :
    w.machine.forest.holder? f x = w.machine.forest.holder? g x := by
  rw [Forest.holder?, Forest.chain, Forest.chainWithin, henclosing, List.find?_cons, hbinds]
  dsimp only
  rw [hs.chainWithin_eq_chain hg hlt]
  rfl

/-- **Passing over.** Where the scopes cannot bind the name, a search may as well begin further
out. -/
theorem Sound.holder?_ancestor (hs : w.Sound) (hf : w.StandsFor f around) {distance : Nat}
    (hi : w.machine.forest.ancestor? distance f = some i)
    (hskip : ∀ scope ∈ around.take distance, ¬scope.CanBind x) :
    w.machine.forest.holder? f x = w.machine.forest.holder? i x := by
  induction distance generalizing f around with
  | zero =>
    cases hi
    rfl
  | succ distance ih =>
    rw [Forest.ancestor?] at hi
    cases around with
    | nil =>
      rw [(hs.globals f hf).2] at hi
      cases hi
    | cons scope outer =>
      obtain ⟨g, hlt, hg, houter⟩ := hs.locals f scope outer hf
      rw [hg, Option.bind_some] at hi
      rw [List.take_succ_cons, List.forall_mem_cons] at hskip
      -- nothing binds what its scope cannot bind
      have hbinds : w.machine.forest.binds f x = false := by
        rw [Forest.binds]
        cases hlookup : w.machine.forest.lookup? f x with
        | none => rfl
        | some v => exact absurd (hs.admits f _ x v hf hlookup).canBind hskip.1
      rw [hs.holder?_enclosing houter hg hlt hbinds]
      exact ih houter hi hskip.2

/-- Beyond all scopes there are the globals. -/
theorem Sound.ancestor?_length (hs : w.Sound) (hf : w.StandsFor f around) :
    w.machine.forest.ancestor? around.length f = some Machine.globals := by
  induction around generalizing f with
  | nil =>
    obtain ⟨rfl, -⟩ := hs.globals f hf
    rfl
  | cons scope outer ih =>
    obtain ⟨g, -, hg, houter⟩ := hs.locals f scope outer hf
    rw [List.length_cons, Forest.ancestor?, hg, Option.bind_some]
    exact ih houter

/-- Nothing is beyond the globals. -/
theorem Sound.holder?_globals (hs : w.Sound) (hf : w.StandsFor f around) :
    w.machine.forest.holder? Machine.globals x =
      if w.machine.forest.binds Machine.globals x then some Machine.globals else none := by
  have hglobals := hs.standsFor_ancestor hf (hs.ancestor?_length hf)
  rw [List.drop_length] at hglobals
  rw [Forest.holder?, Forest.chain, Forest.chainWithin, (hs.globals _ hglobals).2]
  cases hbinds : w.machine.forest.binds Machine.globals x with
  | true => rw [List.find?_cons, hbinds, if_pos rfl]
  | false => rw [List.find?_cons, hbinds, if_neg Bool.false_ne_true, List.find?_nil]

end World

/-! ### Two ways to one frame -/

/-- The frame that the link of a mention leads to is the first one outward that binds the name. A
mention that is left to the globals may find its name there, or nowhere. -/
def Machine.findsAlike (m : Machine) (r : Reference Place) : Bool :=
  match r.link with
  | .outward distance =>
    match m.forest.ancestor? distance m.current with
    | some f => m.forest.holder? m.current r.name = some f
    | none => false
  | .global =>
    m.forest.holder? m.current r.name =
      if m.forest.binds Machine.globals r.name then some Machine.globals else none

/-- Follow links, but compare each with a search before, and stop with an alarm if they lead to
different frames. -/
def Run.Names.checked (alarm : Interruption) : Names where
  read r := do
    if (← get).findsAlike r then Names.byDistance.read r else throw alarm
  write r value := do
    if (← get).findsAlike r then Names.byDistance.write r value else throw alarm

/-! #### What the two ways do -/

section Names

variable {m : Machine} {f g i : FrameId} {name : Token} {v : Value} {distance : Nat}

theorem readFrom_apply : readFrom f name m =
    match m.forest.get? f name.lexeme with
    | some value => .ok value m
    | none => .error (.failure name (.undefinedVariable name.lexeme)) m := by
  show (match m.forest.get? f name.lexeme with
    | some value => pure value
    | none => failAt name (.undefinedVariable name.lexeme) : Run Value) m = _
  cases m.forest.get? f name.lexeme <;> rfl

theorem assignFrom_apply : assignFrom f name v m =
    match m.forest.holder? f name.lexeme with
    | some holder => define holder name.lexeme v m
    | none => .error (.failure name (.undefinedVariable name.lexeme)) m := by
  show (match m.forest.holder? f name.lexeme with
    | some holder => define holder name.lexeme v
    | none => failAt name (.undefinedVariable name.lexeme) : Run Unit) m = _
  cases m.forest.holder? f name.lexeme <;> rfl

/-- Searching and following links read alike if they come to one frame. -/
theorem readFrom_eq_readAt (hholder : m.forest.holder? m.current name.lexeme = some i)
    (hancestor : m.forest.ancestor? distance m.current = some i)
    (hbinds : m.forest.binds i name.lexeme) :
    readFrom m.current name m = readAt distance name.lexeme m := by
  obtain ⟨v, hv⟩ := Option.isSome_iff_exists.mp hbinds
  have hget : m.forest.get? m.current name.lexeme = some v := by
    rw [Forest.get?, hholder, Option.bind_some, hv]
  have hgetAt := Forest.getAt_eq_ok hancestor hv
  rw [readFrom_apply, hget, readAt]
  dsimp only [bind, EStateM.bind, get, getThe, MonadStateOf.get, EStateM.get]
  rw [hgetAt]
  rfl

/-- Searching and following links write alike if they come to one frame. -/
theorem assignFrom_eq_assignAt (hholder : m.forest.holder? m.current name.lexeme = some i)
    (hancestor : m.forest.ancestor? distance m.current = some i)
    (hbinds : m.forest.binds i name.lexeme) :
    assignFrom m.current name v m = assignAt distance name v m := by
  rw [assignFrom_apply, hholder, assignAt]
  dsimp only [bind, EStateM.bind, get, getThe, MonadStateOf.get, EStateM.get]
  rw [Forest.holderAt_eq_ok hancestor hbinds]

end Names

section Sites

variable {Φ : Site Place → Prop} {w : World Φ} {scopes : Scopes} {site : Site Place}

/-- The search for the name of an orderly site finds the frame that its link leads to. -/
theorem holder?_of_outward (hlawful : site.Lawful) (horderly : site.Orderly)
    (h : w.Here scopes site.around) {distance : Nat}
    (hplace : scopes.placeOf site.token.lexeme = .outward distance)
    (hlink : site.link = .outward distance) :
    ∃ i, w.machine.forest.ancestor? distance w.machine.current = some i ∧
      w.machine.forest.binds i site.token.lexeme ∧
      w.machine.forest.holder? w.machine.current site.token.lexeme = some i := by
  obtain ⟨i, hi, hbinds⟩ := h.stands.ready.exists_of_placeOf hplace
  refine ⟨i, hi, hbinds, ?_⟩
  rw [h.sound.holder?_ancestor h.stands.standsFor hi
    (Site.not_canBind_of_outward hlawful horderly hlink)]
  exact Forest.holder?_of_binds _ hbinds

/-- The search for the name of an orderly site that is left to the globals comes to the globals. -/
theorem holder?_of_global (hlawful : site.Lawful) (horderly : site.Orderly)
    (h : w.Here scopes site.around) (hlink : site.link = .global) :
    w.machine.forest.holder? w.machine.current site.token.lexeme =
      w.machine.forest.holder? Machine.globals site.token.lexeme := by
  refine h.sound.holder?_ancestor h.stands.standsFor
    (h.sound.ancestor?_length h.stands.standsFor) ?_
  rw [List.take_length]
  exact Site.not_canBind_of_global hlawful horderly hlink

/-- A mention that fits is placed where the scopes have its name: an orderly one is no assignment
to a variable in its own initializer. -/
theorem link_of_writeFits (horderly : site.Orderly) (hfits : site.WriteFits Φ scopes) :
    site.link = scopes.placeOf site.token.lexeme := by
  obtain ⟨-, -, hplace | ⟨-, -, names, outer, name, haround, hname, hinitializing, hlexeme⟩⟩ :=
    hfits
  · exact hplace
  · -- the declaration of the innermost scope is not over, against the order
    have hlt : 0 < site.around.length := by
      rw [haround]
      exact Nat.succ_pos _
    have hdeclared : name ∈ site.around[0].declared := by
      simpa [haround, LocalScope.declared] using hname
    rcases horderly 0 hlt name hdeclared hlexeme with ⟨j, hj, -⟩ | ⟨-, hother⟩
    · exact absurd hj (Nat.not_lt_zero j)
    · exact absurd hinitializing hother

/-- At an orderly site links and searches come to the same frame. -/
theorem findsAlike_of_site (hlawful : site.Lawful) (horderly : site.Orderly)
    (h : w.Here scopes site.around)
    (hplace : site.link = scopes.placeOf site.token.lexeme) :
    w.machine.findsAlike site.mention.reference = true := by
  rw [Machine.findsAlike]
  cases hlink : site.mention.reference.link with
  | global =>
    dsimp only
    rw [decide_eq_true_eq, ← h.sound.holder?_globals h.stands.standsFor]
    exact holder?_of_global hlawful horderly h hlink
  | outward distance =>
    obtain ⟨i, hi, -, hholder⟩ :=
      holder?_of_outward hlawful horderly h (hplace.symm.trans hlink) hlink
    dsimp only
    rw [hi]
    exact decide_eq_true hholder

/-- What is known of every site of an orderly program. -/
def LawfulAndOrderly (site : Site Place) : Prop := site.Lawful ∧ site.Orderly

/-- **Searching comes to the same** at every orderly site. -/
theorem agree_bySearch : Names.bySearch.Agree LawfulAndOrderly where
  read w scopes site h hfits := by
    obtain ⟨⟨hlawful, horderly⟩, hplace⟩ := hfits
    show readFrom w.machine.current site.token w.machine = _
    rw [Names.byDistance]
    dsimp only
    cases hlink : site.mention.reference.link with
    | global =>
      show _ = readFrom Machine.globals site.token w.machine
      rw [readFrom_apply, readFrom_apply, Forest.get?, Forest.get?,
        holder?_of_global hlawful horderly h hlink]
    | outward distance =>
      obtain ⟨i, hi, hbinds, hholder⟩ :=
        holder?_of_outward hlawful horderly h (hplace.symm.trans hlink) hlink
      exact readFrom_eq_readAt hholder hi hbinds
  write w scopes site v h hfits := by
    obtain ⟨hlawful, horderly⟩ := hfits.1
    have hplace := link_of_writeFits horderly hfits
    show assignFrom w.machine.current site.token v w.machine = _
    rw [Names.byDistance]
    dsimp only
    cases hlink : site.mention.reference.link with
    | global =>
      show _ = assignFrom Machine.globals site.token v w.machine
      rw [assignFrom_apply, assignFrom_apply, holder?_of_global hlawful horderly h hlink]
    | outward distance =>
      obtain ⟨i, hi, hbinds, hholder⟩ :=
        holder?_of_outward hlawful horderly h (hplace.symm.trans hlink) hlink
      exact assignFrom_eq_assignAt hholder hi hbinds

/-- **No alarm is raised** at any orderly site. -/
theorem agree_checked (alarm : Interruption) : (Names.checked alarm).Agree LawfulAndOrderly where
  read w scopes site h hfits := by
    obtain ⟨⟨hlawful, horderly⟩, hplace⟩ := hfits
    have halike := findsAlike_of_site hlawful horderly h hplace
    show (if w.machine.findsAlike site.mention.reference then
      Names.byDistance.read site.mention.reference else throw alarm : Run Value) w.machine = _
    rw [if_pos halike]
  write w scopes site v h hfits := by
    obtain ⟨hlawful, horderly⟩ := hfits.1
    have halike := findsAlike_of_site hlawful horderly h (link_of_writeFits horderly hfits)
    show (if w.machine.findsAlike site.mention.reference then
      Names.byDistance.write site.mention.reference v else throw alarm : Run Unit) w.machine = _
    rw [if_pos halike]

end Sites

/-! ### Orderly sessions -/

/-- If the text is accepted, it is an orderly program. -/
def OrderlyText (text : String) : Prop :=
  ∀ program, Accepted text program → ∀ site ∈ sites program, site.Orderly

/-- A way to find names that comes to the same at orderly sites makes no difference to a session of
orderly programs. -/
theorem session_eq_of_agree {names : Names} (hnames : names.Agree LawfulAndOrderly)
    {answers : Answers} (hanswers : answers.Honest) (report : Report) (natives : List Native)
    (clock : Float) (limits : Limits) (earlier : List String) (text : String)
    (horderly : ∀ origin ∈ earlier ++ [text], OrderlyText origin) :
    (Session.after names limits earlier
      ⟨report, Machine.initial natives clock, answers⟩).runBy names limits text =
    (Session.after .byDistance limits earlier
      ⟨report, Machine.initial natives clock, answers⟩).run limits text := by
  have hsites (origin : String) (horigin : origin ∈ earlier ++ [text]) :
      Session.SitesSatisfy LawfulAndOrderly origin :=
    fun program haccepted site hsite =>
      ⟨haccepted.lawful site hsite, horderly origin horigin program haccepted site hsite⟩
  obtain ⟨hsame, hafter⟩ := Session.after_together hnames
    (Session.sound_initial hanswers report natives clock)
    (fun origin horigin => hsites origin (List.mem_append_left _ horigin)) limits
  rw [hsame]
  exact (Session.runBy_together hnames hafter
    (hsites text (List.mem_append_right _ (List.mem_singleton_self _))) limits).1

/-- **Following links is searching by name.** Orderly programs are run one after the other with
honest functions of the host. Comparing, at every mention of a name that is evaluated, the frame
that the link leads to with the first one outward that binds the name never raises the alarm,
whatever the alarm; and finding all names by searching outward from the current frame leads to the
same session: the same output, the same failure and the same globals. -/
theorem search_eq_distance {answers : Answers} (hanswers : answers.Honest) (report : Report)
    (natives : List Native) (clock : Float) (limits : Limits) (earlier : List String)
    (text : String) (horderly : ∀ origin ∈ earlier ++ [text], OrderlyText origin) :
    (∀ alarm, (Session.after (.checked alarm) limits earlier
        ⟨report, Machine.initial natives clock, answers⟩).runBy (.checked alarm) limits text =
      (Session.after .byDistance limits earlier
        ⟨report, Machine.initial natives clock, answers⟩).run limits text) ∧
    (Session.after .bySearch limits earlier
        ⟨report, Machine.initial natives clock, answers⟩).runBy .bySearch limits text =
      (Session.after .byDistance limits earlier
        ⟨report, Machine.initial natives clock, answers⟩).run limits text := by
  constructor
  · intro alarm
    exact session_eq_of_agree (agree_checked alarm) hanswers report natives clock limits earlier
      text horderly
  · exact session_eq_of_agree agree_bySearch hanswers report natives clock limits earlier text
      horderly

/-- A text with a function that reads a variable of the block around it. The block goes on to
change the variable, and has another of that name further in. -/
def sharedVariable : String :=
  "{ var a = nil; fun f() { return a; } a = true; { var a = f(); print a; } }"

/-- Both ways at work, on an orderly text with two variables of one name. -/
theorem search_eq_distance_sharedVariable :
    Accepted sharedVariable (linkProgram (parse (scan sharedVariable).tokens).statements) ∧
      Answers.usual.Honest ∧ (∀ origin ∈ [] ++ [sharedVariable], OrderlyText origin) ∧
      (∀ alarm, (Session.after (.checked alarm) ⟨9, 9⟩ []
          ⟨.quiet "", .initial Native.all 0, .usual⟩).runBy (.checked alarm) ⟨9, 9⟩ sharedVariable =
        (Session.after .byDistance ⟨9, 9⟩ []
          ⟨.quiet "", .initial Native.all 0, .usual⟩).run ⟨9, 9⟩ sharedVariable) ∧
      (Session.after .bySearch ⟨9, 9⟩ []
          ⟨.quiet "", .initial Native.all 0, .usual⟩).runBy .bySearch ⟨9, 9⟩ sharedVariable =
        (Session.after .byDistance ⟨9, 9⟩ []
          ⟨.quiet "", .initial Native.all 0, .usual⟩).run ⟨9, 9⟩ sharedVariable := by
  have hcheck : ((scan sharedVariable).mistakes = [] ∧
      (parse (scan sharedVariable).tokens).mistakes = [] ∧
      scopeMistakes (parse (scan sharedVariable).tokens).statements = []) ∧
      ∀ site ∈ sites (linkProgram (parse (scan sharedVariable).tokens).statements),
        site.Orderly := by
    decide +kernel
  obtain ⟨⟨hlexical, hparsed, hscopes⟩, horderly⟩ := hcheck
  have htexts : ∀ origin ∈ [] ++ [sharedVariable], OrderlyText origin := by
    intro origin horigin program haccepted
    obtain rfl := List.mem_singleton.mp horigin
    rw [haccepted.nothing_wrong.2.2.2]
    exact horderly
  exact ⟨accepted_iff.mpr ⟨hlexical, hparsed, hscopes, rfl⟩, Answers.honest_usual, htexts,
    search_eq_distance Answers.honest_usual _ _ _ _ _ _ htexts⟩

end LoxInterpreter
