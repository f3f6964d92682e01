import Mathlib.Data.List.Perm.Basic
import LoxInterpreter.Proofs.Scope.Fits

/-!
# What is wrong with the scopes of a program

The rules that scope analysis enforces, told of the tree alone. `Spot` is a construct at its place
in the tree, with everything that encloses it; `Spot.wrong` says which of the eight rules it breaks.
No spot knows of a walk: a redeclaration is a name for which the scope around it has an earlier one,
and what routine or class a spot belongs to is the innermost one around it.

Scope analysis carries its surroundings along instead, and has to restore them behind every routine,
class and block. It finds what is wrong, each as often as it occurs, and nothing else
(`scopeMistakes_perm`), and that is what a report records (`issues_link_perm`).

Two facts about derived trees carry the proof. The names of a scope stand in the order of the text,
so that the names seen so far are the earlier ones; and branches declare nothing
(`Stmt.Arranged`).
-/

namespace LoxInterpreter

open Grammar

/-! ### Spots -/

/-- What can enclose a place in a tree. The names are those declared in the scope, in the order of
the text; the parameters of a routine are among them. -/
inductive Shell where
  | block (names : List Token)
  | function (names : List Token)
  | method (name : Token) (names : List Token)
  | klass (derived : Bool)
  deriving DecidableEq

namespace Shell

/-- The names that are declared in the scope. -/
def names : Shell → List Token
  | block names | function names | method _ names => names
  | klass _ => []

/-- A function or a method. -/
def isRoutine : Shell → Bool
  | function _ | method _ _ => true
  | block _ | klass _ => false

/-- A class. -/
def isClass : Shell → Bool
  | klass _ => true
  | block _ | function _ | method _ _ => false

end Shell

/-- The parts of a program that the rules of scope are about. -/
inductive Construct where
  /-- The name of a parameter, a variable, a function or a class. -/
  | declaration (name : Token)
  /-- A name that is read, and the variable in whose initializer that happens, if in any. -/
  | mention (name : Token) (initializing : Option Token)
  | this (keyword : Token)
  | super (keyword : Token)
  | giveBack (keyword : Token) (withValue : Bool)
  | inheritance (name superclass : Token)

/-- The token to blame. -/
def Construct.blamed : Construct → Token
  | declaration name | mention name _ => name
  | this keyword | super keyword | giveBack keyword _ => keyword
  | inheritance _ superclass => superclass

/-- A construct and what encloses it, innermost first. -/
structure Spot where
  construct : Construct
  around : List Shell

/-- All rules of scope, named for their violation. -/
def ScopeError.all : List ScopeError :=
  [alreadyDeclared, ownInitializer, returnAtTopLevel, valueFromInitializer, selfInheritance,
    thisOutsideClass, superOutsideClass, superWithoutSuperclass]

/-- **The rules of scope.** The spot breaks the rule. -/
def Spot.wrong (spot : Spot) : ScopeError → Bool
  | .alreadyDeclared =>
    match spot with
    | ⟨.declaration name, scope :: _⟩ =>
      scope.names.any fun other => other.lexeme = name.lexeme ∧ other.offset < name.offset
    | _ => false
  | .ownInitializer =>
    match spot with
    | ⟨.mention name (some owner), _ :: _⟩ => owner.lexeme = name.lexeme
    | _ => false
  | .returnAtTopLevel =>
    match spot with
    | ⟨.giveBack _ _, around⟩ => (around.find? Shell.isRoutine).isNone
    | _ => false
  | .valueFromInitializer =>
    match spot with
    | ⟨.giveBack _ true, around⟩ =>
      match around.find? Shell.isRoutine with
      | some (.method name _) => name.lexeme = initializerName
      | _ => false
    | _ => false
  | .selfInheritance =>
    match spot with
    | ⟨.inheritance name superclass, _⟩ => superclass.lexeme = name.lexeme
    | _ => false
  | .thisOutsideClass =>
    match spot with
    | ⟨.this _, around⟩ => (around.find? Shell.isClass).isNone
    | _ => false
  | .superOutsideClass =>
    match spot with
    | ⟨.super _, around⟩ => (around.find? Shell.isClass).isNone
    | _ => false
  | .superWithoutSuperclass =>
    match spot with
    | ⟨.super _, around⟩ => around.find? Shell.isClass = some (.klass false)
    | _ => false

/-- The rules that a spot breaks, with the token to blame. -/
def Spot.mistakes (spot : Spot) : List ScopeMistake :=
  (ScopeError.all.filter spot.wrong).map fun cause => ⟨spot.construct.blamed, cause⟩

namespace Expr

variable (around : List Shell) (initializing : Option Token)

mutual

/-- The spots in an expression. -/
def spots : Expr Blank → List Spot
  | .literal _ => []
  | .grouping inner => inner.spots
  | .unary _ operand => operand.spots
  | .binary left _ right | .logical left _ right => left.spots ++ right.spots
  | .reference target => [⟨.mention target.token initializing, around⟩]
  | .assign _ value => value.spots
  | .call callee _ values => callee.spots ++ spotsAll values
  | .property object _ => object.spots
  | .setProperty object _ value => object.spots ++ value.spots
  | .this receiver => [⟨.this receiver.token, around⟩]
  | .inherited superclass _ => [⟨.super superclass.token, around⟩]

/-- The spots in several expressions. -/
def spotsAll : List (Expr Blank) → List Spot
  | [] => []
  | e :: rest => e.spots ++ spotsAll rest

end

end Expr

/-- The spots of an expression that may be missing. -/
def Expr.spotsOptional (around : List Shell) (initializing : Option Token) :
    Option (Expr Blank) → List Spot
  | none => []
  | some e => e.spots around initializing

namespace Stmt

mutual

/-- The spots in a statement. -/
def spots (around : List Shell) : Stmt Blank → List Spot
  | .malformed => []
  | .expression value | .print value => value.spots around none
  | .declare name initial =>
    ⟨.declaration name, around⟩ :: Expr.spotsOptional around (some name) initial
  | .block body => spotsBody (.block (declaredIn body) :: around) body
  | .branch condition whenTrue none => condition.spots around none ++ whenTrue.spots around
  | .branch condition whenTrue (some whenFalse) =>
    condition.spots around none ++ whenTrue.spots around ++ whenFalse.spots around
  | .loop condition body => condition.spots around none ++ body.spots around
  | .function (.mk name params body) =>
    let inside := .function (params ++ declaredIn body) :: around
    ⟨.declaration name, around⟩ :: (params.map (⟨.declaration ·, inside⟩) ++ spotsBody inside body)
  | .giveBack keyword value =>
    ⟨.giveBack keyword value.isSome, around⟩ :: Expr.spotsOptional around none value
  | .klass name superclass methods =>
    ⟨.declaration name, around⟩ ::
      ((match superclass with
        | some target =>
          [⟨.inheritance name target.token, around⟩, ⟨.mention target.token none, around⟩]
        | none => []) ++ spotsMethods (.klass superclass.isSome :: around) methods)

/-- The spots in consecutive statements. -/
def spotsBody (around : List Shell) : List (Stmt Blank) → List Spot
  | [] => []
  | s :: rest => s.spots around ++ spotsBody around rest

/-- The spots in the methods of a class. -/
def spotsMethods (around : List Shell) : List (Routine Blank) → List Spot
  | [] => []
  | .mk name params body :: rest =>
    let inside := .method name (params ++ declaredIn body) :: around
    params.map (⟨.declaration ·, inside⟩) ++ spotsBody inside body ++ spotsMethods around rest

end

end Stmt

/-- The spots of a program. Nothing is around it. -/
def spots (program : List (Stmt Blank)) : List Spot :=
  Stmt.spotsBody [] program

/-- What is wrong with a program, rule by rule: the token to blame and the wording. -/
def wrongs (program : List (Stmt Blank)) : List (Token × String) :=
  ScopeError.all.flatMap fun cause =>
    ((spots program).filter (·.wrong cause)).map fun spot =>
      (spot.construct.blamed, cause.message)

/-! ### The order of names -/

namespace Stmt

mutual

/-- The names of each scope stand in the order of the text, and branches and loop bodies declare
nothing. -/
def Arranged : Stmt Blank → Prop
  | .malformed | .expression _ | .print _ | .declare _ _ | .giveBack _ _ => True
  | .block body => Ordered (declaredIn body) ∧ ArrangedBody body
  | .branch _ whenTrue none => whenTrue.declared? = none ∧ whenTrue.Arranged
  | .branch _ whenTrue (some whenFalse) =>
    (whenTrue.declared? = none ∧ whenTrue.Arranged) ∧
      whenFalse.declared? = none ∧ whenFalse.Arranged
  | .loop _ body => body.declared? = none ∧ body.Arranged
  | .function routine => ArrangedRoutine routine
  | .klass _ _ methods => ArrangedMethods methods

/-- All of the statements are arranged. -/
def ArrangedBody : List (Stmt Blank) → Prop
  | [] => True
  | s :: rest => s.Arranged ∧ ArrangedBody rest

/-- Parameters and declared names stand in the order of the text, and the body is arranged. -/
def ArrangedRoutine : Routine Blank → Prop
  | .mk _ params body => Ordered (params ++ declaredIn body) ∧ ArrangedBody body

/-- All of the methods are arranged. -/
def ArrangedMethods : List (Routine Blank) → Prop
  | [] => True
  | m :: rest => ArrangedRoutine m ∧ ArrangedMethods rest

end

end Stmt

/-- The names that a derived body declares are some of its tokens, in their order. -/
theorem declaredIn_sublist {ts : List Token} {body : List (Stmt Blank)} (h : Program ts body) :
    (declaredIn body).Sublist ts := by
  induction h with
  | nil => exact .slnil
  | @cons ts us s rest h _ ih =>
    rw [declaredIn_cons]
    refine List.Sublist.append ?_ ih
    cases hname : s.declared? with
    | none => exact List.nil_sublist _
    | some name => exact List.singleton_sublist.mpr (h.mem_of_declared? name hname)

/-- Listed names are some of the tokens, in their order. -/
theorem params_sublist {ts params : List Token} (h : Listed Name ts params) :
    params.Sublist ts := by
  cases h with
  | none => exact .slnil
  | some h hle =>
    clear hle
    induction h with
    | last h =>
      cases h
      exact List.Sublist.refl _
    | cons h _ _ ih =>
      cases h
      exact (ih.cons _).cons_cons _

theorem arrangedBody_of_sequence {ts : List Token} {body : List (Stmt Blank)}
    (h : Sequence (fun ts s => Ordered ts → s.Arranged) ts body) (hts : Ordered ts) :
    Stmt.ArrangedBody body := by
  induction h with
  | nil => trivial
  | cons h _ ih =>
    obtain ⟨hts, hus, -⟩ := List.pairwise_append.mp hts
    exact ⟨h hts, ih hus⟩

theorem arrangedMethods_of_sequence {ts : List Token} {methods : List (Routine Blank)}
    (h : Sequence (fun ts r => Ordered ts → Stmt.ArrangedRoutine r) ts methods)
    (hts : Ordered ts) : Stmt.ArrangedMethods methods := by
  induction h with
  | nil => trivial
  | cons h _ ih =>
    obtain ⟨hts, hus, -⟩ := List.pairwise_append.mp hts
    exact ⟨h hts, ih hus⟩

/-- The tree of a `for` loop is arranged: its block declares at most the variable. -/
theorem arranged_forTree {ts : List Token} {initial : Option (Stmt Blank)}
    (hinitial : Initializer ts initial) (condition increment : Option (Expr Blank))
    {body : Stmt Blank} (hnone : body.declared? = none) (hbody : body.Arranged) :
    (forTree initial condition increment body).Arranged := by
  have hround (e : Expr Blank) : (Stmt.block [body, .expression e]).Arranged := by
    refine ⟨?_, hbody, trivial, trivial⟩
    rw [declaredIn_cons, hnone]
    exact .nil
  have hfirst (s : Stmt Blank) (hs : initial = some s) (loop : Stmt Blank)
      (hloop : loop.Arranged) (hdeclared : loop.declared? = none) :
      (Stmt.block [s, loop]).Arranged := by
    subst hs
    refine ⟨?_, ?_, hloop, trivial⟩
    · rw [declaredIn_cons, declaredIn_cons, hdeclared]
      cases s.declared? with
      | none => exact .nil
      | some name => exact List.pairwise_singleton _ _
    · cases hinitial with
      | declare _ h => cases h <;> trivial
      | expression h => trivial
  unfold forTree
  match initial, increment with
  | none, none => exact ⟨hnone, hbody⟩
  | none, some e => exact ⟨rfl, hround e⟩
  | some s, none => exact hfirst s rfl _ ⟨hnone, hbody⟩ rfl
  | some s, some e => exact hfirst s rfl _ ⟨rfl, hround e⟩ rfl

/-- A derived declaration is arranged. -/
theorem Grammar.Declaration.arranged {ts : List Token} {s : Stmt Blank} (h : Declaration ts s) :
    Ordered ts → s.Arranged := by
  refine Declaration.induct (P := fun _ ts s => Ordered ts → s.Arranged)
    (Q := fun ts s => Ordered ts → s.Arranged)
    (R := fun ts r => Ordered ts → Stmt.ArrangedRoutine r)
    ?expression ?print ?giveBack ?block ?ifThen ?ifElse ?loop ?forLoop ?statement ?declare
    ?function ?klass ?routine h
  case expression | print | giveBack =>
    intros
    trivial
  case block =>
    intro opening closing ts body _ h _ hordered
    have hts : Ordered ts := hordered.sublist (by grind)
    exact ⟨hts.sublist (declaredIn_sublist (h.mono fun _ _ h => h.1)),
      arrangedBody_of_sequence (h.mono fun _ _ h => h.2) hts⟩
  case ifThen =>
    intro word opening closing tail ts us test whenTrue _ _ _ _ h ih hordered
    exact ⟨h.declared?_eq_none, ih (hordered.sublist (by grind))⟩
  case ifElse =>
    intro word opening closing other tail ts us vs test whenTrue whenFalse _ _ _ _ h _ h' ih ih'
      hordered
    exact ⟨⟨h.declared?_eq_none, ih (hordered.sublist (by grind))⟩, h'.declared?_eq_none,
      ih' (hordered.sublist (by grind))⟩
  case loop =>
    intro word opening closing tail ts us test body _ _ _ _ h ih hordered
    exact ⟨h.declared?_eq_none, ih (hordered.sublist (by grind))⟩
  case forLoop =>
    intro word opening semicolon closing tail ts us vs ws initial condition increment body _ _
      hinitial _ _ _ _ h ih hordered
    exact arranged_forTree hinitial condition increment h.declared?_eq_none
      (ih (hordered.sublist (by grind)))
  case statement => exact fun _ ih => ih
  case declare =>
    intro word ts s _ h _
    cases h <;> trivial
  case function =>
    intro word ts r _ _ ih hordered
    exact ih hordered.of_cons
  case klass =>
    intro word name opening closing ts us superclass methods _ _ _ _ h _ hordered
    exact arrangedMethods_of_sequence (h.mono fun _ _ h => h.2) (hordered.sublist (by grind))
  case routine =>
    intro name openParen closeParen openBrace closeBrace ts us params body _ _ hparams _ _ h _
      hordered
    have htokens : Ordered (ts ++ us) := by
      refine hordered.sublist ?_
      simp only [List.cons_append, List.append_assoc]
      exact .cons _ (.cons _ ((List.Sublist.refl ts).append
        (.cons _ (.cons _ (List.sublist_append_left us _)))))
    exact ⟨htokens.sublist
        ((params_sublist hparams).append (declaredIn_sublist (h.mono fun _ _ h => h.1))),
      arrangedBody_of_sequence (h.mono fun _ _ h => h.2)
        (htokens.sublist (List.sublist_append_right ts us))⟩

/-- A derived program is arranged. -/
theorem arrangedBody_of_program {ts : List Token} {program : List (Stmt Blank)}
    (h : Program ts program) (hts : Ordered ts) : Stmt.ArrangedBody program :=
  arrangedBody_of_sequence (h.mono fun _ _ h => h.arranged) hts

/-! ### The walk finds what is wrong -/

/-- The role of the innermost routine. -/
def roleOf (around : List Shell) : Enclosing :=
  match around.find? Shell.isRoutine with
  | some (.function _) => .function
  | some (.method name _) => methodKind name
  | _ => .topLevel

/-- The kind of the innermost class. -/
def kindOf (around : List Shell) : ClassKind :=
  match around.find? Shell.isClass with
  | some (.klass derived) => if derived then .derived else .base
  | _ => .outside

namespace Surroundings

/-- What the walk carries along is true of the place: the innermost routine, the innermost class,
and whether there is a local scope. -/
structure Reflects (c : Surroundings) (around : List Shell) : Prop where
  routine : c.routine = roleOf around
  classKind : c.classKind = kindOf around
  isEmpty : c.scopes.isEmpty = around.isEmpty

/-- The innermost local scope has seen some of its names, and the others are to come. -/
def Saw (c : Surroundings) (around : List Shell) (seen coming : List Token) : Prop :=
  ∀ scope ∈ c.scopes.head?, scope = stackOf seen ∧
    ∃ shell ∈ around.head?, shell.names = seen ++ coming ∧ Ordered (seen ++ coming)

variable {c : Surroundings} {around : List Shell} {seen coming : List Token}

theorem reflects_topLevel : topLevel.Reflects [] := ⟨rfl, rfl, rfl⟩

theorem Reflects.inBlock (h : c.Reflects around) (names : List Token) :
    c.inBlock.Reflects (.block names :: around) := ⟨h.routine, h.classKind, rfl⟩

theorem Reflects.inFunction (h : c.Reflects around) (params names : List Token) :
    (c.inRoutine .function params).Reflects (.function names :: around) :=
  ⟨rfl, h.classKind, rfl⟩

theorem Reflects.inMethod (h : c.Reflects around) (name : Token) (params names : List Token) :
    (c.inRoutine (methodKind name) params).Reflects (.method name names :: around) :=
  ⟨rfl, h.classKind, rfl⟩

theorem Reflects.inClass (h : c.Reflects around) (superclass : Option (Reference Blank)) :
    (c.inClass superclass).Reflects (.klass superclass.isSome :: around) := by
  refine ⟨h.routine, rfl, ?_⟩
  cases superclass <;> rfl

theorem Reflects.enter (h : c.Reflects around) (s : Stmt Blank) : (c.enter s).Reflects around := by
  refine ⟨h.routine, h.classKind, ?_⟩
  rw [← h.isEmpty]
  show (c.scopes.enter s).isEmpty = c.scopes.isEmpty
  rw [Scopes.enter]
  cases s.declared? <;> cases c.scopes <;> rfl

/-- A statement adds the name that it declares to those seen. -/
theorem Saw.enter {s : Stmt Blank} (h : c.Saw around seen (s.declared?.toList ++ coming)) :
    (c.enter s).Saw around (seen ++ s.declared?.toList) coming := by
  intro scope hscope
  obtain ⟨scopes, routine, classKind⟩ := c
  cases scopes with
  | nil =>
    have hnil : Scopes.enter [] s = [] := List.eq_nil_of_length_eq_zero (Scopes.length_enter s)
    rw [Surroundings.enter, hnil] at hscope
    cases hscope
  | cons first outer =>
    obtain ⟨rfl, shell, hshell, hnames⟩ := h first rfl
    rw [Surroundings.enter, enter_stackOf] at hscope
    obtain rfl := Option.mem_some_iff.mp hscope
    rw [List.append_assoc]
    exact ⟨rfl, shell, hshell, hnames⟩

end Surroundings

/-- Of names in the order of the text, those with an earlier one alike are those that have been
seen. -/
theorem any_earlier_iff {seen coming : List Token} {name : Token}
    (hordered : Ordered (seen ++ name :: coming)) :
    ((seen ++ name :: coming).any fun other =>
      other.lexeme = name.lexeme ∧ other.offset < name.offset) ↔ name.lexeme ∈ stackOf seen := by
  obtain ⟨-, hcoming, hseen⟩ := List.pairwise_append.mp hordered
  rw [List.any_eq_true, mem_stackOf]
  constructor
  · rintro ⟨other, hother, halike⟩
    obtain ⟨hlexeme, hlt⟩ := of_decide_eq_true halike
    rcases List.mem_append.mp hother with hother | hother
    · exact ⟨other, hother, hlexeme⟩
    · -- what comes is no earlier
      rcases List.mem_cons.mp hother with rfl | hother
      · exact absurd hlt (Nat.lt_irrefl _)
      · exact absurd hlt (Nat.lt_asymm ((List.pairwise_cons.mp hcoming).1 other hother))
  · rintro ⟨other, hother, hlexeme⟩
    exact ⟨other, List.mem_append_left _ hother,
      decide_eq_true ⟨hlexeme, hseen other hother name List.mem_cons_self⟩⟩

/-- A spot that can break but one rule. -/
theorem Spot.mistakes_eq_ite {spot : Spot} (rule : ScopeError)
    (h : ∀ other, other ≠ rule → spot.wrong other = false) :
    spot.mistakes = if spot.wrong rule then [⟨spot.construct.blamed, rule⟩] else [] := by
  cases hrule : spot.wrong rule <;> cases rule <;>
    simp [Spot.mistakes, ScopeError.all, h, hrule]

/-- The only rule that a declared name can break. -/
theorem mistakes_declaration (name : Token) (around : List Shell) :
    Spot.mistakes ⟨.declaration name, around⟩ =
      if Spot.wrong ⟨.declaration name, around⟩ .alreadyDeclared then [⟨name, .alreadyDeclared⟩]
      else [] :=
  Spot.mistakes_eq_ite .alreadyDeclared
    fun other hother => by cases other <;> first | rfl | exact absurd rfl hother

/-- The only rule that a mention of a name can break. -/
theorem mistakes_mention (name : Token) (initializing : Option Token) (around : List Shell) :
    Spot.mistakes ⟨.mention name initializing, around⟩ =
      if (if around.isEmpty then none else initializing.map (·.lexeme)) = some name.lexeme then
        [⟨name, .ownInitializer⟩]
      else [] := by
  rw [Spot.mistakes_eq_ite .ownInitializer
    fun other hother => by cases other <;> first | rfl | exact absurd rfl hother]
  cases around <;> cases initializing <;> simp [Spot.wrong, Construct.blamed]

/-- The innermost class, if there is one, is a class. -/
theorem find?_isClass (around : List Shell) :
    around.find? Shell.isClass = none ∨
      ∃ derived, around.find? Shell.isClass = some (.klass derived) := by
  cases hfind : around.find? Shell.isClass with
  | none => exact .inl rfl
  | some shell =>
    have hclass := List.find?_some hfind
    cases shell with
    | klass derived => exact .inr ⟨derived, rfl⟩
    | block | function | method => cases hclass

/-- The innermost routine, if there is one, is a function or a method. -/
theorem find?_isRoutine (around : List Shell) :
    around.find? Shell.isRoutine = none ∨
      (∃ names, around.find? Shell.isRoutine = some (.function names)) ∨
      ∃ name names, around.find? Shell.isRoutine = some (.method name names) := by
  cases hfind : around.find? Shell.isRoutine with
  | none => exact .inl rfl
  | some shell =>
    have hroutine := List.find?_some hfind
    cases shell with
    | function names => exact .inr (.inl ⟨names, rfl⟩)
    | method name names => exact .inr (.inr ⟨name, names, rfl⟩)
    | block | klass => cases hroutine

/-- The only rule that `this` can break. -/
theorem mistakes_this (keyword : Token) (around : List Shell) :
    Spot.mistakes ⟨.this keyword, around⟩ =
      if kindOf around = .outside then [⟨keyword, .thisOutsideClass⟩] else [] := by
  rw [Spot.mistakes_eq_ite .thisOutsideClass
    fun other hother => by cases other <;> first | rfl | exact absurd rfl hother]
  rcases find?_isClass around with hfind | ⟨derived, hfind⟩
  · simp [Spot.wrong, kindOf, hfind, Construct.blamed]
  · cases derived <;> simp [Spot.wrong, kindOf, hfind]

/-- The rules that `super` can break. -/
theorem mistakes_super (keyword : Token) (around : List Shell) :
    Spot.mistakes ⟨.super keyword, around⟩ =
      match kindOf around with
      | .outside => [⟨keyword, .superOutsideClass⟩]
      | .base => [⟨keyword, .superWithoutSuperclass⟩]
      | .derived => [] := by
  rcases find?_isClass around with hfind | ⟨derived, hfind⟩
  · simp [Spot.mistakes, ScopeError.all, Spot.wrong, kindOf, hfind, Construct.blamed]
  · cases derived <;>
      simp [Spot.mistakes, ScopeError.all, Spot.wrong, kindOf, hfind, Construct.blamed]

/-- The rules that a `return` can break. -/
theorem mistakes_giveBack (keyword : Token) (withValue : Bool) (around : List Shell) :
    Spot.mistakes ⟨.giveBack keyword withValue, around⟩ =
      (if roleOf around = .topLevel then [⟨keyword, .returnAtTopLevel⟩] else []) ++
        if withValue ∧ roleOf around = .initializer then [⟨keyword, .valueFromInitializer⟩]
        else [] := by
  rcases find?_isRoutine around with hfind | ⟨names, hfind⟩ | ⟨name, names, hfind⟩
  · cases withValue <;>
      simp [Spot.mistakes, ScopeError.all, Spot.wrong, roleOf, hfind, Construct.blamed]
  · cases withValue <;>
      simp [Spot.mistakes, ScopeError.all, Spot.wrong, roleOf, hfind]
  · by_cases hinit : name.lexeme = initializerName <;> cases withValue <;>
      simp [Spot.mistakes, ScopeError.all, Spot.wrong, roleOf, hfind, Construct.blamed,
        methodKind, hinit]

/-- The only rule that the head of a class can break. -/
theorem mistakes_inheritance (name superclass : Token) (around : List Shell) :
    Spot.mistakes ⟨.inheritance name superclass, around⟩ =
      if superclass.lexeme = name.lexeme then [⟨superclass, .selfInheritance⟩] else [] := by
  rw [Spot.mistakes_eq_ite .selfInheritance
    fun other hother => by cases other <;> first | rfl | exact absurd rfl hother]
  simp [Spot.wrong, Construct.blamed]

/-- The mistake of the name that a statement declares. -/
def declarationMistakes (s : Stmt Blank) (around : List Shell) : List ScopeMistake :=
  s.declared?.toList.flatMap fun name => Spot.mistakes ⟨.declaration name, around⟩

theorem declarationMistakes_of_some {s : Stmt Blank} {name : Token} (hs : s.declared? = some name)
    (around : List Shell) :
    declarationMistakes s around = Spot.mistakes ⟨.declaration name, around⟩ := by
  rw [declarationMistakes, hs, Option.toList_some, List.flatMap_singleton]

theorem declarationMistakes_of_none {s : Stmt Blank} (hs : s.declared? = none)
    (around : List Shell) : declarationMistakes s around = [] := by
  rw [declarationMistakes, hs]
  rfl

/-- What declares nothing declares nothing twice. -/
theorem redeclaration_of_none {s : Stmt Blank} (hs : s.declared? = none) (c : Surroundings) :
    c.redeclaration s = [] := by
  rw [Surroundings.redeclaration, hs]

/-- A name is found to be declared twice exactly if its scope has an earlier one. -/
theorem redeclaration_eq {c : Surroundings} {around : List Shell} {seen coming : List Token}
    {s : Stmt Blank} (hc : c.Reflects around)
    (h : c.Saw around seen (s.declared?.toList ++ coming)) :
    c.redeclaration s = declarationMistakes s around := by
  obtain ⟨scopes, routine, classKind⟩ := c
  rw [Surroundings.redeclaration, declarationMistakes]
  cases hname : s.declared? with
  | none => rfl
  | some name =>
    rw [Option.toList_some, List.flatMap_singleton, mistakes_declaration]
    cases scopes with
    | nil =>
      obtain rfl : around = [] := List.isEmpty_iff.mp hc.isEmpty.symm
      rfl
    | cons scope outer =>
      obtain ⟨rfl, shell, hshell, hnames, hordered⟩ := h scope rfl
      rw [hname, Option.toList_some, List.singleton_append] at hnames hordered
      obtain ⟨rest, rfl⟩ : ∃ rest, around = shell :: rest := by
        cases around with
        | nil => cases hshell
        | cons first rest =>
          cases hshell
          exact ⟨rest, rfl⟩
      dsimp only
      rw [Spot.wrong, hnames]
      exact if_congr (any_earlier_iff hordered).symm rfl rfl

/-- Parameters are found to be named alike exactly if an earlier one has the name. -/
theorem repeatedParams_eq {shell : Shell} {around : List Shell} (seen : List Token)
    {params coming : List Token}
    (hnames : shell.names = seen ++ (params ++ coming)) (hordered : Ordered shell.names) :
    repeatedParams (stackOf seen) params =
      (params.map (⟨.declaration ·, shell :: around⟩)).flatMap Spot.mistakes := by
  induction params generalizing seen with
  | nil => rfl
  | cons param rest ih =>
    have hseen : param.lexeme :: stackOf seen = stackOf (seen ++ [param]) := by simp [stackOf]
    have hnames' : shell.names = seen ++ [param] ++ (rest ++ coming) := by simp [hnames]
    rw [repeatedParams, hseen, ih _ hnames', List.map_cons, List.flatMap_cons, mistakes_declaration,
      Spot.wrong, hnames]
    rw [hnames] at hordered
    congr 1
    exact if_congr (any_earlier_iff hordered).symm rfl rfl

namespace Expr

variable {kind : ClassKind} {own : Option String} {around : List Shell}
  {initializing : Option Token}

mutual

/-- Scope analysis finds what is wrong with an expression. -/
theorem scopeMistakes_perm (hkind : kind = kindOf around)
    (hown : own = if around.isEmpty then none else initializing.map (·.lexeme)) (e : Expr Blank) :
    (e.scopeMistakes kind own).Perm ((e.spots around initializing).flatMap Spot.mistakes) := by
  cases e with
  | literal => exact .nil
  | grouping inner => exact inner.scopeMistakes_perm hkind hown
  | unary _ operand => exact operand.scopeMistakes_perm hkind hown
  | property object => exact object.scopeMistakes_perm hkind hown
  | assign _ value => exact value.scopeMistakes_perm hkind hown
  | binary left _ right | logical left _ right =>
    rw [scopeMistakes, spots, List.flatMap_append]
    exact (left.scopeMistakes_perm hkind hown).append (right.scopeMistakes_perm hkind hown)
  | setProperty object _ value =>
    -- the value comes before the object
    rw [scopeMistakes, spots, List.flatMap_append]
    exact ((value.scopeMistakes_perm hkind hown).append
      (object.scopeMistakes_perm hkind hown)).trans List.perm_append_comm
  | call callee _ values =>
    rw [scopeMistakes, spots, List.flatMap_append]
    exact (callee.scopeMistakes_perm hkind hown).append (scopeMistakesAll_perm hkind hown values)
  | reference target =>
    refine .of_eq ?_
    rw [scopeMistakes, spots, List.flatMap_singleton, mistakes_mention, hown]
  | this receiver =>
    refine .of_eq ?_
    rw [scopeMistakes, spots, List.flatMap_singleton, mistakes_this, hkind]
  | inherited superclass _ =>
    refine .of_eq ?_
    rw [spots, List.flatMap_singleton, mistakes_super, ← hkind]
    cases kind <;> rfl

theorem scopeMistakesAll_perm (hkind : kind = kindOf around)
    (hown : own = if around.isEmpty then none else initializing.map (·.lexeme))
    (es : List (Expr Blank)) :
    (scopeMistakesAll kind own es).Perm
      ((spotsAll around initializing es).flatMap Spot.mistakes) := by
  cases es with
  | nil => exact .nil
  | cons e rest =>
    rw [scopeMistakesAll, spotsAll, List.flatMap_append]
    exact (e.scopeMistakes_perm hkind hown).append (scopeMistakesAll_perm hkind hown rest)

end

end Expr

namespace Stmt

/-- Scope analysis finds what is wrong with an expression outside of initializers. -/
theorem expressionMistakes_perm {c : Surroundings} {around : List Shell} (hc : c.Reflects around)
    (e : Expr Blank) : (e.scopeMistakes c.classKind none).Perm
      ((e.spots around none).flatMap Spot.mistakes) :=
  e.scopeMistakes_perm hc.classKind (by simp)

mutual

/-- Scope analysis finds what is wrong with a statement, and with the name that it declares. -/
theorem scopeMistakes_perm (s : Stmt Blank) {c : Surroundings} {around : List Shell}
    (hc : c.Reflects around) (hs : s.Arranged) :
    (declarationMistakes s around ++ s.scopeMistakes c).Perm
      ((s.spots around).flatMap Spot.mistakes) := by
  match s with
  | .malformed => exact .nil
  | .expression value | .print value => exact expressionMistakes_perm hc value
  | .declare name none => simp [declarationMistakes, declared?, scopeMistakes, spots,
      Expr.spotsOptional]
  | .declare name (some initial) =>
    have hown : c.initializing name =
        if around.isEmpty then none else (some name).map (·.lexeme) := by
      rw [Surroundings.initializing, hc.isEmpty]
      rfl
    rw [declarationMistakes_of_some rfl, spots, List.flatMap_cons]
    exact (initial.scopeMistakes_perm hc.classKind hown).append_left _
  | .block body =>
    refine scopeMistakesBody_perm body [] (hc.inBlock _) ?_ hs.2
    rintro scope ⟨⟩
    exact ⟨rfl, _, rfl, rfl, hs.1⟩
  | .branch condition whenTrue none =>
    obtain ⟨hnone, htrue⟩ := hs
    have hbranch := scopeMistakes_perm whenTrue (hc.enter whenTrue) htrue
    rw [declarationMistakes_of_none hnone] at hbranch
    rw [declarationMistakes_of_none rfl, scopeMistakes, spots, List.flatMap_append,
      redeclaration_of_none hnone]
    exact (expressionMistakes_perm hc condition).append hbranch
  | .branch condition whenTrue (some whenFalse) =>
    obtain ⟨⟨hnone, htrue⟩, hnone', hfalse⟩ := hs
    have hbranch := scopeMistakes_perm whenTrue (hc.enter whenTrue) htrue
    have hbranch' := scopeMistakes_perm whenFalse (hc.enter whenFalse) hfalse
    rw [declarationMistakes_of_none hnone] at hbranch
    rw [declarationMistakes_of_none hnone'] at hbranch'
    rw [declarationMistakes_of_none rfl, scopeMistakes, spots, List.flatMap_append,
      List.flatMap_append, redeclaration_of_none hnone, redeclaration_of_none hnone']
    exact ((expressionMistakes_perm hc condition).append hbranch).append hbranch'
  | .loop condition body =>
    obtain ⟨hnone, hbody⟩ := hs
    have hround := scopeMistakes_perm body (hc.enter body) hbody
    rw [declarationMistakes_of_none hnone] at hround
    rw [declarationMistakes_of_none rfl, scopeMistakes, spots, List.flatMap_append,
      redeclaration_of_none hnone]
    exact (expressionMistakes_perm hc condition).append hround
  | .function (.mk name params body) =>
    obtain ⟨hnames, hbody⟩ := hs
    rw [declarationMistakes_of_some rfl, scopeMistakes, scopeMistakesRoutine, spots,
      List.flatMap_cons, List.flatMap_append]
    refine .append_left _ (.append (.of_eq ?_) ?_)
    · exact repeatedParams_eq [] rfl hnames
    · refine scopeMistakesBody_perm body params (hc.inFunction _ _) ?_ hbody
      rintro scope ⟨⟩
      exact ⟨rfl, _, rfl, rfl, hnames⟩
  | .giveBack keyword none =>
    refine .of_eq ?_
    rw [declarationMistakes_of_none rfl, scopeMistakes, spots, Expr.spotsOptional,
      List.flatMap_singleton, Option.isSome_none, mistakes_giveBack, hc.routine]
    simp
  | .giveBack keyword (some value) =>
    rw [declarationMistakes_of_none rfl, scopeMistakes, spots, Expr.spotsOptional,
      List.flatMap_cons, Option.isSome_some, mistakes_giveBack, hc.routine, List.append_assoc]
    simp only [true_and, List.nil_append]
    exact .append_left _ (.append_left _ (expressionMistakes_perm hc value))
  | .klass name none methods =>
    rw [declarationMistakes_of_some rfl, scopeMistakes, spots, List.flatMap_cons]
    exact .append_left _ (scopeMistakesMethods_perm methods (hc.inClass none) hs)
  | .klass name (some target) methods =>
    have hmethods := scopeMistakesMethods_perm methods (hc.inClass (some target)) hs
    rw [declarationMistakes_of_some rfl, scopeMistakes, spots, List.flatMap_cons,
      List.flatMap_append]
    refine .append_left _ (.append (.of_eq ?_) hmethods)
    -- the superclass is outside of every initializer
    simp [mistakes_inheritance, mistakes_mention]

theorem scopeMistakesBody_perm (body : List (Stmt Blank)) (seen : List Token) {c : Surroundings}
    {around : List Shell} (hc : c.Reflects around) (hseen : c.Saw around seen (declaredIn body))
    (hbody : ArrangedBody body) :
    (scopeMistakesBody c body).Perm ((spotsBody around body).flatMap Spot.mistakes) := by
  match body with
  | [] => exact .nil
  | s :: rest =>
    rw [declaredIn_cons] at hseen
    rw [scopeMistakesBody, spotsBody, List.flatMap_append, redeclaration_eq hc hseen]
    exact (scopeMistakes_perm s (hc.enter s) hbody.1).append
      (scopeMistakesBody_perm rest _ (hc.enter s) hseen.enter hbody.2)

theorem scopeMistakesMethods_perm (methods : List (Routine Blank)) {c : Surroundings}
    {around : List Shell} (hc : c.Reflects around) (hmethods : ArrangedMethods methods) :
    (scopeMistakesMethods c methods).Perm
      ((spotsMethods around methods).flatMap Spot.mistakes) := by
  match methods with
  | [] => exact .nil
  | .mk name params body :: rest =>
    obtain ⟨⟨hnames, hbody⟩, hrest⟩ := hmethods
    rw [scopeMistakesMethods, spotsMethods, List.flatMap_append, List.flatMap_append]
    refine .append (.append (.of_eq ?_) ?_) (scopeMistakesMethods_perm rest hc hrest)
    · exact repeatedParams_eq [] rfl hnames
    · refine scopeMistakesBody_perm body params (hc.inMethod name _ _) ?_ hbody
      rintro scope ⟨⟩
      exact ⟨rfl, _, rfl, rfl, hnames⟩

end

end Stmt

/-- **Scope analysis finds exactly what is wrong.** In a program that is derived from tokens in the
order of a text, the mistakes that the walk finds are those of the spots, each as often as there. -/
theorem scopeMistakes_perm {ts : List Token} {program : List (Stmt Blank)} (h : Program ts program)
    (hts : Ordered ts) : (scopeMistakes program).Perm ((spots program).flatMap Spot.mistakes) :=
  Stmt.scopeMistakesBody_perm program [] Surroundings.reflects_topLevel nofun
    (arrangedBody_of_program h hts)

/-! ### What a report records -/

/-- To go through two lists, one inside the other, either may be the outer one. -/
theorem flatMap_filter_map_perm {α β γ : Type} (p : α → β → Bool) (f : α → β → γ) (as : List α)
    (bs : List β) :
    (as.flatMap fun a => (bs.filter (p a)).map (f a)).Perm
      (bs.flatMap fun b => (as.filter (p · b)).map (f · b)) := by
  induction as with
  | nil => simp
  | cons a as ih =>
    have hcons (b : β) : ((a :: as).filter (p · b)).map (f · b) =
        (if p a b then [f a b] else []) ++ (as.filter (p · b)).map (f · b) := by
      rw [List.filter_cons]
      split <;> rfl
    have hfirst : (bs.filter (p a)).map (f a) =
        bs.flatMap fun b => if p a b then [f a b] else [] := by
      clear ih
      induction bs with
      | nil => rfl
      | cons b bs ih =>
        rw [List.filter_cons, List.flatMap_cons, ← ih]
        split <;> rfl
    rw [List.flatMap_cons, funext hcons, hfirst]
    exact (ih.append_left _).trans (List.flatMap_append_perm bs _ _)

/-- The mistakes that the walk finds, rule by rule. -/
theorem scopeMistakes_perm_wrongs {ts : List Token} {program : List (Stmt Blank)}
    (h : Program ts program) (hts : Ordered ts) :
    ((scopeMistakes program).map fun m => (m.token, m.cause.message)).Perm (wrongs program) := by
  refine ((scopeMistakes_perm h hts).map _).trans ?_
  rw [wrongs, List.map_flatMap]
  simp only [Spot.mistakes, List.map_map]
  exact flatMap_filter_map_perm Spot.wrong
    (fun spot cause => (spot.construct.blamed, cause.message)) (spots program) ScopeError.all

namespace Reporting

/-- Mistakes are recorded in the order in which they are found. -/
theorem issues_of_forM_error {mistakes : List ScopeMistake} {r r' : Report} {u : PUnit}
    (h : mistakes.forM (fun m => error m.token m.cause.message) r = .ok u r') :
    r'.issues.toList =
      r.issues.toList ++ mistakes.map fun m => r.issueAt m.token m.cause.message := by
  induction mistakes generalizing r with
  | nil =>
    cases h
    simp
  | cons m rest ih =>
    obtain ⟨_, r₁, hm, h⟩ := bind_eq_ok h
    have hstep : r₁ = { r with issues := r.issues.push (r.issueAt m.token m.cause.message) } := by
      dsimp only at hm
      rw [error_eq, issue_eq] at hm
      split at hm <;> cases hm
      rfl
    rw [ih h, hstep]
    simp [Report.issueAt]

/-- A report that never gives up takes every mistake. -/
theorem exists_forM_error_eq_ok (mistakes : List ScopeMistake) {r : Report}
    (hr : r.maxIssues = 0) :
    ∃ r', mistakes.forM (fun m => error m.token m.cause.message) r = .ok ⟨⟩ r' := by
  induction mistakes generalizing r with
  | nil => exact ⟨r, rfl⟩
  | cons m rest ih =>
    -- there is an issue by now, so there are not zero of them
    have hpush : ¬(r.issues.push (r.issueAt m.token m.cause.message)).size = r.maxIssues := by
      rw [Array.size_push, hr]
      exact Nat.succ_ne_zero _
    have hstep : error m.token m.cause.message r = .ok ⟨⟩
        { r with issues := r.issues.push (r.issueAt m.token m.cause.message) } := by
      rw [error_eq, issue_eq, if_neg hpush]
    obtain ⟨r', hrest⟩ := ih
      (r := { r with issues := r.issues.push (r.issueAt m.token m.cause.message) }) hr
    exact ⟨r', (bind_of_eq_ok hstep _).trans hrest⟩

/-- A report that never gives up gets a program linked, whatever is wrong with its scopes. -/
theorem exists_link_eq_ok (statements : List (Stmt Blank)) {r : Report} (hr : r.maxIssues = 0) :
    ∃ r', link statements r = .ok (linkProgram statements) r' := by
  obtain ⟨r', h⟩ := exists_forM_error_eq_ok (scopeMistakes statements) hr
  exact ⟨r', bind_of_eq_ok h _⟩

end Reporting

/-- **A report on the scopes of a program.** A text has been parsed without a mistake, and its
scopes are analysed with a report that does not give up. What the report records then are the
violations of the rules, each as often as there is a spot that breaks the rule, with the token of
the spot and the wording of the rule. -/
theorem issues_link_perm {text : String} (hparse : (parse (scan text).tokens).mistakes = [])
    {r r' : Report} {linked : List (Stmt Place)}
    (hlink : Reporting.link (parse (scan text).tokens).statements r = .ok linked r') :
    r'.issues.toList = r.issues.toList ++
        (scopeMistakes (parse (scan text).tokens).statements).map
          (fun m => r.issueAt m.token m.cause.message) ∧
      ((scopeMistakes (parse (scan text).tokens).statements).map
        fun m => (m.token, m.cause.message)).Perm (wrongs (parse (scan text).tokens).statements) := by
  constructor
  · rw [Reporting.link] at hlink
    obtain ⟨_, r₁, hrecord, hlink⟩ := Reporting.bind_eq_ok hlink
    cases hlink
    exact Reporting.issues_of_forM_error hrecord
  · exact scopeMistakes_perm_wrongs (Parse.parse_sound hparse) (pairwise_offset_tokens text)

/-- A text that breaks every rule of scope. -/
def brokenRules : String :=
  "return; \x7b var a = a; fun f(b, b) \x7b return this; \x7d class A < A \x7b init() \x7b return super.m; \x7d \x7d class C \x7b m() \x7b super.m; \x7d \x7d \x7d super.m;"

/-- Breaking every rule once makes eight issues. -/
theorem issues_link_perm_brokenRules : ∃ linked r',
    Reporting.link (parse (scan brokenRules).tokens).statements (.quiet brokenRules) =
        .ok linked r' ∧
      r'.issues.toList.length = 8 ∧ (wrongs (parse (scan brokenRules).tokens).statements).length = 8 := by
  have hparse : (parse (scan brokenRules).tokens).mistakes = [] := by decide +kernel
  have hcount : (wrongs (parse (scan brokenRules).tokens).statements).length = 8 := by
    decide +kernel
  obtain ⟨r', hlink⟩ := Reporting.exists_link_eq_ok
    (parse (scan brokenRules).tokens).statements (r := .quiet brokenRules) rfl
  obtain ⟨hissues, hperm⟩ := issues_link_perm hparse hlink
  refine ⟨_, r', hlink, ?_, hcount⟩
  have hlength := hperm.length_eq
  rw [List.length_map, hcount] at hlength
  have hquiet : (Report.quiet brokenRules).issues.toList = [] := rfl
  rw [hissues, hquiet, List.nil_append, List.length_map]
  exact hlength

end LoxInterpreter
