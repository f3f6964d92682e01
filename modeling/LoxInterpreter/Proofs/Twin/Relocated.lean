import LoxInterpreter.Proofs.Grammar.Relocated
import LoxInterpreter.Proofs.Grammar.Tokens
import LoxInterpreter.Proofs.Twin.Tree

/-!
# Relocated trees are twins

Where tokens stand in a text matters to scope analysis and evaluation only where they are to blame.
The mistakes of a relocated tree are those of the tree, relocated
(`Stmt.scopeMistakesBody_relocated`), and a linked tree and the relocated one are twins
(`Stmt.twins_linkBody_relocated`): their frames are the same, and so are the distances.
-/

namespace LoxInterpreter

/-! ### Mistakes of scope -/

/-- The mistake among relocated tokens. -/
def ScopeMistake.relocated (ρ : Relocation) (m : ScopeMistake) : ScopeMistake :=
  { m with token := ρ m.token }

/-- The mistakes among relocated tokens. -/
def relocatedMistakes (ρ : Relocation) (ms : List ScopeMistake) : List ScopeMistake :=
  ms.map (ScopeMistake.relocated ρ)

theorem relocatedMistakes_append (ρ : Relocation) (ms ms' : List ScopeMistake) :
    relocatedMistakes ρ (ms ++ ms') = relocatedMistakes ρ ms ++ relocatedMistakes ρ ms' :=
  List.map_append

variable {ρ : Relocation}

theorem Stmt.declared?_relocated (s : Stmt Blank) :
    (s.relocated ρ).declared? = s.declared?.map ρ := by
  match s with
  | .declare .. | .function (.mk ..) | .klass .. | .malformed | .expression _ | .print _ | .block _
  | .branch _ _ none | .branch _ _ (some _) | .loop _ _ | .giveBack _ _ => rfl

namespace Scopes

theorem enter_relocated (scopes : Scopes) (s : Stmt Blank) :
    scopes.enter (s.relocated ρ) = scopes.enter s := by
  rw [enter, enter, Stmt.declared?_relocated]
  cases s.declared? <;> rfl

theorem enterRoutine_relocated (scopes : Scopes) (params : List Token) :
    scopes.enterRoutine (params.map ρ) = scopes.enterRoutine params := by
  rw [enterRoutine, enterRoutine, ← List.map_reverse, List.map_map]
  rfl

theorem enterClass_relocated (scopes : Scopes) (superclass : Option (Reference Blank)) :
    scopes.enterClass (superclass.map (Reference.relocated ρ)) =
      scopes.enterClass superclass := by
  cases superclass <;> rfl

end Scopes

namespace Surroundings

theorem enter_relocated (c : Surroundings) (s : Stmt Blank) :
    c.enter (s.relocated ρ) = c.enter s := by
  rw [enter, enter, Scopes.enter_relocated]

theorem inRoutine_relocated (c : Surroundings) (kind : Enclosing) (params : List Token) :
    c.inRoutine kind (params.map ρ) = c.inRoutine kind params := by
  rw [inRoutine, inRoutine, Scopes.enterRoutine_relocated]

theorem redeclaration_relocated (c : Surroundings) (s : Stmt Blank) :
    c.redeclaration (s.relocated ρ) = relocatedMistakes ρ (c.redeclaration s) := by
  rw [redeclaration, redeclaration, Stmt.declared?_relocated]
  obtain ⟨scopes, _, _⟩ := c
  cases s.declared? with
  | none => rfl
  | some name =>
    cases scopes with
    | nil => rfl
    | cons scope outer =>
      show (if name.lexeme ∈ scope then _ else _) = relocatedMistakes ρ (if _ then _ else _)
      split <;> rfl

end Surroundings

theorem repeatedParams_relocated (earlier : List String) (params : List Token) :
    repeatedParams earlier (params.map ρ) =
      relocatedMistakes ρ (repeatedParams earlier params) := by
  induction params generalizing earlier with
  | nil => rfl
  | cons param rest ih =>
    rw [List.map_cons, repeatedParams, repeatedParams, ih, relocatedMistakes_append]
    refine congrArg (· ++ _) ?_
    show (if param.lexeme ∈ earlier then _ else _) = _
    split <;> rfl

namespace Expr

variable (kind : ClassKind) (own : Option String)

mutual

/-- The mistakes of an expression are relocated with it. -/
theorem scopeMistakes_relocated (e : Expr Blank) :
    (e.relocated ρ).scopeMistakes kind own =
      relocatedMistakes ρ (e.scopeMistakes kind own) := by
  cases e with
  | literal => rfl
  | grouping inner => exact scopeMistakes_relocated inner
  | unary _ operand => exact scopeMistakes_relocated operand
  | binary left _ right | logical left _ right =>
    rw [relocated, scopeMistakes, scopeMistakes, scopeMistakes_relocated left,
      scopeMistakes_relocated right, relocatedMistakes_append]
  | reference target =>
    show (if own = some target.name then _ else _) = relocatedMistakes ρ (if _ then _ else _)
    split <;> rfl
  | assign _ value => exact scopeMistakes_relocated value
  | call callee _ values =>
    rw [relocated, scopeMistakes, scopeMistakes, scopeMistakes_relocated callee,
      scopeMistakesAll_relocated values, relocatedMistakes_append]
  | property object => exact scopeMistakes_relocated object
  | setProperty object _ value =>
    rw [relocated, scopeMistakes, scopeMistakes, scopeMistakes_relocated object,
      scopeMistakes_relocated value, relocatedMistakes_append]
  | this receiver =>
    show (if kind = .outside then _ else _) = relocatedMistakes ρ (if _ then _ else _)
    split <;> rfl
  | inherited superclass method => cases kind <;> rfl

/-- The mistakes of expressions are relocated with them. -/
theorem scopeMistakesAll_relocated (es : List (Expr Blank)) :
    scopeMistakesAll kind own (relocatedAll ρ es) =
      relocatedMistakes ρ (scopeMistakesAll kind own es) := by
  cases es with
  | nil => rfl
  | cons e rest =>
    rw [relocatedAll, scopeMistakesAll, scopeMistakesAll, scopeMistakes_relocated e,
      scopeMistakesAll_relocated rest, relocatedMistakes_append]

end

end Expr

namespace Stmt

mutual

/-- The mistakes of a statement are relocated with it. -/
theorem scopeMistakes_relocated (s : Stmt Blank) (c : Surroundings) :
    (s.relocated ρ).scopeMistakes c = relocatedMistakes ρ (s.scopeMistakes c) := by
  match s with
  | .malformed | .declare _ none => rfl
  | .expression value | .print value => exact Expr.scopeMistakes_relocated _ _ value
  | .declare name (some initial) => exact Expr.scopeMistakes_relocated _ _ initial
  | .block body => exact scopeMistakesBody_relocated body c.inBlock
  | .branch condition whenTrue none =>
    simp only [relocated, scopeMistakes, Expr.scopeMistakes_relocated, c.redeclaration_relocated,
      c.enter_relocated, scopeMistakes_relocated whenTrue, relocatedMistakes_append]
  | .branch condition whenTrue (some whenFalse) =>
    simp only [relocated, scopeMistakes, Expr.scopeMistakes_relocated, c.redeclaration_relocated,
      c.enter_relocated, scopeMistakes_relocated whenTrue, scopeMistakes_relocated whenFalse,
      relocatedMistakes_append]
  | .loop condition body =>
    simp only [relocated, scopeMistakes, Expr.scopeMistakes_relocated, c.redeclaration_relocated,
      c.enter_relocated, scopeMistakes_relocated body, relocatedMistakes_append]
  | .function routine => exact scopeMistakesRoutine_relocated routine c .function
  | .giveBack keyword none =>
    show (if c.routine = .topLevel then _ else _) ++ [] =
      relocatedMistakes ρ ((if c.routine = .topLevel then _ else _) ++ [])
    split <;> rfl
  | .giveBack keyword (some value) =>
    simp only [relocated, Option.map_some, scopeMistakes, Expr.scopeMistakes_relocated,
      relocatedMistakes_append]
    split <;> split <;> rfl
  | .klass name none methods =>
    exact scopeMistakesMethods_relocated methods (c.inClass (none : Option (Reference Blank)))
  | .klass name (some target) methods =>
    have hmethods := scopeMistakesMethods_relocated methods (c.inClass (some target))
    have hitself : (if target.name = name.lexeme then
        [(⟨ρ target.token, .selfInheritance⟩ : ScopeMistake)] else []) =
          relocatedMistakes ρ
            (if target.name = name.lexeme then [⟨target.token, .selfInheritance⟩] else []) := by
      split <;> rfl
    exact (congrArg₂ (· ++ ·) hitself hmethods).trans (relocatedMistakes_append _ _ _).symm

/-- The mistakes of statements are relocated with them. -/
theorem scopeMistakesBody_relocated (body : List (Stmt Blank)) (c : Surroundings) :
    scopeMistakesBody c (relocatedBody ρ body) =
      relocatedMistakes ρ (scopeMistakesBody c body) := by
  match body with
  | [] => rfl
  | s :: rest =>
    rw [relocatedBody, scopeMistakesBody, scopeMistakesBody, c.enter_relocated,
      c.redeclaration_relocated, scopeMistakes_relocated s, scopeMistakesBody_relocated rest,
      relocatedMistakes_append, relocatedMistakes_append]

/-- The mistakes of a function or method are relocated with it. -/
theorem scopeMistakesRoutine_relocated (routine : Routine Blank) (c : Surroundings)
    (kind : Enclosing) : scopeMistakesRoutine c kind (relocatedRoutine ρ routine) =
      relocatedMistakes ρ (scopeMistakesRoutine c kind routine) := by
  match routine with
  | .mk name params body =>
    rw [relocatedRoutine, scopeMistakesRoutine, scopeMistakesRoutine, repeatedParams_relocated,
      c.inRoutine_relocated, scopeMistakesBody_relocated body, relocatedMistakes_append]

/-- The mistakes of methods are relocated with them. -/
theorem scopeMistakesMethods_relocated (methods : List (Routine Blank)) (c : Surroundings) :
    scopeMistakesMethods c (relocatedMethods ρ methods) =
      relocatedMistakes ρ (scopeMistakesMethods c methods) := by
  match methods with
  | [] => rfl
  | .mk name params body :: rest =>
    have hfirst := scopeMistakesRoutine_relocated (.mk name params body) c (methodKind name)
    exact (congrArg₂ (· ++ ·) hfirst (scopeMistakesMethods_relocated rest c)).trans
      (relocatedMistakes_append _ _ _).symm

end

end Stmt

/-! ### Relocated trees are twins -/

/-- The frames around a place are the same for both trees. -/
def Scopes.layers (scopes : Scopes) : List Layer :=
  scopes.map fun _ => .same

/-- A frame is at the same distance in both trees. -/
theorem Scopes.reaches_layers {scopes : Scopes} {d : Nat} (hd : d < scopes.length) :
    Layer.Reaches scopes.layers d d (.refl String) := by
  induction scopes generalizing d with
  | nil => cases hd
  | cons scope outer ih =>
    cases d with
    | zero => exact .here
    | succ d => exact (ih (Nat.lt_of_succ_lt_succ hd)).outward

theorem Scopes.twins_placeOf (scopes : Scopes) (x : String) :
    (scopes.placeOf x).Twins scopes.layers x x (scopes.placeOf x) := by
  cases hplace : scopes.placeOf x with
  | global => exact .global rfl
  | outward d =>
    obtain ⟨hd, -⟩ := (placeOf_eq_outward_iff _ _ _).mp hplace
    exact .outward (reaches_layers hd) rfl

theorem Scopes.superTwins_placeOf (scopes : Scopes) (x : String) :
    (scopes.placeOf x).SuperTwins scopes.layers (scopes.placeOf x) := by
  cases hplace : scopes.placeOf x with
  | global => exact .global
  | outward d =>
    obtain ⟨hd, -⟩ := (placeOf_eq_outward_iff _ _ _).mp hplace
    exact .outward (reaches_layers hd) rfl
      (reaches_layers (Nat.lt_of_le_of_lt (Nat.sub_le d 1) hd)) rfl

theorem Scopes.layers_enter (scopes : Scopes) (s : Stmt Blank) :
    (scopes.enter s).layers = scopes.layers := by
  rw [enter]
  cases s.declared? <;> cases scopes <;> rfl

theorem Scopes.layers_enterClass (scopes : Scopes) (superclass : Option (Reference Blank)) :
    (scopes.enterClass superclass).layers = .same :: Layer.aroundMethods superclass scopes.layers := by
  cases superclass <;> rfl

theorem Scopes.declares_layers (scopes : Scopes) (x : String) :
    Layer.Declares scopes.layers x x := by
  cases scopes <;> rfl

variable {G : Guise}

/-- The guise lets the token be relocated. -/
abbrev Guise.Lets (G : Guise) (ρ : Relocation) (t : Token) : Prop := G.of t (ρ t)

namespace Expr

variable {scopes : Scopes}

theorem twins_linkIn_relocated (scopes : Scopes) {r : Reference Blank} (hr : G.Lets ρ r.token) :
    (r.linkIn scopes).Twins G scopes.layers ((r.relocated ρ).linkIn scopes) :=
  ⟨hr, scopes.twins_placeOf r.name⟩

mutual

/-- A relocated expression becomes a twin. -/
theorem twins_link_relocated (e : Expr Blank) (h : e.EachToken (G.Lets ρ)) :
    (e.link scopes).Twins G scopes.layers ((e.relocated ρ).link scopes) := by
  cases e with
  | literal value => exact .literal value
  | grouping inner => exact .grouping (twins_link_relocated inner h)
  | unary op operand => exact .unary h.1 (twins_link_relocated operand h.2)
  | binary left op right =>
    exact .binary (twins_link_relocated left h.1) h.2.1 (twins_link_relocated right h.2.2)
  | logical left op right =>
    exact .logical (twins_link_relocated left h.1) h.2.1 (twins_link_relocated right h.2.2)
  | reference target => exact .reference (twins_linkIn_relocated scopes h)
  | assign target value =>
    exact .assign (twins_linkIn_relocated scopes h.1) (twins_link_relocated value h.2)
  | call callee paren values =>
    exact .call (twins_link_relocated callee h.1) h.2.1 (twins_linkAll_relocated values h.2.2)
  | property object name => exact .property (twins_link_relocated object h.1) ⟨h.2, rfl⟩
  | setProperty object name value =>
    exact .setProperty (twins_link_relocated object h.1) ⟨h.2.1, rfl⟩
      (twins_link_relocated value h.2.2)
  | this receiver => exact .this (twins_linkIn_relocated scopes h)
  | inherited superclass method =>
    exact .inherited (scopes.superTwins_placeOf superclass.name) ⟨h.2, rfl⟩

/-- Relocated expressions become twins. -/
theorem twins_linkAll_relocated (es : List (Expr Blank)) (h : EachTokenAll (G.Lets ρ) es) :
    List.Forall₂ (Twins G scopes.layers) (linkAll scopes es)
      (linkAll scopes (relocatedAll ρ es)) := by
  cases es with
  | nil => exact .nil
  | cons e rest => exact .cons (twins_link_relocated e h.1) (twins_linkAll_relocated rest h.2)

end

theorem twins_map_link_relocated (scopes : Scopes) {value : Option (Expr Blank)}
    (h : ∀ e ∈ value, e.EachToken (G.Lets ρ)) :
    Option.Rel (Twins G scopes.layers) (value.map (link scopes))
      ((value.map (relocated ρ)).map (link scopes)) := by
  cases value with
  | none => exact .none
  | some e => exact .some (twins_link_relocated e (h e rfl))

end Expr

namespace Stmt

mutual

/-- A relocated statement becomes a twin. -/
theorem twins_link_relocated (s : Stmt Blank) (scopes : Scopes) (h : s.EachToken (G.Lets ρ)) :
    (s.link scopes).Twins G scopes.layers ((s.relocated ρ).link scopes) := by
  match s with
  | .malformed => exact .malformed
  | .expression value => exact .expression (Expr.twins_link_relocated value h)
  | .print value => exact .print (Expr.twins_link_relocated value h)
  | .declare name initial =>
    exact .declare (scopes.declares_layers _) (Expr.twins_map_link_relocated scopes h.2)
  | .block body => exact .block (twins_linkBody_relocated body ([] :: scopes) h)
  | .branch condition whenTrue none =>
    have htrue := twins_link_relocated whenTrue (scopes.enter whenTrue) h.2
    rw [scopes.layers_enter] at htrue
    rw [relocated, link, link, scopes.enter_relocated]
    exact .branch (Expr.twins_link_relocated condition h.1) htrue
  | .branch condition whenTrue (some whenFalse) =>
    have htrue := twins_link_relocated whenTrue (scopes.enter whenTrue) h.2.1
    have hfalse := twins_link_relocated whenFalse (scopes.enter whenFalse) h.2.2
    rw [scopes.layers_enter] at htrue hfalse
    rw [relocated, link, link, scopes.enter_relocated, scopes.enter_relocated]
    exact .branchElse (Expr.twins_link_relocated condition h.1) htrue hfalse
  | .loop condition body =>
    have hbody := twins_link_relocated body (scopes.enter body) h.2
    rw [scopes.layers_enter] at hbody
    rw [relocated, link, link, scopes.enter_relocated]
    exact .loop (Expr.twins_link_relocated condition h.1) hbody
  | .function (.mk name params body) =>
    exact .function (scopes.declares_layers _)
      (twins_linkRoutine_relocated (.mk name params body) scopes h)
  | .giveBack keyword value => exact .giveBack (Expr.twins_map_link_relocated scopes h.2)
  | .klass name superclass methods =>
    have hmethods := twins_linkMethods_relocated methods (scopes.enterClass superclass) h.2.2
    rw [scopes.layers_enterClass] at hmethods
    rw [relocated, link, link, scopes.enterClass_relocated]
    cases superclass with
    | none => exact .klass (scopes.declares_layers _) ⟨h.1, rfl⟩ .none hmethods
    | some target =>
      exact .klass (scopes.declares_layers _) ⟨h.1, rfl⟩
        (.some (Expr.twins_linkIn_relocated scopes (h.2.1 target rfl))) hmethods

/-- Relocated statements become twins. -/
theorem twins_linkBody_relocated (body : List (Stmt Blank)) (scopes : Scopes)
    (h : EachTokenBody (G.Lets ρ) body) :
    BodyTwins G scopes.layers (linkBody scopes body)
      (linkBody scopes (relocatedBody ρ body)) := by
  match body with
  | [] => exact .nil
  | s :: rest =>
    have hs := twins_link_relocated s (scopes.enter s) h.1
    have hrest := twins_linkBody_relocated rest (scopes.enter s) h.2
    rw [scopes.layers_enter] at hs hrest
    rw [relocatedBody, linkBody, linkBody, scopes.enter_relocated]
    exact .cons hs hrest

/-- A relocated function or method becomes a twin. -/
theorem twins_linkRoutine_relocated (routine : Routine Blank) (scopes : Scopes)
    (h : EachTokenRoutine (G.Lets ρ) routine) :
    RoutineTwins G scopes.layers (linkRoutine scopes routine)
      (linkRoutine scopes (relocatedRoutine ρ routine)) := by
  match routine with
  | .mk name params body =>
    have hbody := twins_linkBody_relocated body (scopes.enterRoutine params) h.2.2
    rw [relocatedRoutine, linkRoutine, linkRoutine, scopes.enterRoutine_relocated]
    exact .mk rfl (List.forall₂_map_right_iff.mpr (List.forall₂_same.mpr fun _ _ => rfl)) hbody

/-- Relocated methods become twins. -/
theorem twins_linkMethods_relocated (methods : List (Routine Blank)) (scopes : Scopes)
    (h : EachTokenMethods (G.Lets ρ) methods) :
    MethodsTwins G scopes.layers (linkMethods scopes methods)
      (linkMethods scopes (relocatedMethods ρ methods)) := by
  match methods with
  | [] => exact .nil
  | .mk name params body :: rest =>
    exact .cons (twins_linkRoutine_relocated (.mk name params body) scopes h.1)
      (twins_linkMethods_relocated rest scopes h.2)

end

end Stmt

end LoxInterpreter
