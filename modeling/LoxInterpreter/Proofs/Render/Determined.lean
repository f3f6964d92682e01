import LoxInterpreter.Proofs.Render.Legible

/-!
# The text of a tree determines the tree

If the numbers in them are finite, the trees of a text can be read off what is printed for them, and
so trees of which the same is printed are the same. Finite numbers are needed: for a number beyond
all others a word is printed that is also a name.
-/

namespace LoxInterpreter

/-! ### The numbers in a tree -/

namespace Expr

mutual

/-- The numbers in an expression. -/
def numbers : Expr Blank → List Float
  | .literal (.number x) => [x]
  | .literal _ | .reference _ | .this _ | .inherited _ _ => []
  | .grouping inner => inner.numbers
  | .unary _ operand => operand.numbers
  | .binary left _ right | .logical left _ right => left.numbers ++ right.numbers
  | .assign _ value => value.numbers
  | .call callee _ values => callee.numbers ++ numbersOfAll values
  | .property object _ => object.numbers
  | .setProperty object _ value => object.numbers ++ value.numbers

/-- The numbers in several expressions. -/
def numbersOfAll : List (Expr Blank) → List Float
  | [] => []
  | e :: rest => e.numbers ++ numbersOfAll rest

end

end Expr

namespace Stmt

/-- The numbers in an expression that may be missing. -/
def numbersOfOptional : Option (Expr Blank) → List Float
  | none => []
  | some e => e.numbers

mutual

/-- The numbers in a statement. -/
def numbers : Stmt Blank → List Float
  | .malformed => []
  | .expression value | .print value => value.numbers
  | .declare _ initial => numbersOfOptional initial
  | .block body => numbersOfBody body
  | .branch condition whenTrue none => condition.numbers ++ whenTrue.numbers
  | .branch condition whenTrue (some whenFalse) =>
    condition.numbers ++ (whenTrue.numbers ++ whenFalse.numbers)
  | .loop condition body => condition.numbers ++ body.numbers
  | .function routine => numbersOfRoutine routine
  | .giveBack _ value => numbersOfOptional value
  | .klass _ _ methods => numbersOfMethods methods

/-- The numbers in several statements. -/
def numbersOfBody : List (Stmt Blank) → List Float
  | [] => []
  | s :: rest => s.numbers ++ numbersOfBody rest

/-- The numbers in a function or method. -/
def numbersOfRoutine : Routine Blank → List Float
  | .mk _ _ body => numbersOfBody body

/-- The numbers in several methods. -/
def numbersOfMethods : List (Routine Blank) → List Float
  | [] => []
  | m :: rest => numbersOfRoutine m ++ numbersOfMethods rest

end

end Stmt

section Numbers

variable {P Q : Float → Prop}

namespace Expr

mutual

/-- What holds of the numbers in a legible expression may be asked of them. -/
theorem Legible.of_numbers : ∀ {e : Expr Blank}, e.Legible P → (∀ x ∈ e.numbers, Q x) →
    e.Legible Q
  | .literal .nil, _, _ | .literal (.bool _), _, _ => trivial
  | .literal (.number x), _, hx => hx x List.mem_cons_self
  | .literal (.text _), h, _ | .reference _, h, _ | .this _, h, _ | .inherited _ _, h, _ => h
  | .grouping inner, h, hx => Legible.of_numbers (e := inner) h hx
  | .unary _ operand, h, hx => ⟨h.1, Legible.of_numbers (e := operand) h.2 hx⟩
  | .binary _ _ _, h, hx | .logical _ _ _, h, hx =>
    have hx := List.forall_mem_append.mp hx
    ⟨Legible.of_numbers h.1 hx.1, h.2.1, Legible.of_numbers h.2.2 hx.2⟩
  | .assign _ value, h, hx => ⟨h.1, Legible.of_numbers (e := value) h.2 hx⟩
  | .call _ _ _, h, hx =>
    have hx := List.forall_mem_append.mp hx
    ⟨Legible.of_numbers h.1 hx.1, AllLegible.of_numbers h.2 hx.2⟩
  | .property object _, h, hx => ⟨Legible.of_numbers (e := object) h.1 hx, h.2⟩
  | .setProperty _ _ _, h, hx =>
    have hx := List.forall_mem_append.mp hx
    ⟨Legible.of_numbers h.1 hx.1, h.2.1, Legible.of_numbers h.2.2 hx.2⟩

theorem AllLegible.of_numbers : ∀ {es : List (Expr Blank)}, AllLegible P es →
    (∀ x ∈ numbersOfAll es, Q x) → AllLegible Q es
  | [], _, _ => trivial
  | _ :: _, h, hx =>
    have hx := List.forall_mem_append.mp hx
    ⟨Legible.of_numbers h.1 hx.1, AllLegible.of_numbers h.2 hx.2⟩

end

end Expr

namespace Stmt

theorem legible_of_numbersOfOptional {o : Option (Expr Blank)} (h : ∀ e ∈ o, e.Legible P)
    (hx : ∀ x ∈ numbersOfOptional o, Q x) : ∀ e ∈ o, e.Legible Q := by
  rintro e he
  cases he
  exact (h e rfl).of_numbers hx

mutual

/-- What holds of the numbers in a legible statement may be asked of them. -/
theorem Legible.of_numbers : ∀ {s : Stmt Blank}, s.Legible P → (∀ x ∈ s.numbers, Q x) →
    s.Legible Q
  | .malformed, _, _ => trivial
  | .expression value, h, hx | .print value, h, hx => Expr.Legible.of_numbers (e := value) h hx
  | .declare _ _, h, hx | .giveBack _ _, h, hx => ⟨h.1, legible_of_numbersOfOptional h.2 hx⟩
  | .block body, h, hx => BodyLegible.of_numbers (b := body) h hx
  | .branch _ _ none, h, hx | .loop _ _, h, hx =>
    have hx := List.forall_mem_append.mp hx
    ⟨h.1.of_numbers hx.1, Legible.of_numbers h.2 hx.2⟩
  | .branch _ _ (some _), h, hx =>
    have hx := List.forall_mem_append.mp hx
    have hx' := List.forall_mem_append.mp hx.2
    ⟨h.1.of_numbers hx.1, Legible.of_numbers h.2.1 hx'.1, Legible.of_numbers h.2.2 hx'.2⟩
  | .function routine, h, hx => RoutineLegible.of_numbers (r := routine) h hx
  | .klass _ _ methods, h, hx => ⟨h.1, h.2.1, MethodsLegible.of_numbers (m := methods) h.2.2 hx⟩

theorem BodyLegible.of_numbers : ∀ {b : List (Stmt Blank)}, BodyLegible P b →
    (∀ x ∈ numbersOfBody b, Q x) → BodyLegible Q b
  | [], _, _ => trivial
  | _ :: _, h, hx =>
    have hx := List.forall_mem_append.mp hx
    ⟨Legible.of_numbers h.1 hx.1, BodyLegible.of_numbers h.2 hx.2⟩

theorem RoutineLegible.of_numbers : ∀ {r : Routine Blank}, RoutineLegible P r →
    (∀ x ∈ numbersOfRoutine r, Q x) → RoutineLegible Q r
  | .mk _ _ body, h, hx => ⟨h.1, h.2.1, BodyLegible.of_numbers (b := body) h.2.2 hx⟩

theorem MethodsLegible.of_numbers : ∀ {m : List (Routine Blank)}, MethodsLegible P m →
    (∀ x ∈ numbersOfMethods m, Q x) → MethodsLegible Q m
  | [], _, _ => trivial
  | _ :: _, h, hx =>
    have hx := List.forall_mem_append.mp hx
    ⟨RoutineLegible.of_numbers h.1 hx.1, MethodsLegible.of_numbers h.2 hx.2⟩

end

theorem legible_of_mem {body : List (Stmt Blank)} (h : BodyLegible P body) :
    ∀ s ∈ body, s.Legible P := by
  induction body with
  | nil => exact fun s hs => absurd hs List.not_mem_nil
  | cons s rest ih => exact List.forall_mem_cons.mpr ⟨h.1, ih h.2⟩

end Stmt

end Numbers

/-! ### Trees and texts -/

/-- The statement whose text it is. -/
noncomputable def Stmt.ofText (text : String) : Stmt Blank :=
  (Function.invFunOn Form.text {f | f.WellFormed} text).stmt

theorem Stmt.ofText_render {s : Stmt Blank} (h : s.Legible Finite) :
    ofText s.render = s.unplaced := by
  have hinjective : Set.InjOn Form.text {f | f.WellFormed} :=
    fun _ hf _ hg heq => Form.text_injective hf hg heq
  rw [ofText, ← text_form, hinjective.leftInvOn_invFunOn (wellFormed_form h), stmt_form h]

/-- The statements that a text is parsed as, with gaps where there are mistakes. -/
def statementsOf (text : String) : List (Stmt Blank) := (parse (scan text).tokens).statements

/-- The numbers in the trees of a text are finite. -/
def FiniteNumbers (text : String) : Prop :=
  ∀ s ∈ statementsOf text, ∀ x ∈ s.numbers, x.isFinite = true

instance (text : String) : Decidable (FiniteNumbers text) :=
  inferInstanceAs (Decidable (∀ s ∈ statementsOf text, ∀ x ∈ s.numbers, x.isFinite = true))

theorem FiniteNumbers.legible {text : String} (h : FiniteNumbers text) :
    ∀ s ∈ statementsOf text, s.Legible Finite :=
  fun s hs => (Stmt.legible_of_mem (bodyLegible_statements text) s hs).of_numbers (h s hs)

/-- **What is printed for a tree determines it**, but for the places of its tokens and the closing
parentheses of its calls: every statement of a text can be read off what is printed for it, and if
the same is printed for the statements of two texts, they are the same. -/
theorem render_determines_tree {a b : String} (ha : FiniteNumbers a) (hb : FiniteNumbers b) :
    (∀ s ∈ statementsOf a, Stmt.ofText s.render = s.unplaced) ∧
      ((statementsOf a).map Stmt.render = (statementsOf b).map Stmt.render →
        (statementsOf a).map Stmt.unplaced = (statementsOf b).map Stmt.unplaced) := by
  have hread {text : String} (htext : FiniteNumbers text) :
      ∀ s ∈ statementsOf text, Stmt.ofText s.render = s.unplaced :=
    fun s hs => Stmt.ofText_render (htext.legible s hs)
  have hunplaced {text : String} (htext : FiniteNumbers text) :
      (statementsOf text).map Stmt.unplaced =
        ((statementsOf text).map Stmt.render).map Stmt.ofText := by
    rw [List.map_map]
    exact List.map_congr_left fun s hs => (hread htext s hs).symm
  refine ⟨hread ha, fun h => ?_⟩
  rw [hunplaced ha, hunplaced hb, h]

/-- Two texts with a mistake in the one statement, and blanks in other places of the other. -/
theorem render_determines_tree_spaced :
    FiniteNumbers "print 1 +; x.y = -z(2.5);" ∧ FiniteNumbers "print +; x . y = - z ( 2.5 ) ;" ∧
      (statementsOf "print 1 +; x.y = -z(2.5);").map Stmt.render =
        ["(error)", "(= (. x y) (- (call z 2.5)))"] ∧
      (statementsOf "print 1 +; x.y = -z(2.5);").map Stmt.unplaced =
        (statementsOf "print +; x . y = - z ( 2.5 ) ;").map Stmt.unplaced :=
  ⟨by decide +kernel, by decide +kernel, by decide +kernel,
    (render_determines_tree (by decide +kernel) (by decide +kernel)).2 (by decide +kernel)⟩

end LoxInterpreter
