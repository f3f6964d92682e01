import Mathlib.Data.List.Forall2
import Mathlib.Data.Option.Defs
import Mathlib.Logic.Equiv.Basic
import LoxInterpreter.Scope.Link

/-!
# Twin trees

Two linked trees that a run cannot tell apart, up to what tokens look like. The second tree may have
other names for local variables, and blocks around statements that do without. So the frames of its
run are those of the first run, with some bindings renamed, and spare frames in between.

* `Layer` says how the frames that stand around a place in the two trees correspond. `Layer.Reaches`
  translates distances from one tree to the other.
* `Guise` says how a token may look in the second tree. It matters where a token is to blame.
* `Expr.Twins` and `Stmt.Twins` relate the trees.
-/

namespace LoxInterpreter

/-- How a token may look in the twin of a tree. Operators are told apart by their kind. -/
structure Guise where
  of : Token → Token → Prop
  kind : ∀ {t t' : Token}, of t t' → t'.kind = t.kind

/-- Tokens that are spelled alike: what they say is not changed by the guise. -/
def Guise.Alike (G : Guise) (t t' : Token) : Prop := G.of t t' ∧ t'.lexeme = t.lexeme

/-! ### Layers -/

/-- A frame around a place in a pair of twin trees. -/
inductive Layer where
  /-- There is one in both trees, which binds the same values to renamed names. -/
  | shared (rename : Equiv.Perm String)
  /-- There is one in the second tree alone, and nothing is declared in it. -/
  | spare

namespace Layer

/-- A frame with the same names in both trees. -/
abbrev same : Layer := .shared (Equiv.refl String)

/-- What is a distance in the first tree is another one in the second, and leads to a frame with
renamed names. -/
inductive Reaches : List Layer → Nat → Nat → Equiv.Perm String → Prop where
  | here {σ : Equiv.Perm String} {outer : List Layer} : Reaches (.shared σ :: outer) 0 0 σ
  | outward {τ σ : Equiv.Perm String} {outer : List Layer} {d d' : Nat} :
      Reaches outer d d' σ → Reaches (.shared τ :: outer) (d + 1) (d' + 1) σ
  | past {σ : Equiv.Perm String} {outer : List Layer} {d d' : Nat} :
      Reaches outer d d' σ → Reaches (.spare :: outer) d (d' + 1) σ

/-- What a declaration in the innermost frame is called in the second tree. Nothing is declared in a
spare frame. -/
def Declares : List Layer → String → String → Prop
  | [], x, x' => x' = x
  | .shared σ :: _, x, x' => x' = σ x
  | .spare :: _, _, _ => False

/-- The layers around the methods of a class: one for `this`, and outside it one for `super` if the
class has a superclass. -/
def aroundMethods {α : Type} (superclass : Option α) (layers : List Layer) : List Layer :=
  match superclass with
  | some _ => .same :: layers
  | none => layers

end Layer

/-! ### References -/

/-- The places lead to twin frames, where the names are the same for that frame. -/
inductive Place.Twins (layers : List Layer) (x x' : String) : Place → Place → Prop where
  | global : x' = x → Twins layers x x' .global .global
  | outward {d d' : Nat} {σ : Equiv.Perm String} :
      Layer.Reaches layers d d' σ → x' = σ x → Twins layers x x' (.outward d) (.outward d')

/-- The places lead to the frame of `super`, with the frame of `this` just inside. -/
inductive Place.SuperTwins (layers : List Layer) : Place → Place → Prop where
  | global : SuperTwins layers .global .global
  | outward {d d' : Nat} {σ τ : Equiv.Perm String} :
      Layer.Reaches layers d d' σ → σ "super" = "super" →
      Layer.Reaches layers (d - 1) (d' - 1) τ → τ "this" = "this" →
      SuperTwins layers (.outward d) (.outward d')

namespace Place.Twins

variable {layers : List Layer} {x x' : String} {place place' : Place}

/-- Twin places are so from one frame further in. -/
theorem further (h : place.Twins layers x x' place') (σ : Equiv.Perm String) :
    place.further.Twins (.shared σ :: layers) x x' place'.further := by
  cases h with
  | global hx => exact .global hx
  | outward hreaches hx => exact .outward hreaches.outward hx

/-- Twin places are so from a spare frame. -/
theorem past (h : place.Twins layers x x' place') :
    place.Twins (.spare :: layers) x x' place'.further := by
  cases h with
  | global hx => exact .global hx
  | outward hreaches hx => exact .outward hreaches.past hx

end Place.Twins

/-- The references mean the same variable. -/
structure Reference.Twins (G : Guise) (layers : List Layer) (r r' : Reference Place) : Prop where
  token : G.of r.token r'.token
  place : r.link.Twins layers r.name r'.name r'.link

/-! ### Expressions -/

/-- The expressions are the same but for the guise of their tokens and the names of variables. -/
inductive Expr.Twins (G : Guise) (layers : List Layer) : Expr Place → Expr Place → Prop where
  | literal (value : Literal) : Twins G layers (.literal value) (.literal value)
  | grouping {inner inner' : Expr Place} :
      Twins G layers inner inner' → Twins G layers (.grouping inner) (.grouping inner')
  | unary {op op' : Token} {operand operand' : Expr Place} :
      G.of op op' → Twins G layers operand operand' →
      Twins G layers (.unary op operand) (.unary op' operand')
  | binary {left left' right right' : Expr Place} {op op' : Token} :
      Twins G layers left left' → G.of op op' → Twins G layers right right' →
      Twins G layers (.binary left op right) (.binary left' op' right')
  | logical {left left' right right' : Expr Place} {op op' : Token} :
      Twins G layers left left' → G.of op op' → Twins G layers right right' →
      Twins G layers (.logical left op right) (.logical left' op' right')
  | reference {target target' : Reference Place} :
      target.Twins G layers target' → Twins G layers (.reference target) (.reference target')
  | assign {target target' : Reference Place} {value value' : Expr Place} :
      target.Twins G layers target' → Twins G layers value value' →
      Twins G layers (.assign target value) (.assign target' value')
  | call {callee callee' : Expr Place} {paren paren' : Token} {values values' : List (Expr Place)} :
      Twins G layers callee callee' → G.of paren paren' →
      List.Forall₂ (Twins G layers) values values' →
      Twins G layers (.call callee paren values) (.call callee' paren' values')
  | property {object object' : Expr Place} {name name' : Token} :
      Twins G layers object object' → G.Alike name name' →
      Twins G layers (.property object name) (.property object' name')
  | setProperty {object object' value value' : Expr Place} {name name' : Token} :
      Twins G layers object object' → G.Alike name name' → Twins G layers value value' →
      Twins G layers (.setProperty object name value) (.setProperty object' name' value')
  | this {receiver receiver' : Reference Place} :
      receiver.Twins G layers receiver' → Twins G layers (.this receiver) (.this receiver')
  | inherited {superclass superclass' : Reference Place} {method method' : Token} :
      superclass.link.SuperTwins layers superclass'.link → G.Alike method method' →
      Twins G layers (.inherited superclass method) (.inherited superclass' method')

/-! ### Statements -/

mutual

/-- The statements are the same but for the guise of their tokens, the names of local variables, and
blocks around statements that declare nothing. -/
inductive Stmt.Twins (G : Guise) : List Layer → Stmt Place → Stmt Place → Prop where
  | malformed {layers : List Layer} : Stmt.Twins G layers .malformed .malformed
  | expression {layers : List Layer} {value value' : Expr Place} :
      value.Twins G layers value' → Stmt.Twins G layers (.expression value) (.expression value')
  | print {layers : List Layer} {value value' : Expr Place} :
      value.Twins G layers value' → Stmt.Twins G layers (.print value) (.print value')
  | declare {layers : List Layer} {name name' : Token} {initial initial' : Option (Expr Place)} :
      Layer.Declares layers name.lexeme name'.lexeme →
      Option.Rel (Expr.Twins G layers) initial initial' →
      Stmt.Twins G layers (.declare name initial) (.declare name' initial')
  | block {layers : List Layer} {σ : Equiv.Perm String} {body body' : List (Stmt Place)} :
      Stmt.BodyTwins G (.shared σ :: layers) body body' →
      Stmt.Twins G layers (.block body) (.block body')
  | branch {layers : List Layer} {condition condition' : Expr Place}
      {whenTrue whenTrue' : Stmt Place} :
      condition.Twins G layers condition' → Stmt.Twins G layers whenTrue whenTrue' →
      Stmt.Twins G layers (.branch condition whenTrue none) (.branch condition' whenTrue' none)
  | branchElse {layers : List Layer} {condition condition' : Expr Place}
      {whenTrue whenTrue' whenFalse whenFalse' : Stmt Place} :
      condition.Twins G layers condition' → Stmt.Twins G layers whenTrue whenTrue' →
      Stmt.Twins G layers whenFalse whenFalse' →
      Stmt.Twins G layers (.branch condition whenTrue (some whenFalse))
        (.branch condition' whenTrue' (some whenFalse'))
  | loop {layers : List Layer} {condition condition' : Expr Place} {body body' : Stmt Place} :
      condition.Twins G layers condition' → Stmt.Twins G layers body body' →
      Stmt.Twins G layers (.loop condition body) (.loop condition' body')
  | function {layers : List Layer} {routine routine' : Routine Place} :
      Layer.Declares layers routine.name.lexeme routine'.name.lexeme →
      Stmt.RoutineTwins G layers routine routine' →
      Stmt.Twins G layers (.function routine) (.function routine')
  | giveBack {layers : List Layer} {keyword keyword' : Token} {value value' : Option (Expr Place)} :
      Option.Rel (Expr.Twins G layers) value value' →
      Stmt.Twins G layers (.giveBack keyword value) (.giveBack keyword' value')
  | klass {layers : List Layer} {name name' : Token}
      {superclass superclass' : Option (Reference Place)} {methods methods' : List (Routine Place)} :
      Layer.Declares layers name.lexeme name'.lexeme → G.Alike name name' →
      Option.Rel (Reference.Twins G layers) superclass superclass' →
      Stmt.MethodsTwins G (.same :: Layer.aroundMethods superclass layers) methods methods' →
      Stmt.Twins G layers (.klass name superclass methods) (.klass name' superclass' methods')
  /-- A block of its own, in the second tree. -/
  | braced {layers : List Layer} {s s' : Stmt Place} :
      Stmt.Twins G (.spare :: layers) s s' → Stmt.Twins G layers s (.block [s'])

/-- The statements are twins, one after the other. -/
inductive Stmt.BodyTwins (G : Guise) : List Layer → List (Stmt Place) → List (Stmt Place) → Prop where
  | nil {layers : List Layer} : Stmt.BodyTwins G layers [] []
  | cons {layers : List Layer} {s s' : Stmt Place} {rest rest' : List (Stmt Place)} :
      Stmt.Twins G layers s s' → Stmt.BodyTwins G layers rest rest' →
      Stmt.BodyTwins G layers (s :: rest) (s' :: rest')

/-- The functions or methods are called the same, and their parameters and bodies are twins. -/
inductive Stmt.RoutineTwins (G : Guise) : List Layer → Routine Place → Routine Place → Prop where
  | mk {layers : List Layer} {σ : Equiv.Perm String} {name name' : Token}
      {params params' : List Token} {body body' : List (Stmt Place)} :
      name'.lexeme = name.lexeme →
      List.Forall₂ (fun param param' => param'.lexeme = σ param.lexeme) params params' →
      Stmt.BodyTwins G (.shared σ :: layers) body body' →
      Stmt.RoutineTwins G layers (.mk name params body) (.mk name' params' body')

/-- The methods are twins, one after the other. -/
inductive Stmt.MethodsTwins (G : Guise) :
    List Layer → List (Routine Place) → List (Routine Place) → Prop where
  | nil {layers : List Layer} : Stmt.MethodsTwins G layers [] []
  | cons {layers : List Layer} {m m' : Routine Place} {rest rest' : List (Routine Place)} :
      Stmt.RoutineTwins G layers m m' → Stmt.MethodsTwins G layers rest rest' →
      Stmt.MethodsTwins G layers (m :: rest) (m' :: rest')

end

end LoxInterpreter
