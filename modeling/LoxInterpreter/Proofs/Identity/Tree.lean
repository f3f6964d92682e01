import LoxInterpreter.Tree

/-!
# Trees of numbered nodes

Trees are values: two statements that look alike are one and the same. A node that is made while
parsing is more than what it looks like. It is told apart from every other node that was ever made,
and a table may be keyed by it.

Here nodes have an identity: the number that they got when they were made. `plain` forgets the
numbers, and `items` lists everything that is stored in a tree: the nodes and the tokens, each as
often as it is stored. A tree that shares a node between two places, or a token between two nodes,
lists it twice.
-/

namespace LoxInterpreter

/-- A node that stands for an occurrence of a name that refers to a binding. -/
structure Occurrence where
  node : Nat
  token : Token

/-- Expressions of numbered nodes. -/
inductive ExprNode where
  | literal (node : Nat) (value : Literal)
  | grouping (node : Nat) (inner : ExprNode)
  | unary (node : Nat) (op : Token) (operand : ExprNode)
  | binary (node : Nat) (left : ExprNode) (op : Token) (right : ExprNode)
  | logical (node : Nat) (left : ExprNode) (op : Token) (right : ExprNode)
  | reference (target : Occurrence)
  | assign (target : Occurrence) (value : ExprNode)
  | call (node : Nat) (callee : ExprNode) (paren : Token) (arguments : List ExprNode)
  | property (node : Nat) (object : ExprNode) (name : Token)
  | setProperty (node : Nat) (object : ExprNode) (name : Token) (value : ExprNode)
  | this (receiver : Occurrence)
  | inherited (superclass : Occurrence) (method : Token)

mutual

/-- Statements of numbered nodes. A gap is no node. -/
inductive StmtNode where
  | malformed
  | expression (node : Nat) (value : ExprNode)
  | print (node : Nat) (value : ExprNode)
  | declare (node : Nat) (name : Token) (initial : Option ExprNode)
  | block (node : Nat) (body : List StmtNode)
  | branch (node : Nat) (condition : ExprNode) (whenTrue : StmtNode) (whenFalse : Option StmtNode)
  | loop (node : Nat) (condition : ExprNode) (body : StmtNode)
  | function (routine : RoutineNode)
  | giveBack (node : Nat) (keyword : Token) (value : Option ExprNode)
  /-- The superclass is a node of its own. -/
  | klass (node : Nat) (name : Token) (superclass : Option Occurrence)
    (methods : List RoutineNode)

/-- Functions and methods of numbered nodes. -/
inductive RoutineNode where
  | mk (node : Nat) (name : Token) (params : List Token) (body : List StmtNode)

end

/-- What is stored in a tree. -/
inductive Item where
  | node (number : Nat)
  | token (token : Token)
  deriving DecidableEq

/-! ### Trees without numbers -/

/-- The reference of an occurrence. -/
def Occurrence.plain (o : Occurrence) : Reference Blank := ⟨o.token, ()⟩

namespace ExprNode

mutual

/-- The expression without the numbers of its nodes. -/
def plain : ExprNode → Expr Blank
  | .literal _ value => .literal value
  | .grouping _ inner => .grouping inner.plain
  | .unary _ op operand => .unary op operand.plain
  | .binary _ left op right => .binary left.plain op right.plain
  | .logical _ left op right => .logical left.plain op right.plain
  | .reference target => .reference target.plain
  | .assign target value => .assign target.plain value.plain
  | .call _ callee paren values => .call callee.plain paren (plainAll values)
  | .property _ object name => .property object.plain name
  | .setProperty _ object name value => .setProperty object.plain name value.plain
  | .this receiver => .this receiver.plain
  | .inherited superclass method => .inherited superclass.plain method

/-- The expressions without the numbers of their nodes. -/
def plainAll : List ExprNode → List (Expr Blank)
  | [] => []
  | e :: rest => e.plain :: plainAll rest

end

end ExprNode

namespace StmtNode

mutual

/-- The statement without the numbers of its nodes. -/
def plain : StmtNode → Stmt Blank
  | .malformed => .malformed
  | .expression _ value => .expression value.plain
  | .print _ value => .print value.plain
  | .declare _ name initial => .declare name (initial.map ExprNode.plain)
  | .block _ body => .block (plainBody body)
  | .branch _ condition whenTrue none => .branch condition.plain whenTrue.plain none
  | .branch _ condition whenTrue (some whenFalse) =>
    .branch condition.plain whenTrue.plain (some whenFalse.plain)
  | .loop _ condition body => .loop condition.plain body.plain
  | .function routine => .function (plainRoutine routine)
  | .giveBack _ keyword value => .giveBack keyword (value.map ExprNode.plain)
  | .klass _ name superclass methods =>
    .klass name (superclass.map Occurrence.plain) (plainMethods methods)

/-- The statements without the numbers of their nodes. -/
def plainBody : List StmtNode → List (Stmt Blank)
  | [] => []
  | s :: rest => s.plain :: plainBody rest

/-- The function or method without the numbers of its nodes. -/
def plainRoutine : RoutineNode → Routine Blank
  | .mk _ name params body => .mk name params (plainBody body)

/-- The methods without the numbers of their nodes. -/
def plainMethods : List RoutineNode → List (Routine Blank)
  | [] => []
  | m :: rest => plainRoutine m :: plainMethods rest

end

end StmtNode

/-! ### What is stored in a tree -/

/-- The node of an occurrence and its token. -/
@[simp]
def Occurrence.items (o : Occurrence) : List Item := [.node o.node, .token o.token]

namespace ExprNode

mutual

/-- Everything that is stored in the expression. -/
@[simp]
def items : ExprNode → List Item
  | .literal node _ => [.node node]
  | .grouping node inner => .node node :: inner.items
  | .unary node op operand => .node node :: .token op :: operand.items
  | .binary node left op right | .logical node left op right =>
    .node node :: .token op :: (left.items ++ right.items)
  | .reference target => target.items
  | .assign target value => target.items ++ value.items
  | .call node callee paren values =>
    .node node :: .token paren :: (callee.items ++ itemsAll values)
  | .property node object name => .node node :: .token name :: object.items
  | .setProperty node object name value =>
    .node node :: .token name :: (object.items ++ value.items)
  | .this receiver => receiver.items
  | .inherited superclass method => .token method :: superclass.items

/-- Everything that is stored in the expressions. -/
@[simp]
def itemsAll : List ExprNode → List Item
  | [] => []
  | e :: rest => e.items ++ itemsAll rest

end

end ExprNode

namespace StmtNode

mutual

/-- Everything that is stored in the statement. -/
@[simp]
def items : StmtNode → List Item
  | .malformed => []
  | .expression node value | .print node value => .node node :: value.items
  | .declare node name initial =>
    .node node :: .token name :: (initial.map ExprNode.items).getD []
  | .block node body => .node node :: itemsBody body
  | .branch node condition whenTrue none => .node node :: (condition.items ++ whenTrue.items)
  | .branch node condition whenTrue (some whenFalse) =>
    .node node :: (condition.items ++ whenTrue.items ++ whenFalse.items)
  | .loop node condition body => .node node :: (condition.items ++ body.items)
  | .function routine => itemsRoutine routine
  | .giveBack node keyword value =>
    .node node :: .token keyword :: (value.map ExprNode.items).getD []
  | .klass node name superclass methods =>
    .node node :: .token name ::
      ((superclass.map Occurrence.items).getD [] ++ itemsMethods methods)

/-- Everything that is stored in the statements. -/
@[simp]
def itemsBody : List StmtNode → List Item
  | [] => []
  | s :: rest => s.items ++ itemsBody rest

/-- Everything that is stored in the function or method. -/
@[simp]
def itemsRoutine : RoutineNode → List Item
  | .mk node name params body =>
    .node node :: .token name :: (params.map Item.token ++ itemsBody body)

/-- Everything that is stored in the methods. -/
@[simp]
def itemsMethods : List RoutineNode → List Item
  | [] => []
  | m :: rest => itemsRoutine m ++ itemsMethods rest

end

end StmtNode

end LoxInterpreter
