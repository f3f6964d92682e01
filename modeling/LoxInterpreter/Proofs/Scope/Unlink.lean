import LoxInterpreter.Scope.Link

/-!
# Trees without their links

Links are filled in and never looked at by what fills them in: a linked tree is the tree that was
linked, and some links. `Stmt.unlink` takes them away again (`Stmt.unlink_link`), so that a linked
tree tells which tree it comes from.
-/

namespace LoxInterpreter

/-- Forget the link of a reference. -/
def Reference.unlink (r : Reference Place) : Reference Blank := ⟨r.token, ()⟩

namespace Expr

mutual

/-- Forget the links of an expression. -/
def unlink : Expr Place → Expr Blank
  | .literal value => .literal value
  | .grouping inner => .grouping inner.unlink
  | .unary op operand => .unary op operand.unlink
  | .binary left op right => .binary left.unlink op right.unlink
  | .logical left op right => .logical left.unlink op right.unlink
  | .reference target => .reference target.unlink
  | .assign target value => .assign target.unlink value.unlink
  | .call callee paren values => .call callee.unlink paren (unlinkAll values)
  | .property object name => .property object.unlink name
  | .setProperty object name value => .setProperty object.unlink name value.unlink
  | .this receiver => .this receiver.unlink
  | .inherited superclass method => .inherited superclass.unlink method

/-- Forget the links of several expressions. -/
def unlinkAll : List (Expr Place) → List (Expr Blank)
  | [] => []
  | e :: rest => e.unlink :: unlinkAll rest

end

mutual

/-- A linked expression tells which expression it comes from. -/
@[simp]
theorem unlink_link (scopes : Scopes) (e : Expr Blank) : (e.link scopes).unlink = e := by
  cases e with
  | literal | reference | this | inherited => rfl
  | grouping inner => exact congrArg Expr.grouping (unlink_link scopes inner)
  | unary op operand => exact congrArg (Expr.unary op) (unlink_link scopes operand)
  | binary left op right | logical left op right =>
    rw [link, unlink, unlink_link scopes left, unlink_link scopes right]
  | assign target value => exact congrArg (Expr.assign target) (unlink_link scopes value)
  | call callee paren values =>
    rw [link, unlink, unlink_link scopes callee, unlinkAll_linkAll scopes values]
  | property object name => exact congrArg (Expr.property · name) (unlink_link scopes object)
  | setProperty object name value =>
    rw [link, unlink, unlink_link scopes object, unlink_link scopes value]

@[simp]
theorem unlinkAll_linkAll (scopes : Scopes) (es : List (Expr Blank)) :
    unlinkAll (linkAll scopes es) = es := by
  cases es with
  | nil => rfl
  | cons e rest =>
    rw [linkAll, unlinkAll, unlink_link scopes e, unlinkAll_linkAll scopes rest]

end

theorem map_unlink_map_link (scopes : Scopes) (value : Option (Expr Blank)) :
    (value.map (link scopes)).map unlink = value := by
  cases value with
  | none => rfl
  | some e => exact congrArg some (unlink_link scopes e)

end Expr

namespace Stmt

mutual

/-- Forget the links of a statement. -/
def unlink : Stmt Place → Stmt Blank
  | .malformed => .malformed
  | .expression value => .expression value.unlink
  | .print value => .print value.unlink
  | .declare name initial => .declare name (initial.map Expr.unlink)
  | .block body => .block (unlinkBody body)
  | .branch condition whenTrue none => .branch condition.unlink whenTrue.unlink none
  | .branch condition whenTrue (some whenFalse) =>
    .branch condition.unlink whenTrue.unlink (some whenFalse.unlink)
  | .loop condition body => .loop condition.unlink body.unlink
  | .function routine => .function (unlinkRoutine routine)
  | .giveBack keyword value => .giveBack keyword (value.map Expr.unlink)
  | .klass name superclass methods =>
    .klass name (superclass.map Reference.unlink) (unlinkMethods methods)

/-- Forget the links of consecutive statements. -/
def unlinkBody : List (Stmt Place) → List (Stmt Blank)
  | [] => []
  | s :: rest => s.unlink :: unlinkBody rest

/-- Forget the links of a function or method. -/
def unlinkRoutine : Routine Place → Routine Blank
  | .mk name params body => .mk name params (unlinkBody body)

/-- Forget the links of the methods of a class. -/
def unlinkMethods : List (Routine Place) → List (Routine Blank)
  | [] => []
  | m :: rest => unlinkRoutine m :: unlinkMethods rest

end

/-- Links make no difference to what a statement declares. -/
theorem declared?_unlink (s : Stmt Place) : s.unlink.declared? = s.declared? := by
  match s with
  | .declare .. | .function (.mk ..) | .klass .. | .malformed | .expression _ | .print _ | .block _
  | .branch _ _ none | .branch _ _ (some _) | .loop _ _ | .giveBack _ _ => rfl

mutual

/-- A linked statement tells which statement it comes from. -/
@[simp]
theorem unlink_link (scopes : Scopes) (s : Stmt Blank) : (s.link scopes).unlink = s := by
  match s with
  | .malformed => rfl
  | .expression value => exact congrArg Stmt.expression (value.unlink_link scopes)
  | .print value => exact congrArg Stmt.print (value.unlink_link scopes)
  | .declare name initial =>
    exact congrArg (Stmt.declare name) (Expr.map_unlink_map_link scopes initial)
  | .block body => exact congrArg Stmt.block (unlinkBody_linkBody ([] :: scopes) body)
  | .branch condition whenTrue none =>
    rw [link, unlink, condition.unlink_link, unlink_link _ whenTrue]
  | .branch condition whenTrue (some whenFalse) =>
    rw [link, unlink, condition.unlink_link, unlink_link _ whenTrue, unlink_link _ whenFalse]
  | .loop condition body => rw [link, unlink, condition.unlink_link, unlink_link _ body]
  | .function routine => exact congrArg Stmt.function (unlinkRoutine_linkRoutine scopes routine)
  | .giveBack keyword value =>
    exact congrArg (Stmt.giveBack keyword) (Expr.map_unlink_map_link scopes value)
  | .klass name none methods =>
    rw [link, unlink, unlinkMethods_linkMethods _ methods]
    rfl
  | .klass name (some superclass) methods =>
    rw [link, unlink, unlinkMethods_linkMethods _ methods]
    rfl

@[simp]
theorem unlinkBody_linkBody (scopes : Scopes) (body : List (Stmt Blank)) :
    unlinkBody (linkBody scopes body) = body := by
  match body with
  | [] => rfl
  | s :: rest => rw [linkBody, unlinkBody, unlink_link _ s, unlinkBody_linkBody _ rest]

@[simp]
theorem unlinkRoutine_linkRoutine (scopes : Scopes) (r : Routine Blank) :
    unlinkRoutine (linkRoutine scopes r) = r := by
  match r with
  | .mk name params body => rw [linkRoutine, unlinkRoutine, unlinkBody_linkBody _ body]

@[simp]
theorem unlinkMethods_linkMethods (scopes : Scopes) (methods : List (Routine Blank)) :
    unlinkMethods (linkMethods scopes methods) = methods := by
  match methods with
  | [] => rfl
  | m :: rest =>
    rw [linkMethods, unlinkMethods, unlinkRoutine_linkRoutine _ m,
      unlinkMethods_linkMethods _ rest]

end

end Stmt

end LoxInterpreter
