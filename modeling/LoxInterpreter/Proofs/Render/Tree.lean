import LoxInterpreter.Proofs.Render.Form

/-!
# The structure of the texts of trees

* `Expr.form` and `Stmt.form` give the structure of the text of a tree, and `Stmt.text_form` says
  that the text has that structure.
* The text does not show the places of tokens, nor the closing parenthesis that a call keeps. What
  is left of a tree without these is `Stmt.unplaced`.
-/

namespace LoxInterpreter

/-! ### What the text does not show -/

namespace Token

/-- The token without its place. -/
def unplaced (t : Token) : Token := { t with line := 0, offset := 0 }

/-- The token of a word, an operator or a bracket, without a place. -/
def named (spelling : String) : Token :=
  ⟨((punctuation.lookup spelling).or (keywords.lookup spelling)).getD .identifier, spelling, none,
    0, 0⟩

end Token

/-- The reference without its place. -/
def Reference.unplaced (r : Reference Blank) : Reference Blank := ⟨r.token.unplaced, ()⟩

namespace Expr

mutual

/-- The expression without the places of its tokens, and without the parentheses that calls keep. -/
def unplaced : Expr Blank → Expr Blank
  | .literal value => .literal value
  | .grouping inner => .grouping inner.unplaced
  | .unary op operand => .unary op.unplaced operand.unplaced
  | .binary left op right => .binary left.unplaced op.unplaced right.unplaced
  | .logical left op right => .logical left.unplaced op.unplaced right.unplaced
  | .reference target => .reference target.unplaced
  | .assign target value => .assign target.unplaced value.unplaced
  | .call callee _ values => .call callee.unplaced (.named ")") (unplacedAll values)
  | .property object name => .property object.unplaced name.unplaced
  | .setProperty object name value => .setProperty object.unplaced name.unplaced value.unplaced
  | .this receiver => .this receiver.unplaced
  | .inherited superclass method => .inherited superclass.unplaced method.unplaced

/-- The expressions without places. -/
def unplacedAll : List (Expr Blank) → List (Expr Blank)
  | [] => []
  | e :: rest => e.unplaced :: unplacedAll rest

end

mutual

/-- The structure of the text of an expression. -/
def form : Expr Blank → Form
  | .literal (.text s) => .quoted s
  | .literal value => .word value.render
  | .grouping inner => .list [.word "group", inner.form]
  | .unary op operand => .list [.word op.lexeme, operand.form]
  | .binary left op right => .list [.word op.lexeme, left.form, right.form]
  | .logical left op right => .list [.word op.lexeme, left.form, right.form]
  | .reference target => .word target.name
  | .assign target value => .list [.word "=", .word target.name, value.form]
  | .call callee _ values => .list (.word "call" :: callee.form :: forms values)
  | .property object name => .list [.word ".", object.form, .word name.lexeme]
  | .setProperty object name value =>
    .list [.word "=", .list [.word ".", object.form, .word name.lexeme], value.form]
  | .this _ => .word "this"
  | .inherited _ method => .list [.word "super", .word method.lexeme]

/-- The structure of the texts of several expressions. -/
def forms : List (Expr Blank) → List Form
  | [] => []
  | e :: rest => e.form :: forms rest

end

end Expr

namespace Stmt

mutual

/-- The statement without the places of its tokens, and without the parentheses that calls keep. -/
def unplaced : Stmt Blank → Stmt Blank
  | .malformed => .malformed
  | .expression value => .expression value.unplaced
  | .print value => .print value.unplaced
  | .declare name initial => .declare name.unplaced (initial.map Expr.unplaced)
  | .block body => .block (unplacedBody body)
  | .branch condition whenTrue none => .branch condition.unplaced whenTrue.unplaced none
  | .branch condition whenTrue (some whenFalse) =>
    .branch condition.unplaced whenTrue.unplaced (some whenFalse.unplaced)
  | .loop condition body => .loop condition.unplaced body.unplaced
  | .function routine => .function (unplacedRoutine routine)
  | .giveBack keyword value => .giveBack keyword.unplaced (value.map Expr.unplaced)
  | .klass name superclass methods =>
    .klass name.unplaced (superclass.map Reference.unplaced) (unplacedMethods methods)

/-- The statements without places. -/
def unplacedBody : List (Stmt Blank) → List (Stmt Blank)
  | [] => []
  | s :: rest => s.unplaced :: unplacedBody rest

/-- The function or method without places. -/
def unplacedRoutine : Routine Blank → Routine Blank
  | .mk name params body => .mk name.unplaced (params.map Token.unplaced) (unplacedBody body)

/-- The methods without places. -/
def unplacedMethods : List (Routine Blank) → List (Routine Blank)
  | [] => []
  | m :: rest => unplacedRoutine m :: unplacedMethods rest

end

/-- The head of a class: its name, and that of its superclass. -/
def classHead (name : Token) (superclass : Option (Reference Blank)) : List Form :=
  .word name.lexeme ::
    match superclass with
    | some target => [.word "<", .word target.name]
    | none => []

mutual

/-- The structure of the text of a statement. -/
def form : Stmt Blank → Form
  | .malformed => .list [.word "error"]
  | .expression value => value.form
  | .print value => .list [.word "print", value.form]
  | .declare name none => .list [.word "var", .word name.lexeme]
  | .declare name (some initial) => .list [.word "var", .word name.lexeme, initial.form]
  | .block body => .list (.word "block" :: forms body)
  | .branch condition whenTrue none => .list [.word "if", condition.form, whenTrue.form]
  | .branch condition whenTrue (some whenFalse) =>
    .list [.word "if", condition.form, whenTrue.form, whenFalse.form]
  | .loop condition body => .list [.word "while", condition.form, body.form]
  | .function routine => routineForm routine
  | .giveBack _ none => .list [.word "return"]
  | .giveBack _ (some value) => .list [.word "return", value.form]
  | .klass name superclass methods =>
    .list (.word "class" :: (classHead name superclass ++ routineForms methods))

/-- The structure of the texts of several statements. -/
def forms : List (Stmt Blank) → List Form
  | [] => []
  | s :: rest => s.form :: forms rest

/-- The structure of the text of a function or method. -/
def routineForm : Routine Blank → Form
  | .mk name params body =>
    .list (.word "fun" :: .word name.lexeme :: .list (params.map (.word ·.lexeme)) :: forms body)

/-- The structure of the texts of several methods. -/
def routineForms : List (Routine Blank) → List Form
  | [] => []
  | m :: rest => routineForm m :: routineForms rest

end

end Stmt

/-! ### Texts have that structure -/

namespace Form

theorem texts_append (fs gs : List Form) : texts (fs ++ gs) = texts fs ++ texts gs := by
  induction fs with
  | nil => rfl
  | cons f fs ih => simp [texts, ih]

theorem texts_map_word (ts : List Token) :
    texts (ts.map (.word ·.lexeme)) = ts.map (·.lexeme) := by
  induction ts with
  | nil => rfl
  | cons t ts ih => rw [List.map_cons, texts, ih, List.map_cons, text]

end Form

namespace Expr

mutual

theorem text_form : ∀ e : Expr Blank, e.form.text = e.render
  | .literal .nil | .literal (.bool true) | .literal (.bool false) | .literal (.number _)
  | .literal (.text _) | .reference _ | .this _ => rfl
  | .grouping inner => by simp only [form, render, Form.text, Form.texts, text_form inner]
  | .unary op operand => by simp only [form, render, Form.text, Form.texts, text_form operand]
  | .binary left op right => by
    simp only [form, render, Form.text, Form.texts, text_form left, text_form right]
  | .logical left op right => by
    simp only [form, render, Form.text, Form.texts, text_form left, text_form right]
  | .assign target value => by simp only [form, render, Form.text, Form.texts, text_form value]
  | .call callee _ values => by
    simp only [form, render, Form.text, Form.texts, text_form callee, texts_forms values]
  | .property object name => by simp only [form, render, Form.text, Form.texts, text_form object]
  | .setProperty object name value => by
    simp only [form, render, Form.text, Form.texts, text_form object, text_form value]
  | .inherited _ method => by simp only [form, render, Form.text, Form.texts]

theorem texts_forms : ∀ es : List (Expr Blank), Form.texts (forms es) = renderAll es
  | [] => rfl
  | e :: rest => by rw [forms, Form.texts, text_form e, texts_forms rest, renderAll]

end

end Expr

namespace Stmt

mutual

/-- **The structure of the text** of a statement. -/
theorem text_form : ∀ s : Stmt Blank, s.form.text = s.render
  | .malformed => by simp [form, render, Form.text, Form.texts, parenthesize]
  | .expression value => by rw [form, render, Expr.text_form]
  | .print value => by simp only [form, render, Form.text, Form.texts, Expr.text_form]
  | .declare name none => by simp only [form, render, Form.text, Form.texts]
  | .declare name (some initial) => by
    simp only [form, render, Form.text, Form.texts, Expr.text_form]
  | .block body => by simp only [form, render, Form.text, Form.texts, texts_forms body]
  | .branch condition whenTrue none => by
    simp only [form, render, Form.text, Form.texts, Expr.text_form, text_form whenTrue]
  | .branch condition whenTrue (some whenFalse) => by
    simp only [form, render, Form.text, Form.texts, Expr.text_form, text_form whenTrue,
      text_form whenFalse]
  | .loop condition body => by
    simp only [form, render, Form.text, Form.texts, Expr.text_form, text_form body]
  | .function routine => by rw [form, render, text_routineForm routine]
  | .giveBack _ none => by simp [form, render, Form.text, Form.texts, parenthesize]
  | .giveBack _ (some value) => by simp only [form, render, Form.text, Form.texts, Expr.text_form]
  | .klass name none methods => by
    simp only [form, classHead, render, Form.text, Form.texts, Form.texts_append,
      texts_routineForms methods, List.cons_append]
  | .klass name (some target) methods => by
    simp only [form, classHead, render, Form.text, Form.texts, Form.texts_append,
      texts_routineForms methods, List.cons_append]

theorem texts_forms : ∀ body : List (Stmt Blank), Form.texts (forms body) = renderAll body
  | [] => rfl
  | s :: rest => by rw [forms, Form.texts, text_form s, texts_forms rest, renderAll]

theorem text_routineForm : ∀ r : Routine Blank, (routineForm r).text = renderRoutine r
  | .mk name params body => by
    simp only [routineForm, renderRoutine, Form.text, Form.texts, Form.texts_map_word,
      texts_forms body, parenthesize]

theorem texts_routineForms : ∀ rs : List (Routine Blank),
    Form.texts (routineForms rs) = renderRoutines rs
  | [] => rfl
  | r :: rest => by
    rw [routineForms, Form.texts, text_routineForm r, texts_routineForms rest, renderRoutines]

end

end Stmt

end LoxInterpreter
