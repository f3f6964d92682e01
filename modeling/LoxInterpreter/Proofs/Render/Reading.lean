import LoxInterpreter.Lexicon
import LoxInterpreter.Proofs.Decimal.Notation
import LoxInterpreter.Proofs.Render.Tree

/-!
# Reading trees

A tree can be read off its text, up to what the text does not show.

* `Form.expr` and `Form.stmt` read a tree off a form. Each looks at the first word of a list.
* A tree is legible (`Stmt.Legible`) if its tokens are spelled like what they stand for and there is
  no quote within its quoted texts. If its numbers are finite besides, it can be read
  (`Stmt.stmt_form`).
-/

namespace LoxInterpreter

/-! ### Reading -/

namespace Form

/-- The number that is written as a word. -/
noncomputable def number (spelling : String) : Float :=
  Function.invFunOn NumberFormat.shown.write {x | x.isFinite = true} spelling

/-- The expression that a word stands for. -/
noncomputable def wordExpr (spelling : String) : Expr Blank :=
  match spelling with
  | "nil" => .literal .nil
  | "true" => .literal (.bool true)
  | "false" => .literal (.bool false)
  | "this" => .this ⟨.named "this", ()⟩
  | _ =>
    if spelling.toList.head?.any Pattern.isWordStart then .reference ⟨.named spelling, ()⟩
    else .literal (.number (number spelling))

/-- The expression that a list stands for, from its first word and what the rest stands for. -/
def listExpr (head : String) (values : List (Expr Blank)) : Expr Blank :=
  match head, values with
  | "group", [inner] => .grouping inner
  | "call", callee :: values => .call callee (.named ")") values
  | "super", [.reference method] => .inherited ⟨.named "super", ()⟩ method.token
  | ".", [object, .reference name] => .property object name.token
  | "=", [.reference target, value] => .assign target value
  | "=", [.property object name, value] => .setProperty object name value
  | "and", [left, right] => .logical left (.named "and") right
  | "or", [left, right] => .logical left (.named "or") right
  | op, [operand] => .unary (.named op) operand
  | op, [left, right] => .binary left (.named op) right
  | _, _ => .literal .nil

mutual

/-- The expression that a form stands for. -/
noncomputable def expr : Form → Expr Blank
  | .word spelling => wordExpr spelling
  | .quoted text => .literal (.text text)
  | .list (.word head :: parts) => listExpr head (exprs parts)
  | .list _ => .literal .nil

/-- The expressions that several forms stand for. -/
noncomputable def exprs : List Form → List (Expr Blank)
  | [] => []
  | f :: rest => f.expr :: exprs rest

end

/-- The token of a name. -/
def name : Form → Token
  | .word spelling => .named spelling
  | _ => .named ""

/-- The tokens of the names in a list. -/
def names : Form → List Token
  | .list parts => parts.map name
  | _ => []

/-- The function in a statement that declares one. -/
def routine : Stmt Blank → Routine Blank
  | .function r => r
  | _ => .mk (.named "") [] []

/-- The statement that a list stands for, from its first word, the rest, and what the parts of the
rest stand for as expressions and as statements. -/
def listStmt (head : String) (parts : List Form) (values : List (Expr Blank))
    (body : List (Stmt Blank)) : Stmt Blank :=
  match head with
  | "error" => .malformed
  | "print" => .print (values.headD (.literal .nil))
  | "var" => .declare ((parts.map name).headD (.named "")) values.tail.head?
  | "block" => .block body
  | "if" =>
    match values, body with
    | condition :: _, _ :: whenTrue :: whenFalse => .branch condition whenTrue whenFalse.head?
    | _, _ => .malformed
  | "while" =>
    match values, body with
    | condition :: _, [_, body] => .loop condition body
    | _, _ => .malformed
  | "fun" =>
    match parts, body with
    | f :: params :: _, _ :: _ :: body => .function (.mk f.name params.names body)
    | _, _ => .malformed
  | "return" => .giveBack (.named "return") values.head?
  | "class" =>
    match parts, body with
    | f :: .word "<" :: superclass :: _, _ :: _ :: _ :: methods =>
      .klass f.name (some ⟨superclass.name, ()⟩) (methods.map routine)
    | f :: _, _ :: methods => .klass f.name none (methods.map routine)
    | _, _ => .malformed
  | _ => .expression (listExpr head values)

mutual

/-- The statement that a form stands for. -/
noncomputable def stmt : Form → Stmt Blank
  | .list (.word head :: parts) => listStmt head parts (exprs parts) (stmts parts)
  | .list _ => .malformed
  | .word spelling => .expression (wordExpr spelling)
  | .quoted text => .expression (.literal (.text text))

/-- The statements that several forms stand for. -/
noncomputable def stmts : List Form → List (Stmt Blank)
  | [] => []
  | f :: rest => f.stmt :: stmts rest

end

end Form

/-! ### Legible trees -/

namespace Token

/-- The token is spelled like a name, and what it is follows from its spelling. -/
structure SpellsName (t : Token) : Prop where
  unplaced_eq : t.unplaced = .named t.lexeme
  lookup_keywords : keywords.lookup t.lexeme = none
  head : ∃ c rest, t.lexeme.toList = c :: rest ∧ Pattern.isWordStart c = true
  each : ∀ c ∈ t.lexeme.toList, Pattern.isWordPart c = true

/-- The token has one of the spellings, and what it is follows from its spelling. -/
structure SpellsOneOf (spellings : List String) (t : Token) : Prop where
  unplaced_eq : t.unplaced = .named t.lexeme
  lexeme_mem : t.lexeme ∈ spellings

end Token

/-- The operators of one operand. -/
def prefixSpellings : List String := ["!", "-"]

/-- The operators of two operands that do not skip their right side. -/
def binarySpellings : List String := ["-", "+", "/", "*", "!=", "==", ">", ">=", "<", "<="]

namespace Expr

mutual

/-- The tokens of the expression are spelled like what they stand for, there is no quote within its
quoted texts, and its numbers have the property. -/
def Legible (Q : Float → Prop) : Expr Blank → Prop
  | .literal (.number x) => Q x
  | .literal (.text s) => '"' ∉ s.toList
  | .literal _ => True
  | .grouping inner => inner.Legible Q
  | .unary op operand => op.SpellsOneOf prefixSpellings ∧ operand.Legible Q
  | .binary left op right => left.Legible Q ∧ op.SpellsOneOf binarySpellings ∧ right.Legible Q
  | .logical left op right => left.Legible Q ∧ op.SpellsOneOf ["and", "or"] ∧ right.Legible Q
  | .reference target => target.token.SpellsName
  | .assign target value => target.token.SpellsName ∧ value.Legible Q
  | .call callee _ values => callee.Legible Q ∧ AllLegible Q values
  | .property object name => object.Legible Q ∧ name.SpellsName
  | .setProperty object name value => object.Legible Q ∧ name.SpellsName ∧ value.Legible Q
  | .this receiver => receiver.token.SpellsOneOf ["this"]
  | .inherited superclass method => superclass.token.SpellsOneOf ["super"] ∧ method.SpellsName

/-- The expressions are legible. -/
def AllLegible (Q : Float → Prop) : List (Expr Blank) → Prop
  | [] => True
  | e :: rest => e.Legible Q ∧ AllLegible Q rest

end

end Expr

namespace Stmt

mutual

/-- The statement is legible. -/
def Legible (Q : Float → Prop) : Stmt Blank → Prop
  | .malformed => True
  | .expression value | .print value => value.Legible Q
  | .declare name initial => name.SpellsName ∧ ∀ e ∈ initial, e.Legible Q
  | .block body => BodyLegible Q body
  | .branch condition whenTrue none => condition.Legible Q ∧ whenTrue.Legible Q
  | .branch condition whenTrue (some whenFalse) =>
    condition.Legible Q ∧ whenTrue.Legible Q ∧ whenFalse.Legible Q
  | .loop condition body => condition.Legible Q ∧ body.Legible Q
  | .function routine => RoutineLegible Q routine
  | .giveBack keyword value => keyword.SpellsOneOf ["return"] ∧ ∀ e ∈ value, e.Legible Q
  | .klass name superclass methods =>
    name.SpellsName ∧ (∀ target ∈ superclass, target.token.SpellsName) ∧ MethodsLegible Q methods

/-- The statements are legible. -/
def BodyLegible (Q : Float → Prop) : List (Stmt Blank) → Prop
  | [] => True
  | s :: rest => s.Legible Q ∧ BodyLegible Q rest

/-- The function or method is legible. -/
def RoutineLegible (Q : Float → Prop) : Routine Blank → Prop
  | .mk name params body =>
    name.SpellsName ∧ (∀ param ∈ params, param.SpellsName) ∧ BodyLegible Q body

/-- The methods are legible. -/
def MethodsLegible (Q : Float → Prop) : List (Routine Blank) → Prop
  | [] => True
  | m :: rest => RoutineLegible Q m ∧ MethodsLegible Q rest

end

end Stmt

/-! ### Legible trees have well-formed texts -/

/-- The property of numbers that can be told from what is written for them. -/
abbrev Finite (x : Float) : Prop := x.isFinite = true

namespace Form

theorem not_mem_separators_of_isWordPart {c : Char} (h : Pattern.isWordPart c = true) :
    c ∉ separators := by
  intro hc
  simp only [separators, List.mem_cons, List.not_mem_nil, or_false] at hc
  rcases hc with rfl | rfl | rfl | rfl <;> cases h

theorem isWord_lexeme {t : Token} (h : t.SpellsName) : IsWord t.lexeme := by
  obtain ⟨c, rest, hcons, -⟩ := h.head
  refine ⟨by rw [hcons]; exact List.cons_ne_nil _ _, fun c hc => ?_⟩
  exact not_mem_separators_of_isWordPart (h.each c hc)

theorem isWord_write {x : Float} (h : Finite x) : IsWord (NumberFormat.shown.write x) := by
  obtain ⟨c, rest, hcons, -, heach⟩ := NumberFormat.exists_write_eq_cons h
  rw [IsWord, hcons]
  refine ⟨List.cons_ne_nil _ _, fun d hd hsep => ?_⟩
  simp only [separators, List.mem_cons, List.not_mem_nil, or_false] at hsep
  rcases hsep with rfl | rfl | rfl | rfl <;> rcases heach _ hd with hdigit | hother
  all_goals first | cases hdigit | simp at hother

/-- The words at the heads of lists, the operators, and the words for values. -/
def fixedWords : List String :=
  ["group", "call", ".", "=", "super", "this", "nil", "true", "false", "and", "or", "error",
    "print", "var", "block", "if", "while", "fun", "return", "class", "<"] ++ prefixSpellings ++
    binarySpellings

theorem isWord_of_mem_fixedWords : ∀ spelling ∈ fixedWords, IsWord spelling := by
  simp [fixedWords, prefixSpellings, binarySpellings, IsWord, separators]

theorem isWord_of_mem {spellings : List String} {t : Token} (h : t.SpellsOneOf spellings)
    (hfixed : spellings ⊆ fixedWords) : IsWord t.lexeme :=
  isWord_of_mem_fixedWords _ (hfixed h.lexeme_mem)

theorem allWellFormed_map_word {ts : List Token} (h : ∀ t ∈ ts, t.SpellsName) :
    AllWellFormed (ts.map (.word ·.lexeme)) := by
  induction ts with
  | nil => trivial
  | cons t ts ih =>
    obtain ⟨ht, hts⟩ := List.forall_mem_cons.mp h
    exact ⟨isWord_lexeme ht, ih hts⟩

end Form

open Form

namespace Expr

mutual

theorem wellFormed_form : ∀ {e : Expr Blank}, e.Legible Finite → e.form.WellFormed
  | .literal .nil, _ | .literal (.bool true), _ | .literal (.bool false), _ | .this _, _ =>
    isWord_of_mem_fixedWords _ (by decide)
  | .literal (.number _), h => isWord_write h
  | .literal (.text _), h => h
  | .grouping inner, h => ⟨isWord_of_mem_fixedWords _ (by decide), wellFormed_form h, trivial⟩
  | .unary op operand, h => ⟨isWord_of_mem h.1 (by decide), wellFormed_form h.2, trivial⟩
  | .binary left op right, h | .logical left op right, h =>
    ⟨isWord_of_mem h.2.1 (by decide), wellFormed_form h.1, wellFormed_form h.2.2, trivial⟩
  | .reference target, h => isWord_lexeme h
  | .assign target value, h =>
    ⟨isWord_of_mem_fixedWords _ (by decide), isWord_lexeme h.1, wellFormed_form h.2, trivial⟩
  | .call callee paren values, h =>
    ⟨isWord_of_mem_fixedWords _ (by decide), wellFormed_form h.1, allWellFormed_forms h.2⟩
  | .property object name, h =>
    ⟨isWord_of_mem_fixedWords _ (by decide), wellFormed_form h.1, isWord_lexeme h.2, trivial⟩
  | .setProperty object name value, h =>
    ⟨isWord_of_mem_fixedWords _ (by decide), ⟨isWord_of_mem_fixedWords _ (by decide),
      wellFormed_form h.1, isWord_lexeme h.2.1, trivial⟩, wellFormed_form h.2.2, trivial⟩
  | .inherited superclass method, h =>
    ⟨isWord_of_mem_fixedWords _ (by decide), isWord_lexeme h.2, trivial⟩

theorem allWellFormed_forms : ∀ {es : List (Expr Blank)}, AllLegible Finite es →
    AllWellFormed (forms es)
  | [], _ => trivial
  | _ :: _, h => ⟨wellFormed_form h.1, allWellFormed_forms h.2⟩

end

end Expr

namespace Stmt

mutual

/-- **The text of a legible statement** is well-formed. -/
theorem wellFormed_form : ∀ {s : Stmt Blank}, s.Legible Finite → s.form.WellFormed
  | .malformed, _ | .giveBack _ none, _ => ⟨isWord_of_mem_fixedWords _ (by decide), trivial⟩
  | .expression value, h => Expr.wellFormed_form h
  | .print value, h =>
    ⟨isWord_of_mem_fixedWords _ (by decide), Expr.wellFormed_form h, trivial⟩
  | .declare name none, h =>
    ⟨isWord_of_mem_fixedWords _ (by decide), isWord_lexeme h.1, trivial⟩
  | .declare name (some initial), h =>
    ⟨isWord_of_mem_fixedWords _ (by decide), isWord_lexeme h.1, Expr.wellFormed_form (h.2 _ rfl),
      trivial⟩
  | .block body, h => ⟨isWord_of_mem_fixedWords _ (by decide), allWellFormed_forms h⟩
  | .branch condition whenTrue none, h =>
    ⟨isWord_of_mem_fixedWords _ (by decide), Expr.wellFormed_form h.1, wellFormed_form h.2, trivial⟩
  | .branch condition whenTrue (some whenFalse), h =>
    ⟨isWord_of_mem_fixedWords _ (by decide), Expr.wellFormed_form h.1, wellFormed_form h.2.1,
      wellFormed_form h.2.2, trivial⟩
  | .loop condition body, h =>
    ⟨isWord_of_mem_fixedWords _ (by decide), Expr.wellFormed_form h.1, wellFormed_form h.2, trivial⟩
  | .function routine, h => wellFormed_routineForm h
  | .giveBack _ (some value), h =>
    ⟨isWord_of_mem_fixedWords _ (by decide), Expr.wellFormed_form (h.2 _ rfl), trivial⟩
  | .klass name none methods, h =>
    ⟨isWord_of_mem_fixedWords _ (by decide), isWord_lexeme h.1, allWellFormed_routineForms h.2.2⟩
  | .klass name (some target) methods, h =>
    ⟨isWord_of_mem_fixedWords _ (by decide), isWord_lexeme h.1,
      isWord_of_mem_fixedWords _ (by decide), isWord_lexeme (h.2.1 _ rfl),
      allWellFormed_routineForms h.2.2⟩

theorem allWellFormed_forms : ∀ {body : List (Stmt Blank)}, BodyLegible Finite body →
    AllWellFormed (forms body)
  | [], _ => trivial
  | _ :: _, h => ⟨wellFormed_form h.1, allWellFormed_forms h.2⟩

theorem wellFormed_routineForm : ∀ {r : Routine Blank}, RoutineLegible Finite r →
    (routineForm r).WellFormed
  | .mk name params body, h =>
    ⟨isWord_of_mem_fixedWords _ (by decide), isWord_lexeme h.1, allWellFormed_map_word h.2.1,
      allWellFormed_forms h.2.2⟩

theorem allWellFormed_routineForms : ∀ {rs : List (Routine Blank)}, MethodsLegible Finite rs →
    AllWellFormed (routineForms rs)
  | [], _ => trivial
  | _ :: _, h => ⟨wellFormed_routineForm h.1, allWellFormed_routineForms h.2⟩

end

end Stmt

/-! ### Legible trees can be read -/

namespace Form

theorem number_write {x : Float} (h : Finite x) : number (NumberFormat.shown.write x) = x := by
  have hinjective : Set.InjOn NumberFormat.shown.write {x | x.isFinite = true} :=
    fun _ hx _ hy heq => NumberFormat.shown_write_injective hx hy heq
  exact hinjective.leftInvOn_invFunOn h

theorem wordExpr_of_ne {spelling : String} (hnil : spelling ≠ "nil") (htrue : spelling ≠ "true")
    (hfalse : spelling ≠ "false") (hthis : spelling ≠ "this") :
    wordExpr spelling =
      if spelling.toList.head?.any Pattern.isWordStart then .reference ⟨.named spelling, ()⟩
      else .literal (.number (number spelling)) := by
  unfold wordExpr
  split
  · exact absurd rfl hnil
  · exact absurd rfl htrue
  · exact absurd rfl hfalse
  · exact absurd rfl hthis
  · rfl

theorem wordExpr_lexeme {t : Token} (h : t.SpellsName) :
    wordExpr t.lexeme = .reference ⟨t.unplaced, ()⟩ := by
  have hne {word : String} (hword : keywords.lookup word ≠ none) : t.lexeme ≠ word := by
    rintro heq
    exact hword (heq ▸ h.lookup_keywords)
  obtain ⟨c, rest, hcons, hc⟩ := h.head
  have hstart : t.lexeme.toList.head?.any Pattern.isWordStart = true := by
    rw [hcons]
    exact hc
  rw [wordExpr_of_ne (hne (by decide)) (hne (by decide)) (hne (by decide)) (hne (by decide)),
    if_pos hstart, h.unplaced_eq]

theorem isWordStart_of_isDigit {c : Char} (h : c.isDigit = true) :
    Pattern.isWordStart c = false := by
  simp only [Char.isDigit, Bool.and_eq_true, decide_eq_true_iff, UInt32.le_iff_toNat_le] at h
  by_contra hstart
  simp only [Pattern.isWordStart, Bool.not_eq_false, Bool.or_eq_true, Bool.and_eq_true,
    decide_eq_true_iff, Char.le_def, UInt32.le_iff_toNat_le, beq_iff_eq] at hstart
  have hnine : '9'.val.toNat = 57 := rfl
  have hupper : 'A'.val.toNat = 65 := rfl
  have hlower : 'a'.val.toNat = 97 := rfl
  rcases hstart with (hstart | hstart) | rfl
  · omega
  · omega
  · exact absurd h.2 (by decide)

theorem wordExpr_write {x : Float} (h : Finite x) :
    wordExpr (NumberFormat.shown.write x) = .literal (.number x) := by
  obtain ⟨c, rest, hcons, hc, -⟩ := NumberFormat.exists_write_eq_cons h
  -- a number does not begin like a word
  have hstart : Pattern.isWordStart c = false := by
    rcases hc with hc | rfl
    · exact isWordStart_of_isDigit hc
    · rfl
  have hne {word : String} (hword : word.toList.head?.any Pattern.isWordStart = true) :
      NumberFormat.shown.write x ≠ word := by
    rintro rfl
    rw [hcons] at hword
    exact absurd hword (by simp [hstart])
  rw [wordExpr_of_ne (hne rfl) (hne rfl) (hne rfl) (hne rfl), hcons, number_write h, if_neg]
  simp [hstart]

theorem listExpr_prefix {op : String} (h : op ∈ prefixSpellings) (x : Expr Blank) :
    listExpr op [x] = .unary (.named op) x := by
  simp only [prefixSpellings, List.mem_cons, List.not_mem_nil, or_false] at h
  rcases h with rfl | rfl <;> rfl

theorem listExpr_binary {op : String} (h : op ∈ binarySpellings) (x y : Expr Blank) :
    listExpr op [x, y] = .binary x (.named op) y := by
  simp only [binarySpellings, List.mem_cons, List.not_mem_nil, or_false] at h
  rcases h with rfl | rfl | rfl | rfl | rfl | rfl | rfl | rfl | rfl | rfl <;> rfl

theorem listExpr_logical {op : String} (h : op ∈ ["and", "or"]) (x y : Expr Blank) :
    listExpr op [x, y] = .logical x (.named op) y := by
  simp only [List.mem_cons, List.not_mem_nil, or_false] at h
  rcases h with rfl | rfl <;> rfl

end Form

namespace Expr

mutual

theorem expr_form : ∀ {e : Expr Blank}, e.Legible Finite → e.form.expr = e.unplaced
  | .literal .nil, _ | .literal (.bool true), _ | .literal (.bool false), _
  | .literal (.text _), _ => rfl
  | .literal (.number _), h => wordExpr_write h
  | .grouping inner, h => by
    rw [form, Form.expr, exprs, exprs, expr_form (e := inner) h, unplaced]
    rfl
  | .unary op operand, h => by
    rw [form, Form.expr, exprs, exprs, expr_form h.2, listExpr_prefix h.1.lexeme_mem, unplaced,
      h.1.unplaced_eq]
  | .binary left op right, h => by
    rw [form, Form.expr, exprs, exprs, exprs, expr_form h.1, expr_form h.2.2,
      listExpr_binary h.2.1.lexeme_mem, unplaced, h.2.1.unplaced_eq]
  | .logical left op right, h => by
    rw [form, Form.expr, exprs, exprs, exprs, expr_form h.1, expr_form h.2.2,
      listExpr_logical h.2.1.lexeme_mem, unplaced, h.2.1.unplaced_eq]
  | .reference target, h => wordExpr_lexeme h
  | .assign target value, h => by
    rw [form, Form.expr, exprs, exprs, exprs, expr_form h.2, Form.expr, wordExpr_lexeme h.1,
      unplaced]
    rfl
  | .call callee paren values, h => by
    rw [form, Form.expr, exprs, expr_form h.1, exprs_forms h.2, unplaced]
    rfl
  | .property object name, h => by
    rw [form, Form.expr, exprs, exprs, exprs, expr_form h.1, Form.expr, wordExpr_lexeme h.2,
      unplaced]
    rfl
  | .setProperty object name value, h => by
    rw [form, Form.expr, exprs, exprs, exprs, Form.expr, exprs, exprs, exprs, expr_form h.1,
      expr_form h.2.2, Form.expr, wordExpr_lexeme h.2.1, unplaced]
    rfl
  | .this receiver, h => by
    have hname : receiver.token.lexeme = "this" := List.mem_singleton.mp h.lexeme_mem
    rw [unplaced, Reference.unplaced, h.unplaced_eq, hname]
    rfl
  | .inherited superclass method, h => by
    have hname : superclass.token.lexeme = "super" := List.mem_singleton.mp h.1.lexeme_mem
    rw [form, Form.expr, exprs, exprs, Form.expr, wordExpr_lexeme h.2, unplaced,
      Reference.unplaced, h.1.unplaced_eq, hname]
    rfl

theorem exprs_forms : ∀ {es : List (Expr Blank)}, AllLegible Finite es →
    exprs (forms es) = unplacedAll es
  | [], _ => rfl
  | e :: rest, h => by rw [forms, exprs, expr_form h.1, exprs_forms h.2, unplacedAll]

end

end Expr

namespace Form

/-- An operator begins no statement of its own. -/
theorem listStmt_operator {op : String}
    (h : op ∈ prefixSpellings ++ binarySpellings ++ ["and", "or"])
    (parts : List Form) (values : List (Expr Blank)) (body : List (Stmt Blank)) :
    listStmt op parts values body = .expression (listExpr op values) := by
  simp only [prefixSpellings, binarySpellings, List.cons_append, List.nil_append, List.mem_cons,
    List.not_mem_nil, or_false] at h
  rcases h with rfl | rfl | rfl | rfl | rfl | rfl | rfl | rfl | rfl | rfl | rfl | rfl | rfl | rfl <;>
    rfl

theorem stmt_form_expr {e : Expr Blank} (h : e.Legible Finite) :
    e.form.stmt = .expression e.form.expr := by
  cases e with
  | literal value =>
    cases value with
    | bool value => cases value <;> rfl
    | _ => rfl
  | unary op operand => exact listStmt_operator (by simp [h.1.lexeme_mem]) _ _ _
  | binary left op right => exact listStmt_operator (by simp [h.2.1.lexeme_mem]) _ _ _
  | logical left op right =>
    exact listStmt_operator (List.mem_append_right _ h.2.1.lexeme_mem) _ _ _
  | _ => rfl

theorem names_list_map_word {ts : List Token} (h : ∀ t ∈ ts, t.SpellsName) :
    (list (ts.map (.word ·.lexeme))).names = ts.map Token.unplaced := by
  rw [names, List.map_map]
  exact List.map_congr_left fun t ht => (h t ht).unplaced_eq.symm

end Form

namespace Stmt

theorem stmt_form_expression {e : Expr Blank} (h : e.Legible Finite) :
    e.form.stmt = .expression e.unplaced := by
  rw [stmt_form_expr h, Expr.expr_form h]

mutual

/-- **Reading.** A legible statement can be read off the structure of its text. -/
theorem stmt_form : ∀ {s : Stmt Blank}, s.Legible Finite → s.form.stmt = s.unplaced
  | .malformed, _ => rfl
  | .expression value, h => stmt_form_expression h
  | .print value, h => by
    rw [form, stmt, exprs, exprs, Expr.expr_form (e := value) h, unplaced]
    rfl
  | .declare name none, h => by
    rw [form, stmt, exprs, exprs, unplaced, h.1.unplaced_eq]
    rfl
  | .declare name (some initial), h => by
    rw [form, stmt, exprs, exprs, exprs, Expr.expr_form (h.2 initial rfl), unplaced,
      h.1.unplaced_eq]
    rfl
  | .block body, h => by
    rw [form, stmt, stmts_forms h, unplaced]
    rfl
  | .branch condition whenTrue none, h => by
    rw [form, stmt, exprs, exprs, exprs, stmts, stmts, stmts, Expr.expr_form h.1, stmt_form h.2,
      unplaced]
    rfl
  | .branch condition whenTrue (some whenFalse), h => by
    rw [form, stmt, exprs, exprs, exprs, exprs, stmts, stmts, stmts, stmts, Expr.expr_form h.1,
      stmt_form h.2.1, stmt_form h.2.2, unplaced]
    rfl
  | .loop condition body, h => by
    rw [form, stmt, exprs, exprs, exprs, stmts, stmts, stmts, Expr.expr_form h.1, stmt_form h.2,
      unplaced]
    rfl
  | .function routine, h => stmt_routineForm h
  | .giveBack keyword none, h => by
    have hname : keyword.lexeme = "return" := List.mem_singleton.mp h.1.lexeme_mem
    rw [unplaced, h.1.unplaced_eq, hname]
    rfl
  | .giveBack keyword (some value), h => by
    have hname : keyword.lexeme = "return" := List.mem_singleton.mp h.1.lexeme_mem
    rw [form, stmt, exprs, exprs, Expr.expr_form (h.2 value rfl), unplaced, h.1.unplaced_eq, hname]
    rfl
  | .klass name none methods, h => by
    have hmethods := map_routine_stmts_routineForms h.2.2
    -- what comes behind the name is a list, if anything
    have hlist : listStmt "class" (.word name.lexeme :: routineForms methods)
        (exprs (.word name.lexeme :: routineForms methods))
        (stmts (.word name.lexeme :: routineForms methods)) =
          .klass (.named name.lexeme) none ((stmts (routineForms methods)).map routine) := by
      cases methods with
      | nil => rfl
      | cons m rest => cases m; rfl
    rw [form, classHead, List.cons_append, List.nil_append, stmt, hlist, hmethods, unplaced,
      h.1.unplaced_eq]
    rfl
  | .klass name (some target) methods, h => by
    have hmethods := map_routine_stmts_routineForms h.2.2
    rw [unplaced, ← hmethods, h.1.unplaced_eq, Option.map_some, Reference.unplaced,
      (h.2.1 target rfl).unplaced_eq]
    rfl

theorem stmts_forms : ∀ {body : List (Stmt Blank)}, BodyLegible Finite body →
    stmts (forms body) = unplacedBody body
  | [], _ => rfl
  | s :: rest, h => by rw [forms, stmts, stmt_form h.1, stmts_forms h.2, unplacedBody]

theorem stmt_routineForm : ∀ {r : Routine Blank}, RoutineLegible Finite r →
    (routineForm r).stmt = .function (unplacedRoutine r)
  | .mk name params body, h => by
    rw [routineForm, stmt, stmts, stmts, stmts_forms h.2.2, unplacedRoutine, h.1.unplaced_eq,
      ← names_list_map_word h.2.1]
    rfl

theorem map_routine_stmts_routineForms : ∀ {rs : List (Routine Blank)}, MethodsLegible Finite rs →
    (stmts (routineForms rs)).map routine = unplacedMethods rs
  | [], _ => rfl
  | r :: rest, h => by
    rw [routineForms, stmts, List.map_cons, stmt_routineForm h.1,
      map_routine_stmts_routineForms h.2, unplacedMethods]
    rfl

end

end Stmt

end LoxInterpreter
