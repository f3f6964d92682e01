import LoxInterpreter.Parse.Statement

/-!
# The grammar

What a program is, told by rules that derive trees from tokens and know nothing of any parser. The
relations go from the tokens of a phrase to its tree, and every token that a tree stores is the one
that stands at that place.

* `Phrase l` derives expressions at the level `l` of binding strength. A binary operator has its own
  level to the left and the next tighter one to the right, which makes it associate to the left; an
  assignment has its own level to the right.
* `Statement` and `Declaration` derive statements. A statement carries its `Tail`: an `else` behind
  a `dangling` one would belong to an `if` inside it, so that only a `closed` one may stand between
  `if` and `else`.
* `Program` derives whole programs.

Runs of phrases are put together by `Sequence` and `Separated`.
-/

namespace LoxInterpreter.Grammar

/-! ### Runs of phrases -/

section Runs

variable {α : Type} (L : List Token → α → Prop)

/-- Phrases one after the other. -/
inductive Sequence : List Token → List α → Prop where
  | nil : Sequence [] []
  | cons {ts us : List Token} {a : α} {as : List α} :
      L ts a → Sequence us as → Sequence (ts ++ us) (a :: as)

/-- At least one phrase, and commas between them. -/
inductive Separated : List Token → List α → Prop where
  | last {ts : List Token} {a : α} : L ts a → Separated ts [a]
  | cons {ts us : List Token} {comma : Token} {a : α} {as : List α} :
      L ts a → comma.kind = .comma → Separated us as → Separated (ts ++ comma :: us) (a :: as)

/-- What may stand between the parentheses of a call or of a declaration: nothing, or up to 255
phrases with commas between them. -/
inductive Listed : List Token → List α → Prop where
  | none : Listed [] []
  | some {ts : List Token} {as : List α} : Separated L ts as → as.length ≤ 255 → Listed ts as

/-- A phrase that may be left out. -/
inductive Possibly : List Token → Option α → Prop where
  | none : Possibly [] none
  | some {ts : List Token} {a : α} : L ts a → Possibly ts (some a)

variable {L}

/-- What holds of the first token of every phrase holds of the first of several. -/
theorem Separated.head {Q : Token → Prop} {us : List Token} {as : List α} (h : Separated L us as)
    (hL : ∀ ts a, L ts a → ∃ t rest, ts = t :: rest ∧ Q t) : ∃ t rest, us = t :: rest ∧ Q t := by
  cases h with
  | last h => exact hL _ _ h
  | cons h =>
    obtain ⟨t, rest, rfl, hq⟩ := hL _ _ h
    exact ⟨t, _, rfl, hq⟩

/-- More may be said of the phrases. -/
theorem Sequence.mono {L' : List Token → α → Prop} {us : List Token} {as : List α}
    (h : Sequence L us as) (hL : ∀ ts a, L ts a → L' ts a) : Sequence L' us as := by
  induction h with
  | nil => exact .nil
  | cons h _ ih => exact .cons (hL _ _ h) ih

theorem Separated.mono {L' : List Token → α → Prop} {us : List Token} {as : List α}
    (h : Separated L us as) (hL : ∀ ts a, L ts a → L' ts a) : Separated L' us as := by
  induction h with
  | last h => exact .last (hL _ _ h)
  | cons h hc _ ih => exact .cons (hL _ _ h) hc ih

theorem Listed.mono {L' : List Token → α → Prop} {us : List Token} {as : List α}
    (h : Listed L us as) (hL : ∀ ts a, L ts a → L' ts a) : Listed L' us as := by
  cases h with
  | none => exact .none
  | some h hle => exact .some (h.mono hL) hle

end Runs

/-- A name. -/
inductive Name : List Token → Token → Prop where
  | mk {t : Token} : t.kind = .identifier → Name [t] t

/-! ### Expressions -/

/-- The levels of binding strength, loosest first. -/
inductive Level where
  | assignment | disjunction | conjunction | equality | comparison | term | factor | unary | call
  | primary
  deriving DecidableEq, Repr

namespace Level

/-- The next tighter level. -/
def tighter? : Level → Option Level
  | assignment => some disjunction
  | disjunction => some conjunction
  | conjunction => some equality
  | equality => some comparison
  | comparison => some term
  | term => some factor
  | factor => some unary
  | unary => some call
  | call => some primary
  | primary => none

/-- How many levels are tighter. -/
def height : Level → Nat
  | assignment => 9
  | disjunction => 8
  | conjunction => 7
  | equality => 6
  | comparison => 5
  | term => 4
  | factor => 3
  | unary => 2
  | call => 1
  | primary => 0

theorem height_of_tighter? {l l' : Level} (h : l.tighter? = some l') :
    l.height = l'.height + 1 := by
  cases l <;> cases h <;> rfl

/-- The binary operators of a level. -/
def operators : Level → List TokenKind
  | disjunction => [.orWord]
  | conjunction => [.andWord]
  | equality => [.bangEqual, .equalEqual]
  | comparison => [.greater, .greaterEqual, .less, .lessEqual]
  | term => [.minus, .plus]
  | factor => [.slash, .star]
  | _ => []

/-- The tree of two operands joined by an operator of a level. -/
def join : Level → Expr Blank → Token → Expr Blank → Expr Blank
  | disjunction, left, op, right | conjunction, left, op, right => .logical left op right
  | _, left, op, right => .binary left op right

end Level

/-- The tokens that are expressions by themselves, with the values that they stand for. -/
def literalOf? (t : Token) : Option Literal :=
  match t.kind with
  | .falseWord => some (.bool false)
  | .trueWord => some (.bool true)
  | .nilWord => some .nil
  | .number | .string => some (t.literal.getD .nil)
  | _ => none

/-- The kinds of token that an operand without operators can begin with. -/
def operandStarters : List TokenKind :=
  [.falseWord, .trueWord, .nilWord, .number, .string, .superWord, .thisWord, .identifier,
    .leftParen]

/-- The derivation of expressions. -/
inductive Phrase : Level → List Token → Expr Blank → Prop where
  | tighter {l l' : Level} {ts : List Token} {e : Expr Blank} :
      l.tighter? = some l' → Phrase l' ts e → Phrase l ts e
  | assign {name equals : Token} {ts : List Token} {value : Expr Blank} :
      name.kind = .identifier → equals.kind = .equal → Phrase .assignment ts value →
      Phrase .assignment (name :: equals :: ts) (.assign ⟨name, ()⟩ value)
  | setProperty {ts us : List Token} {dot name equals : Token} {object value : Expr Blank} :
      Phrase .call ts object → dot.kind = .dot → name.kind = .identifier → equals.kind = .equal →
      Phrase .assignment us value →
      Phrase .assignment (ts ++ dot :: name :: equals :: us) (.setProperty object name value)
  | join {l l' : Level} {ts us : List Token} {op : Token} {left right : Expr Blank} :
      l.tighter? = some l' → op.kind ∈ l.operators → Phrase l ts left → Phrase l' us right →
      Phrase l (ts ++ op :: us) (l.join left op right)
  | unary {op : Token} {ts : List Token} {operand : Expr Blank} :
      op.kind = .bang ∨ op.kind = .minus → Phrase .unary ts operand →
      Phrase .unary (op :: ts) (.unary op operand)
  | call {ts us : List Token} {opening closing : Token} {callee : Expr Blank}
      {values : List (Expr Blank)} :
      Phrase .call ts callee → opening.kind = .leftParen → Listed (Phrase .assignment) us values →
      closing.kind = .rightParen →
      Phrase .call (ts ++ opening :: us ++ [closing]) (.call callee closing values)
  | property {ts : List Token} {dot name : Token} {object : Expr Blank} :
      Phrase .call ts object → dot.kind = .dot → name.kind = .identifier →
      Phrase .call (ts ++ [dot, name]) (.property object name)
  | literal {t : Token} {value : Literal} :
      literalOf? t = some value → Phrase .primary [t] (.literal value)
  | inherited {keyword dot method : Token} :
      keyword.kind = .superWord → dot.kind = .dot → method.kind = .identifier →
      Phrase .primary [keyword, dot, method] (.inherited ⟨keyword, ()⟩ method)
  | this {keyword : Token} :
      keyword.kind = .thisWord → Phrase .primary [keyword] (.this ⟨keyword, ()⟩)
  | reference {name : Token} :
      name.kind = .identifier → Phrase .primary [name] (.reference ⟨name, ()⟩)
  | grouping {opening closing : Token} {ts : List Token} {inner : Expr Blank} :
      opening.kind = .leftParen → Phrase .assignment ts inner → closing.kind = .rightParen →
      Phrase .primary (opening :: ts ++ [closing]) (.grouping inner)

namespace Phrase

/-- **Induction over the derivation of an expression.** Of every argument of a call the hypothesis
is at hand together with its derivation. -/
@[elab_as_elim]
theorem induct {P : ∀ l ts e, Phrase l ts e → Prop}
    (tighter : ∀ {l l' ts e} (hl : l.tighter? = some l') (h : Phrase l' ts e), P l' ts e h →
      P l ts e (.tighter hl h))
    (assign : ∀ {name equals : Token} {ts value} (hn : name.kind = .identifier) (he : equals.kind = .equal)
      (h : Phrase .assignment ts value), P .assignment ts value h →
      P .assignment _ _ (.assign hn he h))
    (setProperty : ∀ {ts us} {dot name equals : Token} {object value} (h : Phrase .call ts object)
      (hd : dot.kind = .dot) (hn : name.kind = .identifier) (he : equals.kind = .equal)
      (h' : Phrase .assignment us value), P .call ts object h → P .assignment us value h' →
      P .assignment _ _ (.setProperty h hd hn he h'))
    (join : ∀ {l l' ts us} {op : Token} {left right} (hl : l.tighter? = some l')
      (ho : op.kind ∈ l.operators) (h : Phrase l ts left) (h' : Phrase l' us right),
      P l ts left h → P l' us right h' → P l _ _ (.join hl ho h h'))
    (unary : ∀ {op : Token} {ts operand} (ho : op.kind = .bang ∨ op.kind = .minus)
      (h : Phrase .unary ts operand), P .unary ts operand h → P .unary _ _ (.unary ho h))
    (call : ∀ {ts us} {opening closing : Token} {callee values} (h : Phrase .call ts callee)
      (ho : opening.kind = .leftParen) (hv : Listed (Phrase .assignment) us values)
      (hc : closing.kind = .rightParen), P .call ts callee h →
      Listed (fun ts e => ∃ h : Phrase .assignment ts e, P .assignment ts e h) us values →
      P .call _ _ (.call h ho hv hc))
    (property : ∀ {ts} {dot name : Token} {object} (h : Phrase .call ts object)
      (hd : dot.kind = .dot) (hn : name.kind = .identifier), P .call ts object h →
      P .call _ _ (.property h hd hn))
    (literal : ∀ {t value} (h : literalOf? t = some value), P .primary _ _ (.literal h))
    (inherited : ∀ {keyword dot method : Token} (hk : keyword.kind = .superWord)
      (hd : dot.kind = .dot) (hm : method.kind = .identifier),
      P .primary _ _ (.inherited hk hd hm))
    (this : ∀ {keyword : Token} (hk : keyword.kind = .thisWord), P .primary _ _ (.this hk))
    (reference : ∀ {name : Token} (hn : name.kind = .identifier),
      P .primary _ _ (.reference hn))
    (grouping : ∀ {opening closing : Token} {ts inner} (ho : opening.kind = .leftParen)
      (h : Phrase .assignment ts inner) (hc : closing.kind = .rightParen),
      P .assignment ts inner h → P .primary _ _ (.grouping ho h hc))
    {l : Level} {ts : List Token} {e : Expr Blank} (h : Phrase l ts e) : P l ts e h :=
  Phrase.rec (motive_1 := P)
    (motive_2 := fun us values _ =>
      Listed (fun ts e => ∃ h : Phrase .assignment ts e, P .assignment ts e h) us values)
    (motive_3 := fun us values _ =>
      Separated (fun ts e => ∃ h : Phrase .assignment ts e, P .assignment ts e h) us values)
    tighter assign setProperty join unary call property literal inherited this reference grouping
    .none (fun _ hle ih => .some ih hle)
    (fun h ih => .last ⟨h, ih⟩) (fun h hc _ ih ihs => .cons ⟨h, ih⟩ hc ihs) h

/-- A mention of a variable is a name, at whatever level it stands. -/
theorem of_reference {l : Level} {ts : List Token} {e : Expr Blank} {r : Reference Blank}
    (h : Phrase l ts e) (he : e = .reference r) : r.token.kind = .identifier ∧ ts = [r.token] := by
  induction h using induct with
  | tighter _ _ ih => exact ih he
  | reference hk =>
    cases he
    exact ⟨hk, rfl⟩
  | @join l => cases l <;> cases he
  | _ => cases he

/-- The mention of a property ends in a dot and its name, at whatever level it stands. -/
theorem of_property {l : Level} {ts : List Token} {e object : Expr Blank} {name : Token}
    (h : Phrase l ts e) (he : e = .property object name) :
    ∃ us dot, ts = us ++ [dot, name] ∧ Phrase .call us object ∧ dot.kind = .dot ∧
      name.kind = .identifier := by
  induction h using induct with
  | tighter _ _ ih => exact ih he
  | property hobject hdot hname =>
    cases he
    exact ⟨_, _, rfl, hobject, hdot, hname⟩
  | @join l => cases l <;> cases he
  | _ => cases he

/-- An expression begins with one of a few kinds of token; only from the level of prefix operators
on can it begin with such an operator. -/
theorem head {l : Level} {ts : List Token} {e : Expr Blank} (h : Phrase l ts e) :
    ∃ t us, ts = t :: us ∧ (t.kind ∈ operandStarters ∨
      Level.unary.height ≤ l.height ∧ (t.kind = .bang ∨ t.kind = .minus)) := by
  induction h using induct with
  | tighter hl _ ih =>
    obtain ⟨t, us, rfl, h | ⟨hle, h⟩⟩ := ih
    · exact ⟨t, us, rfl, .inl h⟩
    · exact ⟨t, us, rfl, .inr ⟨by rw [Level.height_of_tighter? hl]; omega, h⟩⟩
  | assign hn => exact ⟨_, _, rfl, .inl (by simp [hn, operandStarters])⟩
  | setProperty _ _ _ _ _ ih =>
    obtain ⟨t, us, rfl, h | ⟨hle, h⟩⟩ := ih
    · exact ⟨t, _, rfl, .inl h⟩
    · exact absurd hle (by decide)
  | join _ _ _ _ ih =>
    obtain ⟨t, us, rfl, h⟩ := ih
    exact ⟨t, _, rfl, h⟩
  | unary ho => exact ⟨_, _, rfl, .inr ⟨Nat.le_refl _, ho⟩⟩
  | call _ _ _ _ ih =>
    obtain ⟨t, us, rfl, h⟩ := ih
    exact ⟨t, _, rfl, h⟩
  | property _ _ _ ih =>
    obtain ⟨t, us, rfl, h⟩ := ih
    exact ⟨t, _, rfl, h⟩
  | @literal t value h =>
    refine ⟨t, [], rfl, .inl ?_⟩
    rw [literalOf?] at h
    split at h <;> simp_all [operandStarters]
  | inherited hk => exact ⟨_, _, rfl, .inl (by simp [hk, operandStarters])⟩
  | this hk => exact ⟨_, _, rfl, .inl (by simp [hk, operandStarters])⟩
  | reference hk => exact ⟨_, _, rfl, .inl (by simp [hk, operandStarters])⟩
  | grouping hk => exact ⟨_, _, rfl, .inl (by simp [hk, operandStarters])⟩

/-- The kinds of token that an expression can begin with, whatever its level. -/
theorem head_mem {l : Level} {ts : List Token} {e : Expr Blank} (h : Phrase l ts e) :
    ∃ t us, ts = t :: us ∧ t.kind ∈ .bang :: .minus :: operandStarters := by
  obtain ⟨t, us, rfl, h | ⟨-, h⟩⟩ := h.head
  · exact ⟨t, us, rfl, by simp [h]⟩
  · exact ⟨t, us, rfl, by rcases h with h | h <;> simp [h]⟩

end Phrase

/-- Expressions at the loosest level. -/
abbrev Expression : List Token → Expr Blank → Prop := Phrase .assignment

/-! ### Statements -/

/-- Where an `else` behind a statement would belong: to an `if` outside of it, or to one inside. -/
inductive Tail where
  | closed
  | dangling
  deriving DecidableEq, Repr

/-- The tree of a `for` loop. Without a condition it goes on for ever; the increment comes after the
body in a block of their own; the initializer stands in a block around the loop. -/
def forTree (initial : Option (Stmt Blank)) (condition increment : Option (Expr Blank))
    (body : Stmt Blank) : Stmt Blank :=
  let test := condition.getD (.literal (.bool true))
  match initial, increment with
  | none, none => .loop test body
  | none, some e => .loop test (.block [body, .expression e])
  | some s, none => .block [s, .loop test body]
  | some s, some e => .block [s, .loop test (.block [body, .expression e])]

/-- A variable declaration from its name on. -/
inductive Variable : List Token → Stmt Blank → Prop where
  | plain {name semicolon : Token} :
      name.kind = .identifier → semicolon.kind = .semicolon →
      Variable [name, semicolon] (.declare name none)
  | initialized {name equals semicolon : Token} {ts : List Token} {initial : Expr Blank} :
      name.kind = .identifier → equals.kind = .equal → Expression ts initial →
      semicolon.kind = .semicolon →
      Variable (name :: equals :: ts ++ [semicolon]) (.declare name (some initial))

/-- The first clause of a `for` loop, with its semicolon. -/
inductive Initializer : List Token → Option (Stmt Blank) → Prop where
  | none {semicolon : Token} : semicolon.kind = .semicolon → Initializer [semicolon] none
  | declare {word : Token} {ts : List Token} {s : Stmt Blank} :
      word.kind = .varWord → Variable ts s → Initializer (word :: ts) (some s)
  | expression {ts : List Token} {semicolon : Token} {e : Expr Blank} :
      Expression ts e → semicolon.kind = .semicolon →
      Initializer (ts ++ [semicolon]) (some (.expression e))

/-- The superclass clause of a class. -/
inductive Superclass : List Token → Option (Reference Blank) → Prop where
  | none : Superclass [] none
  | some {less name : Token} :
      less.kind = .less → name.kind = .identifier → Superclass [less, name] (some ⟨name, ()⟩)

mutual

/-- The derivation of statements that declare nothing. -/
inductive Statement : Tail → List Token → Stmt Blank → Prop where
  | expression {ts : List Token} {semicolon : Token} {e : Expr Blank} :
      Expression ts e → semicolon.kind = .semicolon →
      Statement .closed (ts ++ [semicolon]) (.expression e)
  | print {word semicolon : Token} {ts : List Token} {e : Expr Blank} :
      word.kind = .printWord → Expression ts e → semicolon.kind = .semicolon →
      Statement .closed (word :: ts ++ [semicolon]) (.print e)
  | giveBack {word semicolon : Token} {ts : List Token} {value : Option (Expr Blank)} :
      word.kind = .returnWord → Possibly Expression ts value → semicolon.kind = .semicolon →
      Statement .closed (word :: ts ++ [semicolon]) (.giveBack word value)
  | block {opening closing : Token} {ts : List Token} {body : List (Stmt Blank)} :
      opening.kind = .leftBrace → Sequence Declaration ts body → closing.kind = .rightBrace →
      Statement .closed (opening :: ts ++ [closing]) (.block body)
  | ifThen {word opening closing : Token} {tail : Tail} {ts us : List Token} {test : Expr Blank}
      {whenTrue : Stmt Blank} :
      word.kind = .ifWord → opening.kind = .leftParen → Expression ts test →
      closing.kind = .rightParen → Statement tail us whenTrue →
      Statement .dangling (word :: opening :: ts ++ closing :: us) (.branch test whenTrue none)
  | ifElse {word opening closing other : Token} {tail : Tail} {ts us vs : List Token}
      {test : Expr Blank} {whenTrue whenFalse : Stmt Blank} :
      word.kind = .ifWord → opening.kind = .leftParen → Expression ts test →
      closing.kind = .rightParen → Statement .closed us whenTrue → other.kind = .elseWord →
      Statement tail vs whenFalse →
      Statement tail (word :: opening :: ts ++ closing :: us ++ other :: vs)
        (.branch test whenTrue (some whenFalse))
  | loop {word opening closing : Token} {tail : Tail} {ts us : List Token} {test : Expr Blank}
      {body : Stmt Blank} :
      word.kind = .whileWord → opening.kind = .leftParen → Expression ts test →
      closing.kind = .rightParen → Statement tail us body →
      Statement tail (word :: opening :: ts ++ closing :: us) (.loop test body)
  | forLoop {word opening semicolon closing : Token} {tail : Tail} {ts us vs ws : List Token}
      {initial : Option (Stmt Blank)} {condition increment : Option (Expr Blank)}
      {body : Stmt Blank} :
      word.kind = .forWord → opening.kind = .leftParen → Initializer ts initial →
      Possibly Expression us condition → semicolon.kind = .semicolon →
      Possibly Expression vs increment → closing.kind = .rightParen → Statement tail ws body →
      Statement tail (word :: opening :: ts ++ us ++ semicolon :: vs ++ closing :: ws)
        (forTree initial condition increment body)

/-- The derivation of declarations and statements. -/
inductive Declaration : List Token → Stmt Blank → Prop where
  | statement {tail : Tail} {ts : List Token} {s : Stmt Blank} :
      Statement tail ts s → Declaration ts s
  | declare {word : Token} {ts : List Token} {s : Stmt Blank} :
      word.kind = .varWord → Variable ts s → Declaration (word :: ts) s
  | function {word : Token} {ts : List Token} {r : Routine Blank} :
      word.kind = .funWord → Routined ts r → Declaration (word :: ts) (.function r)
  | klass {word name opening closing : Token} {ts us : List Token}
      {superclass : Option (Reference Blank)} {methods : List (Routine Blank)} :
      word.kind = .classWord → name.kind = .identifier → Superclass ts superclass →
      opening.kind = .leftBrace → Sequence Routined us methods → closing.kind = .rightBrace →
      Declaration (word :: name :: ts ++ opening :: us ++ [closing])
        (.klass name superclass methods)

/-- The derivation of functions and methods from their names on. -/
inductive Routined : List Token → Routine Blank → Prop where
  | mk {name openParen closeParen openBrace closeBrace : Token} {ts us : List Token}
      {params : List Token} {body : List (Stmt Blank)} :
      name.kind = .identifier → openParen.kind = .leftParen → Listed Name ts params →
      closeParen.kind = .rightParen → openBrace.kind = .leftBrace →
      Sequence Declaration us body → closeBrace.kind = .rightBrace →
      Routined (name :: openParen :: ts ++ closeParen :: openBrace :: us ++ [closeBrace])
        (.mk name params body)

end

/-- **Induction over the derivation of statements.** Of every declaration in a block or a body, and
of every method of a class, the hypothesis is at hand together with its derivation. -/
theorem Declaration.induct {P : Tail → List Token → Stmt Blank → Prop}
    {Q : List Token → Stmt Blank → Prop} {R : List Token → Routine Blank → Prop}
    (expression : ∀ {ts} {semicolon : Token} {e}, Expression ts e → semicolon.kind = .semicolon →
      P .closed (ts ++ [semicolon]) (.expression e))
    (print : ∀ {word semicolon : Token} {ts e}, word.kind = .printWord → Expression ts e →
      semicolon.kind = .semicolon → P .closed (word :: ts ++ [semicolon]) (.print e))
    (giveBack : ∀ {word semicolon : Token} {ts value}, word.kind = .returnWord →
      Possibly Expression ts value → semicolon.kind = .semicolon →
      P .closed (word :: ts ++ [semicolon]) (.giveBack word value))
    (block : ∀ {opening closing : Token} {ts body}, opening.kind = .leftBrace →
      Sequence (fun ts s => Declaration ts s ∧ Q ts s) ts body → closing.kind = .rightBrace →
      P .closed (opening :: ts ++ [closing]) (.block body))
    (ifThen : ∀ {word opening closing : Token} {tail ts us test whenTrue}, word.kind = .ifWord →
      opening.kind = .leftParen → Expression ts test → closing.kind = .rightParen →
      Statement tail us whenTrue → P tail us whenTrue →
      P .dangling (word :: opening :: ts ++ closing :: us) (.branch test whenTrue none))
    (ifElse : ∀ {word opening closing other : Token} {tail ts us vs test whenTrue whenFalse},
      word.kind = .ifWord → opening.kind = .leftParen → Expression ts test →
      closing.kind = .rightParen → Statement .closed us whenTrue → other.kind = .elseWord →
      Statement tail vs whenFalse → P .closed us whenTrue → P tail vs whenFalse →
      P tail (word :: opening :: ts ++ closing :: us ++ other :: vs)
        (.branch test whenTrue (some whenFalse)))
    (loop : ∀ {word opening closing : Token} {tail ts us test body}, word.kind = .whileWord →
      opening.kind = .leftParen → Expression ts test → closing.kind = .rightParen →
      Statement tail us body → P tail us body →
      P tail (word :: opening :: ts ++ closing :: us) (.loop test body))
    (forLoop : ∀ {word opening semicolon closing : Token}
      {tail ts us vs ws initial condition increment body}, word.kind = .forWord →
      opening.kind = .leftParen → Initializer ts initial → Possibly Expression us condition →
      semicolon.kind = .semicolon → Possibly Expression vs increment →
      closing.kind = .rightParen → Statement tail ws body → P tail ws body →
      P tail (word :: opening :: ts ++ us ++ semicolon :: vs ++ closing :: ws)
        (forTree initial condition increment body))
    (statement : ∀ {tail ts s}, Statement tail ts s → P tail ts s → Q ts s)
    (declare : ∀ {word : Token} {ts s}, word.kind = .varWord → Variable ts s → Q (word :: ts) s)
    (function : ∀ {word : Token} {ts r}, word.kind = .funWord → Routined ts r → R ts r →
      Q (word :: ts) (.function r))
    (klass : ∀ {word name opening closing : Token} {ts us superclass methods},
      word.kind = .classWord → name.kind = .identifier → Superclass ts superclass →
      opening.kind = .leftBrace → Sequence (fun ts r => Routined ts r ∧ R ts r) us methods →
      closing.kind = .rightBrace →
      Q (word :: name :: ts ++ opening :: us ++ [closing]) (.klass name superclass methods))
    (routine : ∀ {name openParen closeParen openBrace closeBrace : Token} {ts us params body},
      name.kind = .identifier → openParen.kind = .leftParen → Listed Name ts params →
      closeParen.kind = .rightParen → openBrace.kind = .leftBrace →
      Sequence (fun ts s => Declaration ts s ∧ Q ts s) us body → closeBrace.kind = .rightBrace →
      R (name :: openParen :: ts ++ closeParen :: openBrace :: us ++ [closeBrace])
        (.mk name params body))
    {ts : List Token} {s : Stmt Blank} (h : Declaration ts s) : Q ts s :=
  Declaration.rec (motive_1 := fun tail ts s _ => P tail ts s) (motive_2 := fun ts s _ => Q ts s)
    (motive_3 := fun ts r _ => R ts r)
    (motive_4 := fun ts body _ => Sequence (fun ts s => Declaration ts s ∧ Q ts s) ts body)
    (motive_5 := fun ts methods _ => Sequence (fun ts r => Routined ts r ∧ R ts r) ts methods)
    expression print giveBack
    (fun ho _ hc ih => block ho ih hc)
    (fun hw ho ht hc h ih => ifThen hw ho ht hc h ih)
    (fun hw ho ht hc h hother h' ih ih' => ifElse hw ho ht hc h hother h' ih ih')
    (fun hw ho ht hc h ih => loop hw ho ht hc h ih)
    (fun hw ho hi hcond hs hincr hc h ih => forLoop hw ho hi hcond hs hincr hc h ih)
    (fun h ih => statement h ih) declare (fun hw h ih => function hw h ih)
    (fun hw hn hs ho _ hc ih => klass hw hn hs ho ih hc)
    (fun hn hop hp hcp hob _ hcb ih => routine hn hop hp hcp hob ih hcb)
    .nil (fun h _ ih ihs => .cons ⟨h, ih⟩ ihs) .nil (fun h _ ih ihs => .cons ⟨h, ih⟩ ihs) h

/-- The derivation of programs. -/
abbrev Program : List Token → List (Stmt Blank) → Prop := Sequence Declaration

end LoxInterpreter.Grammar
