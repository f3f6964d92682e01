import LoxInterpreter.Proofs.Grammar
import Mathlib.Computability.Language

/-!
# The loose grammar

What a program looks like, told by rules that derive no trees. They are loose where the parser goes
on after a mistake: any expression that is no assignment itself may stand to the left of an equals
sign, and there is no limit to arguments and parameters. An `else` may belong to any `if` before it.

* `Symbol` and `rule` are the grammar as data, and `Derives` is what it derives.
* `Symbol.language` is the language of a symbol, and the equations between these languages are
  algebra: `*` for one after the other, `+` for either, `1` for nothing and a star for any number.
-/

namespace LoxInterpreter.Grammar

open Computability

/-! ### Rules -/

/-- The symbols of the grammar. -/
inductive Symbol where
  | expression (level : Level)
  | arguments | parameters | routine | block | variableDeclaration | declaration | statement
  | program
  deriving DecidableEq, Repr

/-- The right side of a rule. -/
inductive Rule where
  /-- A token of one of the kinds. -/
  | token (kinds : List TokenKind)
  | symbol (s : Symbol)
  | nothing
  | next (first second : Rule)
  | either (first second : Rule)
  | many (each : Rule)

namespace Rule

/-- A rule that may be left out. -/
def optional (r : Rule) : Rule := either r nothing

/-- One rule after the other. -/
def sequence : List Rule → Rule
  | [] => nothing
  | [r] => r
  | r :: rest => next r (sequence rest)

/-- One of several rules. -/
def choice (first : Rule) : List Rule → Rule
  | [] => first
  | r :: rest => either first (choice r rest)

end Rule

open Rule in
/-- Operands joined by the operators of a level. -/
def operation (l l' : Level) : Rule :=
  sequence [symbol (.expression l'),
    many (sequence [token l.operators, symbol (.expression l')])]

open Rule in
/-- **The rules.** -/
def rule : Symbol → Rule
  | .expression .assignment =>
    sequence [symbol (.expression .disjunction),
      optional (sequence [token [.equal], symbol (.expression .assignment)])]
  | .expression .disjunction => operation .disjunction .conjunction
  | .expression .conjunction => operation .conjunction .equality
  | .expression .equality => operation .equality .comparison
  | .expression .comparison => operation .comparison .term
  | .expression .term => operation .term .factor
  | .expression .factor => operation .factor .unary
  | .expression .unary =>
    choice (sequence [token [.bang, .minus], symbol (.expression .unary)])
      [symbol (.expression .call)]
  | .expression .call =>
    sequence [symbol (.expression .primary), many (choice
      (sequence [token [.leftParen], optional (symbol .arguments), token [.rightParen]])
      [sequence [token [.dot], token [.identifier]]])]
  | .expression .primary =>
    choice (token [.falseWord, .trueWord, .nilWord, .number, .string, .thisWord, .identifier])
      [sequence [token [.superWord], token [.dot], token [.identifier]],
        sequence [token [.leftParen], symbol (.expression .assignment), token [.rightParen]]]
  | .arguments =>
    sequence [symbol (.expression .assignment),
      many (sequence [token [.comma], symbol (.expression .assignment)])]
  | .parameters =>
    sequence [token [.identifier], many (sequence [token [.comma], token [.identifier]])]
  | .routine =>
    sequence [token [.identifier], token [.leftParen], optional (symbol .parameters),
      token [.rightParen], symbol .block]
  | .block => sequence [token [.leftBrace], many (symbol .declaration), token [.rightBrace]]
  | .variableDeclaration =>
    sequence [token [.varWord], token [.identifier],
      optional (sequence [token [.equal], symbol (.expression .assignment)]), token [.semicolon]]
  | .declaration =>
    choice (sequence [token [.classWord], token [.identifier],
        optional (sequence [token [.less], token [.identifier]]), token [.leftBrace],
        many (symbol .routine), token [.rightBrace]])
      [sequence [token [.funWord], symbol .routine], symbol .variableDeclaration, symbol .statement]
  | .statement =>
    choice (sequence [token [.forWord], token [.leftParen],
        choice (token [.semicolon])
          [symbol .variableDeclaration,
            sequence [symbol (.expression .assignment), token [.semicolon]]],
        optional (symbol (.expression .assignment)), token [.semicolon],
        optional (symbol (.expression .assignment)), token [.rightParen], symbol .statement])
      [sequence [token [.ifWord], token [.leftParen], symbol (.expression .assignment),
        token [.rightParen], symbol .statement,
        optional (sequence [token [.elseWord], symbol .statement])],
      sequence [token [.printWord], symbol (.expression .assignment), token [.semicolon]],
      sequence [token [.returnWord], optional (symbol (.expression .assignment)),
        token [.semicolon]],
      sequence [token [.whileWord], token [.leftParen], symbol (.expression .assignment),
        token [.rightParen], symbol .statement],
      symbol .block,
      sequence [symbol (.expression .assignment), token [.semicolon]]]
  | .program => many (symbol .declaration)

/-- What the rules derive. -/
inductive Derives : Rule → List Token → Prop where
  | token {kinds : List TokenKind} {t : Token} : t.kind ∈ kinds → Derives (.token kinds) [t]
  | symbol {s : Symbol} {ts : List Token} : Derives (rule s) ts → Derives (.symbol s) ts
  | nothing : Derives .nothing []
  | next {r q : Rule} {ts us : List Token} :
      Derives r ts → Derives q us → Derives (.next r q) (ts ++ us)
  | left {r q : Rule} {ts : List Token} : Derives r ts → Derives (.either r q) ts
  | right {r q : Rule} {ts : List Token} : Derives q ts → Derives (.either r q) ts
  | none {r : Rule} : Derives (.many r) []
  | more {r : Rule} {ts us : List Token} :
      Derives r ts → Derives (.many r) us → Derives (.many r) (ts ++ us)

/-! ### Languages -/

/-- A set of lists of tokens. -/
abbrev Words := Language Token

/-- What a rule derives. -/
def Rule.language (r : Rule) : Words := {ts | Derives r ts}

/-- What a symbol stands for. -/
def Symbol.language (s : Symbol) : Words := (Rule.symbol s).language

/-- The tokens of some kinds. -/
def oneOf (kinds : List TokenKind) : Words := (Rule.token kinds).language

theorem mem_oneOf {kinds : List TokenKind} {ts : List Token} :
    ts ∈ oneOf kinds ↔ ∃ t, t.kind ∈ kinds ∧ ts = [t] := by
  constructor
  · rintro ⟨ht⟩
    exact ⟨_, ht, rfl⟩
  · rintro ⟨t, ht, rfl⟩
    exact .token ht

namespace Rule

@[simp]
theorem language_token (kinds : List TokenKind) : (token kinds).language = oneOf kinds := rfl

@[simp]
theorem language_symbol (s : Symbol) : (symbol s).language = s.language := rfl

@[simp]
theorem language_nothing : nothing.language = 1 := by
  ext ts
  rw [Language.mem_one]
  constructor
  · rintro ⟨⟩
    rfl
  · rintro rfl
    exact .nothing

@[simp]
theorem language_next (r q : Rule) : (next r q).language = r.language * q.language := by
  ext ts
  rw [Language.mem_mul]
  constructor
  · rintro (_ | _ | _ | ⟨hr, hq⟩)
    exact ⟨_, hr, _, hq, rfl⟩
  · rintro ⟨_, hr, _, hq, rfl⟩
    exact .next hr hq

@[simp]
theorem language_either (r q : Rule) : (either r q).language = r.language + q.language := by
  ext ts
  rw [Language.mem_add]
  constructor
  · intro h
    cases h with
    | left h => exact .inl h
    | right h => exact .inr h
  · rintro (h | h)
    · exact .left h
    · exact .right h

@[simp]
theorem language_many (r : Rule) : (many r).language = r.language∗ := by
  ext ts
  rw [Language.mem_kstar]
  constructor
  · intro h
    generalize hr : many r = q at h
    change Derives q ts at h
    induction h with
    | none => exact ⟨[], rfl, nofun⟩
    | more h _ _ ih =>
      cases hr
      obtain ⟨tss, rfl, htss⟩ := ih rfl
      exact ⟨_ :: tss, rfl, List.forall_mem_cons.mpr ⟨h, htss⟩⟩
    | _ => cases hr
  · rintro ⟨tss, rfl, htss⟩
    induction tss with
    | nil => exact .none
    | cons ts tss ih =>
      obtain ⟨hts, htss⟩ := List.forall_mem_cons.mp htss
      exact .more hts (ih htss)

end Rule

/-- A symbol stands for what its rule derives. -/
theorem language_rule (s : Symbol) : (rule s).language = s.language := by
  ext ts
  constructor
  · exact .symbol
  · rintro ⟨⟩
    assumption

@[simp]
theorem Rule.language_optional (r : Rule) : (Rule.optional r).language = r.language + 1 := by
  rw [Rule.optional, language_either, language_nothing]

/-! ### Equations -/

/-- The expressions of a level. -/
abbrev Level.language (l : Level) : Words := (Symbol.expression l).language

/-- The language of a symbol is that of its rule, which is algebra. -/
theorem language_assignment : Level.assignment.language =
    Level.disjunction.language * (oneOf [.equal] * Level.assignment.language + 1) := by
  refine (language_rule _).symm.trans ?_
  simp [rule, Rule.sequence]

/-- What holds of prefix operators, and of a level with operators if it holds of the next tighter
one, holds of all levels with operators. -/
theorem Level.of_unary {P : Level → Prop} (hunary : P .unary)
    (hoperation : ∀ {l l' : Level}, l.tighter? = some l' → l.operators ≠ [] → P l' → P l)
    (l : Level) (ho : l.operators ≠ []) : P l := by
  have hfactor : P .factor := hoperation rfl (by decide) hunary
  have hterm : P .term := hoperation rfl (by decide) hfactor
  have hcomparison : P .comparison := hoperation rfl (by decide) hterm
  have hequality : P .equality := hoperation rfl (by decide) hcomparison
  have hconjunction : P .conjunction := hoperation rfl (by decide) hequality
  have hdisjunction : P .disjunction := hoperation rfl (by decide) hconjunction
  cases l <;> first | assumption | exact absurd rfl ho

/-- A level with operators joins operands of the next tighter one. -/
theorem language_operation {l l' : Level} (hl : l.tighter? = some l') (ho : l.operators ≠ []) :
    l.language = l'.language * (oneOf l.operators * l'.language)∗ := by
  have hrule : rule (.expression l) = operation l l' := by
    cases l <;> cases hl <;> first | rfl | exact absurd rfl ho
  refine (language_rule _).symm.trans ?_
  simp [hrule, operation, Rule.sequence]

theorem language_unary : Level.unary.language =
    oneOf [.bang, .minus] * Level.unary.language + Level.call.language := by
  refine (language_rule _).symm.trans ?_
  simp [rule, Rule.sequence, Rule.choice]

/-- An argument list or a property name, which may follow the operand of a call. -/
def postfixLanguage : Words :=
  oneOf [.leftParen] * ((Symbol.arguments.language + 1) * oneOf [.rightParen]) +
    oneOf [.dot] * oneOf [.identifier]

theorem language_call :
    Level.call.language = Level.primary.language * postfixLanguage∗ := by
  refine (language_rule _).symm.trans ?_
  simp [rule, Rule.sequence, Rule.choice, postfixLanguage]

theorem language_primary : Level.primary.language =
    oneOf [.falseWord, .trueWord, .nilWord, .number, .string, .thisWord, .identifier] +
      (oneOf [.superWord] * (oneOf [.dot] * oneOf [.identifier]) +
        oneOf [.leftParen] * (Level.assignment.language * oneOf [.rightParen])) := by
  refine (language_rule _).symm.trans ?_
  simp [rule, Rule.sequence, Rule.choice]

theorem language_arguments : Symbol.arguments.language =
    Level.assignment.language * (oneOf [.comma] * Level.assignment.language)∗ := by
  refine (language_rule _).symm.trans ?_
  simp [rule, Rule.sequence]

theorem language_parameters : Symbol.parameters.language =
    oneOf [.identifier] * (oneOf [.comma] * oneOf [.identifier])∗ := by
  refine (language_rule _).symm.trans ?_
  simp [rule, Rule.sequence]

theorem language_block : Symbol.block.language =
    oneOf [.leftBrace] * (Symbol.declaration.language∗ * oneOf [.rightBrace]) := by
  refine (language_rule _).symm.trans ?_
  simp [rule, Rule.sequence]

theorem language_routine : Symbol.routine.language =
    oneOf [.identifier] * (oneOf [.leftParen] * ((Symbol.parameters.language + 1) *
      (oneOf [.rightParen] * Symbol.block.language))) := by
  refine (language_rule _).symm.trans ?_
  simp [rule, Rule.sequence]

/-- A variable declaration from its name on. -/
def variableLanguage : Words :=
  oneOf [.identifier] * ((oneOf [.equal] * Level.assignment.language + 1) * oneOf [.semicolon])

theorem language_variable :
    Symbol.variableDeclaration.language = oneOf [.varWord] * variableLanguage := by
  refine (language_rule _).symm.trans ?_
  simp [rule, Rule.sequence, variableLanguage]

/-- A class from its name on. -/
def classLanguage : Words :=
  oneOf [.identifier] * ((oneOf [.less] * oneOf [.identifier] + 1) *
    (oneOf [.leftBrace] * (Symbol.routine.language∗ * oneOf [.rightBrace])))

theorem language_declaration : Symbol.declaration.language =
    oneOf [.classWord] * classLanguage + (oneOf [.funWord] * Symbol.routine.language +
      (Symbol.variableDeclaration.language + Symbol.statement.language)) := by
  refine (language_rule _).symm.trans ?_
  simp [rule, Rule.sequence, Rule.choice, classLanguage]

/-- An expression as a statement. -/
def expressionLanguage : Words := Level.assignment.language * oneOf [.semicolon]

/-- What may stand in a `for` statement before its condition. -/
def initializerLanguage : Words :=
  oneOf [.semicolon] + (Symbol.variableDeclaration.language + expressionLanguage)

/-- A `for` statement from its opening parenthesis on. -/
def forLanguage : Words :=
  oneOf [.leftParen] * (initializerLanguage * ((Level.assignment.language + 1) *
    (oneOf [.semicolon] * ((Level.assignment.language + 1) *
      (oneOf [.rightParen] * Symbol.statement.language)))))

/-- An `if` statement from its opening parenthesis on. -/
def ifLanguage : Words :=
  oneOf [.leftParen] * (Level.assignment.language * (oneOf [.rightParen] *
    (Symbol.statement.language * (oneOf [.elseWord] * Symbol.statement.language + 1))))

/-- A `while` statement from its opening parenthesis on. -/
def whileLanguage : Words :=
  oneOf [.leftParen] * (Level.assignment.language * (oneOf [.rightParen] *
    Symbol.statement.language))

/-- A `return` statement from its value on. -/
def returnLanguage : Words := (Level.assignment.language + 1) * oneOf [.semicolon]

theorem language_statement : Symbol.statement.language =
    oneOf [.forWord] * forLanguage + (oneOf [.ifWord] * ifLanguage +
      (oneOf [.printWord] * expressionLanguage + (oneOf [.returnWord] * returnLanguage +
        (oneOf [.whileWord] * whileLanguage +
          (Symbol.block.language + expressionLanguage))))) := by
  refine (language_rule _).symm.trans ?_
  simp [rule, Rule.sequence, Rule.choice, forLanguage, ifLanguage, whileLanguage, returnLanguage,
    expressionLanguage, initializerLanguage]

theorem language_program : Symbol.program.language = Symbol.declaration.language∗ := by
  refine (language_rule _).symm.trans ?_
  simp [rule]

theorem postfixLanguage_kstar : postfixLanguage∗ =
    oneOf [.leftParen] *
        ((Symbol.arguments.language + 1) * (oneOf [.rightParen] * postfixLanguage∗)) +
      (oneOf [.dot] * (oneOf [.identifier] * postfixLanguage∗) + 1) := by
  nth_rewrite 1 [← Language.one_add_self_mul_kstar_eq_kstar]
  nth_rewrite 1 [postfixLanguage]
  simp only [add_mul, mul_assoc, add_assoc, add_comm]

/-- Once around a loop, or its end. -/
theorem kstar_oneOf_mul (kinds : List TokenKind) (L : Words) :
    (oneOf kinds * L)∗ = oneOf kinds * (L * (oneOf kinds * L)∗) + 1 := by
  rw [← mul_assoc, add_comm, Language.one_add_self_mul_kstar_eq_kstar]

end LoxInterpreter.Grammar
