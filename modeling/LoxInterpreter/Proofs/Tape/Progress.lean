import LoxInterpreter.Proofs.Grammar.Earliest
import LoxInterpreter.Proofs.Scan.Token
import LoxInterpreter.Proofs.Tape.Follows

/-!
# Parsing gets through every tape

The parsers on the tape follow their counterparts on the list, one law for each in the order of the
grammar. Hence parsing a tape comes to an end whatever is on it, the loops over declarations and
methods get ahead with every pass, and the head neither leaves the tape nor looks in front of it
(`parse_gets_through`).
-/

namespace LoxInterpreter.Tape

open Parse (expect)

variable {α β : Type} {S : Setting}

/-- A phrase, and others behind a comma. -/
theorem tracks_separated {item : Parse α} {item' : Reader α} {more : Parse (List α)}
    {more' : Reader (List α)} (hitem : Tracks S 0 item item') (hmore : Tracks S 0 more more') :
    Tracks S 0
      (do
        let a ← item
        match ← Parse.accept [.comma] with
        | some _ => return a :: (← more)
        | none => return [a])
      (do
        let a ← item'
        if ← accept [.comma] then return a :: (← more') else return [a]) :=
  hitem.bind fun a => follows_accept_bind
    (fun _ => hmore.any.bind fun as => .pure (a :: as)) (.pure [a])

theorem tracks_consume (kind : TokenKind) (cause : SyntaxError) :
    Tracks S 1 (expect kind cause) (consume kind cause) := by
  rw [← bind_pure (expect kind cause), ← bind_pure (consume kind cause)]
  exact follows_consume_bind fun t => .pure t

/-! ### Expressions -/

section Levels

variable {nested : Parse (Expr Blank)} {nested' : Reader (Expr Blank)}

theorem tracks_arguments (h : Tracks S 0 nested nested') (bound count : Nat) :
    Tracks S 0 (Parse.arguments nested bound count) (arguments nested' bound count) := by
  induction bound generalizing count with
  | zero => exact .stuck
  | succ bound ih =>
    have hrest := tracks_separated h (ih (count + 1))
    rw [Parse.arguments, arguments]
    dsimp only
    split
    · exact follows_peek_bind fun o => (tracks_error o _).bind fun _ => hrest
    · exact hrest

theorem tracks_primary (h : Tracks S 0 nested nested') :
    Tracks S 0 (Parse.primary nested) (primary nested') := by
  refine follows_choose (tracks_raise _) fun t => ?_
  cases t.kind
  case falseWord | trueWord | nilWord => exact .some (.pure _)
  case number | string | thisWord | identifier => exact .some (follows_previous_bind (.pure _))
  case superWord =>
    exact .some (follows_previous_bind (follows_consume_bind fun _ =>
      follows_consume_bind fun method => .pure _))
  case leftParen =>
    exact .some (h.any.bind fun inner => follows_consume_bind fun _ => .pure (Expr.grouping inner))
  all_goals exact .none

theorem tracks_postfixes (h : Tracks S 0 nested nested') (bound : Nat) (callee : Expr Blank) :
    Tracks S 0 (Parse.postfixes nested bound callee) (postfixes nested' bound callee) := by
  induction bound generalizing callee with
  | zero => exact .stuck
  | succ bound ih =>
    rw [Parse.postfixes, Parse.accept_bind_eq_dispatch, postfixes]
    refine follows_choose (.pure callee) fun t => ?_
    dsimp only
    cases t.kind
    case leftParen =>
      exact .some (follows_check_bind fun b => .ite_bind (.pure []) (tracks_arguments h _ 0).any
        fun values => follows_consume_bind fun paren => (ih (.call callee paren values)).any)
    case dot => exact .some (follows_consume_bind fun name => (ih (.property callee name)).any)
    all_goals exact .none

theorem tracks_unary (h : Tracks S 0 nested nested') (bound more : Nat) :
    Tracks S 0 (Parse.unary nested bound more) (unary nested' bound more) := by
  induction more with
  | zero => exact .stuck
  | succ more ih =>
    rw [Parse.unary, unary]
    exact follows_accept_bind
      (fun op => follows_previous_bind (ih.any.bind fun operand => .pure (Expr.unary op operand)))
      ((tracks_primary h).bind fun callee => tracks_postfixes h bound callee)

theorem tracks_operands (kinds : List TokenKind)
    (node : Expr Blank → Token → Expr Blank → Expr Blank) (h : Tracks S 0 nested nested')
    (bound : Nat) (left : Expr Blank) :
    Tracks S 0 (Parse.operands kinds node nested bound left)
      (operands kinds node nested' bound left) := by
  induction bound generalizing left with
  | zero => exact .stuck
  | succ bound ih =>
    rw [Parse.operands, operands]
    exact follows_accept_bind
      (fun op => follows_previous_bind (h.any.bind fun right => ih (node left op right)))
      (.pure left)

theorem tracks_leftAssociative (kinds : List TokenKind)
    (node : Expr Blank → Token → Expr Blank → Expr Blank) (bound : Nat)
    (h : Tracks S 0 nested nested') :
    Tracks S 0 (Parse.leftAssociative kinds node bound nested)
      (leftAssociative kinds node bound nested') :=
  h.bind fun left => tracks_operands kinds node h bound left

theorem tracks_disjunction (h : Tracks S 0 nested nested') (bound : Nat) :
    Tracks S 0 (Parse.disjunction nested bound) (disjunction nested' bound) := by
  have hfactor := tracks_leftAssociative [.slash, .star] .binary bound (tracks_unary h bound bound)
  have hterm := tracks_leftAssociative [.minus, .plus] .binary bound hfactor
  have hcomparison := tracks_leftAssociative [.greater, .greaterEqual, .less, .lessEqual] .binary
    bound hterm
  have hequality := tracks_leftAssociative [.bangEqual, .equalEqual] .binary bound hcomparison
  have hconjunction := tracks_leftAssociative [.andWord] .logical bound hequality
  exact tracks_leftAssociative [.orWord] .logical bound hconjunction

theorem tracks_assignment (h : Tracks S 0 nested nested') (bound : Nat) :
    Tracks S 0 (Parse.assignment nested bound) (assignment nested' bound) := by
  refine (tracks_disjunction h bound).bind fun target => follows_accept_bind (fun equals =>
    follows_previous_bind (h.any.bind fun value => ?_)) (.pure target)
  cases target
  case reference r => exact .pure (Expr.assign r value)
  case property object name => exact .pure (Expr.setProperty object name value)
  all_goals exact (tracks_error (some equals) .invalidTarget).bind fun _ => .pure _

end Levels

theorem tracks_expressionAt (n : Nat) :
    Tracks S 0 (Parse.expressionAt n) (expressionAt n) := by
  induction n with
  | zero => exact .stuck
  | succ n ih => exact tracks_assignment ih (n + 1)

/-! ### Statements -/

theorem tracks_parameters (bound count : Nat) :
    Tracks S 0 (Parse.parameters bound count) (parameters bound count) := by
  induction bound generalizing count with
  | zero => exact .stuck
  | succ bound ih =>
    have hrest := tracks_separated ((tracks_consume .identifier .paramName).weaken (Nat.zero_le 1))
      (ih (count + 1))
    rw [Parse.parameters, parameters]
    dsimp only
    split
    · exact follows_peek_bind fun o => (tracks_error o _).bind fun _ => hrest
    · exact hrest

variable (S) in
/-- The parts on the tape follow those on the list. Statements get ahead in any case, declarations
unless they begin at the end. -/
structure Parts.Follow (p : Parse.Parts) (p' : Parts) : Prop where
  expression : Tracks S 0 p.expression p'.expression
  statement : Tracks S 1 p.statement p'.statement
  declaration :
    Follows S (fun s => s.position < S.body.length) 1 p.declaration p'.declaration
  bound : p'.bound = p.bound

/-- The end of the text, or a token of one of the kinds, is next. -/
def endsAt (closing : List TokenKind) (c : Cursor) : Bool :=
  c.rest.head?.all fun t => t.kind ∈ closing

theorem endsAt_of_nil (closing : List TokenKind) {c : Cursor} (hc : c.rest = []) :
    endsAt closing c := by
  rw [endsAt, hc]
  rfl

theorem declarations_succ (d : Parse (Stmt Blank)) (closing : List TokenKind) (n : Nat)
    (c : Cursor) : Parse.declarations d closing (n + 1) c = if endsAt closing c then .ok [] c else
      (d >>= fun a => Parse.declarations d closing n >>= fun as => pure (a :: as)) c := by
  obtain ⟨rest, mistakes⟩ := c
  cases rest with
  | nil => rfl
  | cons t rest =>
    show (if t.kind ∈ closing then _ else _ : Parse _) _ =
      if decide (t.kind ∈ closing) = true then _ else _
    by_cases ht : t.kind ∈ closing
    · rw [if_pos ht, if_pos (decide_eq_true ht)]
      rfl
    · rw [if_neg ht, if_neg (by simpa using ht)]

theorem decide_mem_rightBrace (k : TokenKind) :
    decide (k ∈ [TokenKind.rightBrace]) = decide (k = .rightBrace) :=
  decide_eq_decide.mpr List.mem_singleton

theorem methods_succ (p : Parse.Parts) (n : Nat) (c : Cursor) :
    Parse.methods p (n + 1) c = if endsAt [.rightBrace] c then .ok [] c else
      (Parse.routine p .method >>= fun a => Parse.methods p n >>= fun as => pure (a :: as)) c := by
  obtain ⟨rest, mistakes⟩ := c
  cases rest with
  | nil => rfl
  | cons t rest =>
    show (if (decide (t.kind = .rightBrace) || false) = true then _ else _ : Parse _) _ =
      if decide (t.kind ∈ [TokenKind.rightBrace]) = true then _ else _
    rw [Bool.or_false, decide_mem_rightBrace]
    split <;> rfl

theorem Stands.atEnd_eq_endsAt {s : Head} {c : Cursor} (hs : Stands S s c) :
    atEnd s = .ok (endsAt [] c) s := by
  rw [hs.atEnd_eq, endsAt]
  cases c.rest with
  | nil => rfl
  | cons t rest =>
    have hkind : decide (t.kind ∈ []) = false := decide_eq_false List.not_mem_nil
    exact congrArg (EStateM.Result.ok · s) hkind.symm

theorem Stands.closes_eq {s : Head} {c : Cursor} (hs : Stands S s c) :
    closes s = .ok (endsAt [.rightBrace] c) s := by
  show EStateM.bind (check .rightBrace) _ s = _
  rw [EStateM.bind, hs.check_eq, endsAt]
  cases hc : c.rest with
  | nil =>
    show atEnd s = _
    rw [hs.atEnd_eq, hc]
    rfl
  | cons t rest =>
    rw [List.head?_cons, Option.any_some, Option.all_some, decide_mem_rightBrace]
    dsimp only
    cases decide (t.kind = .rightBrace) with
    | true => rfl
    | false =>
      show atEnd s = _
      rw [hs.atEnd_eq, hc]
      rfl

/-- The loop over the declarations of a block, or of a program. -/
theorem tracks_declarations {d : Parse (Stmt Blank)} {d' : Reader (Stmt Blank)}
    {closing : List TokenKind} {done : Reader Bool}
    (hdone : ∀ s c, Stands S s c → done s = .ok (endsAt closing c) s)
    (hd : Follows S (fun s => s.position < S.body.length) 1 d d') (bound : Nat) :
    Tracks S 0 (Parse.declarations d closing bound) (passes done d' bound) :=
  tracks_passes rfl (declarations_succ d closing) hdone (fun _ => endsAt_of_nil closing) hd bound

section Rules

variable {p : Parse.Parts} {p' : Parts}

theorem tracks_blockBody (h : Parts.Follow S p p') :
    Tracks S 0 (Parse.blockBody p) (blockBody p') := by
  rw [Parse.blockBody, blockBody, h.bound]
  exact (tracks_declarations (fun _ _ hs => hs.closes_eq) h.declaration p.bound).bind
    fun body => follows_consume_bind fun _ => .pure body

theorem tracks_routine (h : Parts.Follow S p p') (kind : RoutineKind) :
    Tracks S 1 (Parse.routine p kind) (routine p' kind) := by
  rw [Parse.routine, routine, h.bound]
  refine follows_consume_bind fun name => follows_consume_bind fun _ =>
    follows_check_bind fun b => .ite_bind (.pure []) (tracks_parameters p.bound 0).any fun params =>
    follows_consume_bind fun _ => follows_consume_bind fun _ =>
    (tracks_blockBody h).any.bind fun body => ?_
  exact .pure (Routine.mk name params body)

/-- **The loop over the methods of a class.** Each pass consumes the name of a method. -/
theorem tracks_methods (h : Parts.Follow S p p') (bound : Nat) :
    Tracks S 0 (Parse.methods p bound) (passes closes (routine p' .method) bound) :=
  tracks_passes rfl (methods_succ p) (fun _ _ hs => hs.closes_eq) (fun _ => endsAt_of_nil _)
    (tracks_routine h .method).any bound

theorem tracks_classDeclaration (h : Parts.Follow S p p') :
    Tracks S 0 (Parse.classDeclaration p) (classDeclaration p') := by
  rw [Parse.classDeclaration, classDeclaration, h.bound]
  have hrest (name : Token) (superclass : Option (Reference Blank)) : Tracks S 0
      (do
        let _ ← expect .leftBrace .classOpen
        let members ← Parse.methods p p.bound
        let _ ← expect .rightBrace .classClose
        return Stmt.klass name superclass members)
      (do
        let _ ← consume .leftBrace .classOpen
        let members ← passes closes (routine p' .method) p.bound
        let _ ← consume .rightBrace .classClose
        return Stmt.klass name superclass members) :=
    follows_consume_bind fun _ => (tracks_methods h p.bound).any.bind fun members =>
      follows_consume_bind fun _ => .pure (Stmt.klass name superclass members)
  refine follows_consume_bind fun name => follows_accept_bind (fun _ => ?_) (hrest name none).any
  exact follows_consume_bind fun token => follows_previous_bind (hrest name (some ⟨token, ()⟩)).any

theorem tracks_variableDeclaration (h : Parts.Follow S p p') :
    Tracks S 0 (Parse.variableDeclaration p) (variableDeclaration p') := by
  have hrest (name : Token) (initial : Option (Expr Blank)) : Tracks S 0
      (do
        let _ ← expect .semicolon .declarationEnd
        return Stmt.declare name initial)
      (do
        let _ ← consume .semicolon .declarationEnd
        return Stmt.declare name initial) :=
    follows_consume_bind fun _ => .pure (Stmt.declare name initial)
  refine follows_consume_bind fun name => follows_accept_bind (fun _ => ?_) (hrest name none).any
  exact (h.expression.map some).any.bind (hrest name)

theorem tracks_expressionStatement (h : Parts.Follow S p p') :
    Tracks S 1 (Parse.expressionStatement p) (expressionStatement p') :=
  h.expression.bind fun value => follows_consume_bind fun _ => .pure (Stmt.expression value)

theorem tracks_optionalBefore (h : Parts.Follow S p p') (kind : TokenKind) :
    Tracks S 0 (Parse.optionalBefore p kind) (optionalBefore p' kind) := by
  refine follows_check_bind fun b => ?_
  cases b with
  | true => exact .pure none
  | false => exact h.expression.map some

theorem tracks_forStatement (h : Parts.Follow S p p') :
    Tracks S 0 (Parse.forStatement p) (forStatement p') := by
  refine follows_consume_bind fun _ => Follows.bind (j := 0) ?_ fun initializer =>
    (tracks_optionalBefore h _).bind fun condition => follows_consume_bind fun _ =>
    (tracks_optionalBefore h _).any.bind fun increment => follows_consume_bind fun _ =>
    h.statement.any.bind fun body => .pure (Parse.forLoop initializer condition increment body)
  have hother := ((tracks_expressionStatement h).map some).weaken (Nat.zero_le 1)
  refine follows_choose hother.any fun t => ?_
  cases t.kind
  case semicolon => exact .some (.pure none)
  case varWord => exact .some ((tracks_variableDeclaration h).map some).any
  all_goals exact .none

theorem tracks_ifStatement (h : Parts.Follow S p p') :
    Tracks S 0 (Parse.ifStatement p) (ifStatement p') := by
  refine follows_consume_bind fun _ => h.expression.any.bind fun condition =>
    follows_consume_bind fun _ => h.statement.any.bind fun whenTrue => follows_accept_bind
      (fun _ => ?_) (.pure (Stmt.branch condition whenTrue none))
  exact (h.statement.map some).any.bind fun whenFalse =>
    .pure (Stmt.branch condition whenTrue whenFalse)

theorem tracks_statement (h : Parts.Follow S p p') :
    Tracks S 1 (Parse.statement p) (statement p') := by
  refine follows_choose (tracks_expressionStatement h) fun t => ?_
  cases t.kind
  case forWord => exact .some (tracks_forStatement h).any
  case ifWord => exact .some (tracks_ifStatement h).any
  case printWord =>
    exact .some (h.expression.any.bind fun value => follows_consume_bind fun _ =>
      .pure (Stmt.print value))
  case returnWord =>
    exact .some (follows_previous_bind ((tracks_optionalBefore h _).any.bind fun value =>
      follows_consume_bind fun _ => .pure (Stmt.giveBack t value)))
  case whileWord =>
    exact .some (follows_consume_bind fun _ => h.expression.any.bind fun condition =>
      follows_consume_bind fun _ => h.statement.any.bind fun body =>
      .pure (Stmt.loop condition body))
  case leftBrace => exact .some ((tracks_blockBody h).map Stmt.block).any
  all_goals exact .none

/-- **A declaration gets ahead** unless it begins at the end, whether it fails or not. -/
theorem follows_declaration (h : Parts.Follow S p p') :
    Follows S (fun s => s.position < S.body.length) 1 (Parse.declaration p) (declaration p') := by
  refine follows_recover (follows_choose (tracks_statement h) fun t => ?_)
  cases t.kind
  case classWord => exact .some (tracks_classDeclaration h).any
  case funWord =>
    exact .some (((tracks_routine h .function).map Stmt.function).weaken (Nat.zero_le 1)).any
  case varWord => exact .some (tracks_variableDeclaration h).any
  all_goals exact .none

end Rules

theorem follows_statementAt_declarationAt (n : Nat) :
    Tracks S 1 (Parse.statementAt n) (statementAt n) ∧
      Follows S (fun s => s.position < S.body.length) 1 (Parse.declarationAt n)
        (declarationAt n) := by
  induction n with
  | zero => exact ⟨.stuck, .stuck⟩
  | succ n ih =>
    have hp : Parts.Follow S
        ⟨Parse.expressionAt (n + 1), Parse.statementAt n, Parse.declarationAt n, n + 1⟩
        ⟨expressionAt (n + 1), statementAt n, declarationAt n, n + 1⟩ :=
      ⟨tracks_expressionAt (n + 1), ih.1, ih.2, rfl⟩
    exact ⟨tracks_statement hp, follows_declaration hp⟩

/-! ### Whole tapes -/

/-- The parser always catches what unwinds in it. -/
def Contained (p : Parse α) : Prop :=
  ∀ c c', p c ≠ .error .unwound c'

theorem Contained.bind {p : Parse α} {f : α → Parse β} (hp : Contained p)
    (hf : ∀ a, Contained (f a)) : Contained (p >>= f) := by
  intro c c'
  show EStateM.bind p f c ≠ _
  rw [EStateM.bind]
  have hc := hp c
  generalize p c = r at hc
  cases r with
  | ok a c₁ => exact hf a c₁ c'
  | error halt c₁ => exact fun h => hc c' (by cases h; rfl)

theorem contained_declarationAt (n : Nat) : Contained (Parse.declarationAt n) := by
  intro c c'
  cases n with
  | zero => exact fun h => by cases h
  | succ n =>
    rw [Parse.declarationAt, Parse.declaration, Parse.recover]
    generalize Parse.dispatch _ _ c = r
    cases r with
    | ok a c₁ => exact fun h => by cases h
    | error halt c₁ => cases halt <;> exact fun h => by cases h

theorem contained_declarations {d : Parse (Stmt Blank)} (hd : Contained d)
    (closing : List TokenKind) (n : Nat) : Contained (Parse.declarations d closing n) := by
  induction n with
  | zero => exact fun c c' h => by cases h
  | succ n ih =>
    intro c c'
    rw [declarations_succ]
    split
    · exact fun h => by cases h
    · exact hd.bind (fun a => ih.bind fun as c c' h => by cases h) c c'

/-- Parsing a list of tokens always comes to an end, at the end of the text. -/
theorem program_eq_ok (tokens : List Token) :
    Parse.program (tokens.length + 1) ⟨tokens, []⟩ =
      .ok (LoxInterpreter.parse tokens).statements
        ⟨[], (LoxInterpreter.parse tokens).mistakes⟩ := by
  have hreads := Parse.reads_declarations
    (Parse.reads_statementAt_declarationAt (tokens.length + 1)).2 [] (tokens.length + 1)
    (tokens.length + 1) (Nat.le_refl _) (Nat.le_refl _) ⟨tokens, []⟩ (Nat.lt_succ_self _)
  have hcontained := contained_declarations (contained_declarationAt (tokens.length + 1)) []
    (tokens.length + 1) ⟨tokens, []⟩
  have hrest (body : List (Stmt Blank)) (c : Cursor) :
      Parse.declarations (Parse.declarationAt (tokens.length + 1)) [] (tokens.length + 1)
        ⟨tokens, []⟩ = .ok body c → c.rest = [] :=
    Parse.rest_eq_nil_of_declarations _ _
  rw [LoxInterpreter.parse, Parse.program]
  generalize Parse.declarations _ _ _ _ = r at hreads hcontained hrest ⊢
  cases r with
  | ok body c =>
    obtain ⟨rest, mistakes⟩ := c
    cases hrest _ _ rfl
    rfl
  | error halt c =>
    cases halt with
    | unwound => exact absurd rfl (hcontained c)
    | stuck => exact hreads.elim

/-- Parsing a tape and parsing the list agree. -/
theorem agree_parse (S : Setting) :
    Agree S 0 0 (.ok (LoxInterpreter.parse S.body).statements
      ⟨[], (LoxInterpreter.parse S.body).mistakes⟩) (parse (S.body ++ [S.eof]) S.report) := by
  have hstands : Stands S ⟨S.body ++ [S.eof], 0, S.report, []⟩ ⟨S.body, []⟩ :=
    ⟨rfl, rfl, Nat.zero_le _, rfl, List.forall_mem_nil _, List.pairwise_singleton _ _⟩
  have hagree := (tracks_declarations (fun _ _ hs => hs.atEnd_eq_endsAt)
    (follows_statementAt_declarationAt (S.body.length + 1)).2 (S.body.length + 1)).agree
    hstands trivial
  have hprogram := program_eq_ok S.body
  rw [Parse.program] at hprogram
  rw [hprogram] at hagree
  rw [parse, List.length_append, List.length_singleton]
  exact hagree

/-- **Parsing gets through every tape**, however malformed, whose last token alone stands for the
end of the text. It returns what parsing the list returns, with the head at the last token; or the
report gives up at one of the mistakes that parsing the list finds. In either case the head never
moved back or beyond the last token, every pass of a loop over declarations or methods moved it
ahead, and it looked back only at tokens that it had consumed. -/
theorem parse_gets_through {body : List Token} {eof : Token}
    (hbody : ∀ t ∈ body, t.kind ≠ .endOfText) (heof : eof.kind = .endOfText) (report : Report) :
    (∃ s, parse (body ++ [eof]) report = .ok (LoxInterpreter.parse body).statements s ∧
      s.position = body.length ∧ s.Orderly body.length ∧
      record eof (LoxInterpreter.parse body).mistakes report = .ok () s.report) ∨
    ∃ s, parse (body ++ [eof]) report = .error (.givingUp .tooManyIssues) s ∧
      s.position ≤ body.length ∧ s.Orderly body.length ∧
      record eof (LoxInterpreter.parse body).mistakes report =
        .error .tooManyIssues s.report := by
  have hagree := agree_parse ⟨body, eof, report, hbody, heof⟩
  dsimp only at hagree
  generalize parse (body ++ [eof]) report = r at hagree ⊢
  cases hagree with
  | @ok _ _ s hs _ => exact .inl ⟨s, rfl, hs.position_eq rfl, hs.orderly, hs.recorded⟩
  | @gaveUp _ s hs => exact .inr ⟨s, rfl, hs.position_le, hs.orderly, hs.recorded⟩

/-- A closing brace that closes nothing, and a text that ends in a method of a class in two
blocks. -/
def unclosed : String := "\x7d; \x7b \x7b class A \x7b f() \x7b return"

/-- The text that ends in a method is got through. -/
theorem parse_gets_through_unclosed :
    let body := (scan unclosed).tokens
    let eof := (scan unclosed).endToken
    let report := Report.fresh false 25 (.ofFaces [])
    (∀ t ∈ body, t.kind ≠ .endOfText) ∧ eof.kind = .endOfText ∧ body.length = 12 ∧
      ((∃ s, parse (body ++ [eof]) report = .ok (LoxInterpreter.parse body).statements s ∧
        s.position = body.length ∧ s.Orderly body.length ∧
        record eof (LoxInterpreter.parse body).mistakes report = .ok () s.report) ∨
      ∃ s, parse (body ++ [eof]) report = .error (.givingUp .tooManyIssues) s ∧
        s.position ≤ body.length ∧ s.Orderly body.length ∧
        record eof (LoxInterpreter.parse body).mistakes report =
          .error .tooManyIssues s.report) := by
  have hbody (t : Token) (ht : t ∈ (scan unclosed).tokens) : t.kind ≠ .endOfText :=
    (spelled_of_mem_tokens ht).kind_ne_endOfText
  exact ⟨hbody, rfl, by decide +kernel, parse_gets_through hbody rfl _⟩

/-! ### Texts -/

/-- Parse a tape as a step on a report. -/
def parseTape (tokens : List Token) : Reporting (List (Stmt Blank)) := fun report =>
  match parse tokens report with
  | .ok statements s => .ok statements s.report
  | .error (.givingUp reason) s => .error reason s.report
  | .error _ s => .ok [] s.report

/-- **Reporting mistakes while parsing** comes to the same as reporting them afterwards. -/
theorem parseTape_eq_record {body : List Token} {eof : Token}
    (hbody : ∀ t ∈ body, t.kind ≠ .endOfText) (heof : eof.kind = .endOfText) :
    parseTape (body ++ [eof]) = record eof (LoxInterpreter.parse body).mistakes >>= fun _ =>
      pure (LoxInterpreter.parse body).statements := by
  funext report
  symm
  have hagree := agree_parse ⟨body, eof, report, hbody, heof⟩
  dsimp only at hagree
  rw [parseTape]
  generalize parse _ report = r at hagree ⊢
  cases hagree with
  | ok hs _ => exact Reporting.bind_of_eq_ok hs.recorded _
  | gaveUp hs => exact Reporting.bind_of_eq_error hs.recorded _

/-- **A text is parsed from its tape.** -/
theorem parseText_eq_parseTape (text : String) :
    Reporting.parseText text = Reporting.scanText text >>= fun scanned =>
      parseTape (scanned.tokens ++ [scanned.endToken]) := by
  have htape : parseTape ((scan text).tokens ++ [(scan text).endToken]) = _ :=
    parseTape_eq_record (fun _ ht => (spelled_of_mem_tokens ht).kind_ne_endOfText) rfl
  rw [Reporting.parseText, Reporting.scanText]
  simp only [bind_assoc, pure_bind]
  rw [htape]
  rfl

end LoxInterpreter.Tape
