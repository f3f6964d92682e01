import LoxInterpreter.Proofs.Grammar
import LoxInterpreter.Proofs.Grammar.Outcome

/-!
# Parsers read the grammar

Every parser of expressions and statements, run without a mistake, has consumed the tokens of a
phrase and yields its tree. The parsers of loops (`operands`, `postfixes`) are told by what they
make of a phrase that came before. The main statements are `reads_expressionAt` and
`reads_declarationAt`; a whole program is read by `parse_sound`.
-/

namespace LoxInterpreter.Parse

open Grammar

/-- A relation that does not care what comes after the phrase. -/
abbrev phrase {α : Type} (L : List Token → α → Prop) : Language α := fun read _ a => L read a

/-! ### Phrases with commas between them -/

/-- A phrase, and others if a comma is next, behind `count` others. -/
theorem reads_separated {α : Type} {L : List Token → α → Prop} {item : Parse α}
    {more : Parse (List α)} {count n : Nat} (hitem : Reads n 1 item (phrase L))
    (hmore : Reads (n - 1) 1 more fun read _ as =>
      Separated L read as ∧ count + 1 + as.length ≤ 255) :
    Reads n 1 (do
      let a ← item
      match ← accept [.comma] with
      | some _ => return a :: (← more)
      | none => return [a]) fun read _ as =>
        Separated L read as ∧ (count < 255 → count + as.length ≤ 255) := by
  refine hitem.bind (m := n - 1) (fun a => ?_) (by omega)
  refine reads_accept_bind (m := n - 1) (fun comma hc => ?_) ?_ (by omega)
  · refine (hmore.weaken (Nat.le_refl _) (Nat.zero_le 1)).bind (m := n - 1)
      (fun as => reads_pure fun rest => ?_) (by omega)
    rintro us ⟨hus, hle⟩ ts hts
    rw [List.append_nil]
    have hc : comma.kind = .comma := List.mem_singleton.mp hc
    exact ⟨.cons hts hc hus, fun _ => by simp only [List.length_cons]; omega⟩
  · refine reads_pure fun rest _ ts hts => ?_
    rw [List.append_nil]
    exact ⟨.last hts, id⟩

/-! ### Expressions -/

section Levels

variable {nested : Parse (Expr Blank)} {n : Nat}

/-- Arguments behind `count` others. -/
theorem reads_arguments (hn : Reads n 1 nested (phrase Expression)) :
    ∀ bound count m, m ≤ n → m ≤ bound → Reads m 1 (arguments nested bound count)
      fun read _ values => Separated Expression read values ∧ count + values.length ≤ 255 := by
  intro bound
  induction bound with
  | zero => exact fun _ m _ hb s hs => absurd hs (by omega)
  | succ bound ih =>
    intro count m hm hb
    have hrest := reads_separated (hn.weaken hm (Nat.le_refl 1))
      (ih (count + 1) (m - 1) (by omega) (by omega))
    rw [arguments]
    dsimp only
    split
    · exact reads_next?_bind fun o =>
        reads_complain_bind (hrest.mono fun _ _ _ _ => trivial)
    · next hcount =>
      exact hrest.mono fun _ _ _ h => ⟨h.1, h.2 (Nat.lt_of_not_le hcount)⟩

/-- Arguments, or none. -/
theorem reads_optionalArguments (hn : Reads n 1 nested (phrase Expression)) (bound : Nat) {m : Nat}
    (hm : m ≤ n) (hb : m ≤ bound) (b : Bool) :
    Reads m 0 (if b then pure [] else arguments nested bound 0)
      (phrase (Listed Expression)) := by
  cases b with
  | true => exact reads_pure fun _ => .none
  | false =>
    exact ((reads_arguments hn bound 0 m hm hb).weaken (Nat.le_refl m) (Nat.zero_le 1)).mono
      fun _ _ _ ⟨hv, hle⟩ => .some hv (by omega)

theorem reads_primary (hn : Reads n 1 nested (phrase Expression)) :
    Reads (n + 1) 1 (primary nested) (phrase (Phrase .primary)) := by
  refine reads_dispatch (m := n) (reads_fail _) (fun t p hp => ?_) (Nat.le_refl _)
  have hliteral {value : Literal} (h : literalOf? t = some value) :
      Reads n 0 (pure (.literal value)) fun read _ e => Phrase .primary (t :: read) e :=
    reads_pure fun _ => .literal h
  split at hp
  all_goals cases hp
  · exact hliteral (by simp [literalOf?, *])
  · exact hliteral (by simp [literalOf?, *])
  · exact hliteral (by simp [literalOf?, *])
  · exact hliteral (by simp [literalOf?, *])
  · exact hliteral (by simp [literalOf?, *])
  · next hk =>
    refine reads_expect_bind (m := n) (fun dot hdot => ?_) (Nat.le_succ n)
    refine reads_expect_bind (m := n) (fun method hmethod => ?_) (Nat.le_succ n)
    exact reads_pure fun _ => .inherited hk hdot hmethod
  · next hk => exact reads_pure fun _ => .this hk
  · next hk => exact reads_pure fun _ => .reference hk
  · next hk =>
    refine (hn.weaken (Nat.le_refl n) (Nat.zero_le 1)).bind (m := n) (fun inner => ?_) (by omega)
    refine reads_expect_bind (m := n) (fun closing hc => ?_) (Nat.le_succ n)
    exact reads_pure fun _ ts hts => .grouping hk hts hc

/-- What follows a phrase of the level of calls makes another such phrase of it. -/
theorem reads_postfixes (hn : Reads n 1 nested (phrase Expression)) :
    ∀ bound callee m, m ≤ n → m ≤ bound → Reads m 0 (postfixes nested bound callee)
      fun read _ e => ∀ ts, Phrase .call ts callee → Phrase .call (ts ++ read) e := by
  intro bound
  induction bound with
  | zero => exact fun _ m _ hb s hs => absurd hs (by omega)
  | succ bound ih =>
    intro callee m hm hb
    rw [postfixes]
    refine reads_accept_bind (m := m - 1) (fun t ht => ?_) ?_ (by omega)
    · dsimp only
      split
      · next hk =>
        refine reads_nextIs_bind fun b => ?_
        rw [ite_bind]
        refine (reads_optionalArguments hn (bound + 1) (m := m - 1) (by omega) (by omega) b).bind
          (m := m - 1) (fun values => ?_) (by omega)
        refine reads_expect_bind (m := m - 1) (fun paren hp => ?_) (by omega)
        refine (ih (.call callee paren values) (m - 1) (by omega) (by omega)).mono ?_
        intro read rest e he us hus ts hts
        have := he _ (.call hts hk hus hp)
        simpa using this
      · next hk =>
        have hk : t.kind = .dot := by simpa [hk] using ht
        refine reads_expect_bind (m := m - 1) (fun name hname => ?_) (by omega)
        refine (ih (.property callee name) (m - 1) (by omega) (by omega)).mono ?_
        intro read rest e he ts hts
        have := he _ (.property hts hk hname)
        simpa using this
    · exact reads_pure fun _ _ ts hts => by simpa using hts

theorem reads_call (hn : Reads n 1 nested (phrase Expression)) {bound : Nat} (hb : n ≤ bound) :
    Reads (n + 1) 1 (call nested bound) (phrase (Phrase .call)) := by
  refine (reads_primary hn).bind (m := n) (fun e => ?_) (Nat.le_refl _)
  refine (reads_postfixes hn bound e n (Nat.le_refl n) hb).mono ?_
  exact fun read rest e' he ts hts => he ts (.tighter rfl hts)

theorem reads_unary (hn : Reads n 1 nested (phrase Expression)) {bound : Nat} (hb : n ≤ bound) :
    ∀ more m, m ≤ n + 1 → m ≤ more →
      Reads m 1 (unary nested bound more) (phrase (Phrase .unary)) := by
  intro more
  induction more with
  | zero => exact fun m _ hb s hs => absurd hs (by omega)
  | succ more ih =>
    intro m hm hb'
    rw [unary]
    refine reads_accept_bind (m := m - 1) (fun op hop => ?_) ?_ (by omega)
    · have h := (ih (m - 1) (by omega) (by omega)).weaken (Nat.le_refl _) (Nat.zero_le 1)
      refine h.bind (m := m - 1) (fun operand => reads_pure fun _ ts hts => ?_) (by omega)
      rw [List.append_nil]
      exact .unary (by simpa using hop) hts
    · exact ((reads_call hn hb).weaken hm (Nat.le_refl 1)).mono
        fun _ _ _ h _ => .tighter rfl h

/-- What follows a phrase of a binary level makes another such phrase of it. -/
theorem reads_operands {l l' : Level} (hl : l.tighter? = some l') {operand : Parse (Expr Blank)}
    (ho : Reads n 1 operand (phrase (Phrase l'))) :
    ∀ bound left m, m ≤ n → m ≤ bound → Reads m 0 (operands l.operators l.join operand bound left)
      fun read _ e => ∀ ts, Phrase l ts left → Phrase l (ts ++ read) e := by
  intro bound
  induction bound with
  | zero => exact fun _ m _ hb s hs => absurd hs (by omega)
  | succ bound ih =>
    intro left m hm hb
    rw [operands]
    refine reads_accept_bind (m := m - 1) (fun op hop => ?_) ?_ (by omega)
    · refine (ho.weaken (m := m - 1) (by omega) (Nat.zero_le 1)).bind (m := m - 1)
        (fun right => ?_) (by omega)
      refine (ih (l.join left op right) (m - 1) (by omega) (by omega)).mono ?_
      intro read rest e he us hus ts hts
      have := he _ (.join hl hop hts hus)
      simpa using this
    · exact reads_pure fun _ _ ts hts => by simpa using hts

/-- A binary level reads what the grammar says of it, if the next tighter level does. -/
theorem reads_leftAssociative {l l' : Level} (hl : l.tighter? = some l') (bound : Nat)
    {operand : Parse (Expr Blank)} (ho : Reads n 1 operand (phrase (Phrase l')))
    (hb : n ≤ bound + 1) :
    Reads n 1 (leftAssociative l.operators l.join bound operand) (phrase (Phrase l)) := by
  refine ho.bind (m := n - 1) (fun left => ?_) (by omega)
  refine (reads_operands hl (ho.weaken (Nat.sub_le n 1) (Nat.le_refl 1)) bound left (n - 1)
    (Nat.le_refl _) (by omega)).mono ?_
  exact fun read rest e he ts hts => he ts (.tighter hl hts)

theorem reads_disjunction (hn : Reads n 1 nested (phrase Expression)) :
    Reads (n + 1) 1 (disjunction nested (n + 1)) (phrase (Phrase .disjunction)) := by
  have hunary := reads_unary hn (Nat.le_succ n) (n + 1) (n + 1) (Nat.le_refl _) (Nat.le_refl _)
  have hfactor := reads_leftAssociative (l := .factor) rfl (n + 1) hunary (by omega)
  have hterm := reads_leftAssociative (l := .term) rfl (n + 1) hfactor (by omega)
  have hcomparison := reads_leftAssociative (l := .comparison) rfl (n + 1) hterm (by omega)
  have hequality := reads_leftAssociative (l := .equality) rfl (n + 1) hcomparison (by omega)
  have hconjunction := reads_leftAssociative (l := .conjunction) rfl (n + 1) hequality (by omega)
  exact reads_leftAssociative (l := .disjunction) rfl (n + 1) hconjunction (by omega)

theorem reads_assignment (hn : Reads n 1 nested (phrase Expression)) :
    Reads (n + 1) 1 (assignment nested (n + 1)) (phrase Expression) := by
  refine (reads_disjunction hn).bind (m := n) (fun target => ?_) (Nat.le_refl _)
  refine reads_accept_bind (m := n) (fun equals hequals => ?_) ?_ (Nat.le_succ n)
  · have hk : equals.kind = .equal := List.mem_singleton.mp hequals
    refine (hn.weaken (Nat.le_refl n) (Nat.zero_le 1)).bind (m := n) (fun value => ?_)
      (Nat.le_refl _)
    split
    · next r =>
      refine reads_pure fun _ us hus ts hts => ?_
      obtain ⟨hname, rfl⟩ := hts.of_reference rfl
      simpa using Phrase.assign hname hk hus
    · next object name =>
      refine reads_pure fun _ us hus ts hts => ?_
      obtain ⟨vs, dot, rfl, hobject, hdot, hname⟩ := hts.of_property rfl
      simpa using Phrase.setProperty hobject hdot hname hk hus
    · exact reads_complain_bind (reads_pure fun _ => trivial)
  · refine reads_pure fun _ _ ts hts => ?_
    rw [List.append_nil]
    exact .tighter rfl hts

end Levels

/-- Parsing an expression reads the tokens of an expression. -/
theorem reads_expressionAt (n : Nat) : Reads n 1 (expressionAt n) (phrase Expression) := by
  induction n with
  | zero => exact fun s hs => absurd hs (Nat.not_lt_zero _)
  | succ n ih => exact reads_assignment ih

/-! ### Statements -/

/-- What a parser of declarations has to do, which is given at least one token. -/
def ReadsDeclaration (n : Nat) (p : Parse (Stmt Blank)) : Prop :=
  ∀ s : Cursor, s.rest ≠ [] → s.rest.length < n → Outcome s 1 (phrase Declaration) (p s)

/-- A statement that lets go of an `else` only if there is none next. -/
def statementLanguage : Language (Stmt Blank) := fun read rest s =>
  ∃ tail, Statement tail read s ∧ (tail = .dangling → ∀ t ∈ rest.head?, t.kind ≠ .elseWord)

/-- What the parts of a statement have to do. The bound of a part that comes behind a first token
may be smaller. -/
structure Parts.Read (p : Parts) (n : Nat) : Prop where
  expression : Reads (n + 1) 1 p.expression (phrase Expression)
  statement : Reads n 1 p.statement statementLanguage
  declaration : ReadsDeclaration n p.declaration
  bound : n < p.bound

/-- Declarations up to a token that closes them, or to the end. -/
theorem reads_declarations {n : Nat} {declaration : Parse (Stmt Blank)}
    (hd : ReadsDeclaration n declaration) (closing : List TokenKind) :
    ∀ bound m, m ≤ n → m ≤ bound → Reads m 0 (declarations declaration closing bound)
      fun read rest body => Program read body ∧ ∀ t ∈ rest.head?, t.kind ∈ closing := by
  intro bound
  induction bound with
  | zero => exact fun m _ hb s hs => absurd hs (by omega)
  | succ bound ih =>
    rintro m hm hb ⟨rest, mistakes⟩ hs
    match rest with
    | [] => exact ⟨[], rfl, Nat.le_refl 0, List.prefix_refl _, fun _ => ⟨.nil, by simp⟩⟩
    | t :: rest =>
      by_cases hc : t.kind ∈ closing
      · have hstop : declarations declaration closing (bound + 1) ⟨t :: rest, mistakes⟩ =
            .ok [] ⟨t :: rest, mistakes⟩ := by
          show (if t.kind ∈ closing then pure [] else _ : Parse _) _ = _
          rw [if_pos hc]
          rfl
        rw [hstop]
        exact ⟨[], rfl, Nat.le_refl 0, List.prefix_refl _, fun _ => ⟨.nil, by simpa using hc⟩⟩
      · have hgo : declarations declaration closing (bound + 1) ⟨t :: rest, mistakes⟩ =
            (do
              let first ← declaration
              return first :: (← declarations declaration closing bound) : Parse _)
              ⟨t :: rest, mistakes⟩ := by
          show (if t.kind ∈ closing then _ else _ : Parse _) _ = _
          rw [if_neg hc]
        rw [hgo]
        refine (hd _ (List.cons_ne_nil t rest) (Nat.lt_of_lt_of_le hs hm)).bind (m := m - 1)
          (fun first => ?_) (by omega)
        refine (ih (m - 1) (by omega) (by omega)).bind (m := m - 1) (fun body => ?_) (by omega)
        refine reads_pure fun rest us hus ts hts => ?_
        simpa using ⟨Sequence.cons hts hus.1, hus.2⟩

theorem reads_name {n : Nat} : Reads n 1 (expect .identifier .paramName) (phrase Name) := by
  rw [← bind_pure (expect .identifier .paramName)]
  exact reads_expect_bind (fun param hp => reads_pure fun _ => .mk hp) (Nat.le_succ n)

/-- Parameters behind `count` others. -/
theorem reads_parameters : ∀ bound count m, m ≤ bound → Reads m 1 (parameters bound count)
    fun read _ params => Separated Name read params ∧ count + params.length ≤ 255 := by
  intro bound
  induction bound with
  | zero => exact fun _ m hb s hs => absurd hs (by omega)
  | succ bound ih =>
    intro count m hb
    have hrest := reads_separated reads_name (ih (count + 1) (m - 1) (by omega))
    rw [parameters]
    dsimp only
    split
    · exact reads_next?_bind fun o =>
        reads_complain_bind (hrest.mono fun _ _ _ _ => trivial)
    · next hcount =>
      exact hrest.mono fun _ _ _ h => ⟨h.1, h.2 (Nat.lt_of_not_le hcount)⟩

theorem reads_optionalParameters {bound m : Nat} (hb : m ≤ bound) (b : Bool) :
    Reads m 0 (if b then pure [] else parameters bound 0) (phrase (Listed Name)) := by
  cases b with
  | true => exact reads_pure fun _ => .none
  | false =>
    exact ((reads_parameters bound 0 m hb).weaken (Nat.le_refl m) (Nat.zero_le 1)).mono
      fun _ _ _ ⟨hv, hle⟩ => .some hv (by omega)

section Rules

variable {p : Parts} {n : Nat}

/-- The statements of a block with the brace that closes it. -/
theorem reads_blockBody (hp : p.Read n) : Reads n 1 (blockBody p) fun read _ body =>
    ∃ ts closing, read = ts ++ [closing] ∧ Program ts body ∧ closing.kind = .rightBrace := by
  refine (reads_declarations hp.declaration [.rightBrace] p.bound n (Nat.le_refl n)
    hp.bound.le).bind (m := n) (fun body => ?_) (Nat.le_refl n)
  refine reads_expect_bind (m := n) (fun closing hc => ?_) (Nat.le_succ n)
  exact reads_pure fun _ ts hts => ⟨ts, closing, rfl, hts.1, hc⟩

theorem reads_routine (hp : p.Read n) (kind : RoutineKind) :
    Reads n 1 (routine p kind) (phrase Routined) := by
  refine reads_expect_bind (m := n) (fun name hname => ?_) (Nat.le_succ n)
  refine reads_expect_bind (m := n) (fun openParen hop => ?_) (Nat.le_succ n)
  refine reads_nextIs_bind fun b => ?_
  dsimp only
  rw [ite_bind]
  refine (reads_optionalParameters hp.bound.le b).bind (m := n) (fun params => ?_) (Nat.le_refl n)
  refine reads_expect_bind (m := n) (fun closeParen hcp => ?_) (Nat.le_succ n)
  refine reads_expect_bind (m := n) (fun openBrace hob => ?_) (Nat.le_succ n)
  refine ((reads_blockBody hp).weaken (Nat.le_refl n) (Nat.zero_le 1)).bind (m := n)
    (fun body => ?_) (Nat.le_refl n)
  refine reads_pure fun _ => ?_
  rintro _ ⟨us, closeBrace, rfl, hus, hcb⟩ ts hts
  simpa using Routined.mk hname hop hts hcp hob hus hcb

theorem reads_methods (hp : p.Read n) :
    ∀ bound m, m ≤ n → m ≤ bound → Reads m 0 (methods p bound) (phrase (Sequence Routined)) := by
  intro bound
  induction bound with
  | zero => exact fun m _ hb s hs => absurd hs (by omega)
  | succ bound ih =>
    intro m hm hb
    refine reads_nextIs_bind fun b => reads_atEnd_bind fun b' => ?_
    split
    · exact reads_pure fun _ => .nil
    · refine ((reads_routine hp .method).weaken hm (Nat.le_refl 1)).bind (m := m - 1)
        (fun first => ?_) (by omega)
      refine (ih (m - 1) (by omega) (by omega)).bind (m := m - 1) (fun rest => ?_) (by omega)
      refine reads_pure fun _ us hus ts hts => ?_
      rw [List.append_nil]
      exact .cons hts hus

theorem reads_classDeclaration (hp : p.Read n) {word : Token} (hw : word.kind = .classWord) :
    Reads n 0 (classDeclaration p) fun read _ s => Declaration (word :: read) s := by
  refine reads_expect_bind (m := n) (fun name hname => ?_) (Nat.le_succ n)
  -- the rest of the class is the same with and without a superclass
  have hrest (superclass : Option (Reference Blank)) : Reads n 0 (do
      let _ ← expect .leftBrace .classOpen
      let members ← methods p p.bound
      let _ ← expect .rightBrace .classClose
      return .klass name superclass members : Parse (Stmt Blank)) fun read _ s =>
        ∀ ts, Superclass ts superclass → Declaration (word :: name :: ts ++ read) s := by
    refine reads_expect_bind (m := n) (fun opening ho => ?_) (Nat.le_succ n)
    refine (reads_methods hp p.bound n (Nat.le_refl n) hp.bound.le).bind (m := n)
      (fun members => ?_) (Nat.le_refl n)
    refine reads_expect_bind (m := n) (fun closing hc => ?_) (Nat.le_succ n)
    refine reads_pure fun _ us hus ts hts => ?_
    simpa using Declaration.klass hw hname hts ho hus hc
  refine reads_accept_bind (m := n) (fun less hless => ?_) ?_ (Nat.le_succ n)
  · have hk : less.kind = .less := List.mem_singleton.mp hless
    refine reads_expect_bind (m := n) (fun token htoken => ?_) (Nat.le_succ n)
    exact (hrest (some ⟨token, ()⟩)).mono fun read _ s h => h _ (.some hk htoken)
  · exact (hrest none).mono fun read _ s h _ => h _ .none

theorem reads_variableDeclaration (hp : p.Read n) :
    Reads n 1 (variableDeclaration p) (phrase Variable) := by
  refine reads_expect_bind (m := n) (fun name hname => ?_) (Nat.le_succ n)
  refine reads_accept_bind (m := n) (fun equals hequals => ?_) ?_ (Nat.le_succ n)
  · have hk : equals.kind = .equal := List.mem_singleton.mp hequals
    have h := hp.expression.weaken (Nat.le_succ n) (Nat.zero_le 1)
    refine (Reads.map (M := fun read _ o => ∃ e, o = some e ∧ Expression read e)
      (h.mono fun _ _ e he => ⟨e, rfl, he⟩)).bind (m := n) (fun initial => ?_) (Nat.le_refl n)
    refine reads_expect_bind (m := n) (fun semicolon hs => ?_) (Nat.le_succ n)
    refine reads_pure fun _ => ?_
    rintro ts ⟨e, rfl, hts⟩
    simpa using Variable.initialized hname hk hts hs
  · refine reads_expect_bind (m := n) (fun semicolon hs => ?_) (Nat.le_succ n)
    exact reads_pure fun _ _ => .plain hname hs

theorem reads_expressionStatement (hp : p.Read n) :
    Reads (n + 1) 1 (expressionStatement p) fun read _ s =>
      ∃ ts semicolon e, read = ts ++ [semicolon] ∧ s = .expression e ∧ Expression ts e ∧
        semicolon.kind = .semicolon := by
  refine hp.expression.bind (m := n + 1) (fun e => ?_) (by omega)
  refine reads_expect_bind (m := n + 1) (fun semicolon hs => ?_) (by omega)
  exact (reads_pure fun _ ts hts => ⟨ts, semicolon, e, rfl, rfl, hts, hs⟩).weaken
    (Nat.le_refl _) (by omega)

theorem reads_optionalBefore (hp : p.Read n) (kind : TokenKind) :
    Reads n 0 (optionalBefore p kind) (phrase (Possibly Expression)) := by
  refine reads_nextIs_bind fun b => ?_
  cases b with
  | true => exact reads_pure fun _ => .none
  | false =>
    have h := hp.expression.weaken (Nat.le_succ n) (Nat.zero_le 1)
    exact Reads.map (h.mono fun _ _ _ he => .some he)

/-- The parser of loops puts the clauses together as the grammar does. -/
theorem forLoop_eq_forTree (initial : Option (Stmt Blank))
    (condition increment : Option (Expr Blank)) (body : Stmt Blank) :
    forLoop initial condition increment body = forTree initial condition increment body := by
  cases initial <;> cases increment <;> rfl

theorem reads_initializer (hp : p.Read n) :
    Reads n 0 (dispatch (some <$> expressionStatement p) fun t =>
      match t.kind with
      | .semicolon => some (return none)
      | .varWord => some (some <$> variableDeclaration p)
      | _ => none) (phrase Initializer) := by
  refine reads_dispatch (m := n) (Reads.map ?_) (fun t q hq => ?_) (Nat.le_succ n)
  · refine ((reads_expressionStatement hp).weaken (Nat.le_succ n) (Nat.zero_le 1)).mono ?_
    rintro _ _ _ ⟨ts, semicolon, e, rfl, rfl, hts, hs⟩
    exact .expression hts hs
  · split at hq
    all_goals cases hq
    · next hk => exact reads_pure fun _ => .none hk
    · next hk =>
      have h := (reads_variableDeclaration hp).weaken (Nat.le_refl n) (Nat.zero_le 1)
      exact Reads.map (h.mono fun _ _ _ hs => .declare hk hs)

theorem reads_forStatement (hp : p.Read n) {word : Token} (hw : word.kind = .forWord) :
    Reads n 0 (forStatement p) fun read rest s => statementLanguage (word :: read) rest s := by
  refine reads_expect_bind (m := n) (fun opening ho => ?_) (Nat.le_succ n)
  refine (reads_initializer hp).bind (m := n) (fun initial => ?_) (Nat.le_refl n)
  refine (reads_optionalBefore hp .semicolon).bind (m := n) (fun condition => ?_) (Nat.le_refl n)
  refine reads_expect_bind (m := n) (fun semicolon hs => ?_) (Nat.le_succ n)
  refine (reads_optionalBefore hp .rightParen).bind (m := n) (fun increment => ?_) (Nat.le_refl n)
  refine reads_expect_bind (m := n) (fun closing hc => ?_) (Nat.le_succ n)
  refine (hp.statement.weaken (Nat.le_refl n) (Nat.zero_le 1)).bind (m := n) (fun body => ?_)
    (Nat.le_refl n)
  refine reads_pure fun rest => ?_
  rintro ws ⟨tail, hws, htail⟩ vs hvs us hus ts hts
  refine ⟨tail, ?_, htail⟩
  rw [forLoop_eq_forTree]
  simpa using Statement.forLoop hw ho hts hus hs hvs hc hws

theorem reads_ifStatement (hp : p.Read n) {word : Token} (hw : word.kind = .ifWord) :
    Reads n 0 (ifStatement p) fun read rest s => statementLanguage (word :: read) rest s := by
  have hexpression := hp.expression.weaken (Nat.le_succ n) (Nat.zero_le 1)
  have hstatement := hp.statement.weaken (Nat.le_refl n) (Nat.zero_le 1)
  refine reads_expect_bind (m := n) (fun opening ho => ?_) (Nat.le_succ n)
  refine hexpression.bind (m := n) (fun test => ?_) (Nat.le_refl n)
  refine reads_expect_bind (m := n) (fun closing hc => ?_) (Nat.le_succ n)
  refine hstatement.bind (m := n) (fun whenTrue => ?_) (Nat.le_refl n)
  refine reads_accept_bind (m := n) (fun other hother => ?_) ?_ (Nat.le_succ n)
  · have hk : other.kind = .elseWord := List.mem_singleton.mp hother
    refine (Reads.map (M := fun read rest o => ∃ s, o = some s ∧ statementLanguage read rest s)
      (hstatement.mono fun _ _ s hs => ⟨s, rfl, hs⟩)).bind (m := n) (fun whenFalse => ?_)
      (Nat.le_refl n)
    refine reads_pure fun rest => ?_
    rintro vs ⟨s, rfl, tail, hvs, htail⟩ us ⟨tail', hus, htail'⟩ ts hts
    -- the `else` was next, so it was not for the statement before
    obtain rfl : tail' = .closed := by
      cases tail' with
      | closed => rfl
      | dangling => exact absurd hk (htail' rfl other (by simp))
    exact ⟨tail, by simpa using Statement.ifElse hw ho hts hc hus hk hvs, htail⟩
  · refine reads_pure fun rest hnone => ?_
    rintro us ⟨tail, hus, -⟩ ts hts
    refine ⟨.dangling, by simpa using Statement.ifThen hw ho hts hc hus, fun _ => ?_⟩
    simpa using hnone

theorem reads_printStatement (hp : p.Read n) {word : Token} (hw : word.kind = .printWord) :
    Reads n 0 (printStatement p) fun read _ s => Statement .closed (word :: read) s := by
  refine (hp.expression.weaken (Nat.le_succ n) (Nat.zero_le 1)).bind (m := n) (fun e => ?_)
    (Nat.le_refl n)
  refine reads_expect_bind (m := n) (fun semicolon hs => ?_) (Nat.le_succ n)
  exact reads_pure fun _ ts hts => .print hw hts hs

theorem reads_returnStatement (hp : p.Read n) {word : Token} (hw : word.kind = .returnWord) :
    Reads n 0 (returnStatement p word) fun read _ s => Statement .closed (word :: read) s := by
  refine (reads_optionalBefore hp .semicolon).bind (m := n) (fun value => ?_) (Nat.le_refl n)
  refine reads_expect_bind (m := n) (fun semicolon hs => ?_) (Nat.le_succ n)
  exact reads_pure fun _ ts hts => .giveBack hw hts hs

theorem reads_whileStatement (hp : p.Read n) {word : Token} (hw : word.kind = .whileWord) :
    Reads n 0 (whileStatement p) fun read rest s => statementLanguage (word :: read) rest s := by
  refine reads_expect_bind (m := n) (fun opening ho => ?_) (Nat.le_succ n)
  refine (hp.expression.weaken (Nat.le_succ n) (Nat.zero_le 1)).bind (m := n) (fun test => ?_)
    (Nat.le_refl n)
  refine reads_expect_bind (m := n) (fun closing hc => ?_) (Nat.le_succ n)
  refine (hp.statement.weaken (Nat.le_refl n) (Nat.zero_le 1)).bind (m := n) (fun body => ?_)
    (Nat.le_refl n)
  refine reads_pure fun rest => ?_
  rintro us ⟨tail, hus, htail⟩ ts hts
  exact ⟨tail, by simpa using Statement.loop hw ho hts hc hus, htail⟩

/-- A closed statement lets go of every `else`. -/
theorem statementLanguage_of_closed {read rest : List Token} {s : Stmt Blank}
    (h : Statement .closed read s) : statementLanguage read rest s :=
  ⟨.closed, h, nofun⟩

theorem reads_statement (hp : p.Read n) : Reads (n + 1) 1 (statement p) statementLanguage := by
  refine reads_dispatch (m := n) ?_ (fun t q hq => ?_) (Nat.le_refl _)
  · refine (reads_expressionStatement hp).mono ?_
    rintro _ _ _ ⟨ts, semicolon, e, rfl, rfl, hts, hs⟩
    exact statementLanguage_of_closed (.expression hts hs)
  · split at hq
    all_goals cases hq
    · next hk => exact reads_forStatement hp hk
    · next hk => exact reads_ifStatement hp hk
    · next hk =>
      exact (reads_printStatement hp hk).mono fun _ _ _ => statementLanguage_of_closed
    · next hk =>
      exact (reads_returnStatement hp hk).mono fun _ _ _ => statementLanguage_of_closed
    · next hk => exact reads_whileStatement hp hk
    · next hk =>
      refine Reads.map (((reads_blockBody hp).weaken (Nat.le_refl n) (Nat.zero_le 1)).mono ?_)
      rintro _ rest body ⟨ts, closing, rfl, hts, hc⟩
      exact statementLanguage_of_closed (.block hk hts hc)

theorem reads_declaration (hp : p.Read n) : ReadsDeclaration (n + 1) (declaration p) := by
  intro s hne hs
  refine Outcome.recover ?_ hne
  refine reads_dispatch (m := n) ?_ (fun t q hq => ?_) (Nat.le_refl _) s hs
  · exact (reads_statement hp).mono fun _ _ _ ⟨_, h, _⟩ => .statement h
  · split at hq
    all_goals cases hq
    · next hk => exact reads_classDeclaration hp hk
    · next hk =>
      have h := (reads_routine hp .function).weaken (Nat.le_refl n) (Nat.zero_le 1)
      exact Reads.map (h.mono fun _ _ _ hr => .function hk hr)
    · next hk =>
      exact ((reads_variableDeclaration hp).weaken (Nat.le_refl n) (Nat.zero_le 1)).mono
        fun _ _ _ hs => .declare hk hs

end Rules

/-- Parsing a statement reads the tokens of a statement, and parsing a declaration those of a
declaration. -/
theorem reads_statementAt_declarationAt (n : Nat) :
    Reads n 1 (statementAt n) statementLanguage ∧ ReadsDeclaration n (declarationAt n) := by
  induction n with
  | zero =>
    exact ⟨fun s hs => absurd hs (Nat.not_lt_zero _), fun s _ hs => absurd hs (Nat.not_lt_zero _)⟩
  | succ n ih =>
    have hp : Parts.Read ⟨expressionAt (n + 1), statementAt n, declarationAt n, n + 1⟩ n :=
      ⟨reads_expressionAt (n + 1), ih.1, ih.2, Nat.lt_succ_self n⟩
    exact ⟨reads_statement hp, reads_declaration hp⟩

/-- **Soundness.** A program that is parsed without a mistake is derived from its tokens. -/
theorem parse_sound {tokens : List Token} (h : (parse tokens).mistakes = []) :
    Program tokens (parse tokens).statements := by
  have hd := (reads_statementAt_declarationAt (tokens.length + 1)).2
  have hr := reads_declarations hd [] (tokens.length + 1) (tokens.length + 1) (Nat.le_refl _)
    (Nat.le_refl _) ⟨tokens, []⟩ (Nat.lt_succ_self _)
  unfold parse program at *
  match hres : declarations (declarationAt (tokens.length + 1)) [] (tokens.length + 1)
    ⟨tokens, []⟩, hr with
  | .ok statements s, ⟨read, hrest, _, _, hread⟩ =>
    simp only [hres] at h ⊢
    obtain ⟨hp, hend⟩ := hread h
    -- nothing closes a program but its end
    have hnil : s.rest = [] := by
      cases hs : s.rest with
      | nil => rfl
      | cons t rest => exact absurd (hend t (by simp [hs])) (by simp)
    have hread : tokens = read := by simpa [hnil] using hrest
    rwa [hread]
  | .error .unwound s, ⟨_, _, hne⟩ =>
    simp only [hres] at h
    exact absurd h hne

end LoxInterpreter.Parse
