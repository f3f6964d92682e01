import LoxInterpreter.Proofs.Grammar.Forecast

/-!
# Mistakes are found as early as can be

The parser unwinds for the first time at the first token that no program has there: what stands
before it can be continued to a program of the loose grammar, and with the token it cannot. If it
never unwinds, the tokens are such a program.

For every parser of expressions and statements there is a law of what it can know so far
(`Forecasts`), under a condition on what comes behind:

* behind an expression of some level nothing may come that carries it on (`Ends`);
* behind a statement an `else` may come, but only if it could as well belong to an `if` at the end
  of the statement (`ElseClosed`), for that is where the parser takes it to belong;
* behind declarations, only what closes them.

The main statements are `firstUnwinding_parse_eq_none` and `parse_blames_earliest`.
-/

namespace LoxInterpreter.Parse

open Grammar Computability

variable {K : Words}

/-! ### Expressions -/

/-- Whatever is in the language carries on no phrase of a level below the height. -/
def Ends (h : Nat) (K : Words) : Prop := ∀ us ∈ K, Stops h us

section Ends

variable {h h' : Nat} {L M : Words} {kinds : List TokenKind}

theorem Ends.mono (hK : Ends h K) (hle : h' ≤ h) : Ends h' K :=
  fun us hus => (hK us hus).mono hle

theorem ends_of_begins (hK : Begins kinds K)
    (hkinds : ∀ k ∈ kinds, ∀ l ∈ carriedOn? k, h ≤ l.height) : Ends h K := by
  intro us hus
  obtain ⟨t, us, rfl, ht⟩ := hK us hus
  rintro t' ⟨⟩
  exact hkinds t.kind ht

/-- What may be left out ends a phrase if it begins so, and if what comes behind it does. -/
theorem Ends.optional (hL : Begins kinds L)
    (hkinds : ∀ k ∈ kinds, ∀ l ∈ carriedOn? k, h ≤ l.height) (hK : Ends h K) :
    Ends h ((L + 1) * K) := by
  rw [add_mul, one_mul]
  rintro us (hus | hus)
  · exact ends_of_begins (hL.mul K) hkinds us hus
  · exact hK us hus

/-- The operators of a level do not come next where its phrases end. -/
theorem Ends.not_mem {l : Level} {t : Token} {us : List Token} (hK : Ends (l.height + 1) K)
    (hus : t :: us ∈ K) : carriedOn? t.kind ≠ some l := by
  intro hl
  have := hK _ hus t rfl l hl
  omega

end Ends

/-- The parser reads the expressions of a level wherever they end. -/
def ForecastsLevel (p : Parse (Expr Blank)) (l : Level) : Prop :=
  ∀ K, Ends (l.height + 1) K → Forecasts p l.language K

section Levels

variable {nested : Parse (Expr Blank)}

/-- An item, and others if a comma is next. -/
theorem forecasts_separated {α : Type} {L : Words} {item : Parse α} {more : Parse (List α)}
    (hitem : Forecasts item L ((oneOf [.comma] * (L * (oneOf [.comma] * L)∗) + 1) * K))
    (hmore : Forecasts more (L * (oneOf [.comma] * L)∗) K) (hK : Begins [.rightParen] K) :
    Forecasts (do
      let a ← item
      match ← accept [.comma] with
      | some _ => return a :: (← more)
      | none => return [a]) (L * (oneOf [.comma] * L)∗) K := by
  rw [kstar_oneOf_mul]
  refine hitem.bind (fun a => ?_) (by simp)
  refine forecasts_accept_or_bind (fun comma _ => ?_) (forecasts_pure _) fun t us ht hus => ?_
  · exact hmore.finish fun as => forecasts_pure _
  · rw [one_mul] at hus
    exact absurd hus (hK.not_cons_mem (by decide) ht)

/-- There are never too many arguments for the loose grammar. -/
theorem forecasts_arguments (hn : ForecastsLevel nested .assignment) (hK : Begins [.rightParen] K) :
    ∀ bound count, Forecasts (arguments nested bound count) Symbol.arguments.language K := by
  rw [language_arguments]
  intro bound
  induction bound with
  | zero => exact fun count => forecasts_stuck
  | succ bound ih =>
    intro count
    have hrest := forecasts_separated (hn _ ?_) (ih (count + 1)) hK
    · rw [arguments]
      dsimp only
      split
      · exact forecasts_next?_bind fun o => forecasts_complain_bind rfl hrest (by simp)
      · exact hrest
    · -- neither a comma nor the closing parenthesis carries an argument on
      exact Ends.optional (begins_oneOf.mul _) (by decide) (ends_of_begins hK (by decide))

/-- Whatever comes behind it, an operand ends where it ends. -/
theorem forecasts_primary (hn : ForecastsLevel nested .assignment) :
    Forecasts (primary nested) Level.primary.language K := by
  have hL : Level.primary.language = alternatives
      [([.falseWord, .trueWord, .nilWord, .number, .string, .thisWord, .identifier], 1),
        ([.superWord], oneOf [.dot] * oneOf [.identifier]),
        ([.leftParen], Level.assignment.language * oneOf [.rightParen])] 0 := by
    rw [language_primary]
    simp [alternatives]
  rw [hL]
  refine forecasts_dispatch_alternatives (fun t p hp => ?_) (fun s hnone => ?_)
    (begins_zero : Begins [] 0) ?_
  · have hliteral {e : Expr Blank} := forecasts_pure (K := K) e
    split at hp
    all_goals cases hp
    · exact ⟨_, .head _, by simp [*], hliteral⟩
    · exact ⟨_, .head _, by simp [*], hliteral⟩
    · exact ⟨_, .head _, by simp [*], hliteral⟩
    · exact ⟨_, .head _, by simp [*], hliteral⟩
    · exact ⟨_, .head _, by simp [*], hliteral⟩
    · refine ⟨_, .tail _ (.head _), by simp [*], ?_⟩
      exact forecasts_expect_bind rfl (fun _ => forecasts_expect_pure rfl) (by simp)
    · exact ⟨_, .head _, by simp [*], hliteral⟩
    · exact ⟨_, .head _, by simp [*], hliteral⟩
    · refine ⟨_, .tail _ (.tail _ (.head _)), by simp [*], ?_⟩
      refine (hn _ ?_).bind (fun inner => ?_) (by simp)
      · exact ends_of_begins (begins_oneOf.mul K) (by decide)
      · exact forecasts_expect_pure rfl
  · rw [← hL]
    refine forecast_fail rfl (by simp) ((begins_primary.mul K).absent fun t ht hk => ?_)
    have := hnone t ht
    split at this <;> simp_all [operandStarters]
  · simp [List.Disjoint]

theorem forecasts_postfixes (hn : ForecastsLevel nested .assignment)
    (hK : Ends (Level.call.height + 1) K) :
    ∀ bound callee, Forecasts (postfixes nested bound callee) postfixLanguage∗ K := by
  intro bound
  induction bound with
  | zero => exact fun callee => forecasts_stuck
  | succ bound ih =>
    intro callee
    have hL : postfixLanguage∗ = alternatives
        [([.leftParen], (Symbol.arguments.language + 1) *
          (oneOf [.rightParen] * postfixLanguage∗)),
          ([.dot], oneOf [.identifier] * postfixLanguage∗)] 1 := postfixLanguage_kstar
    rw [postfixes, hL]
    refine forecasts_accept_bind (fun t ht => ?_) fun s hnone => (forecasts_pure callee s).narrow ?_
    · -- where calls end, neither token comes next
      have hend (M : Words) (us : List Token) (hus : t :: us ∈ 1 * K) : us ∈ M * K := by
        rw [one_mul] at hus
        refine absurd ?_ (hK.not_mem hus)
        simp only [List.mem_cons, List.not_mem_nil, or_false] at ht
        rcases ht with ht | ht <;> rw [ht] <;> rfl
      dsimp only
      split
      · next hk =>
        refine ⟨_, behind_alternatives (by simp [List.Disjoint]) (.head _) (by simp [hk])
          (hend _), ?_⟩
        refine forecasts_optional_bind (forecasts_arguments hn ?_ _ _) (fun values => ?_) (by simp)
          ((begins_oneOf.mul _).mul K) begins_arguments (by decide)
        · exact (begins_oneOf.mul _).mul K
        · exact forecasts_expect_bind rfl (fun paren => ih _) (by simp)
      · next hk =>
        refine ⟨_, behind_alternatives (by simp [List.Disjoint]) (.tail _ (.head _))
          (by simpa [hk] using ht) (hend _), ?_⟩
        exact forecasts_expect_bind rfl (fun name => ih _) (by simp)
    · refine narrows_alternatives fun t ht => ?_
      simpa using hnone t ht

theorem forecasts_call (hn : ForecastsLevel nested .assignment) (bound : Nat) :
    ForecastsLevel (call nested bound) .call := by
  intro K hK
  rw [language_call]
  exact (forecasts_primary hn).bind (forecasts_postfixes hn hK bound) (by simp)

theorem forecasts_unary (hn : ForecastsLevel nested .assignment) (bound : Nat) :
    ∀ more, ForecastsLevel (unary nested bound more) .unary := by
  intro more
  induction more with
  | zero => exact fun K _ => forecasts_stuck
  | succ more ih =>
    intro K hK
    rw [language_unary, unary]
    refine forecasts_accept_or_bind (fun op _ => ?_) ?_ fun t us ht hus => ?_
    · exact (ih K hK).finish fun operand => forecasts_pure _
    · exact forecasts_call hn bound K (hK.mono (by decide))
    · -- nothing that is called begins with a prefix operator
      exact absurd hus ((begins_call.mul K).not_cons_mem (by decide) ht)

/-- An operand of a level ends at the operators of the level. -/
theorem ends_operators {l l' : Level} (hl : l.tighter? = some l') (hK : Ends (l.height + 1) K)
    (L : Words) : Ends (l'.height + 1) ((oneOf l.operators * L)∗ * K) := by
  have hheight := Level.height_of_tighter? hl
  rw [kstar_oneOf_mul]
  refine Ends.optional (begins_oneOf.mul _) (fun k hk l'' hl'' => ?_) (hK.mono (by omega))
  cases (carriedOn?_of_mem hk).symm.trans hl''
  omega

/-- What follows the first operand of a level joins it to others. -/
theorem forecasts_operands {l l' : Level} (hl : l.tighter? = some l')
    {operand : Parse (Expr Blank)} (ho : ForecastsLevel operand l') (hK : Ends (l.height + 1) K) :
    ∀ bound left, Forecasts (operands l.operators l.join operand bound left)
      (oneOf l.operators * l'.language)∗ K := by
  intro bound
  induction bound with
  | zero => exact fun left => forecasts_stuck
  | succ bound ih =>
    intro left
    rw [operands, kstar_oneOf_mul]
    refine forecasts_accept_or_bind (fun op _ => ?_) (forecasts_pure _) fun t us ht hus => ?_
    · exact (ho _ (ends_operators hl hK _)).bind (fun right => ih _) (by simp)
    · rw [one_mul] at hus
      exact absurd (carriedOn?_of_mem ht) (hK.not_mem hus)

theorem forecasts_leftAssociative {l l' : Level} (hl : l.tighter? = some l')
    (ho : l.operators ≠ []) {operand : Parse (Expr Blank)} (h : ForecastsLevel operand l')
    (bound : Nat) : ForecastsLevel (leftAssociative l.operators l.join bound operand) l := by
  intro K hK
  rw [language_operation hl ho]
  exact (h _ (ends_operators hl hK _)).bind (fun left => forecasts_operands hl h hK bound left)
    (by simp)

end Levels

/-- The levels with operators are read one from the next. -/
theorem forecasts_levelAt {n : Nat} (hn : ForecastsLevel (expressionAt n) .assignment) :
    ∀ l : Level, l.operators ≠ [] → ForecastsLevel (levelAt n l) l :=
  Level.of_unary (forecasts_unary hn (n + 1) (n + 1)) fun hl ho h => by
    rw [levelAt_eq_leftAssociative hl ho]
    exact forecasts_leftAssociative hl ho h (n + 1)

/-- An expression is read as far as it goes. -/
theorem forecasts_expressionAt (n : Nat) : ForecastsLevel (expressionAt n) .assignment := by
  induction n with
  | zero => exact fun K _ => forecasts_stuck
  | succ n ih =>
    intro K hK
    rw [language_assignment]
    refine (forecasts_levelAt ih .disjunction (by decide) _ ?_).bind (fun target => ?_) (by simp)
    · exact Ends.optional (begins_oneOf.mul _) (by decide) (hK.mono (by decide))
    · refine forecasts_accept_or_bind (fun equals _ => ?_) (forecasts_pure _) fun t us ht hus => ?_
      · refine (ih K hK).finish fun value => ?_
        -- the loose grammar does not care what is assigned to
        split
        · exact forecasts_pure _
        · exact forecasts_pure _
        · exact forecasts_complain_bind rfl (forecasts_pure _) (by simp)
      · rw [one_mul] at hus
        exact absurd (by rw [List.mem_singleton.mp ht]; rfl) (hK.not_mem hus)

/-! ### Statements -/

/-- An `else` that comes next may as well come behind a statement. -/
def ElseClosed (K : Words) : Prop :=
  ∀ t us, t.kind = .elseWord → t :: us ∈ K → us ∈ Symbol.statement.language * K

/-- Behind the branch of an `if` its `else` may come. -/
theorem ElseClosed.branch (hK : ElseClosed K) :
    ElseClosed ((oneOf [.elseWord] * Symbol.statement.language + 1) * K) := by
  intro t us ht hus
  rw [add_mul, one_mul, mul_assoc] at hus ⊢
  have hmem : us ∈ Symbol.statement.language * K :=
    hus.elim (fun h => (cons_mem_oneOf_mul.mp h).2) (hK t us ht)
  rw [mul_add]
  exact .inr hmem

/-- The parser reads the words of a language wherever an `else` does no harm. -/
def ForecastsClosed (p : Parse (Stmt Blank)) (L : Words) : Prop :=
  ∀ K, ElseClosed K → Forecasts p L K

/-- What the parts of a statement have to do. -/
structure Parts.Forecast (p : Parts) : Prop where
  expression : ForecastsLevel p.expression .assignment
  statement : ForecastsClosed p.statement Symbol.statement.language
  declaration : ForecastsClosed p.declaration Symbol.declaration.language

/-- What does not close declarations is taken for one. -/
theorem declarations_cons {declaration : Parse (Stmt Blank)} {closing : List TokenKind} {t : Token}
    (hc : t.kind ∉ closing) (bound : Nat) (rest : List Token) (mistakes : List SyntaxMistake) :
    declarations declaration closing (bound + 1) ⟨t :: rest, mistakes⟩ =
      (do
        let first ← declaration
        return first :: (← declarations declaration closing bound) : Parse _)
        ⟨t :: rest, mistakes⟩ := by
  show (if t.kind ∈ closing then _ else _ : Parse _) _ = _
  rw [if_neg hc]

/-- Declarations up to what closes them. -/
theorem forecasts_declarations {declaration : Parse (Stmt Blank)} {closing : List TokenKind}
    (hd : ForecastsClosed declaration Symbol.declaration.language)
    (hclosing : ∀ k ∈ closing, k ∉ .elseWord :: declarationStarters)
    (hK : ∀ t us, t :: us ∈ K → t.kind ∈ closing) :
    ∀ bound, Forecasts (declarations declaration closing bound) Symbol.declaration.language∗ K := by
  have hbegins := (begins_declaration.mul Symbol.declaration.language∗).mul K
  -- no `else` comes behind a declaration in a list
  have hmore : ElseClosed (Symbol.declaration.language∗ * K) := by
    rw [← Language.one_add_self_mul_kstar_eq_kstar, add_mul, one_mul]
    rintro t us ht (hus | hus)
    · exact absurd (by simp [ht]) (hclosing t.kind (hK t us hus))
    · exact absurd (ht ▸ hbegins.cons_mem hus) (by decide)
  intro bound
  induction bound with
  | zero => exact forecasts_stuck
  | succ bound ih =>
    rintro ⟨rest, mistakes⟩
    cases rest with
    | nil => exact forecast_many_nil (s := ⟨[], mistakes⟩) (hbegins.absent (by simp))
    | cons t rest =>
      by_cases hc : t.kind ∈ closing
      · have hstop : declarations declaration closing (bound + 1) ⟨t :: rest, mistakes⟩ =
            (pure [] : Parse _) ⟨t :: rest, mistakes⟩ := by
          show (if t.kind ∈ closing then pure [] else _ : Parse _) _ = _
          rw [if_pos hc]
        rw [hstop]
        refine forecast_many_nil (hbegins.absent fun t' ht' hk => ?_)
        cases ht'
        exact hclosing t.kind hc (List.mem_cons_of_mem _ hk)
      · rw [declarations_cons hc]
        refine forecast_many_cons (hd _ hmore) ih fun us hus hhead => ?_
        obtain ⟨us, rfl⟩ := List.head?_eq_some_iff.mp hhead
        exact hc (hK t us hus)

/-- There are never too many parameters for the loose grammar. -/
theorem forecasts_parameters (hK : Begins [.rightParen] K) :
    ∀ bound count, Forecasts (parameters bound count) Symbol.parameters.language K := by
  rw [language_parameters]
  intro bound
  induction bound with
  | zero => exact fun count => forecasts_stuck
  | succ bound ih =>
    intro count
    have hname {K : Words} :
        Forecasts (expect .identifier .paramName) (oneOf [.identifier]) K := forecasts_expect rfl
    have hrest := forecasts_separated hname (ih (count + 1)) hK
    rw [parameters]
    dsimp only
    split
    · exact forecasts_next?_bind fun o => forecasts_complain_bind rfl hrest (by simp)
    · exact hrest

section Rules

variable {p : Parts}

theorem forecasts_blockBody (hp : p.Forecast) :
    Forecasts (blockBody p) (Symbol.declaration.language∗ * oneOf [.rightBrace]) K := by
  refine (forecasts_declarations hp.declaration (by decide) ?_ p.bound).bind (fun body => ?_)
    (by simp)
  · exact fun t us => (begins_oneOf.mul K).cons_mem
  · exact forecasts_expect_pure rfl

theorem forecasts_routine (hp : p.Forecast) (kind : RoutineKind) :
    Forecasts (routine p kind) Symbol.routine.language K := by
  rw [language_routine, language_block]
  refine forecasts_expect_bind rfl (fun name => ?_) (by simp)
  refine forecasts_expect_bind rfl (fun openParen => ?_) (by simp)
  refine forecasts_optional_bind (forecasts_parameters ?_ _ _) (fun params => ?_) (by simp)
    ((begins_oneOf.mul _).mul K) begins_parameters (by decide)
  · exact (begins_oneOf.mul _).mul K
  refine forecasts_expect_bind rfl (fun closeParen => ?_) (by simp)
  refine forecasts_expect_bind rfl (fun openBrace => ?_) (by simp)
  exact (forecasts_blockBody hp).finish fun body => forecasts_pure _

/-- Methods up to the closing brace. -/
theorem forecasts_methods (hp : p.Forecast) (hK : Begins [.rightBrace] K) :
    ∀ bound, Forecasts (methods p bound) Symbol.routine.language∗ K := by
  intro bound
  induction bound with
  | zero => exact forecasts_stuck
  | succ bound ih =>
    have hbegins := (begins_routine.mul Symbol.routine.language∗).mul K
    rintro ⟨rest, mistakes⟩
    cases rest with
    | nil => exact forecast_many_nil (s := ⟨[], mistakes⟩) (hbegins.absent (by simp))
    | cons t rest =>
      show Forecast _ K _ ((if (decide (t.kind = .rightBrace) || false) = true then pure [] else _ :
        Parse (List (Routine Blank))) _)
      rw [Bool.or_false]
      split
      · next hb =>
        have hk : t.kind = .rightBrace := of_decide_eq_true hb
        exact forecast_many_nil (hbegins.absent (by simp [hk]))
      · next hb =>
        refine forecast_many_cons (forecasts_routine hp .method) ih (hK.absent ?_)
        simpa using hb

theorem forecasts_classDeclaration (hp : p.Forecast) :
    Forecasts (classDeclaration p) classLanguage K := by
  refine forecasts_expect_bind rfl (fun name => ?_) (by simp)
  -- the rest of the class is the same with and without a superclass
  have hrest (superclass : Option (Reference Blank)) : Forecasts (do
      let _ ← expect .leftBrace .classOpen
      let members ← methods p p.bound
      let _ ← expect .rightBrace .classClose
      return .klass name superclass members : Parse (Stmt Blank))
      (oneOf [.leftBrace] * (Symbol.routine.language∗ * oneOf [.rightBrace])) K := by
    refine forecasts_expect_bind rfl (fun opening => ?_) (by simp)
    refine (forecasts_methods hp (begins_oneOf.mul K) p.bound).bind (fun members => ?_) (by simp)
    exact forecasts_expect_pure rfl
  rw [add_mul, one_mul, mul_assoc]
  refine forecasts_accept_or_bind (fun less _ => ?_) (hrest none) fun t us ht hus => ?_
  · exact forecasts_expect_bind rfl (fun token => hrest _) (by simp)
  · exact absurd hus (((begins_oneOf.mul _).mul K).not_cons_mem (by decide) ht)

theorem forecasts_variableDeclaration (hp : p.Forecast) :
    Forecasts (variableDeclaration p) variableLanguage K := by
  refine forecasts_expect_bind rfl (fun name => ?_) (by simp)
  rw [add_mul, one_mul, mul_assoc]
  refine forecasts_accept_or_bind (fun equals _ => ?_) ?_ fun t us ht hus => ?_
  · refine (hp.expression _ ?_).map.bind (fun initial => ?_) (by simp)
    · exact ends_of_begins (begins_oneOf.mul K) (by decide)
    · exact forecasts_expect_pure rfl
  · exact forecasts_expect_pure rfl
  · exact absurd hus ((begins_oneOf.mul K).not_cons_mem (by decide) ht)

theorem forecasts_expressionStatement (hp : p.Forecast) :
    Forecasts (expressionStatement p) expressionLanguage K := by
  refine (hp.expression _ ?_).bind (fun value => ?_) (by simp)
  · exact ends_of_begins (begins_oneOf.mul K) (by decide)
  · exact forecasts_expect_pure rfl

theorem forecasts_printStatement (hp : p.Forecast) :
    Forecasts (printStatement p) expressionLanguage K := by
  refine (hp.expression _ ?_).bind (fun value => ?_) (by simp)
  · exact ends_of_begins (begins_oneOf.mul K) (by decide)
  · exact forecasts_expect_pure rfl

theorem forecasts_optionalBefore (hp : p.Forecast) {kind : TokenKind} (hK : Begins [kind] K)
    (hk : kind ∉ expressionStarters) (hc : carriedOn? kind = none) :
    Forecasts (optionalBefore p kind) (Level.assignment.language + 1) K := by
  refine forecasts_optional (hp.expression K ?_).map hK (begins_level .assignment) hk
  exact ends_of_begins hK (by simp [hc])

theorem forecasts_returnStatement (hp : p.Forecast) (keyword : Token) :
    Forecasts (returnStatement p keyword) returnLanguage K := by
  refine (forecasts_optionalBefore hp (begins_oneOf.mul K) (by decide) rfl).bind
    (fun value => ?_) (by simp)
  exact forecasts_expect_pure rfl

/-- An expression in parentheses and what comes behind it. -/
theorem forecasts_condition (hp : p.Forecast) {β : Type} {cause cause' : SyntaxError}
    {f : Expr Blank → Parse β} {M : Words} (hc : cause.unwinds = true)
    (hc' : cause'.unwinds = true) (hf : ∀ e, Forecasts (f e) M K) (hM : Possible M) :
    Forecasts (do
      let _ ← expect .leftParen cause
      let condition ← p.expression
      let _ ← expect .rightParen cause'
      f condition)
      (oneOf [.leftParen] * (Level.assignment.language * (oneOf [.rightParen] * M))) K := by
  refine forecasts_expect_bind hc (fun opening => ?_) (by simp [hM])
  refine (hp.expression _ ?_).bind (fun condition => ?_) (by simp [hM])
  · exact ends_of_begins ((begins_oneOf.mul M).mul K) (by decide)
  · exact forecasts_expect_bind hc' (fun closing => hf condition) hM

theorem forecasts_whileStatement (hp : p.Forecast) :
    ForecastsClosed (whileStatement p) whileLanguage := by
  intro K hK
  refine forecasts_condition hp rfl rfl (fun condition => ?_) (by simp)
  exact (hp.statement K hK).finish fun body => forecasts_pure _

theorem forecasts_ifStatement (hp : p.Forecast) :
    ForecastsClosed (ifStatement p) ifLanguage := by
  intro K hK
  refine forecasts_condition hp rfl rfl (fun condition => ?_) (by simp)
  refine (hp.statement _ hK.branch).bind (fun whenTrue => ?_) (by simp)
  refine forecasts_accept_or_bind (fun other _ => ?_) (forecasts_pure _) fun t us ht hus => ?_
  · exact (hp.statement K hK).map.finish fun whenFalse => forecasts_pure _
  · -- an `else` that is not for this `if` could be
    rw [one_mul] at hus
    exact hK t us (List.mem_singleton.mp ht) hus

theorem forecasts_initializer (hp : p.Forecast) : Forecasts
    (dispatch (some <$> expressionStatement p) fun t =>
      match t.kind with
      | .semicolon => some (return none)
      | .varWord => some (some <$> variableDeclaration p)
      | _ => none) initializerLanguage K := by
  have hL : initializerLanguage = alternatives
      [([.semicolon], 1), ([.varWord], variableLanguage)] expressionLanguage := by
    rw [initializerLanguage, language_variable]
    simp [alternatives]
  rw [hL]
  refine forecasts_dispatch_or (fun t q hq => ?_) (fun t hnone => ?_)
    (forecasts_expressionStatement hp).map ((begins_level .assignment).mul _) ?_
  · split at hq
    all_goals cases hq
    · exact ⟨_, .head _, by simp [*], forecasts_pure _⟩
    · exact ⟨_, .tail _ (.head _), by simp [*], (forecasts_variableDeclaration hp).map⟩
  · split at hnone <;> simp_all
  · simp [List.Disjoint, expressionStarters, operandStarters]

theorem forecasts_forStatement (hp : p.Forecast) :
    ForecastsClosed (forStatement p) forLanguage := by
  intro K hK
  refine forecasts_expect_bind rfl (fun opening => ?_) (by simp [initializerLanguage])
  refine (forecasts_initializer hp).bind (fun initial => ?_) (by simp)
  refine (forecasts_optionalBefore hp ((begins_oneOf.mul _).mul K) (by decide) rfl).bind
    (fun condition => ?_) (by simp)
  refine forecasts_expect_bind rfl (fun semicolon => ?_) (by simp)
  refine (forecasts_optionalBefore hp ((begins_oneOf.mul _).mul K) (by decide) rfl).bind
    (fun increment => ?_) (by simp)
  refine forecasts_expect_bind rfl (fun closing => ?_) (by simp)
  exact (hp.statement K hK).finish fun body => forecasts_pure _

theorem forecasts_statement (hp : p.Forecast) :
    ForecastsClosed (statement p) Symbol.statement.language := by
  intro K hK
  have hL : Symbol.statement.language = alternatives
      [([.forWord], forLanguage), ([.ifWord], ifLanguage), ([.printWord], expressionLanguage),
        ([.returnWord], returnLanguage), ([.whileWord], whileLanguage),
        ([.leftBrace], Symbol.declaration.language∗ * oneOf [.rightBrace])]
      expressionLanguage := by
    rw [language_statement, language_block]
    rfl
  rw [hL]
  refine forecasts_dispatch_or (fun t q hq => ?_) (fun t hnone => ?_)
    (forecasts_expressionStatement hp) ((begins_level .assignment).mul _) ?_
  · split at hq
    all_goals cases hq
    · exact ⟨_, .head _, by simp [*], forecasts_forStatement hp K hK⟩
    · exact ⟨_, .tail _ (.head _), by simp [*], forecasts_ifStatement hp K hK⟩
    · exact ⟨_, .tail _ (.tail _ (.head _)), by simp [*], forecasts_printStatement hp⟩
    · exact ⟨_, .tail _ (.tail _ (.tail _ (.head _))), by simp [*], forecasts_returnStatement hp t⟩
    · exact ⟨_, .tail _ (.tail _ (.tail _ (.tail _ (.head _)))), by simp [*],
        forecasts_whileStatement hp K hK⟩
    · exact ⟨_, .tail _ (.tail _ (.tail _ (.tail _ (.tail _ (.head _))))), by simp [*],
        (forecasts_blockBody hp).map⟩
  · split at hnone <;> simp_all
  · simp [List.Disjoint, expressionStarters, operandStarters]

theorem forecasts_declaration (hp : p.Forecast) :
    ForecastsClosed (declaration p) Symbol.declaration.language := by
  intro K hK
  have hL : Symbol.declaration.language = alternatives
      [([.classWord], classLanguage), ([.funWord], Symbol.routine.language),
        ([.varWord], variableLanguage)] Symbol.statement.language := by
    rw [language_declaration, language_variable]
    rfl
  rw [hL]
  refine Forecasts.recover (forecasts_dispatch_or (fun t q hq => ?_) (fun t hnone => ?_)
    (forecasts_statement hp K hK) begins_statement ?_)
  · split at hq
    all_goals cases hq
    · exact ⟨_, .head _, by simp [*], forecasts_classDeclaration hp⟩
    · exact ⟨_, .tail _ (.head _), by simp [*], (forecasts_routine hp .function).map⟩
    · exact ⟨_, .tail _ (.tail _ (.head _)), by simp [*], forecasts_variableDeclaration hp⟩
  · split at hnone <;> simp_all
  · simp [List.Disjoint, statementStarters, expressionStarters, operandStarters]

end Rules

/-- Statements and declarations are read as far as they go. -/
theorem forecasts_statementAt_declarationAt (n : Nat) :
    ForecastsClosed (statementAt n) Symbol.statement.language ∧
      ForecastsClosed (declarationAt n) Symbol.declaration.language := by
  induction n with
  | zero => exact ⟨fun K _ => forecasts_stuck, fun K _ => forecasts_stuck⟩
  | succ n ih =>
    have hp : Parts.Forecast ⟨expressionAt (n + 1), statementAt n, declarationAt n, n + 1⟩ :=
      ⟨forecasts_expressionAt (n + 1), ih.1, ih.2⟩
    exact ⟨forecasts_statement hp, forecasts_declaration hp⟩

/-- Where nothing closes declarations they go on to the end of the text. -/
theorem rest_eq_nil_of_declarations {declaration : Parse (Stmt Blank)} :
    ∀ bound s {body s'}, declarations declaration [] bound s = .ok body s' → s'.rest = [] := by
  intro bound
  induction bound with
  | zero => exact fun s _ _ h => by cases h
  | succ bound ih =>
    rintro ⟨rest, mistakes⟩ body s' h
    cases rest with
    | nil =>
      cases h
      rfl
    | cons t rest =>
      rw [declarations_cons List.not_mem_nil] at h
      obtain ⟨first, s₁, -, h⟩ := bind_eq_ok h
      obtain ⟨others, s₂, hothers, h⟩ := bind_eq_ok h
      cases h
      exact ih s₁ hothers

end LoxInterpreter.Parse

namespace LoxInterpreter

open Grammar

/-! ### Programs -/

/-- The tokens can be continued to a program. -/
def Viable (tokens : List Token) : Prop := ∃ more, tokens ++ more ∈ Symbol.program.language

/-- The first `i` tokens can be continued to a program. With the next one they cannot, or, at the
end of the text, they are none. -/
structure FirstWrong (tokens : List Token) (i : Nat) : Prop where
  le : i ≤ tokens.length
  viable : Viable (tokens.take i)
  wrong : i < tokens.length → ¬Viable (tokens.take (i + 1))
  unfinished : i = tokens.length → tokens ∉ Symbol.program.language

theorem Viable.take {tokens : List Token} (h : Viable tokens) (i : Nat) :
    Viable (tokens.take i) := by
  obtain ⟨more, hmore⟩ := h
  exact ⟨tokens.drop i ++ more, by rwa [← List.append_assoc, List.take_append_drop]⟩

/-- There is but one such place. -/
theorem FirstWrong.unique {tokens : List Token} {i j : Nat} (hi : FirstWrong tokens i)
    (hj : FirstWrong tokens j) : i = j := by
  -- what can be continued at the later place could be at the earlier one
  have hle {i j : Nat} (hi : FirstWrong tokens i) (hj : FirstWrong tokens j) : j ≤ i := by
    by_contra hlt
    refine hi.wrong (by have := hj.le; omega) ?_
    have := hj.viable.take (i + 1)
    rwa [List.take_take, Nat.min_eq_left (by omega)] at this
  exact Nat.le_antisymm (hle hj hi) (hle hi hj)

/-- There is no such place in a program. -/
theorem FirstWrong.not_mem {tokens : List Token} {i : Nat} (h : FirstWrong tokens i) :
    tokens ∉ Symbol.program.language := by
  intro hmem
  rcases Nat.lt_or_eq_of_le h.le with hlt | heq
  · refine h.wrong hlt (Viable.take ⟨[], ?_⟩ (i + 1))
    rwa [List.append_nil]
  · exact h.unfinished heq hmem

/-- What a parser of whole programs is right to blame is the first wrong place. -/
theorem Parse.Blames.firstWrong {tokens : List Token} {token : Option Token}
    (h : Parse.Blames Symbol.program.language 1 tokens token) :
    ∃ i, FirstWrong tokens i ∧ token = tokens[i]? := by
  obtain ⟨before, after, rfl, htoken, ⟨more, hmore⟩, hall⟩ := h
  rw [mul_one] at hall
  refine ⟨before.length, ⟨by simp, ⟨more, by simpa using hmore⟩, ?_, ?_⟩, ?_⟩
  · rintro hlt ⟨more, hmore⟩
    refine hall _ hmore ?_
    rw [Parse.Alike, List.take_left' (by simp at hlt ⊢; omega)]
  · exact fun _ hmem => hall _ hmem rfl
  · rw [htoken, List.getElem?_append_right (Nat.le_refl _), Nat.sub_self, List.head?_eq_getElem?]

/-- Parsing comes to the right result. -/
theorem forecast_parse (tokens : List Token) :
    (∀ m ∈ firstUnwinding (parse tokens).mistakes,
      Parse.Blames Symbol.program.language 1 tokens m.token) ∧
    (firstUnwinding (parse tokens).mistakes = none → tokens ∈ Symbol.program.language) := by
  have hforecast : Parse.Forecast Symbol.program.language 1 ⟨tokens, []⟩
      (Parse.program (tokens.length + 1) ⟨tokens, []⟩) := by
    have hdeclaration := Parse.forecasts_statementAt_declarationAt (tokens.length + 1)
    rw [language_program]
    exact Parse.forecasts_declarations hdeclaration.2 (by simp) (by simp [Language.mem_one]) _ _
  rw [parse]
  cases hres : Parse.program (tokens.length + 1) ⟨tokens, []⟩ with
  | ok statements s =>
    rw [hres] at hforecast
    obtain ⟨new, hnew, hblames, hgoes⟩ := hforecast
    cases hnew
    refine ⟨hblames, fun hnone => ?_⟩
    obtain ⟨read, hread, hrest, -⟩ := hgoes hnone
    rw [Parse.rest_eq_nil_of_declarations _ _ hres, List.append_nil] at hrest
    have hall : tokens = read := hrest
    rwa [hall]
  | error halt s =>
    rw [hres] at hforecast
    cases halt with
    | stuck =>
      -- the bound on recursion is large enough
      have hreads := Parse.reads_declarations
        (Parse.reads_statementAt_declarationAt (tokens.length + 1)).2 [] (tokens.length + 1)
        (tokens.length + 1) (Nat.le_refl _) (Nat.le_refl _) ⟨tokens, []⟩ (Nat.lt_succ_self _)
      change Parse.Outcome _ _ _ (Parse.program (tokens.length + 1) ⟨tokens, []⟩) at hreads
      rw [hres] at hreads
      exact hreads.elim
    | unwound =>
      obtain ⟨new, hnew, m, hm, hblames⟩ := hforecast
      cases hnew
      refine ⟨fun m' hm' => ?_, fun hnone => ?_⟩
      · cases hm.symm.trans hm'
        exact hblames
      · cases hm.symm.trans hnone

/-- **The parser never unwinds exactly on the programs of the loose grammar.** -/
theorem firstUnwinding_parse_eq_none (tokens : List Token) :
    firstUnwinding (parse tokens).mistakes = none ↔ tokens ∈ Symbol.program.language := by
  refine ⟨(forecast_parse tokens).2, fun hmem => ?_⟩
  by_contra hne
  obtain ⟨m, hm⟩ := Option.ne_none_iff_exists'.mp hne
  obtain ⟨i, hi, -⟩ := ((forecast_parse tokens).1 m hm).firstWrong
  exact hi.not_mem hmem

/-- The programs of the grammar are among those of the loose one. -/
theorem Grammar.Program.mem_language {tokens : List Token} {program : List (Stmt Blank)}
    (h : Program tokens program) : tokens ∈ Symbol.program.language := by
  rw [← firstUnwinding_parse_eq_none, parse_complete h]
  rfl

/-- **Mistakes are blamed at the earliest possible token.** If parsing unwinds at all, the first
mistake at which it does is blamed on the first wrong token, or on the end of the text if nothing
before it is wrong; and if it does not, the tokens are a program. -/
theorem parse_blames_earliest (tokens : List Token) :
    (∀ m, firstUnwinding (parse tokens).mistakes = some m →
      ∃ i, FirstWrong tokens i ∧ m.token = tokens[i]?) ∧
    (firstUnwinding (parse tokens).mistakes = none → tokens ∈ Symbol.program.language) :=
  ⟨fun m hm => ((forecast_parse tokens).1 m hm).firstWrong, (forecast_parse tokens).2⟩

end LoxInterpreter
