import LoxInterpreter.Proofs.Grammar.Soundness
import LoxInterpreter.Proofs.Render.Reading
import LoxInterpreter.Proofs.Scan.Exact

/-!
# What is parsed is legible

The trees that the parser yields are legible, also those of a text with mistakes.

* The tokens of a text are written like what they are (`written_of_mem_tokens`).
* `Parse.Makes T p P` says of a parser that from tokens with the property `T` it makes values with
  the property `P`, and leaves tokens with the property `T`, whatever mistakes it meets. It composes
  along `>>=`, and every step of a parser has its law.
* `legible_of_mem_statements` puts these together.
-/

namespace LoxInterpreter

/-! ### Tokens of a text -/

/-- The token is written like what it is: a name like a name, and everything else but numbers and
quoted text like its entry in the tables. -/
structure Token.Written (t : Token) : Prop where
  spellsName : t.kind = .identifier → t.SpellsName
  unplaced_eq : t.kind ≠ .number → t.kind ≠ .string → t.unplaced = .named t.lexeme
  mem_table : t.kind ≠ .number → t.kind ≠ .string → t.kind ≠ .identifier →
    (t.lexeme, t.kind) ∈ punctuation ++ keywords
  not_mem_quoted : ∀ s, t.literal = some (.text s) → '"' ∉ s.toList

/-- A token that is neither a number nor a string nor a name has a spelling of its kind. -/
theorem Token.Written.spellsOneOf {t : Token} (h : t.Written) {kinds : List TokenKind}
    {spellings : List String} (hk : t.kind ∈ kinds)
    (hkinds : .number ∉ kinds ∧ .string ∉ kinds ∧ .identifier ∉ kinds)
    (htable : ∀ entry ∈ punctuation ++ keywords, entry.2 ∈ kinds → entry.1 ∈ spellings) :
    t.SpellsOneOf spellings := by
  have hnumber : t.kind ≠ .number := ne_of_mem_of_not_mem hk hkinds.1
  have hstring : t.kind ≠ .string := ne_of_mem_of_not_mem hk hkinds.2.1
  have hname : t.kind ≠ .identifier := ne_of_mem_of_not_mem hk hkinds.2.2
  exact ⟨h.unplaced_eq hnumber hstring, htable _ (h.mem_table hnumber hstring hname) hk⟩

/-- A piece is a match of its pattern. -/
theorem Cut.mem_language {text : List Char} {ps : List Piece} (h : Cut text ps) :
    ∀ piece ∈ ps, piece.text ∈ piece.pattern.language := by
  induction h with
  | nil => exact fun piece hpiece => absurd hpiece List.not_mem_nil
  | cons hwins _ ih => exact List.forall_mem_cons.mpr ⟨hwins.mem_language, ih⟩

/-- What begins like a word is no operator and no bracket. -/
theorem lookup_punctuation_of_isWordStart {spelling : String} {c : Char} {rest : List Char}
    (hcons : spelling.toList = c :: rest) (hc : Pattern.isWordStart c = true) :
    punctuation.lookup spelling = none := by
  cases h : punctuation.lookup spelling with
  | none => rfl
  | some kind =>
    have hno : ∀ entry ∈ punctuation, entry.1.toList.head?.any Pattern.isWordStart = false := by
      decide
    have hstart := hno _ (mem_of_lookup_eq_some h)
    rw [hcons] at hstart
    rw [List.head?_cons, Option.any_some, hc] at hstart
    cases hstart

theorem Token.written_punctuation {t : Token} (h : punctuation.lookup t.lexeme = some t.kind)
    (hliteral : t.literal = none) : t.Written where
  spellsName hk := by
    have hno : ∀ entry ∈ punctuation, entry.2 ≠ .identifier := by decide
    exact absurd hk (hno _ (mem_of_lookup_eq_some h))
  unplaced_eq _ _ := by
    rw [named, h, unplaced, hliteral]
    rfl
  mem_table _ _ _ := List.mem_append_left _ (mem_of_lookup_eq_some h)
  not_mem_quoted s hs := by
    rw [hliteral] at hs
    cases hs

theorem Token.written_word {t : Token} (hp : t.lexeme.toList ∈ Pattern.word.language)
    (h : t.kind = (keywords.lookup t.lexeme).getD .identifier) (hliteral : t.literal = none) :
    t.Written := by
  obtain ⟨c, rest, hc, hrest, hcons⟩ := Pattern.mem_oneOf_mul.mp hp
  have hpunctuation := lookup_punctuation_of_isWordStart hcons hc
  have hunplaced : t.unplaced = .named t.lexeme := by
    rw [named, hpunctuation, Option.none_or, ← h, unplaced, hliteral]
  refine ⟨fun hk => ?_, fun _ _ => hunplaced, fun _ _ hk => ?_, fun s hs => ?_⟩
  · have hspelled : t.Spelled := .word h
    refine ⟨hunplaced, hspelled.lookup_keywords hk, ⟨c, rest, hcons, hc⟩, ?_⟩
    rw [hcons]
    refine List.forall_mem_cons.mpr ⟨?_, Pattern.mem_kstar_oneOf.mp hrest⟩
    rw [Pattern.isWordPart, hc, Bool.true_or]
  · cases hlookup : keywords.lookup t.lexeme with
    | none => exact absurd (by rw [h, hlookup]; rfl) hk
    | some kind =>
      rw [hlookup, Option.getD_some] at h
      exact List.mem_append_right _ (mem_of_lookup_eq_some (h ▸ hlookup))
  · rw [hliteral] at hs
    cases hs

theorem Token.written_of_token? {p : PlacedPiece} {t : Token} (hp : p.text ∈ p.pattern.language)
    (h : p.token? = some t) : t.Written := by
  rw [PlacedPiece.token?] at h
  split at h
  · obtain ⟨kind, hkind, rfl⟩ := Option.map_eq_some_iff.mp h
    exact written_punctuation hkind rfl
  · cases h
    refine ⟨fun hk => ?_, fun hk => absurd rfl hk, fun hk => absurd rfl hk, fun s hs => ?_⟩
    · cases hk
    · cases hs
  · next hpattern =>
    cases h
    refine ⟨fun hk => ?_, fun _ hk => absurd rfl hk, fun _ hk => absurd rfl hk, ?_⟩
    · cases hk
    rintro _ ⟨⟩
    rw [hpattern] at hp
    obtain ⟨c, v, -, hv, hcons⟩ := Pattern.mem_oneOf_mul.mp hp
    obtain ⟨inside, hinside, _, ⟨d, -, rfl⟩, rfl⟩ := Language.mem_mul.mp hv
    rw [hcons, List.drop_one, List.tail_cons, List.dropLast_concat, String.toList_ofList]
    exact fun hquote => absurd (Pattern.mem_kstar_oneOf.mp hinside _ hquote) (by decide)
  · next hpattern =>
    cases h
    rw [hpattern] at hp
    exact written_word (by rwa [String.toList_ofList]) rfl rfl
  all_goals cases h

/-- **The tokens of a text** are written like what they are. -/
theorem written_of_mem_tokens {text : String} {t : Token} (h : t ∈ (scan text).tokens) :
    t.Written := by
  obtain ⟨p, hp, ht⟩ := List.mem_filterMap.mp h
  have hcut : Cut text.toList (pieces text.toList) := cut_iff.mpr rfl
  refine Token.written_of_token? (hcut.mem_language p.toPiece ?_) ht
  rw [← map_toPiece_placePieces .start (pieces text.toList)]
  exact List.mem_map_of_mem hp

/-! ### Steps of a parser -/

namespace Parse

variable {α β : Type} {T : Token → Prop} {P P' : α → Prop} {Q : β → Prop} {p : Parse α}
  {f : α → Parse β} {g : α → β}

/-- The value has the one property, and the tokens left have the other. -/
def Made (T : Token → Prop) (P : α → Prop) : EStateM.Result Halt Cursor α → Prop
  | .ok a s => P a ∧ ∀ t ∈ s.rest, T t
  | .error _ s => ∀ t ∈ s.rest, T t

/-- From tokens with the one property the parser makes values with the other. -/
def Makes (T : Token → Prop) (p : Parse α) (P : α → Prop) : Prop :=
  ∀ s : Cursor, (∀ t ∈ s.rest, T t) → Made T P (p s)

namespace Makes

theorem bind (hp : Makes T p P) (hf : ∀ a, P a → Makes T (f a) Q) : Makes T (p >>= f) Q := by
  intro s hs
  have h := hp s hs
  show Made T Q (EStateM.bind p f s)
  rw [EStateM.bind]
  cases hres : p s with
  | ok a s' =>
    rw [hres] at h
    exact hf a h.1 s' h.2
  | error e s' =>
    rw [hres] at h
    exact h

theorem mono (hp : Makes T p P) (h : ∀ a, P a → P' a) : Makes T p P' := by
  intro s hs
  have hmade := hp s hs
  cases hres : p s with
  | ok a s' =>
    rw [hres] at hmade
    exact ⟨h a hmade.1, hmade.2⟩
  | error e s' =>
    rw [hres] at hmade
    exact hmade

end Makes

theorem makes_pure {a : α} (h : P a) : Makes T (pure a) P :=
  fun _ hs => ⟨h, hs⟩

theorem makes_throw (halt : Halt) : Makes T (throw halt : Parse α) P :=
  fun _ hs => hs

theorem Makes.map (hp : Makes T p fun a => Q (g a)) : Makes T (g <$> p) Q := by
  rw [← bind_pure_comp]
  exact hp.bind fun a ha => makes_pure ha

/-- Looking at the next token promises nothing. -/
theorem makes_next? : Makes T next? fun _ => True :=
  fun _ hs => ⟨trivial, hs⟩

theorem makes_nextIs (kind : TokenKind) : Makes T (nextIs kind) fun _ => True :=
  fun _ hs => ⟨trivial, hs⟩

theorem makes_atEnd : Makes T atEnd fun _ => True :=
  fun _ hs => ⟨trivial, hs⟩

theorem makes_complain (token : Option Token) (cause : SyntaxError) :
    Makes T (complain token cause) fun _ => True :=
  fun _ hs => ⟨trivial, hs⟩

theorem makes_fail (cause : SyntaxError) : Makes T (fail cause : Parse α) P :=
  fun _ hs => hs

theorem makes_dispatch {otherwise : Parse α} {table : Token → Option (Parse α)}
    (hother : Makes T otherwise P)
    (htable : ∀ t q, T t → table t = some q → Makes T q P) :
    Makes T (dispatch otherwise table) P := by
  intro s hs
  rw [dispatch]
  split
  · exact hother s hs
  · next t rest hrest =>
    rw [hrest] at hs
    obtain ⟨ht, hrest'⟩ := List.forall_mem_cons.mp hs
    split
    · next q hq => exact htable t q ht hq _ hrest'
    · exact hother s (hrest ▸ hs)

theorem makes_accept (kinds : List TokenKind) :
    Makes T (accept kinds) fun o => ∀ t ∈ o, T t ∧ t.kind ∈ kinds := by
  refine makes_dispatch (makes_pure nofun) fun t q ht hq => ?_
  split at hq
  · next hk =>
    cases hq
    refine makes_pure ?_
    rintro _ ⟨⟩
    exact ⟨ht, hk⟩
  · cases hq

theorem makes_expect (kind : TokenKind) (cause : SyntaxError) :
    Makes T (expect kind cause) fun t => T t ∧ t.kind = kind := by
  refine makes_dispatch (makes_fail cause) fun t q ht hq => ?_
  split at hq
  · next hk =>
    cases hq
    exact makes_pure ⟨ht, hk⟩
  · cases hq

/-- Recovery leaves a gap, and some of the tokens. -/
theorem makes_recover {p : Parse (Stmt Blank)} {P : Stmt Blank → Prop} (hp : Makes T p P)
    (hgap : P .malformed) : Makes T (recover p) P := by
  intro s hs
  have h := hp s hs
  have hresume {tokens : List Token} (ht : ∀ t ∈ tokens, T t) : ∀ t ∈ resume tokens, T t := by
    cases tokens with
    | nil => exact ht
    | cons t rest =>
      exact fun u hu => ht u (List.mem_cons_of_mem t ((resume_cons_suffix t rest).subset hu))
  rw [recover]
  split
  · next s' hres =>
    rw [hres] at h
    exact ⟨hgap, hresume h⟩
  · exact h

/-- A phrase, and others behind a comma. -/
theorem makes_separated {item : Parse α} {more : Parse (List α)} {R : List α → Prop}
    (hitem : Makes T item P) (hmore : Makes T more R) (hlast : ∀ a, P a → R [a])
    (hcons : ∀ a as, P a → R as → R (a :: as)) :
    Makes T (do
      let a ← item
      match ← accept [.comma] with
      | some _ => return a :: (← more)
      | none => return [a]) R := by
  refine hitem.bind fun a ha => (makes_accept _).bind fun o _ => ?_
  cases o with
  | none => exact makes_pure (hlast a ha)
  | some _ => exact hmore.bind fun as has => makes_pure (hcons a as ha has)

/-! ### Expressions -/

/-- The parser makes legible expressions. -/
abbrev MakesExpr (p : Parse (Expr Blank)) : Prop :=
  Makes Token.Written p (Expr.Legible fun _ => True)

section Levels

variable {nested operand : Parse (Expr Blank)}

theorem makes_arguments (hnested : MakesExpr nested) (bound count : Nat) :
    Makes Token.Written (arguments nested bound count) (Expr.AllLegible fun _ => True) := by
  induction bound generalizing count with
  | zero => exact makes_throw _
  | succ bound ih =>
    have hrest := makes_separated hnested (ih (count + 1)) (fun _ h => ⟨h, trivial⟩)
      fun _ _ h h' => ⟨h, h'⟩
    rw [arguments]
    dsimp only
    split
    · exact makes_next?.bind fun _ _ => (makes_complain _ _).bind fun _ _ => hrest
    · exact hrest

theorem legible_literal {t : Token} (h : t.Written) :
    (Expr.literal (t.literal.getD .nil) : Expr Blank).Legible fun _ => True := by
  cases hliteral : t.literal with
  | none => trivial
  | some value =>
    cases value with
    | text s => exact h.not_mem_quoted s hliteral
    | _ => trivial

theorem makes_primary (hnested : MakesExpr nested) : MakesExpr (primary nested) := by
  refine makes_dispatch (makes_fail _) fun t q ht hq => ?_
  split at hq
  all_goals cases hq
  · exact makes_pure trivial
  · exact makes_pure trivial
  · exact makes_pure trivial
  · exact makes_pure (legible_literal ht)
  · exact makes_pure (legible_literal ht)
  · next hk =>
    refine (makes_expect _ _).bind fun _ _ => (makes_expect _ _).bind fun method hmethod => ?_
    have hword : t.kind ∈ [.superWord] := List.mem_singleton.mpr hk
    exact makes_pure ⟨ht.spellsOneOf hword (by decide) (by decide),
      hmethod.1.spellsName hmethod.2⟩
  · next hk =>
    have hword : t.kind ∈ [.thisWord] := List.mem_singleton.mpr hk
    exact makes_pure (ht.spellsOneOf hword (by decide) (by decide))
  · next hk => exact makes_pure (ht.spellsName hk)
  · exact hnested.bind fun inner hinner => (makes_expect _ _).bind fun _ _ => makes_pure hinner

theorem makes_postfixes (hnested : MakesExpr nested) (bound : Nat) {callee : Expr Blank}
    (hcallee : callee.Legible fun _ => True) : MakesExpr (postfixes nested bound callee) := by
  induction bound generalizing callee with
  | zero => exact makes_throw _
  | succ bound ih =>
    refine (makes_accept _).bind fun o ho => ?_
    cases o with
    | none => exact makes_pure hcallee
    | some t =>
      dsimp only
      split
      · refine (makes_nextIs _).bind fun b _ => ?_
        have hvalues : Makes Token.Written
            (if b then pure [] else arguments nested (bound + 1) 0)
            (Expr.AllLegible fun _ => True) := by
          cases b with
          | true => exact makes_pure trivial
          | false => exact makes_arguments hnested (bound + 1) 0
        rw [ite_bind]
        exact hvalues.bind fun values hvalues => (makes_expect _ _).bind fun paren _ =>
          ih ⟨hcallee, hvalues⟩
      · exact (makes_expect _ _).bind fun name hname =>
          ih ⟨hcallee, hname.1.spellsName hname.2⟩

theorem makes_call (hnested : MakesExpr nested) (bound : Nat) : MakesExpr (call nested bound) :=
  (makes_primary hnested).bind fun _ hcallee => makes_postfixes hnested bound hcallee

theorem makes_unary (hnested : MakesExpr nested) (bound more : Nat) :
    MakesExpr (unary nested bound more) := by
  induction more with
  | zero => exact makes_throw _
  | succ more ih =>
    refine (makes_accept _).bind fun o ho => ?_
    cases o with
    | none => exact makes_call hnested bound
    | some op =>
      obtain ⟨hop, hk⟩ := ho op rfl
      exact ih.bind fun e he => makes_pure ⟨hop.spellsOneOf hk (by decide) (by decide), he⟩

theorem makes_operands {kinds : List TokenKind}
    {node : Expr Blank → Token → Expr Blank → Expr Blank}
    (hnode : ∀ left op right, left.Legible (fun _ => True) → op.Written → op.kind ∈ kinds →
      right.Legible (fun _ => True) → (node left op right).Legible fun _ => True)
    (hoperand : MakesExpr operand) (bound : Nat) {left : Expr Blank}
    (hleft : left.Legible fun _ => True) : MakesExpr (operands kinds node operand bound left) := by
  induction bound generalizing left with
  | zero => exact makes_throw _
  | succ bound ih =>
    refine (makes_accept _).bind fun o ho => ?_
    cases o with
    | none => exact makes_pure hleft
    | some op =>
      obtain ⟨hop, hk⟩ := ho op rfl
      exact hoperand.bind fun right hright => ih (hnode left op right hleft hop hk hright)

/-- A level whose operators make nodes of the one kind. -/
theorem makes_binary {kinds : List TokenKind} (hkinds : .number ∉ kinds ∧ .string ∉ kinds ∧
      .identifier ∉ kinds)
    (htable : ∀ entry ∈ punctuation ++ keywords, entry.2 ∈ kinds → entry.1 ∈ binarySpellings)
    (bound : Nat) (hoperand : MakesExpr operand) :
    MakesExpr (leftAssociative kinds .binary bound operand) := by
  refine hoperand.bind fun left hleft => makes_operands ?_ hoperand bound hleft
  exact fun _ _ _ hleft hop hk hright => ⟨hleft, hop.spellsOneOf hk hkinds htable, hright⟩

/-- A level whose operators make nodes of the other kind. -/
theorem makes_logical {kinds : List TokenKind} (hkinds : .number ∉ kinds ∧ .string ∉ kinds ∧
      .identifier ∉ kinds)
    (htable : ∀ entry ∈ punctuation ++ keywords, entry.2 ∈ kinds → entry.1 ∈ ["and", "or"])
    (bound : Nat) (hoperand : MakesExpr operand) :
    MakesExpr (leftAssociative kinds .logical bound operand) := by
  refine hoperand.bind fun left hleft => makes_operands ?_ hoperand bound hleft
  exact fun _ _ _ hleft hop hk hright => ⟨hleft, hop.spellsOneOf hk hkinds htable, hright⟩

theorem makes_disjunction (hnested : MakesExpr nested) (bound : Nat) :
    MakesExpr (disjunction nested bound) := by
  refine makes_logical (by decide) (by decide) bound ?_
  refine makes_logical (by decide) (by decide) bound ?_
  refine makes_binary (by decide) (by decide) bound ?_
  refine makes_binary (by decide) (by decide) bound ?_
  refine makes_binary (by decide) (by decide) bound ?_
  exact makes_binary (by decide) (by decide) bound (makes_unary hnested bound bound)

theorem makes_assignment (hnested : MakesExpr nested) (bound : Nat) :
    MakesExpr (assignment nested bound) := by
  refine (makes_disjunction hnested bound).bind fun target htarget =>
    (makes_accept _).bind fun o ho => ?_
  cases o with
  | none => exact makes_pure htarget
  | some equals =>
    refine hnested.bind fun value hvalue => ?_
    cases target with
    | reference r => exact makes_pure ⟨htarget, hvalue⟩
    | property object name => exact makes_pure ⟨htarget.1, htarget.2, hvalue⟩
    | _ => exact (makes_complain _ _).bind fun _ _ => makes_pure htarget

end Levels

/-- **Expressions** are legible. -/
theorem makes_expressionAt (n : Nat) : MakesExpr (expressionAt n) := by
  induction n with
  | zero => exact makes_throw _
  | succ n ih => exact makes_assignment ih (n + 1)

/-! ### Statements -/

/-- The parser makes legible statements. -/
abbrev MakesStmt (p : Parse (Stmt Blank)) : Prop :=
  Makes Token.Written p (Stmt.Legible fun _ => True)

/-- The parsers for the parts of a statement make legible trees. -/
structure Parts.Legible (p : Parts) : Prop where
  expression : MakesExpr p.expression
  statement : MakesStmt p.statement
  declaration : MakesStmt p.declaration

theorem makes_declarations {declaration : Parse (Stmt Blank)} (h : MakesStmt declaration)
    (closing : List TokenKind) (bound : Nat) :
    Makes Token.Written (declarations declaration closing bound)
      (Stmt.BodyLegible fun _ => True) := by
  induction bound with
  | zero => exact makes_throw _
  | succ bound ih =>
    refine makes_next?.bind fun o _ => ?_
    cases o with
    | none => exact makes_pure trivial
    | some t =>
      dsimp only
      split
      · exact makes_pure trivial
      · exact h.bind fun first hfirst => ih.bind fun rest hrest => makes_pure ⟨hfirst, hrest⟩

theorem makes_parameters (bound count : Nat) :
    Makes Token.Written (parameters bound count) fun params => ∀ t ∈ params, t.SpellsName := by
  induction bound generalizing count with
  | zero => exact makes_throw _
  | succ bound ih =>
    have hname : Makes Token.Written (expect .identifier .paramName) Token.SpellsName :=
      (makes_expect _ _).mono fun t h => h.1.spellsName h.2
    have hrest := makes_separated hname (ih (count + 1)) (fun _ => List.forall_mem_singleton.mpr)
      fun _ _ h h' => List.forall_mem_cons.mpr ⟨h, h'⟩
    rw [parameters]
    dsimp only
    split
    · exact makes_next?.bind fun _ _ => (makes_complain _ _).bind fun _ _ => hrest
    · exact hrest

section Rules

variable {p : Parts}

theorem makes_blockBody (hp : p.Legible) :
    Makes Token.Written (blockBody p) (Stmt.BodyLegible fun _ => True) :=
  (makes_declarations hp.declaration _ _).bind fun _ hbody =>
    (makes_expect _ _).bind fun _ _ => makes_pure hbody

theorem makes_routine (hp : p.Legible) (kind : RoutineKind) :
    Makes Token.Written (routine p kind) (Stmt.RoutineLegible fun _ => True) := by
  refine (makes_expect _ _).bind fun name hname => (makes_expect _ _).bind fun _ _ =>
    (makes_nextIs _).bind fun b _ => ?_
  have hparams : Makes Token.Written (if b then pure [] else parameters p.bound 0)
      fun params => ∀ t ∈ params, t.SpellsName := by
    cases b with
    | true => exact makes_pure nofun
    | false => exact makes_parameters p.bound 0
  dsimp only
  rw [ite_bind]
  exact hparams.bind fun params hparams => (makes_expect _ _).bind fun _ _ =>
    (makes_expect _ _).bind fun _ _ => (makes_blockBody hp).bind fun body hbody =>
      makes_pure ⟨hname.1.spellsName hname.2, hparams, hbody⟩

theorem makes_methods (hp : p.Legible) (bound : Nat) :
    Makes Token.Written (methods p bound) (Stmt.MethodsLegible fun _ => True) := by
  induction bound with
  | zero => exact makes_throw _
  | succ bound ih =>
    refine (makes_nextIs _).bind fun b _ => makes_atEnd.bind fun b' _ => ?_
    split
    · exact makes_pure trivial
    · exact (makes_routine hp .method).bind fun first hfirst =>
        ih.bind fun rest hrest => makes_pure ⟨hfirst, hrest⟩

theorem makes_classDeclaration (hp : p.Legible) : MakesStmt (classDeclaration p) := by
  refine (makes_expect _ _).bind fun name hname => ?_
  -- the rest of the class is the same with and without a superclass
  have hrest (superclass : Option (Reference Blank))
      (hsuper : ∀ target ∈ superclass, target.token.SpellsName) : MakesStmt (do
      let _ ← expect .leftBrace .classOpen
      let members ← methods p p.bound
      let _ ← expect .rightBrace .classClose
      return .klass name superclass members) :=
    (makes_expect _ _).bind fun _ _ => (makes_methods hp p.bound).bind fun members hmembers =>
      (makes_expect _ _).bind fun _ _ =>
        makes_pure ⟨hname.1.spellsName hname.2, hsuper, hmembers⟩
  refine (makes_accept _).bind fun o _ => ?_
  cases o with
  | none => exact hrest none nofun
  | some _ =>
    refine (makes_expect _ _).bind fun token htoken => hrest (some ⟨token, ()⟩) ?_
    rintro _ ⟨⟩
    exact htoken.1.spellsName htoken.2

/-- An expression that may be missing. -/
theorem makes_some_expression (hp : p.Legible) :
    Makes Token.Written (some <$> p.expression) fun o => ∀ e ∈ o, e.Legible fun _ => True := by
  refine Makes.map (hp.expression.mono ?_)
  rintro e he _ ⟨⟩
  exact he

theorem makes_variableDeclaration (hp : p.Legible) : MakesStmt (variableDeclaration p) := by
  refine (makes_expect _ _).bind fun name hname => (makes_accept _).bind fun o _ => ?_
  have hrest (initial : Option (Expr Blank)) (hinitial : ∀ e ∈ initial, e.Legible fun _ => True) :
      MakesStmt (do
        let _ ← expect .semicolon .declarationEnd
        return .declare name initial) :=
    (makes_expect _ _).bind fun _ _ => makes_pure ⟨hname.1.spellsName hname.2, hinitial⟩
  cases o with
  | none => exact hrest none nofun
  | some _ => exact (makes_some_expression hp).bind hrest

theorem makes_expressionStatement (hp : p.Legible) : MakesStmt (expressionStatement p) :=
  hp.expression.bind fun _ hvalue => (makes_expect _ _).bind fun _ _ => makes_pure hvalue

theorem makes_optionalBefore (hp : p.Legible) (kind : TokenKind) :
    Makes Token.Written (optionalBefore p kind) fun o => ∀ e ∈ o, e.Legible fun _ => True := by
  refine (makes_nextIs _).bind fun b _ => ?_
  cases b with
  | true => exact makes_pure nofun
  | false => exact makes_some_expression hp

theorem legible_forLoop {initializer : Option (Stmt Blank)}
    {condition increment : Option (Expr Blank)}
    {body : Stmt Blank} (hinitializer : ∀ s ∈ initializer, s.Legible fun _ => True)
    (hcondition : ∀ e ∈ condition, e.Legible fun _ => True)
    (hincrement : ∀ e ∈ increment, e.Legible fun _ => True) (hbody : body.Legible fun _ => True) :
    (forLoop initializer condition increment body).Legible fun _ => True := by
  have htest : (condition.getD (.literal (.bool true))).Legible fun _ => True := by
    cases condition with
    | none => trivial
    | some e => exact hcondition e rfl
  cases initializer with
  | none =>
    cases increment with
    | none => exact ⟨htest, hbody⟩
    | some e => exact ⟨htest, hbody, hincrement e rfl, trivial⟩
  | some s =>
    cases increment with
    | none => exact ⟨hinitializer s rfl, ⟨htest, hbody⟩, trivial⟩
    | some e => exact ⟨hinitializer s rfl, ⟨htest, hbody, hincrement e rfl, trivial⟩, trivial⟩

theorem makes_forStatement (hp : p.Legible) : MakesStmt (forStatement p) := by
  refine (makes_expect _ _).bind fun _ _ => ?_
  have hsome {q : Parse (Stmt Blank)} (hq : MakesStmt q) :
      Makes Token.Written (some <$> q) fun o => ∀ s ∈ o, s.Legible fun _ => True := by
    refine Makes.map (hq.mono ?_)
    rintro s hs _ ⟨⟩
    exact hs
  refine Makes.bind (P := fun o => ∀ s ∈ o, s.Legible fun _ => True) ?_
    fun initializer hinitializer => ?_
  · refine makes_dispatch (hsome (makes_expressionStatement hp)) fun t q _ hq => ?_
    split at hq
    all_goals cases hq
    · exact makes_pure nofun
    · exact hsome (makes_variableDeclaration hp)
  · refine (makes_optionalBefore hp _).bind fun condition hcondition => ?_
    refine (makes_expect _ _).bind fun _ _ => ?_
    refine (makes_optionalBefore hp _).bind fun increment hincrement => ?_
    refine (makes_expect _ _).bind fun _ _ => ?_
    refine hp.statement.bind fun body hbody => ?_
    exact makes_pure (legible_forLoop hinitializer hcondition hincrement hbody)

theorem makes_ifStatement (hp : p.Legible) : MakesStmt (ifStatement p) := by
  refine (makes_expect _ _).bind fun _ _ => ?_
  refine hp.expression.bind fun condition hcondition => ?_
  refine (makes_expect _ _).bind fun _ _ => ?_
  refine hp.statement.bind fun whenTrue hwhenTrue => ?_
  refine (makes_accept _).bind fun o _ => ?_
  cases o with
  | none => exact makes_pure ⟨hcondition, hwhenTrue⟩
  | some _ =>
    refine Makes.bind (P := fun o => ∃ s, o = some s ∧ s.Legible fun _ => True)
      (Makes.map (hp.statement.mono fun s hs => ⟨s, rfl, hs⟩)) ?_
    rintro _ ⟨whenFalse, rfl, hwhenFalse⟩
    exact makes_pure ⟨hcondition, hwhenTrue, hwhenFalse⟩

theorem makes_statement (hp : p.Legible) : MakesStmt (statement p) := by
  refine makes_dispatch (makes_expressionStatement hp) fun t q ht hq => ?_
  split at hq
  all_goals cases hq
  · exact makes_forStatement hp
  · exact makes_ifStatement hp
  · exact hp.expression.bind fun _ hvalue => (makes_expect _ _).bind fun _ _ => makes_pure hvalue
  · next hk =>
    refine (makes_optionalBefore hp _).bind fun value hvalue => ?_
    refine (makes_expect _ _).bind fun _ _ => ?_
    have hword : t.kind ∈ [.returnWord] := List.mem_singleton.mpr hk
    exact makes_pure ⟨ht.spellsOneOf hword (by decide) (by decide), hvalue⟩
  · refine (makes_expect _ _).bind fun _ _ => ?_
    refine hp.expression.bind fun condition hcondition => ?_
    refine (makes_expect _ _).bind fun _ _ => ?_
    exact hp.statement.bind fun body hbody => makes_pure ⟨hcondition, hbody⟩
  · exact Makes.map (makes_blockBody hp)

theorem makes_declaration (hp : p.Legible) : MakesStmt (declaration p) := by
  refine makes_recover ?_ trivial
  refine makes_dispatch (makes_statement hp) fun t q _ hq => ?_
  split at hq
  all_goals cases hq
  · exact makes_classDeclaration hp
  · exact Makes.map (makes_routine hp .function)
  · exact makes_variableDeclaration hp

end Rules

/-- **Statements and declarations** are legible. -/
theorem makes_statementAt_declarationAt (n : Nat) :
    MakesStmt (statementAt n) ∧ MakesStmt (declarationAt n) := by
  induction n with
  | zero => exact ⟨makes_throw _, makes_throw _⟩
  | succ n ih =>
    have hp : Parts.Legible ⟨expressionAt (n + 1), statementAt n, declarationAt n, n + 1⟩ :=
      ⟨makes_expressionAt (n + 1), ih.1, ih.2⟩
    exact ⟨makes_statement hp, makes_declaration hp⟩

end Parse

/-- **What is parsed is legible**, whatever mistakes there are. -/
theorem bodyLegible_statements (text : String) :
    Stmt.BodyLegible (fun _ => True) (parse (scan text).tokens).statements := by
  have h := Parse.makes_declarations
    (Parse.makes_statementAt_declarationAt ((scan text).tokens.length + 1)).2 []
    ((scan text).tokens.length + 1) ⟨(scan text).tokens, []⟩ fun _ => written_of_mem_tokens
  rw [parse, Parse.program]
  split
  · next statements s hres =>
    rw [hres] at h
    exact h.1
  · trivial

end LoxInterpreter
