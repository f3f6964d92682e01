import LoxInterpreter.Proofs.Scope.Lexical
import LoxInterpreter.Run.Operator

/-!
# The shape of parsed trees

The type of trees admits more than the grammar derives. `Stmt.Shaped` lists what evaluation and
scope analysis may count on: operators are applied that exist, names are no keywords, the keywords
`this` and `super` are spelled that way, and branches and loop bodies declare nothing. The trees of
a program that is derived from the tokens of a text have this shape (`shaped_of_program`).
-/

namespace LoxInterpreter

open Grammar

/-- The token can name what a program declares: a scope binds neither keyword by declaration. -/
def Token.IsName (t : Token) : Prop := t.lexeme ≠ "this" ∧ t.lexeme ≠ "super"

/-- The prefix operators. -/
def TokenKind.IsPrefix (k : TokenKind) : Prop := k = .bang ∨ k = .minus

/-- The operators between two operands, but for those that may leave one out. -/
def TokenKind.IsBinary (k : TokenKind) : Prop :=
  k = .plus ∨ k = .equalEqual ∨ k = .bangEqual ∨ (Run.arithmetic? k).isSome

/-! ### Shapes -/

namespace Expr

mutual

/-- Operators exist, and keywords are kept apart from names. -/
def Shaped : Expr Blank → Prop
  | .literal _ | .reference _ => True
  | .grouping inner => inner.Shaped
  | .unary op operand => op.kind.IsPrefix ∧ operand.Shaped
  | .binary left op right => op.kind.IsBinary ∧ left.Shaped ∧ right.Shaped
  | .logical left _ right => left.Shaped ∧ right.Shaped
  | .assign target value => target.token.IsName ∧ value.Shaped
  | .call callee _ values => callee.Shaped ∧ ShapedAll values
  | .property object _ => object.Shaped
  | .setProperty object _ value => object.Shaped ∧ value.Shaped
  | .this receiver => receiver.name = "this"
  | .inherited superclass _ => superclass.name = "super"

/-- All of the expressions have the shape. -/
def ShapedAll : List (Expr Blank) → Prop
  | [] => True
  | e :: rest => e.Shaped ∧ ShapedAll rest

end

end Expr

namespace Stmt

mutual

/-- Declared names are no keywords, branches and loop bodies declare nothing, and expressions have
their shape. -/
def Shaped : Stmt Blank → Prop
  | .malformed => True
  | .expression value | .print value => value.Shaped
  | .declare name initial => name.IsName ∧ ∀ e ∈ initial, e.Shaped
  | .block body => ShapedBody body
  | .branch condition whenTrue none =>
    condition.Shaped ∧ whenTrue.declared? = none ∧ whenTrue.Shaped
  | .branch condition whenTrue (some whenFalse) =>
    condition.Shaped ∧ (whenTrue.declared? = none ∧ whenTrue.Shaped) ∧
      whenFalse.declared? = none ∧ whenFalse.Shaped
  | .loop condition body => condition.Shaped ∧ body.declared? = none ∧ body.Shaped
  | .function routine => routine.name.IsName ∧ ShapedRoutine routine
  | .giveBack _ value => ∀ e ∈ value, e.Shaped
  | .klass name _ methods => name.IsName ∧ ShapedMethods methods

/-- All of the statements have the shape. -/
def ShapedBody : List (Stmt Blank) → Prop
  | [] => True
  | s :: rest => s.Shaped ∧ ShapedBody rest

/-- Parameters are no keywords, and the body has the shape. -/
def ShapedRoutine : Routine Blank → Prop
  | .mk _ params body => (∀ param ∈ params, param.IsName) ∧ ShapedBody body

/-- All of the methods have the shape. -/
def ShapedMethods : List (Routine Blank) → Prop
  | [] => True
  | m :: rest => ShapedRoutine m ∧ ShapedMethods rest

end

end Stmt

/-! ### Derived trees -/

/-- Each token is spelled as its kind says. -/
abbrev AllSpelled (ts : List Token) : Prop := ∀ t ∈ ts, t.Spelled

/-- A name is no keyword. -/
theorem Token.Spelled.isName {t : Token} (h : t.Spelled) (hk : t.kind = .identifier) : t.IsName :=
  ⟨h.lexeme_ne hk (by decide), h.lexeme_ne hk (by decide)⟩

/-- What joins two operands that are both evaluated is an operator between two operands. -/
theorem Grammar.Level.shaped_join {l : Level} {left right : Expr Blank} {op : Token}
    (hop : op.kind ∈ l.operators) (hleft : left.Shaped) (hright : right.Shaped) :
    (l.join left op right).Shaped := by
  -- `and` and `or` are no operators of this kind
  have hkind (hl : l ≠ .disjunction ∧ l ≠ .conjunction) : op.kind.IsBinary := by
    have hall : ∀ k ∈ l.operators, k = .plus ∨ k = .equalEqual ∨ k = .bangEqual ∨
        k = .minus ∨ k = .star ∨ k = .slash ∨ k = .greater ∨ k = .greaterEqual ∨ k = .less ∨
        k = .lessEqual := by
      cases l <;> first | exact absurd rfl hl.1 | exact absurd rfl hl.2 | decide
    rw [TokenKind.IsBinary]
    rcases hall _ hop with h | h | h | h | h | h | h | h | h | h <;> simp [h, Run.arithmetic?]
  cases l
  case disjunction | conjunction => exact ⟨hleft, hright⟩
  all_goals exact ⟨hkind ⟨nofun, nofun⟩, hleft, hright⟩

theorem shapedAll_of_separated {us : List Token} {values : List (Expr Blank)}
    (h : Separated (fun ts e => AllSpelled ts → e.Shaped) us values) (hus : AllSpelled us) :
    Expr.ShapedAll values := by
  induction h with
  | last h => exact ⟨h hus, trivial⟩
  | cons h _ _ ih =>
    obtain ⟨hts, hus⟩ := List.forall_mem_append.mp hus
    exact ⟨h hts, ih (List.forall_mem_cons.mp hus).2⟩

/-- A derived expression has the shape. -/
theorem Grammar.Phrase.shaped {l : Level} {ts : List Token} {e : Expr Blank} (h : Phrase l ts e)
    (hts : AllSpelled ts) : e.Shaped := by
  induction h using Phrase.induct with
  | tighter _ _ ih => exact ih hts
  | assign hname _ _ ih =>
    simp only [AllSpelled, List.forall_mem_cons] at hts
    exact ⟨hts.1.isName hname, ih hts.2.2⟩
  | setProperty _ _ _ _ _ ih ih' =>
    simp only [AllSpelled, List.forall_mem_append, List.forall_mem_cons] at hts
    exact ⟨ih hts.1, ih' hts.2.2.2.2⟩
  | join _ hop _ _ ih ih' =>
    simp only [AllSpelled, List.forall_mem_append, List.forall_mem_cons] at hts
    exact Level.shaped_join hop (ih hts.1) (ih' hts.2.2)
  | unary hop _ ih => exact ⟨hop, ih (List.forall_mem_cons.mp hts).2⟩
  | call _ _ _ _ ih ihs =>
    simp only [AllSpelled, List.forall_mem_append, List.forall_mem_cons] at hts
    refine ⟨ih hts.1.1, ?_⟩
    cases ihs with
    | none => trivial
    | some h => exact shapedAll_of_separated (h.mono fun _ _ h => h.2) hts.1.2.2
  | property _ _ _ ih => exact ih (List.forall_mem_append.mp hts).1
  | literal | reference => trivial
  | inherited hk => exact (List.forall_mem_cons.mp hts).1.lexeme_super hk
  | this hk => exact (List.forall_mem_cons.mp hts).1.lexeme_this hk
  | grouping _ _ _ ih =>
    simp only [AllSpelled, List.cons_append, List.forall_mem_cons, List.forall_mem_append] at hts
    exact ih hts.2.1

theorem shapedBody_of_sequence {ts : List Token} {body : List (Stmt Blank)}
    (h : Sequence (fun ts s => AllSpelled ts → s.Shaped) ts body) (hts : AllSpelled ts) :
    Stmt.ShapedBody body := by
  induction h with
  | nil => trivial
  | cons h _ ih =>
    obtain ⟨hts, hus⟩ := List.forall_mem_append.mp hts
    exact ⟨h hts, ih hus⟩

theorem shapedMethods_of_sequence {ts : List Token} {methods : List (Routine Blank)}
    (h : Sequence (fun ts r => AllSpelled ts → Stmt.ShapedRoutine r) ts methods)
    (hts : AllSpelled ts) : Stmt.ShapedMethods methods := by
  induction h with
  | nil => trivial
  | cons h _ ih =>
    obtain ⟨hts, hus⟩ := List.forall_mem_append.mp hts
    exact ⟨h hts, ih hus⟩

theorem shaped_of_possibly {ts : List Token} {value : Option (Expr Blank)}
    (h : Possibly Expression ts value) (hts : AllSpelled ts) : ∀ e ∈ value, e.Shaped := by
  cases h with
  | none => exact fun e he => absurd he (by simp)
  | some h =>
    rintro e ⟨⟩
    exact h.shaped hts

theorem isName_of_listed {ts params : List Token} (h : Listed Name ts params)
    (hts : AllSpelled ts) : ∀ param ∈ params, param.IsName := by
  cases h with
  | none => exact List.forall_mem_nil _
  | some h hle =>
    clear hle
    induction h with
    | last h =>
      obtain ⟨hk⟩ := h
      simpa using (hts _ List.mem_cons_self).isName hk
    | cons h _ _ ih =>
      obtain ⟨hk⟩ := h
      simp only [AllSpelled, List.cons_append, List.nil_append, List.forall_mem_cons] at hts
      exact List.forall_mem_cons.mpr ⟨hts.1.isName hk, ih hts.2.2⟩

theorem Grammar.Variable.shaped {ts : List Token} {s : Stmt Blank} (h : Variable ts s)
    (hts : AllSpelled ts) : s.Shaped := by
  cases h with
  | plain hk => exact ⟨(List.forall_mem_cons.mp hts).1.isName hk, by simp⟩
  | initialized hk _ h =>
    simp only [AllSpelled, List.cons_append, List.forall_mem_cons, List.forall_mem_append] at hts
    refine ⟨hts.1.isName hk, ?_⟩
    rintro e ⟨⟩
    exact h.shaped hts.2.2.1

theorem shaped_of_initializer {ts : List Token} {s : Stmt Blank} (h : Initializer ts (some s))
    (hts : AllSpelled ts) : s.Shaped := by
  cases h with
  | declare _ h => exact h.shaped (List.forall_mem_cons.mp hts).2
  | expression h => exact h.shaped (List.forall_mem_append.mp hts).1

/-- The tree of a `for` loop has the shape if its parts have. -/
theorem shaped_forTree {ts us vs : List Token} {initial : Option (Stmt Blank)}
    {condition increment : Option (Expr Blank)} {body : Stmt Blank}
    (hinitial : Initializer ts initial) (hcondition : Possibly Expression us condition)
    (hincrement : Possibly Expression vs increment) (hts : AllSpelled ts) (hus : AllSpelled us)
    (hvs : AllSpelled vs) (hnone : body.declared? = none) (hbody : body.Shaped) :
    (forTree initial condition increment body).Shaped := by
  have htest : (condition.getD (.literal (.bool true))).Shaped := by
    cases hcondition with
    | none => trivial
    | some h => exact h.shaped hus
  have hround : ∀ e ∈ increment, e.Shaped := shaped_of_possibly hincrement hvs
  have hfirst : ∀ s ∈ initial, s.Shaped := by
    rintro s ⟨⟩
    exact shaped_of_initializer hinitial hts
  unfold forTree
  match initial, increment with
  | none, none => exact ⟨htest, hnone, hbody⟩
  | none, some e => exact ⟨htest, rfl, hbody, hround e rfl, trivial⟩
  | some s, none => exact ⟨hfirst s rfl, ⟨htest, hnone, hbody⟩, trivial⟩
  | some s, some e => exact ⟨hfirst s rfl, ⟨htest, rfl, hbody, hround e rfl, trivial⟩, trivial⟩

/-- A derived declaration has the shape. -/
theorem Grammar.Declaration.shaped {ts : List Token} {s : Stmt Blank} (h : Declaration ts s) :
    AllSpelled ts → s.Shaped := by
  refine Declaration.induct (P := fun _ ts s => AllSpelled ts → s.Shaped)
    (Q := fun ts s => AllSpelled ts → s.Shaped)
    (R := fun ts r => AllSpelled ts → r.name.IsName ∧ Stmt.ShapedRoutine r)
    ?expression ?print ?giveBack ?block ?ifThen ?ifElse ?loop ?forLoop ?statement ?declare
    ?function ?klass ?routine h
  all_goals
    intros
    rename_i hts
    simp only [AllSpelled, List.cons_append, List.append_assoc, List.forall_mem_append,
      List.forall_mem_cons] at hts
  case expression h _ => exact h.shaped hts.1
  case print _ h _ => exact h.shaped hts.2.1
  case giveBack _ h _ => exact shaped_of_possibly h hts.2.1
  case block _ h _ => exact shapedBody_of_sequence (h.mono fun _ _ h => h.2) hts.2.1
  case ifThen _ _ h _ hbody ih =>
    exact ⟨h.shaped hts.2.2.1, hbody.declared?_eq_none, ih hts.2.2.2.2⟩
  case ifElse _ _ h _ hbody _ hbody' ih ih' =>
    exact ⟨h.shaped hts.2.2.1, ⟨hbody.declared?_eq_none, ih hts.2.2.2.2.1⟩,
      hbody'.declared?_eq_none, ih' hts.2.2.2.2.2.2⟩
  case loop _ _ h _ hbody ih =>
    exact ⟨h.shaped hts.2.2.1, hbody.declared?_eq_none, ih hts.2.2.2.2⟩
  case forLoop _ _ hinitial hcondition _ hincrement _ hbody ih =>
    exact shaped_forTree hinitial hcondition hincrement hts.2.2.1 hts.2.2.2.1 hts.2.2.2.2.2.1
      hbody.declared?_eq_none (ih hts.2.2.2.2.2.2.2)
  case statement _ ih => exact ih hts
  case declare _ h => exact h.shaped hts.2
  case function _ _ ih => exact ih hts.2
  case klass _ hname _ _ hmethods _ =>
    refine ⟨hts.2.1.isName hname, ?_⟩
    exact shapedMethods_of_sequence (hmethods.mono fun _ _ h hts => (h.2 hts).2) hts.2.2.2.2.1
  case routine hname _ hparams _ _ hbody _ =>
    refine ⟨hts.1.isName hname, isName_of_listed hparams hts.2.2.1, ?_⟩
    exact shapedBody_of_sequence (hbody.mono fun _ _ h => h.2) hts.2.2.2.2.2.1

/-- **Shape.** The trees of a program that is derived from the tokens of a text have the shape. -/
theorem shaped_of_program {text : String} {program : List (Stmt Blank)}
    (h : Program (scan text).tokens program) : Stmt.ShapedBody program :=
  shapedBody_of_sequence (h.mono fun _ _ h => h.shaped) fun _ ht => spelled_of_mem_tokens ht

end LoxInterpreter
