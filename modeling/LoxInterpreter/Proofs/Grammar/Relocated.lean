import LoxInterpreter.Parse.Statement
import LoxInterpreter.Proofs.Scan.Layout

/-!
# Relocated tokens

A relocation puts every token in another place and leaves its kind, its spelling and its value as
they are. It carries over to trees and mistakes. Parsers do not look at places: on relocated tokens
each of them does what it does on the tokens, relocated (`Parse.Relocates`). So parsing commutes
with relocation (`parse_relocated`), for texts with mistakes as well.
-/

namespace LoxInterpreter

/-- New places for tokens. -/
structure Relocation where
  line : Token → Int
  offset : Token → Nat

/-- The token in its new place. -/
def Relocation.apply (ρ : Relocation) (t : Token) : Token :=
  { t with line := ρ.line t, offset := ρ.offset t }

instance : CoeFun Relocation fun _ => Token → Token := ⟨Relocation.apply⟩

variable (ρ : Relocation)

@[simp]
theorem Relocation.kind_apply (t : Token) : (ρ t).kind = t.kind := rfl

/-- What is found elsewhere is put there. -/
theorem Token.Elsewhere.eq {t t' : Token} (h : t.Elsewhere t') :
    t' = { t with line := t'.line, offset := t'.offset } := by
  obtain ⟨kind, lexeme, literal, line, offset⟩ := t'
  obtain ⟨rfl, rfl, rfl⟩ := h
  rfl

/-- **Tokens found elsewhere are relocated**, if no token occurs twice. -/
theorem exists_relocation {ts ts' : List Token} (h : List.Forall₂ Token.Elsewhere ts ts')
    (hts : ts.Nodup) : ∃ ρ : Relocation, ts' = ts.map ρ := by
  induction h with
  | nil => exact ⟨⟨Token.line, Token.offset⟩, rfl⟩
  | @cons t t' ts ts' ht _ ih =>
    obtain ⟨hnot, hts⟩ := List.nodup_cons.mp hts
    obtain ⟨ρ, rfl⟩ := ih hts
    refine ⟨⟨fun u => if u = t then t'.line else ρ.line u,
      fun u => if u = t then t'.offset else ρ.offset u⟩, ?_⟩
    rw [List.map_cons, Relocation.apply]
    dsimp only
    rw [if_pos rfl, if_pos rfl, ← ht.eq]
    refine congrArg _ (List.map_congr_left fun u hu => ?_)
    have hne : u ≠ t := fun h => hnot (h ▸ hu)
    rw [Relocation.apply, Relocation.apply]
    dsimp only
    rw [if_neg hne, if_neg hne]

/-! ### Trees -/

/-- The reference among relocated tokens. -/
def Reference.relocated (r : Reference Blank) : Reference Blank := ⟨ρ r.token, ()⟩

namespace Expr

mutual

/-- The expression of relocated tokens. -/
def relocated : Expr Blank → Expr Blank
  | .literal value => .literal value
  | .grouping inner => .grouping inner.relocated
  | .unary op operand => .unary (ρ op) operand.relocated
  | .binary left op right => .binary left.relocated (ρ op) right.relocated
  | .logical left op right => .logical left.relocated (ρ op) right.relocated
  | .reference target => .reference (target.relocated ρ)
  | .assign target value => .assign (target.relocated ρ) value.relocated
  | .call callee paren values => .call callee.relocated (ρ paren) (relocatedAll values)
  | .property object name => .property object.relocated (ρ name)
  | .setProperty object name value => .setProperty object.relocated (ρ name) value.relocated
  | .this receiver => .this (receiver.relocated ρ)
  | .inherited superclass method => .inherited (superclass.relocated ρ) (ρ method)

/-- The expressions of relocated tokens. -/
def relocatedAll : List (Expr Blank) → List (Expr Blank)
  | [] => []
  | e :: rest => e.relocated :: relocatedAll rest

end

theorem relocated_binary (left : Expr Blank) (op : Token) (right : Expr Blank) :
    (binary left op right).relocated ρ =
      binary (left.relocated ρ) (ρ op) (right.relocated ρ) := rfl

theorem relocated_logical (left : Expr Blank) (op : Token) (right : Expr Blank) :
    (logical left op right).relocated ρ =
      logical (left.relocated ρ) (ρ op) (right.relocated ρ) := rfl

end Expr

namespace Stmt

mutual

/-- The statement of relocated tokens. -/
def relocated : Stmt Blank → Stmt Blank
  | .malformed => .malformed
  | .expression value => .expression (value.relocated ρ)
  | .print value => .print (value.relocated ρ)
  | .declare name initial => .declare (ρ name) (initial.map (Expr.relocated ρ))
  | .block body => .block (relocatedBody body)
  | .branch condition whenTrue none => .branch (condition.relocated ρ) whenTrue.relocated none
  | .branch condition whenTrue (some whenFalse) =>
    .branch (condition.relocated ρ) whenTrue.relocated (some whenFalse.relocated)
  | .loop condition body => .loop (condition.relocated ρ) body.relocated
  | .function routine => .function (relocatedRoutine routine)
  | .giveBack keyword value => .giveBack (ρ keyword) (value.map (Expr.relocated ρ))
  | .klass name superclass methods =>
    .klass (ρ name) (superclass.map (Reference.relocated ρ)) (relocatedMethods methods)

/-- The statements of relocated tokens. -/
def relocatedBody : List (Stmt Blank) → List (Stmt Blank)
  | [] => []
  | s :: rest => s.relocated :: relocatedBody rest

/-- The function or method of relocated tokens. -/
def relocatedRoutine : Routine Blank → Routine Blank
  | .mk name params body => .mk (ρ name) (params.map ρ) (relocatedBody body)

/-- The methods of relocated tokens. -/
def relocatedMethods : List (Routine Blank) → List (Routine Blank)
  | [] => []
  | m :: rest => relocatedRoutine m :: relocatedMethods rest

end

end Stmt

/-- The mistake among relocated tokens. -/
def SyntaxMistake.relocated (m : SyntaxMistake) : SyntaxMistake :=
  { m with token := m.token.map ρ }

/-- What parsing yields for relocated tokens. -/
def Parsed.relocated (p : Parsed) : Parsed :=
  ⟨Stmt.relocatedBody ρ p.statements, p.mistakes.map (SyntaxMistake.relocated ρ)⟩

/-- Where a parser of relocated tokens stands. -/
def Cursor.relocated (s : Cursor) : Cursor :=
  ⟨s.rest.map ρ, s.mistakes.map (SyntaxMistake.relocated ρ)⟩

/-! ### Parsers -/

namespace Parse

variable {α β γ δ : Type}

/-- What a parser comes to on relocated tokens. -/
def relocatedResult (f : α → β) :
    EStateM.Result Halt Cursor α → EStateM.Result Halt Cursor β
  | .ok a s => .ok (f a) (s.relocated ρ)
  | .error halt s => .error halt (s.relocated ρ)

/-- On relocated tokens the second parser does what the first does on the tokens. -/
def Relocates (f : α → β) (p : Parse α) (p' : Parse β) : Prop :=
  ∀ s : Cursor, p' (s.relocated ρ) = relocatedResult ρ f (p s)

variable {ρ} {f : α → β} {g : γ → δ} {p q : Parse α} {p' q' : Parse β}

namespace Relocates

protected theorem pure (f : α → β) (a : α) : Relocates ρ f (pure a) (pure (f a)) := fun _ => rfl

theorem stuck : Relocates ρ f (throw .stuck) (throw .stuck) := fun _ => rfl

protected theorem bind {k : α → Parse γ} {k' : β → Parse δ} (hp : Relocates ρ f p p')
    (hk : ∀ a, Relocates ρ g (k a) (k' (f a))) : Relocates ρ g (p >>= k) (p' >>= k') := by
  intro s
  show EStateM.bind p' k' _ = relocatedResult ρ g (EStateM.bind p k s)
  rw [EStateM.bind, EStateM.bind, hp s]
  cases p s with
  | ok a s' => exact hk a s'
  | error halt s' => rfl

protected theorem map {h : α → γ} {h' : β → δ} (hp : Relocates ρ f p p')
    (hh : ∀ a, h' (f a) = g (h a)) : Relocates ρ g (h <$> p) (h' <$> p') := by
  rw [← bind_pure_comp, ← bind_pure_comp]
  refine hp.bind fun a => ?_
  show Relocates ρ g (pure (h a)) (pure (h' (f a)))
  rw [hh]
  exact .pure g (h a)

/-- A choice with something behind it. -/
theorem ite_bind {b : Bool} {k : α → Parse γ} {k' : β → Parse δ} (hp : Relocates ρ f p p')
    (hq : Relocates ρ f q q') (hk : ∀ a, Relocates ρ g (k a) (k' (f a))) :
    Relocates ρ g (if b then p >>= k else q >>= k) (if b then p' >>= k' else q' >>= k') := by
  cases b with
  | true => exact hp.bind hk
  | false => exact hq.bind hk

end Relocates

theorem relocates_next? : Relocates ρ (Option.map ρ) next? next? := by
  intro s
  show EStateM.Result.ok (s.rest.map ρ).head? _ = .ok (s.rest.head?.map ρ) _
  rw [List.head?_map]

theorem relocates_nextIs (kind : TokenKind) : Relocates ρ id (nextIs kind) (nextIs kind) := by
  refine relocates_next?.bind fun o => ?_
  cases o with
  | none => exact .pure id _
  | some t =>
    show Relocates ρ id (pure (decide (t.kind = kind))) (pure (decide ((ρ t).kind = kind)))
    rw [ρ.kind_apply]
    exact .pure id _

theorem relocates_atEnd : Relocates ρ id atEnd atEnd := by
  refine relocates_next?.bind fun o => ?_
  cases o <;> exact .pure id _

theorem relocates_complain (token : Option Token) (cause : SyntaxError) :
    Relocates ρ id (complain token cause) (complain (token.map ρ) cause) := by
  intro s
  show EStateM.Result.ok () (Cursor.mk _ (s.mistakes.map _ ++ _)) =
    .ok () (Cursor.mk _ (List.map _ (s.mistakes ++ _)))
  rw [List.map_append]
  rfl

theorem relocates_fail (f : α → β) (cause : SyntaxError) :
    Relocates ρ f (fail cause) (fail cause) :=
  relocates_next?.bind fun o => (relocates_complain o cause).bind fun _ _ => rfl

/-- Parsers consume relocated tokens alike if the tables do not look at places. -/
theorem relocates_dispatch {table : Token → Option (Parse α)} {table' : Token → Option (Parse β)}
    (hother : Relocates ρ f p p')
    (htable : ∀ t, Option.Rel (Relocates ρ f) (table t) (table' (ρ t))) :
    Relocates ρ f (dispatch p table) (dispatch p' table') := by
  intro s
  rw [dispatch, dispatch]
  cases hrest : s.rest with
  | nil =>
    have hmap : (s.relocated ρ).rest = [] := by rw [Cursor.relocated, hrest, List.map_nil]
    rw [hmap]
    exact hother s
  | cons t rest =>
    have hmap : (s.relocated ρ).rest = ρ t :: rest.map ρ := by
      rw [Cursor.relocated, hrest, List.map_cons]
    rw [hmap]
    dsimp only
    have hentry := htable t
    generalize table t = entry at hentry ⊢
    generalize table' (ρ t) = entry' at hentry ⊢
    cases hentry with
    | none =>
      have hs := hother s
      rw [Cursor.relocated, hrest] at hs
      rw [Cursor.relocated, hrest]
      exact hs
    | some h => exact h { s with rest }

theorem relocates_accept (kinds : List TokenKind) :
    Relocates ρ (Option.map ρ) (accept kinds) (accept kinds) := by
  refine relocates_dispatch (.pure _ none) fun t => ?_
  rw [ρ.kind_apply]
  split
  · exact .some (.pure _ (some t))
  · exact .none

theorem relocates_expect (kind : TokenKind) (cause : SyntaxError) :
    Relocates ρ ρ (expect kind cause) (expect kind cause) := by
  refine relocates_dispatch (relocates_fail ρ cause) fun t => ?_
  rw [ρ.kind_apply]
  split
  · exact .some (.pure _ t)
  · exact .none

theorem resumeAfter_relocated (last : Token) (ts : List Token) :
    resumeAfter (ρ last) (ts.map ρ) = (resumeAfter last ts).map ρ := by
  induction ts generalizing last with
  | nil => rfl
  | cons t rest ih =>
    rw [List.map_cons, resumeAfter, resumeAfter, ρ.kind_apply, ρ.kind_apply, ih]
    split <;> rfl

theorem resume_relocated (ts : List Token) : resume (ts.map ρ) = (resume ts).map ρ := by
  cases ts with
  | nil => rfl
  | cons t rest => exact resumeAfter_relocated t rest

theorem relocates_recover {p p' : Parse (Stmt Blank)}
    (hp : Relocates ρ (Stmt.relocated ρ) p p') :
    Relocates ρ (Stmt.relocated ρ) (recover p) (recover p') := by
  intro s
  rw [recover, recover, hp s]
  cases p s with
  | ok a s' => rfl
  | error halt s' =>
    cases halt with
    | stuck => rfl
    | unwound =>
      show EStateM.Result.ok Stmt.malformed (Cursor.mk (resume (s'.rest.map ρ)) _) = _
      rw [resume_relocated]
      rfl

/-- A phrase, and others behind a comma. -/
theorem relocates_separated {item : Parse α} {item' : Parse β} {more : Parse (List α)}
    {more' : Parse (List β)} {fs : List α → List β} (hfs : ∀ a as, fs (a :: as) = f a :: fs as)
    (hnil : fs [] = []) (hitem : Relocates ρ f item item') (hmore : Relocates ρ fs more more') :
    Relocates ρ fs
      (do
        let a ← item
        match ← accept [.comma] with
        | some _ => return a :: (← more)
        | none => return [a])
      (do
        let a ← item'
        match ← accept [.comma] with
        | some _ => return a :: (← more')
        | none => return [a]) := by
  refine hitem.bind fun a => (relocates_accept _).bind fun o => ?_
  cases o with
  | none =>
    show Relocates ρ fs (pure [a]) (pure [f a])
    rw [← hnil, ← hfs]
    exact .pure fs _
  | some _ =>
    refine hmore.bind fun as => ?_
    rw [← hfs]
    exact .pure fs _

/-! ### Expressions -/

section Levels

variable {nested nested' operand operand' : Parse (Expr Blank)}

/-- The parsers of expressions do the same on relocated tokens. -/
abbrev RelocatesExpr (ρ : Relocation) (p p' : Parse (Expr Blank)) : Prop :=
  Relocates ρ (Expr.relocated ρ) p p'

theorem relocates_arguments (hnested : RelocatesExpr ρ nested nested') (bound count : Nat) :
    Relocates ρ (Expr.relocatedAll ρ) (arguments nested bound count)
      (arguments nested' bound count) := by
  induction bound generalizing count with
  | zero => exact .stuck
  | succ bound ih =>
    have hrest := relocates_separated (fun _ _ => rfl) rfl hnested (ih (count + 1))
    rw [arguments, arguments]
    dsimp only
    split
    · exact relocates_next?.bind fun o => (relocates_complain o _).bind fun _ => hrest
    · exact hrest

theorem relocates_primary (hnested : RelocatesExpr ρ nested nested') :
    RelocatesExpr ρ (primary nested) (primary nested') := by
  refine relocates_dispatch (relocates_fail _ _) fun t => ?_
  rw [ρ.kind_apply]
  cases t.kind
  case falseWord | trueWord | nilWord | number | string | thisWord | identifier =>
    exact .some (.pure (Expr.relocated ρ) _)
  case superWord =>
    exact .some ((relocates_expect _ _).bind fun _ => (relocates_expect _ _).bind fun method =>
      .pure (Expr.relocated ρ) (.inherited ⟨t, ()⟩ method))
  case leftParen =>
    exact .some (hnested.bind fun inner => (relocates_expect _ _).bind fun _ =>
      .pure (Expr.relocated ρ) (.grouping inner))
  all_goals exact .none

theorem relocates_postfixes (hnested : RelocatesExpr ρ nested nested') (bound : Nat)
    (callee : Expr Blank) : RelocatesExpr ρ (postfixes nested bound callee)
      (postfixes nested' bound (callee.relocated ρ)) := by
  induction bound generalizing callee with
  | zero => exact .stuck
  | succ bound ih =>
    refine (relocates_accept _).bind fun o => ?_
    cases o with
    | none => exact .pure _ callee
    | some t =>
      show RelocatesExpr ρ _ (if (ρ t).kind = .leftParen then _ else _)
      rw [ρ.kind_apply]
      dsimp only
      split
      · refine (relocates_nextIs _).bind fun b => ?_
        refine .ite_bind (f := Expr.relocatedAll ρ) (.pure _ [])
          (relocates_arguments hnested (bound + 1) 0) fun values => ?_
        exact (relocates_expect _ _).bind fun paren => ih (.call callee paren values)
      · exact (relocates_expect _ _).bind fun name => ih (.property callee name)

theorem relocates_unary (hnested : RelocatesExpr ρ nested nested') (bound more : Nat) :
    RelocatesExpr ρ (unary nested bound more) (unary nested' bound more) := by
  induction more with
  | zero => exact .stuck
  | succ more ih =>
    refine (relocates_accept _).bind fun o => ?_
    cases o with
    | none => exact (relocates_primary hnested).bind fun callee =>
        relocates_postfixes hnested bound callee
    | some op => exact ih.bind fun operand => .pure (Expr.relocated ρ) (.unary op operand)

variable {kinds : List TokenKind} {node : Expr Blank → Token → Expr Blank → Expr Blank}

theorem relocates_operands
    (hnode : ∀ left op right, (node left op right).relocated ρ =
      node (left.relocated ρ) (ρ op) (right.relocated ρ))
    (hoperand : RelocatesExpr ρ operand operand') (bound : Nat) (left : Expr Blank) :
    RelocatesExpr ρ (operands kinds node operand bound left)
      (operands kinds node operand' bound (left.relocated ρ)) := by
  induction bound generalizing left with
  | zero => exact .stuck
  | succ bound ih =>
    refine (relocates_accept _).bind fun o => ?_
    cases o with
    | none => exact .pure _ left
    | some op =>
      refine hoperand.bind fun right => ?_
      show RelocatesExpr ρ _
        (operands kinds node operand' bound (node (left.relocated ρ) (ρ op) (right.relocated ρ)))
      rw [← hnode]
      exact ih _

theorem relocates_leftAssociative
    (hnode : ∀ left op right, (node left op right).relocated ρ =
      node (left.relocated ρ) (ρ op) (right.relocated ρ)) (bound : Nat)
    (hoperand : RelocatesExpr ρ operand operand') :
    RelocatesExpr ρ (leftAssociative kinds node bound operand)
      (leftAssociative kinds node bound operand') :=
  hoperand.bind fun left => relocates_operands hnode hoperand bound left

theorem relocates_disjunction (hnested : RelocatesExpr ρ nested nested') (bound : Nat) :
    RelocatesExpr ρ (disjunction nested bound) (disjunction nested' bound) := by
  refine relocates_leftAssociative (Expr.relocated_logical ρ) bound ?_
  refine relocates_leftAssociative (Expr.relocated_logical ρ) bound ?_
  refine relocates_leftAssociative (Expr.relocated_binary ρ) bound ?_
  refine relocates_leftAssociative (Expr.relocated_binary ρ) bound ?_
  refine relocates_leftAssociative (Expr.relocated_binary ρ) bound ?_
  exact relocates_leftAssociative (Expr.relocated_binary ρ) bound
    (relocates_unary hnested bound bound)

theorem relocates_assignment (hnested : RelocatesExpr ρ nested nested') (bound : Nat) :
    RelocatesExpr ρ (assignment nested bound) (assignment nested' bound) := by
  refine (relocates_disjunction hnested bound).bind fun target =>
    (relocates_accept _).bind fun o => ?_
  cases o with
  | none => exact .pure _ target
  | some equals =>
    refine hnested.bind fun value => ?_
    cases target with
    | reference r => exact .pure (Expr.relocated ρ) (.assign r value)
    | property object name => exact .pure (Expr.relocated ρ) (.setProperty object name value)
    | _ =>
      exact (relocates_complain (some equals) _).bind fun _ => .pure (Expr.relocated ρ) _

end Levels

theorem relocates_expressionAt (n : Nat) : RelocatesExpr ρ (expressionAt n) (expressionAt n) := by
  induction n with
  | zero => exact .stuck
  | succ n ih => exact relocates_assignment ih (n + 1)

/-! ### Statements -/

/-- The parsers of statements do the same on relocated tokens. -/
abbrev RelocatesStmt (ρ : Relocation) (p p' : Parse (Stmt Blank)) : Prop :=
  Relocates ρ (Stmt.relocated ρ) p p'

/-- The parsers for the parts of a statement do the same on relocated tokens. -/
structure Parts.Relocate (ρ : Relocation) (p p' : Parts) : Prop where
  expression : RelocatesExpr ρ p.expression p'.expression
  statement : RelocatesStmt ρ p.statement p'.statement
  declaration : RelocatesStmt ρ p.declaration p'.declaration
  bound : p'.bound = p.bound

theorem relocates_declarations {item item' : Parse (Stmt Blank)} (hitem : RelocatesStmt ρ item item')
    (closing : List TokenKind) (bound : Nat) :
    Relocates ρ (Stmt.relocatedBody ρ) (declarations item closing bound)
      (declarations item' closing bound) := by
  induction bound with
  | zero => exact .stuck
  | succ bound ih =>
    refine relocates_next?.bind fun o => ?_
    cases o with
    | none => exact .pure (Stmt.relocatedBody ρ) []
    | some t =>
      show Relocates ρ _ _ (if (ρ t).kind ∈ closing then _ else _)
      rw [ρ.kind_apply]
      dsimp only
      split
      · exact .pure (Stmt.relocatedBody ρ) []
      · exact hitem.bind fun first => ih.bind fun rest =>
          .pure (Stmt.relocatedBody ρ) (first :: rest)

theorem relocates_parameters (bound count : Nat) :
    Relocates ρ (List.map ρ) (parameters bound count) (parameters bound count) := by
  induction bound generalizing count with
  | zero => exact .stuck
  | succ bound ih =>
    have hrest := relocates_separated (fun _ _ => List.map_cons) List.map_nil
      (relocates_expect (ρ := ρ) .identifier .paramName) (ih (count + 1))
    rw [parameters]
    dsimp only
    split
    · exact relocates_next?.bind fun o => (relocates_complain o _).bind fun _ => hrest
    · exact hrest

section Rules

variable {p p' : Parts}

theorem relocates_blockBody (hp : p.Relocate ρ p') :
    Relocates ρ (Stmt.relocatedBody ρ) (blockBody p) (blockBody p') := by
  rw [blockBody, blockBody, hp.bound]
  exact (relocates_declarations hp.declaration _ p.bound).bind fun body =>
    (relocates_expect _ _).bind fun _ => .pure (Stmt.relocatedBody ρ) body

theorem relocates_routine (hp : p.Relocate ρ p') (kind : RoutineKind) :
    Relocates ρ (Stmt.relocatedRoutine ρ) (routine p kind) (routine p' kind) := by
  rw [routine, routine, hp.bound]
  refine (relocates_expect _ _).bind fun name => (relocates_expect _ _).bind fun _ =>
    (relocates_nextIs _).bind fun b => ?_
  refine .ite_bind (f := List.map ρ) (.pure _ []) (relocates_parameters p.bound 0) fun params => ?_
  exact (relocates_expect _ _).bind fun _ => (relocates_expect _ _).bind fun _ =>
    (relocates_blockBody hp).bind fun body =>
      .pure (Stmt.relocatedRoutine ρ) (.mk name params body)

theorem relocates_methods (hp : p.Relocate ρ p') (bound : Nat) :
    Relocates ρ (Stmt.relocatedMethods ρ) (methods p bound) (methods p' bound) := by
  induction bound with
  | zero => exact .stuck
  | succ bound ih =>
    refine (relocates_nextIs _).bind fun b => relocates_atEnd.bind fun b' => ?_
    dsimp only [id]
    split
    · exact .pure (Stmt.relocatedMethods ρ) []
    · exact (relocates_routine hp .method).bind fun first => ih.bind fun rest =>
        .pure (Stmt.relocatedMethods ρ) (first :: rest)

theorem relocates_classDeclaration (hp : p.Relocate ρ p') :
    RelocatesStmt ρ (classDeclaration p) (classDeclaration p') := by
  have hrest (name : Token) (superclass : Option (Reference Blank)) : RelocatesStmt ρ
      (do
        let _ ← expect .leftBrace .classOpen
        let members ← methods p p.bound
        let _ ← expect .rightBrace .classClose
        return .klass name superclass members)
      (do
        let _ ← expect .leftBrace .classOpen
        let members ← methods p' p'.bound
        let _ ← expect .rightBrace .classClose
        return .klass (ρ name) (superclass.map (Reference.relocated ρ)) members) := by
    rw [hp.bound]
    exact (relocates_expect _ _).bind fun _ => (relocates_methods hp p.bound).bind fun members =>
      (relocates_expect _ _).bind fun _ =>
        .pure (Stmt.relocated ρ) (.klass name superclass members)
  refine (relocates_expect _ _).bind fun name => (relocates_accept _).bind fun o => ?_
  cases o with
  | none => exact hrest name none
  | some _ => exact (relocates_expect _ _).bind fun token => hrest name (some ⟨token, ()⟩)

theorem relocates_variableDeclaration (hp : p.Relocate ρ p') :
    RelocatesStmt ρ (variableDeclaration p) (variableDeclaration p') := by
  have hrest (name : Token) (initial : Option (Expr Blank)) : RelocatesStmt ρ
      (do
        let _ ← expect .semicolon .declarationEnd
        return .declare name initial)
      (do
        let _ ← expect .semicolon .declarationEnd
        return .declare (ρ name) (initial.map (Expr.relocated ρ))) :=
    (relocates_expect _ _).bind fun _ => .pure (Stmt.relocated ρ) (.declare name initial)
  refine (relocates_expect _ _).bind fun name => (relocates_accept _).bind fun o => ?_
  cases o with
  | none => exact hrest name none
  | some _ =>
    refine Relocates.bind (f := Option.map (Expr.relocated ρ)) ?_ (hrest name)
    exact hp.expression.map fun _ => rfl

theorem relocates_expressionStatement (hp : p.Relocate ρ p') :
    RelocatesStmt ρ (expressionStatement p) (expressionStatement p') :=
  hp.expression.bind fun value => (relocates_expect _ _).bind fun _ =>
    .pure (Stmt.relocated ρ) (.expression value)

theorem relocates_optionalBefore (hp : p.Relocate ρ p') (kind : TokenKind) :
    Relocates ρ (Option.map (Expr.relocated ρ)) (optionalBefore p kind)
      (optionalBefore p' kind) := by
  refine (relocates_nextIs kind).bind fun b => ?_
  cases b with
  | true => exact .pure _ none
  | false => exact hp.expression.map fun _ => rfl

theorem relocated_forLoop (initial : Option (Stmt Blank)) (condition increment : Option (Expr Blank))
    (body : Stmt Blank) : (forLoop initial condition increment body).relocated ρ =
      forLoop (initial.map (Stmt.relocated ρ)) (condition.map (Expr.relocated ρ))
        (increment.map (Expr.relocated ρ)) (body.relocated ρ) := by
  cases initial <;> cases condition <;> cases increment <;> rfl

theorem relocates_forStatement (hp : p.Relocate ρ p') :
    RelocatesStmt ρ (forStatement p) (forStatement p') := by
  refine (relocates_expect _ _).bind fun _ =>
    Relocates.bind (f := Option.map (Stmt.relocated ρ)) ?_ fun initial =>
    (relocates_optionalBefore hp _).bind fun condition => (relocates_expect _ _).bind fun _ =>
    (relocates_optionalBefore hp _).bind fun increment => (relocates_expect _ _).bind fun _ =>
    hp.statement.bind fun body => ?_
  · refine relocates_dispatch ((relocates_expressionStatement hp).map fun _ => rfl) fun t => ?_
    rw [ρ.kind_apply]
    cases t.kind
    case semicolon => exact .some (.pure _ none)
    case varWord => exact .some ((relocates_variableDeclaration hp).map fun _ => rfl)
    all_goals exact .none
  · rw [← relocated_forLoop]
    exact .pure (Stmt.relocated ρ) _

theorem relocates_ifStatement (hp : p.Relocate ρ p') :
    RelocatesStmt ρ (ifStatement p) (ifStatement p') := by
  refine (relocates_expect _ _).bind fun _ => hp.expression.bind fun condition =>
    (relocates_expect _ _).bind fun _ => hp.statement.bind fun whenTrue =>
    (relocates_accept _).bind fun o => ?_
  cases o with
  | none => exact .pure (Stmt.relocated ρ) (.branch condition whenTrue none)
  | some _ =>
    refine Relocates.bind (f := Option.map (Stmt.relocated ρ))
      (hp.statement.map fun _ => rfl) fun whenFalse => ?_
    cases whenFalse with
    | none => exact .pure (Stmt.relocated ρ) (.branch condition whenTrue none)
    | some s => exact .pure (Stmt.relocated ρ) (.branch condition whenTrue (some s))

theorem relocates_statement (hp : p.Relocate ρ p') :
    RelocatesStmt ρ (statement p) (statement p') := by
  refine relocates_dispatch (relocates_expressionStatement hp) fun t => ?_
  rw [ρ.kind_apply]
  cases t.kind
  case forWord => exact .some (relocates_forStatement hp)
  case ifWord => exact .some (relocates_ifStatement hp)
  case printWord =>
    exact .some (hp.expression.bind fun value => (relocates_expect _ _).bind fun _ =>
      .pure (Stmt.relocated ρ) (.print value))
  case returnWord =>
    exact .some ((relocates_optionalBefore hp _).bind fun value =>
      (relocates_expect _ _).bind fun _ => .pure (Stmt.relocated ρ) (.giveBack t value))
  case whileWord =>
    exact .some ((relocates_expect _ _).bind fun _ => hp.expression.bind fun condition =>
      (relocates_expect _ _).bind fun _ => hp.statement.bind fun body =>
      .pure (Stmt.relocated ρ) (.loop condition body))
  case leftBrace => exact .some ((relocates_blockBody hp).map fun _ => rfl)
  all_goals exact .none

theorem relocates_declaration (hp : p.Relocate ρ p') :
    RelocatesStmt ρ (declaration p) (declaration p') := by
  refine relocates_recover (relocates_dispatch (relocates_statement hp) fun t => ?_)
  rw [ρ.kind_apply]
  cases t.kind
  case classWord => exact .some (relocates_classDeclaration hp)
  case funWord => exact .some ((relocates_routine hp .function).map fun _ => rfl)
  case varWord => exact .some (relocates_variableDeclaration hp)
  all_goals exact .none

end Rules

theorem relocates_statementAt_declarationAt (n : Nat) :
    RelocatesStmt ρ (statementAt n) (statementAt n) ∧
      RelocatesStmt ρ (declarationAt n) (declarationAt n) := by
  induction n with
  | zero => exact ⟨.stuck, .stuck⟩
  | succ n ih =>
    have hp : Parts.Relocate ρ
        ⟨expressionAt (n + 1), statementAt n, declarationAt n, n + 1⟩
        ⟨expressionAt (n + 1), statementAt n, declarationAt n, n + 1⟩ :=
      ⟨relocates_expressionAt (n + 1), ih.1, ih.2, rfl⟩
    exact ⟨relocates_statement hp, relocates_declaration hp⟩

end Parse

/-- **Parsing does not look at places**: relocated tokens are parsed to the relocated tree, and the
mistakes are the same, relocated. -/
theorem parse_relocated (ρ : Relocation) (ts : List Token) :
    parse (ts.map ρ) = (parse ts).relocated ρ := by
  have h : Parse.program (ts.length + 1) ⟨ts.map ρ, []⟩ =
      Parse.relocatedResult ρ (Stmt.relocatedBody ρ) (Parse.program (ts.length + 1) ⟨ts, []⟩) :=
    Parse.relocates_declarations (Parse.relocates_statementAt_declarationAt (ts.length + 1)).2 _ _
      ⟨ts, []⟩
  rw [parse, parse, List.length_map, h]
  cases Parse.program (ts.length + 1) ⟨ts, []⟩ <;> rfl

end LoxInterpreter
