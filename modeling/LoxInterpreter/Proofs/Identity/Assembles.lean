import LoxInterpreter.Proofs.Grammar.Blame
import LoxInterpreter.Proofs.Identity.Parser

/-!
# Nothing is stored twice

What a parser has left to store are the tokens that it has not consumed and the nodes that it has
not made. Every step keeps the balance: what is stored in a result, together with what is left then,
was left before or was at hand already. So no token gets into two places and no node either, however
trees are taken apart, put together again, or dropped because of a mistake.

`Assembles` says this of a parser that numbers nodes, and that it comes to the same as a parser that
does not number them. There is a rule for each kind of step, and a law for each procedure.
-/

namespace LoxInterpreter

/-- Values that have been put together from tokens and nodes. -/
class Assembly (β : Type) (α : outParam Type) where
  /-- The value without the numbers of its nodes. -/
  plain : β → α
  /-- Everything that is stored in the value. -/
  items : β → List Item

open Assembly (plain items)

instance : Assembly Unit Unit := ⟨id, fun _ => []⟩

instance : Assembly Bool Bool := ⟨id, fun _ => []⟩

instance : Assembly Token Token := ⟨id, fun t => [.token t]⟩

instance : Assembly (List Token) (List Token) := ⟨id, List.map .token⟩

instance : Assembly Occurrence (Reference Blank) := ⟨Occurrence.plain, Occurrence.items⟩

instance : Assembly ExprNode (Expr Blank) := ⟨ExprNode.plain, ExprNode.items⟩

instance : Assembly (List ExprNode) (List (Expr Blank)) := ⟨ExprNode.plainAll, ExprNode.itemsAll⟩

instance : Assembly StmtNode (Stmt Blank) := ⟨StmtNode.plain, StmtNode.items⟩

instance : Assembly (List StmtNode) (List (Stmt Blank)) := ⟨StmtNode.plainBody, StmtNode.itemsBody⟩

instance : Assembly RoutineNode (Routine Blank) := ⟨StmtNode.plainRoutine, StmtNode.itemsRoutine⟩

instance : Assembly (List RoutineNode) (List (Routine Blank)) :=
  ⟨StmtNode.plainMethods, StmtNode.itemsMethods⟩

instance {α β : Type} [Assembly β α] : Assembly (Option β) (Option α) :=
  ⟨Option.map plain, fun o => (o.map items).getD []⟩

/-- How much a bench has left of what can be stored. -/
def Bench.left (s : Bench) : Item → Nat
  | .token t => s.cursor.rest.count t
  | .node n => if s.made ≤ n then 1 else 0

namespace Build

open Parse (accept complain expect fail next? nextIs atEnd parameters resume)

variable {α α' β β' : Type} [Assembly β α] [Assembly β' α']

/-- A result with numbers next to one without, from a bench and with items at hand. They come to the
same, and nothing has been stored that was neither left nor at hand. -/
inductive Balanced (held : List Item) (s : Bench) :
    EStateM.Result Halt Cursor α → EStateM.Result Halt Bench β → Prop
  | ok {b : β} {s' : Bench}
    (h : ∀ i, (items b).count i + s'.left i ≤ held.count i + s.left i) :
    Balanced held s (.ok (plain b) s'.cursor) (.ok b s')
  | error {halt : Halt} {s' : Bench} (h : ∀ i, s'.left i ≤ held.count i + s.left i) :
    Balanced held s (.error halt s'.cursor) (.error halt s')

/-- A balance from a later bench is one from an earlier bench. -/
theorem Balanced.trans {held held' : List Item} {s s' : Bench}
    {r : EStateM.Result Halt Cursor α} {r' : EStateM.Result Halt Bench β}
    (h : Balanced held' s' r r')
    (hle : ∀ i, held'.count i + s'.left i ≤ held.count i + s.left i) : Balanced held s r r' := by
  cases h with
  | ok h => exact .ok fun i => Nat.le_trans (h i) (hle i)
  | error h => exact .error fun i => Nat.le_trans (h i) (hle i)

/-- With these items at hand, both parsers do the same, and keep the balance. -/
def Assembles (held : List Item) (p : Parse α) (q : Build β) : Prop :=
  ∀ s : Bench, Balanced held s (p s.cursor) (q s)

variable {held held' : List Item} {p p' : Parse α} {q q' : Build β}

namespace Assembles

/-- What is at hand may be put together. -/
protected theorem pure {a : α} {b : β} (hplain : plain b = a)
    (h : ∀ i, (items b).count i ≤ held.count i) : Assembles held (pure a) (pure b) := by
  subst hplain
  exact fun _ => .ok fun i => Nat.add_le_add_right (h i) _

theorem stuck : Assembles held (throw .stuck : Parse α) (throw .stuck : Build β) :=
  fun _ => .error fun _ => Nat.le_add_left _ _

/-- It does no harm to have more at hand. -/
theorem weaken (h : Assembles held p q) (hle : ∀ i, held.count i ≤ held'.count i) :
    Assembles held' p q :=
  fun s => (h s).trans fun i => Nat.add_le_add_right (hle i) _

protected theorem bind {f : α → Parse α'} {g : β → Build β'} (h : Assembles [] p q)
    (hf : ∀ b, Assembles (items b ++ held) (f (plain b)) (g b)) :
    Assembles held (p >>= f) (q >>= g) := by
  intro s
  show Balanced held s (EStateM.bind p f s.cursor) (EStateM.bind q g s)
  have hs := h s
  rw [EStateM.bind, EStateM.bind]
  generalize p s.cursor = r at hs ⊢
  generalize q s = r' at hs ⊢
  cases hs with
  | @ok b s' hle =>
    refine (hf b s').trans fun i => ?_
    have := hle i
    rw [List.count_nil] at this
    rw [List.count_append]
    omega
  | error hle =>
    refine .error fun i => Nat.le_trans (hle i) ?_
    rw [List.count_nil]
    omega

/-- A new node has not been stored anywhere. -/
theorem number_bind {g : Nat → Build β} (h : ∀ n, Assembles (.node n :: held) p (g n)) :
    Assembles held p (number >>= g) := by
  intro s
  show Balanced held s (p s.cursor) (g s.made { s with made := s.made + 1 })
  refine (h s.made { s with made := s.made + 1 }).trans fun i => ?_
  rw [List.count_cons]
  cases i with
  | token t => simp [Bench.left]
  | node n =>
    simp only [Bench.left, beq_iff_eq, Item.node.injEq]
    split <;> split <;> split <;> omega

/-- What is consumed is at hand. -/
theorem dispatch {table : Token → Option (Parse α)} {table' : Token → Option (Build β)}
    (hother : Assembles held p q)
    (htable : ∀ t, Option.Rel (Assembles (.token t :: held)) (table t) (table' t)) :
    Assembles held (Parse.dispatch p table) (dispatch q table') := by
  intro s
  rw [Parse.dispatch, Build.dispatch]
  cases hrest : s.cursor.rest with
  | nil => exact hother s
  | cons t rest =>
    dsimp only
    have hentry := htable t
    generalize table t = entry at hentry ⊢
    generalize table' t = entry' at hentry ⊢
    cases hentry with
    | none => exact hother s
    | some h =>
      refine (h { s with cursor := { s.cursor with rest } }).trans fun i => ?_
      rw [List.count_cons]
      cases i with
      | token u =>
        have hcount : s.cursor.rest.count u = rest.count u + if t == u then 1 else 0 := by
          rw [hrest, List.count_cons]
        simp only [Bench.left, beq_iff_eq, Item.token.injEq, hcount]
        omega
      | node n => simp [Bench.left]

/-- A choice with something behind it. -/
theorem ite_bind {b : Bool} {f : α → Parse α'} {g : β → Build β'} (hp : Assembles [] p q)
    (hp' : Assembles [] p' q') (hf : ∀ b, Assembles (items b ++ held) (f (plain b)) (g b)) :
    Assembles held (if b then p >>= f else p' >>= f) (if b then q >>= g else q' >>= g) := by
  cases b with
  | true => exact hp.bind hf
  | false => exact hp'.bind hf

protected theorem map {f : α → α'} {g : β → β'} (h : Assembles [] p q)
    (hplain : ∀ b, plain (g b) = f (plain b))
    (hitems : ∀ b i, (items (g b)).count i ≤ (items b).count i) :
    Assembles [] (f <$> p) (g <$> q) := by
  rw [← bind_pure_comp, ← bind_pure_comp]
  refine h.bind fun b => .pure (hplain b) fun i => ?_
  rw [List.append_nil]
  exact hitems b i

/-- A value that is there may be missing. -/
protected theorem some (h : Assembles [] p q) : Assembles [] (some <$> p) (some <$> q) :=
  h.map (fun _ => rfl) fun _ _ => Nat.le_refl _

/-- A look at the next token leaves it where it is. -/
theorem next?_bind {f : Option Token → Parse α} {g : Option Token → Build β}
    (h : ∀ o, Assembles held (f o) (g o)) : Assembles held (next? >>= f) (lift next? >>= g) :=
  fun s => h s.cursor.rest.head? s

end Assembles

/-! ### Steps -/

/-- Mistakes are not stored in trees. -/
theorem Bench.left_congr {s s' : Bench} (hrest : s'.cursor.rest = s.cursor.rest)
    (hmade : s'.made = s.made) (i : Item) : s'.left i = s.left i := by
  cases i with
  | token t => exact congrArg (List.count t) hrest
  | node n => rw [Bench.left, Bench.left, hmade]

theorem assembles_complain (token : Option Token) (cause : SyntaxError) :
    Assembles [] (complain token cause) (lift (complain token cause)) := by
  intro s
  let later : Bench := { s with
    cursor := { s.cursor with mistakes := s.cursor.mistakes ++ [⟨token, cause⟩] } }
  have hleft (i : Item) : later.left i = s.left i := Bench.left_congr rfl rfl i
  exact @Balanced.ok Unit Unit _ [] s () later fun i =>
    Nat.add_le_add_left (Nat.le_of_eq (hleft i)) _

theorem assembles_nextIs (kind : TokenKind) : Assembles [] (nextIs kind) (lift (nextIs kind)) := by
  intro s
  let found := s.cursor.rest.head?.any fun t => decide (t.kind = kind)
  exact @Balanced.ok Bool Bool _ [] s found s fun _ => Nat.le_refl _

theorem assembles_atEnd : Assembles [] atEnd (lift atEnd) := by
  intro s
  exact @Balanced.ok Bool Bool _ [] s s.cursor.rest.head?.isNone s fun _ => Nat.le_refl _

theorem assembles_fail (cause : SyntaxError) :
    Assembles held (fail cause : Parse α) (lift (fail cause) : Build β) := by
  intro s
  let later : Bench := { s with
    cursor := { s.cursor with mistakes := s.cursor.mistakes ++ [⟨s.cursor.rest.head?, cause⟩] } }
  have hleft (i : Item) : later.left i = s.left i := Bench.left_congr rfl rfl i
  exact @Balanced.error α β _ held s .unwound later fun i =>
    Nat.le_trans (Nat.le_of_eq (hleft i)) (Nat.le_add_left _ _)

theorem lift_dispatch (p : Parse α) (table : Token → Option (Parse α)) :
    lift (Parse.dispatch p table) = dispatch (lift p) fun t => (table t).map lift := by
  funext s
  rw [lift, Parse.dispatch, Build.dispatch]
  cases s.cursor.rest with
  | nil => rfl
  | cons t rest =>
    dsimp only
    cases table t <;> rfl

theorem assembles_accept (kinds : List TokenKind) :
    Assembles [] (accept kinds) (lift (accept kinds)) := by
  rw [accept, lift_dispatch]
  refine .dispatch (.pure rfl fun _ => Nat.le_refl _) fun t => ?_
  split
  · exact .some (.pure rfl fun _ => Nat.le_refl _)
  · exact .none

theorem assembles_expect (kind : TokenKind) (cause : SyntaxError) :
    Assembles [] (expect kind cause) (lift (expect kind cause)) := by
  rw [expect, lift_dispatch]
  refine .dispatch (assembles_fail cause) fun t => ?_
  split
  · exact .some (.pure rfl fun _ => Nat.le_refl _)
  · exact .none

/-- Tokens that are skipped are not stored, nor is what has been made of the statement. -/
theorem assembles_recover {p : Parse (Stmt Blank)} {q : Build StmtNode} (h : Assembles [] p q) :
    Assembles [] (Parse.recover p) (recover q) := by
  intro s
  rw [Parse.recover, recover]
  have hs := h s
  generalize p s.cursor = r at hs ⊢
  generalize q s = r' at hs ⊢
  cases hs with
  | ok hle => exact .ok hle
  | @error halt s' hle =>
    cases halt with
    | stuck => exact .error hle
    | unwound =>
      let later : Bench := { s' with cursor := { s'.cursor with rest := resume s'.cursor.rest } }
      have hleft (i : Item) : later.left i ≤ s'.left i := by
        cases i with
        | token t => exact (Parse.resume_suffix _).sublist.count_le t
        | node n => exact Nat.le_refl _
      refine @Balanced.ok _ StmtNode _ [] s .malformed later fun i => ?_
      rw [show items StmtNode.malformed = [] from rfl, List.count_nil, Nat.zero_add]
      exact Nat.le_trans (hleft i) (hle i)

/-- A phrase, and others behind a comma. -/
theorem assembles_separated [Assembly (List β) (List α)] {item : Parse α} {item' : Build β}
    {more : Parse (List α)} {more' : Build (List β)}
    (hplain : ∀ (b : β) bs, plain (b :: bs) = plain b :: plain bs)
    (hplain_nil : plain ([] : List β) = [])
    (hitems : ∀ (b : β) bs, items (b :: bs) = items b ++ items bs)
    (hitems_nil : items ([] : List β) = [])
    (hitem : Assembles [] item item') (hmore : Assembles [] more more') :
    Assembles []
      (do
        let a ← item
        match ← accept [.comma] with
        | some _ => return a :: (← more)
        | none => return [a])
      (do
        let a ← item'
        match ← lift (accept [.comma]) with
        | some _ => return a :: (← more')
        | none => return [a]) := by
  refine hitem.bind fun b => (assembles_accept _).bind fun o => ?_
  cases o with
  | none =>
    refine .pure (by rw [hplain, hplain_nil]) fun i => ?_
    rw [hitems, hitems_nil]
    exact Nat.le_refl _
  | some t =>
    refine hmore.bind fun bs => .pure (hplain b bs) fun i => ?_
    simp only [hitems, List.count_append]
    omega

/-! ### Expressions -/

section Levels

variable {nested : Parse (Expr Blank)} {nested' : Build ExprNode}

theorem assembles_arguments (hnested : Assembles [] nested nested') (bound count : Nat) :
    Assembles [] (Parse.arguments nested bound count) (arguments nested' bound count) := by
  induction bound generalizing count with
  | zero => exact .stuck
  | succ bound ih =>
    have hrest := assembles_separated (fun _ _ => rfl) rfl (fun _ _ => rfl) rfl hnested
      (ih (count + 1))
    rw [Parse.arguments, arguments]
    dsimp only
    split
    · exact .next?_bind fun o => (assembles_complain o _).bind fun _ => hrest
    · exact hrest

theorem assembles_primary (hnested : Assembles [] nested nested') :
    Assembles [] (Parse.primary nested) (primary nested') := by
  refine .dispatch (assembles_fail _) fun t => ?_
  cases t.kind
  case falseWord | trueWord | nilWord | number | string =>
    exact .some (.number_bind fun n => .pure rfl fun i => by
      simp only [items, ExprNode.items, List.count_cons]; omega)
  case thisWord | identifier =>
    exact .some (.number_bind fun n => .pure rfl fun i => Nat.le_refl _)
  case superWord =>
    refine .some ((assembles_expect _ _).bind fun _ => (assembles_expect _ _).bind fun method => ?_)
    refine .number_bind fun n => .pure rfl fun i => ?_
    simp only [items, ExprNode.items, Occurrence.items, List.count_cons, List.count_append]
    omega
  case leftParen =>
    refine .some (hnested.bind fun inner => (assembles_expect _ _).bind fun _ => ?_)
    refine .number_bind fun n => .pure rfl fun i => ?_
    simp only [items, ExprNode.items, List.count_cons, List.count_append]
    omega
  all_goals exact .none

theorem assembles_postfixes (hnested : Assembles [] nested nested') (bound : Nat)
    (callee : ExprNode) : Assembles callee.items (Parse.postfixes nested bound callee.plain)
      (postfixes nested' bound callee) := by
  induction bound generalizing callee with
  | zero => exact .stuck
  | succ bound ih =>
    refine (assembles_accept _).bind fun o => ?_
    cases o with
    | none => exact .pure rfl fun _ => Nat.le_refl _
    | some t =>
      show Assembles _ (if t.kind = .leftParen then _ else _) (if t.kind = .leftParen then _ else _)
      split
      · refine (assembles_nextIs _).bind fun b => ?_
        refine .ite_bind (.pure rfl fun _ => Nat.le_refl _)
          (assembles_arguments hnested (bound + 1) 0) fun (values : List ExprNode) => ?_
        refine (assembles_expect _ _).bind fun paren => .number_bind fun n => ?_
        refine (ih (.call n callee paren values)).weaken fun i => ?_
        simp only [items, ExprNode.items, List.count_cons, List.count_append]
        omega
      · refine (assembles_expect _ _).bind fun name => .number_bind fun n => ?_
        refine (ih (.property n callee name)).weaken fun i => ?_
        simp only [items, ExprNode.items, List.count_cons, List.count_append]
        omega

theorem assembles_unary (hnested : Assembles [] nested nested') (bound more : Nat) :
    Assembles [] (Parse.unary nested bound more) (unary nested' bound more) := by
  induction more with
  | zero => exact .stuck
  | succ more ih =>
    refine (assembles_accept _).bind fun o => ?_
    cases o with
    | none =>
      refine (assembles_primary hnested).bind fun callee => ?_
      refine (assembles_postfixes hnested bound callee).weaken fun i => ?_
      rw [List.count_append]
      exact Nat.le_add_right _ _
    | some op =>
      refine ih.bind fun operand => .number_bind fun n => .pure rfl fun i => ?_
      simp only [items, ExprNode.items, Option.map, Option.getD, List.count_cons, List.count_append]
      omega

/-- The numbered node and the other one join two operands in the same way. -/
structure Joins (node : Expr Blank → Token → Expr Blank → Expr Blank)
    (node' : Nat → ExprNode → Token → ExprNode → ExprNode) : Prop where
  plain : ∀ n left op right, (node' n left op right).plain = node left.plain op right.plain
  items : ∀ n left op right,
    (node' n left op right).items = .node n :: .token op :: (left.items ++ right.items)

theorem joins_binary : Joins .binary .binary := ⟨fun _ _ _ _ => rfl, fun _ _ _ _ => rfl⟩

theorem joins_logical : Joins .logical .logical := ⟨fun _ _ _ _ => rfl, fun _ _ _ _ => rfl⟩

variable {operand : Parse (Expr Blank)} {operand' : Build ExprNode} {kinds : List TokenKind}
  {node : Expr Blank → Token → Expr Blank → Expr Blank}
  {node' : Nat → ExprNode → Token → ExprNode → ExprNode}

theorem assembles_operands (hnode : Joins node node') (hoperand : Assembles [] operand operand')
    (bound : Nat) (left : ExprNode) :
    Assembles left.items (Parse.operands kinds node operand bound left.plain)
      (operands kinds node' operand' bound left) := by
  induction bound generalizing left with
  | zero => exact .stuck
  | succ bound ih =>
    refine (assembles_accept _).bind fun o => ?_
    cases o with
    | none => exact .pure rfl fun _ => Nat.le_refl _
    | some op =>
      refine hoperand.bind fun right => .number_bind fun n => ?_
      have hrest := ih (node' n left op right)
      rw [hnode.plain] at hrest
      refine hrest.weaken fun i => ?_
      simp only [hnode.items, items, Option.map, Option.getD, List.count_cons, List.count_append]
      omega

theorem assembles_leftAssociative (hnode : Joins node node') (bound : Nat)
    (hoperand : Assembles [] operand operand') :
    Assembles [] (Parse.leftAssociative kinds node bound operand)
      (leftAssociative kinds node' bound operand') := by
  refine hoperand.bind fun left => (assembles_operands hnode hoperand bound left).weaken fun i => ?_
  rw [List.count_append]
  exact Nat.le_add_right _ _

theorem assembles_disjunction (hnested : Assembles [] nested nested') (bound : Nat) :
    Assembles [] (Parse.disjunction nested bound) (disjunction nested' bound) := by
  refine assembles_leftAssociative joins_logical bound ?_
  refine assembles_leftAssociative joins_logical bound ?_
  refine assembles_leftAssociative joins_binary bound ?_
  refine assembles_leftAssociative joins_binary bound ?_
  refine assembles_leftAssociative joins_binary bound ?_
  exact assembles_leftAssociative joins_binary bound (assembles_unary hnested bound bound)

/-- What a variable or a property stores goes over to the node that it makes way for. -/
theorem assembles_assignment (hnested : Assembles [] nested nested') (bound : Nat) :
    Assembles [] (Parse.assignment nested bound) (assignment nested' bound) := by
  refine (assembles_disjunction hnested bound).bind fun target =>
    (assembles_accept _).bind fun o => ?_
  cases o with
  | none =>
    refine .pure rfl fun i => ?_
    simp only [items, Option.map, Option.getD, List.count_nil, List.count_append]
    omega
  | some equals =>
    refine hnested.bind fun value => ?_
    cases target with
    | reference o =>
      refine .number_bind fun n => .pure rfl fun i => ?_
      simp only [items, ExprNode.items, Occurrence.items, List.count_cons, List.count_append,
        List.count_nil]
      omega
    | property _ object name =>
      refine .number_bind fun n => .pure rfl fun i => ?_
      simp only [items, ExprNode.items, List.count_cons, List.count_append]
      omega
    | _ =>
      refine (assembles_complain (some equals) _).bind fun _ => .pure rfl fun i => ?_
      simp only [items, List.count_append]
      omega

end Levels

theorem assembles_expressionAt (n : Nat) :
    Assembles [] (Parse.expressionAt n) (expressionAt n) := by
  induction n with
  | zero => exact .stuck
  | succ n ih => exact assembles_assignment ih (n + 1)

/-! ### Statements -/

/-- The parsers for the parts of a statement do the same, and keep the balance. -/
structure Parts.Assemble (p : Parse.Parts) (p' : Parts) : Prop where
  expression : Assembles [] p.expression p'.expression
  statement : Assembles [] p.statement p'.statement
  declaration : Assembles [] p.declaration p'.declaration
  bound : p'.bound = p.bound

theorem assembles_declarations {declaration : Parse (Stmt Blank)} {declaration' : Build StmtNode}
    (h : Assembles [] declaration declaration') (closing : List TokenKind) (bound : Nat) :
    Assembles [] (Parse.declarations declaration closing bound)
      (declarations declaration' closing bound) := by
  induction bound with
  | zero => exact .stuck
  | succ bound ih =>
    refine .next?_bind fun o => ?_
    cases o with
    | none => exact .pure rfl fun _ => Nat.le_refl _
    | some t =>
      dsimp only
      split
      · exact .pure rfl fun _ => Nat.le_refl _
      · refine h.bind fun first => ih.bind fun rest => .pure rfl fun i => ?_
        simp only [items, StmtNode.itemsBody, List.count_append]
        omega

theorem assembles_parameters (bound count : Nat) :
    Assembles [] (Parse.parameters bound count) (parameters bound count) := by
  induction bound generalizing count with
  | zero => exact .stuck
  | succ bound ih =>
    have hrest := assembles_separated (fun _ _ => rfl) rfl (fun _ _ => rfl) rfl
      (assembles_expect .identifier .paramName) (ih (count + 1))
    rw [Parse.parameters, parameters]
    dsimp only
    split
    · exact .next?_bind fun o => (assembles_complain o _).bind fun _ => hrest
    · exact hrest

section Rules

variable {p : Parse.Parts} {p' : Parts}

theorem assembles_blockBody (hp : Parts.Assemble p p') :
    Assembles [] (Parse.blockBody p) (blockBody p') := by
  rw [Parse.blockBody, blockBody, hp.bound]
  refine (assembles_declarations hp.declaration _ p.bound).bind fun body =>
    (assembles_expect _ _).bind fun _ => .pure rfl fun i => ?_
  simp only [items, List.count_append]
  omega

theorem assembles_routine (hp : Parts.Assemble p p') (kind : RoutineKind) :
    Assembles [] (Parse.routine p kind) (routine p' kind) := by
  rw [Parse.routine, routine, hp.bound]
  refine (assembles_expect _ _).bind fun name => (assembles_expect _ _).bind fun _ =>
    (assembles_nextIs _).bind fun b => ?_
  refine .ite_bind (.pure rfl fun _ => Nat.le_refl _)
    (assembles_parameters p.bound 0) fun (params : List Token) => ?_
  refine (assembles_expect _ _).bind fun _ => (assembles_expect _ _).bind fun _ =>
    (assembles_blockBody hp).bind fun body => .number_bind fun n => .pure rfl fun i => ?_
  simp only [items, StmtNode.itemsRoutine, List.count_cons, List.count_append, List.count_nil]
  omega

theorem assembles_methods (hp : Parts.Assemble p p') (bound : Nat) :
    Assembles [] (Parse.methods p bound) (methods p' bound) := by
  induction bound with
  | zero => exact .stuck
  | succ bound ih =>
    refine (assembles_nextIs _).bind fun b => assembles_atEnd.bind fun b' => ?_
    show Assembles _ (if b || b' then _ else _) (if b || b' then _ else _)
    split
    · exact .pure rfl fun _ => Nat.zero_le _
    · refine (assembles_routine hp .method).bind fun first => ih.bind fun rest =>
        .pure rfl fun i => ?_
      simp only [items, StmtNode.itemsMethods, List.count_append]
      omega

theorem assembles_classDeclaration (hp : Parts.Assemble p p') :
    Assembles [] (Parse.classDeclaration p) (classDeclaration p') := by
  -- the rest of the class is the same with and without a superclass
  have hrest (name : Token) (superclass : Option Occurrence) (held : List Item)
      (hheld : ∀ i, [Item.token name].count i + (items superclass).count i ≤ held.count i) :
      Assembles held
        (do
          let _ ← expect .leftBrace .classOpen
          let members ← Parse.methods p p.bound
          let _ ← expect .rightBrace .classClose
          return Stmt.klass name (plain superclass) members)
        (do
          let _ ← lift (expect .leftBrace .classOpen)
          let members ← methods p' p'.bound
          let _ ← lift (expect .rightBrace .classClose)
          return StmtNode.klass (← number) name superclass members) := by
    rw [hp.bound]
    refine (assembles_expect _ _).bind fun _ => (assembles_methods hp p.bound).bind fun members =>
      (assembles_expect _ _).bind fun _ => .number_bind fun n => .pure rfl fun i => ?_
    have := hheld i
    simp only [items, StmtNode.items, List.count_cons, List.count_append, List.count_nil] at this ⊢
    omega
  refine (assembles_expect _ _).bind fun name => (assembles_accept _).bind fun o => ?_
  cases o with
  | none =>
    refine hrest name none _ fun i => ?_
    simp only [items, Option.map, Option.getD, List.count_append, List.count_nil]
    omega
  | some _ =>
    refine (assembles_expect _ _).bind fun token => .number_bind fun n => ?_
    refine hrest name (some ⟨n, token⟩) _ fun i => ?_
    simp only [items, Occurrence.items, Option.map, Option.getD, List.count_cons, List.count_append,
      List.count_nil]
    omega

theorem assembles_variableDeclaration (hp : Parts.Assemble p p') :
    Assembles [] (Parse.variableDeclaration p) (variableDeclaration p') := by
  have hrest (name : Token) (initial : Option ExprNode) (held : List Item)
      (hheld : ∀ i, [Item.token name].count i + (items initial).count i ≤ held.count i) :
      Assembles held
        (do
          let _ ← expect .semicolon .declarationEnd
          return Stmt.declare name (plain initial))
        (do
          let _ ← lift (expect .semicolon .declarationEnd)
          return StmtNode.declare (← number) name initial) := by
    refine (assembles_expect _ _).bind fun _ => .number_bind fun n => .pure rfl fun i => ?_
    have := hheld i
    simp only [items, StmtNode.items, List.count_cons, List.count_append, List.count_nil] at this ⊢
    omega
  refine (assembles_expect _ _).bind fun name => (assembles_accept _).bind fun o => ?_
  cases o with
  | none =>
    refine hrest name none _ fun i => ?_
    simp only [items, Option.map, Option.getD, List.count_append, List.count_nil]
    omega
  | some _ =>
    refine hp.expression.some.bind fun initial => hrest name initial _ fun i => ?_
    simp only [items, List.count_append, List.count_nil]
    omega

theorem assembles_expressionStatement (hp : Parts.Assemble p p') :
    Assembles [] (Parse.expressionStatement p) (expressionStatement p') := by
  refine hp.expression.bind fun value => (assembles_expect _ _).bind fun _ =>
    .number_bind fun n => .pure rfl fun i => ?_
  simp only [items, StmtNode.items, List.count_cons, List.count_append]
  omega

theorem assembles_optionalBefore (hp : Parts.Assemble p p') (kind : TokenKind) :
    Assembles [] (Parse.optionalBefore p kind) (optionalBefore p' kind) := by
  refine (assembles_nextIs kind).bind fun b => ?_
  cases b with
  | true => exact .pure rfl fun _ => Nat.le_refl _
  | false => exact hp.expression.some

/-- The nodes that a `for` loop is written with are new, and each clause gets into one of them. -/
theorem assembles_forLoop {initializer : Option StmtNode} {condition increment : Option ExprNode}
    {body : StmtNode} (h : ∀ i, (items initializer).count i + (items condition).count i +
      (items increment).count i + (items body).count i ≤ held.count i) :
    Assembles held
      (pure (Parse.forLoop (plain initializer) (plain condition) (plain increment) (plain body)))
      (forLoop initializer condition increment body) := by
  cases initializer <;> cases condition <;> cases increment
  all_goals
    simp only [forLoop, pure_bind]
    repeat refine .number_bind fun n => ?_
    refine .pure rfl fun i => ?_
    have := h i
    simp only [items, StmtNode.items, StmtNode.itemsBody, ExprNode.items, Option.map, Option.getD,
      List.count_cons, List.count_append, List.count_nil] at this ⊢
    omega

theorem assembles_forStatement (hp : Parts.Assemble p p') :
    Assembles [] (Parse.forStatement p) (forStatement p') := by
  refine (assembles_expect _ _).bind fun _ => Assembles.bind ?_
    fun (initializer : Option StmtNode) => (assembles_optionalBefore hp _).bind fun condition =>
    (assembles_expect _ _).bind fun _ => (assembles_optionalBefore hp _).bind fun increment =>
    (assembles_expect _ _).bind fun _ => hp.statement.bind fun body => assembles_forLoop fun i => ?_
  · refine .dispatch (assembles_expressionStatement hp).some fun t => ?_
    cases t.kind
    case semicolon => exact .some (.pure rfl fun _ => Nat.zero_le _)
    case varWord =>
      exact .some ((assembles_variableDeclaration hp).some.weaken fun _ => Nat.zero_le _)
    all_goals exact .none
  · simp only [List.count_append]
    omega

theorem assembles_ifStatement (hp : Parts.Assemble p p') :
    Assembles [] (Parse.ifStatement p) (ifStatement p') := by
  have hrest (condition : ExprNode) (whenTrue : StmtNode) (whenFalse : Option StmtNode)
      (held : List Item) (hheld : ∀ i, (items condition).count i + (items whenTrue).count i +
        (items whenFalse).count i ≤ held.count i) :
      Assembles held
        (pure (Stmt.branch (plain condition) (plain whenTrue) (plain whenFalse)))
        (do return StmtNode.branch (← number) condition whenTrue whenFalse) := by
    cases whenFalse
    all_goals
      refine .number_bind fun n => .pure rfl fun i => ?_
      have := hheld i
      simp only [items, StmtNode.items, Option.map, Option.getD, List.count_cons, List.count_append,
        List.count_nil] at this ⊢
      omega
  refine (assembles_expect _ _).bind fun _ => hp.expression.bind fun condition =>
    (assembles_expect _ _).bind fun _ => hp.statement.bind fun whenTrue =>
    (assembles_accept _).bind fun o => ?_
  cases o with
  | none =>
    refine hrest condition whenTrue none _ fun i => ?_
    simp only [items, Option.map, Option.getD, List.count_append, List.count_nil]
    omega
  | some _ =>
    refine hp.statement.some.bind fun whenFalse => hrest condition whenTrue whenFalse _ fun i => ?_
    simp only [List.count_append]
    omega

theorem assembles_printStatement (hp : Parts.Assemble p p') :
    Assembles [] (Parse.printStatement p) (printStatement p') := by
  refine hp.expression.bind fun value => (assembles_expect _ _).bind fun _ =>
    .number_bind fun n => .pure rfl fun i => ?_
  simp only [items, StmtNode.items, List.count_cons, List.count_append]
  omega

theorem assembles_returnStatement (hp : Parts.Assemble p p') (keyword : Token) :
    Assembles [.token keyword] (Parse.returnStatement p keyword) (returnStatement p' keyword) := by
  refine (assembles_optionalBefore hp _).bind fun value => (assembles_expect _ _).bind fun _ =>
    .number_bind fun n => .pure rfl fun i => ?_
  simp only [items, StmtNode.items, List.count_cons, List.count_append, List.count_nil]
  omega

theorem assembles_whileStatement (hp : Parts.Assemble p p') :
    Assembles [] (Parse.whileStatement p) (whileStatement p') := by
  refine (assembles_expect _ _).bind fun _ => hp.expression.bind fun condition =>
    (assembles_expect _ _).bind fun _ => hp.statement.bind fun body =>
    .number_bind fun n => .pure rfl fun i => ?_
  simp only [items, StmtNode.items, List.count_cons, List.count_append]
  omega

theorem assembles_block (hp : Parts.Assemble p p') :
    Assembles [] (Stmt.block <$> Parse.blockBody p) (block p') := by
  rw [← bind_pure_comp]
  refine (assembles_blockBody hp).bind fun body => .number_bind fun n => .pure rfl fun i => ?_
  simp only [items, StmtNode.items, List.count_cons, List.count_append]
  omega

/-- The words and the brace that statements begin with are stored nowhere, but for `return`. -/
theorem assembles_statement (hp : Parts.Assemble p p') :
    Assembles [] (Parse.statement p) (statement p') := by
  refine .dispatch (assembles_expressionStatement hp) fun t => ?_
  cases t.kind
  case forWord => exact .some ((assembles_forStatement hp).weaken fun _ => Nat.zero_le _)
  case ifWord => exact .some ((assembles_ifStatement hp).weaken fun _ => Nat.zero_le _)
  case printWord => exact .some ((assembles_printStatement hp).weaken fun _ => Nat.zero_le _)
  case returnWord => exact .some (assembles_returnStatement hp t)
  case whileWord => exact .some ((assembles_whileStatement hp).weaken fun _ => Nat.zero_le _)
  case leftBrace => exact .some ((assembles_block hp).weaken fun _ => Nat.zero_le _)
  all_goals exact .none

theorem assembles_declaration (hp : Parts.Assemble p p') :
    Assembles [] (Parse.declaration p) (declaration p') := by
  refine assembles_recover (.dispatch (assembles_statement hp) fun t => ?_)
  cases t.kind
  case classWord =>
    exact .some ((assembles_classDeclaration hp).weaken fun _ => Nat.zero_le _)
  case funWord =>
    have hfunction := (assembles_routine hp .function).map (f := Stmt.function)
      (g := StmtNode.function) (fun _ => rfl) fun _ _ => Nat.le_refl _
    exact .some (hfunction.weaken fun _ => Nat.zero_le _)
  case varWord =>
    exact .some ((assembles_variableDeclaration hp).weaken fun _ => Nat.zero_le _)
  all_goals exact .none

end Rules

theorem assembles_statementAt_declarationAt (n : Nat) :
    Assembles [] (Parse.statementAt n) (statementAt n) ∧
      Assembles [] (Parse.declarationAt n) (declarationAt n) := by
  induction n with
  | zero => exact ⟨.stuck, .stuck⟩
  | succ n ih =>
    have hp : Parts.Assemble
        ⟨Parse.expressionAt (n + 1), Parse.statementAt n, Parse.declarationAt n, n + 1⟩
        ⟨expressionAt (n + 1), statementAt n, declarationAt n, n + 1⟩ :=
      ⟨assembles_expressionAt (n + 1), ih.1, ih.2, rfl⟩
    exact ⟨assembles_statement hp, assembles_declaration hp⟩

end Build

/-! ### Programs -/

/-- Numbered nodes make no difference, and the nodes and tokens of a program are stored once. -/
theorem plainBody_buildProgram_and_count (tokens : List Token) :
    StmtNode.plainBody (buildProgram tokens) = (parse tokens).statements ∧
      ∀ i, (StmtNode.itemsBody (buildProgram tokens)).count i ≤
        Bench.left ⟨⟨tokens, []⟩, 0⟩ i := by
  have h := Build.assembles_declarations
    (Build.assembles_statementAt_declarationAt (tokens.length + 1)).2 [] (tokens.length + 1)
    ⟨⟨tokens, []⟩, 0⟩
  rw [parse, Parse.program, buildProgram]
  dsimp only at h ⊢
  generalize Parse.declarations _ _ _ _ = r at h ⊢
  generalize Build.declarations _ _ _ _ = r' at h ⊢
  cases h with
  | ok hle =>
    refine ⟨rfl, fun i => ?_⟩
    have := hle i
    rw [List.count_nil] at this
    exact Nat.le_trans (Nat.le_add_right _ _) (Nat.zero_add _ ▸ this)
  | error _ => exact ⟨rfl, fun _ => Nat.zero_le _⟩

end LoxInterpreter
