import LoxInterpreter.Proofs.Run.Together

/-!
# What operators come to

An operator looks at nothing but its operands. It comes to a value that names nothing in the store,
or its token is to blame for the operands, or there is no such operator. Which of them it is, and
which value, is up to the kind of the token alone: two tokens of one kind come to the same, but that
each takes the blame itself.

Whatever is to be shown of operators follows from these three cases (`operation_unary`,
`operation_binary`), for both sorts of them.
-/

namespace LoxInterpreter.Run

/-- What an operator comes to, and what it comes to where another token stands for it. It is known
if there is such an operator. -/
inductive Operation (known : Prop) (op op' : Token) : Run Value → Run Value → Prop where
  | value {v : Value} (hplain : v.IsPlain) : Operation known op op' (pure v) (pure v)
  | blame (cause : RuntimeError) : Operation known op op' (failAt op cause) (failAt op' cause)
  | unknown (hunknown : ¬known) :
      Operation known op op' (faultWith (.badOperator op)) (faultWith (.badOperator op'))

/-- Arithmetic comes to a number or to a truth value. -/
theorem isPlain_of_arithmetic? {kind : TokenKind} {f : Float → Float → Value}
    (hf : arithmetic? kind = some f) (x y : Float) : (f x y).IsPlain := by
  unfold arithmetic? at hf
  split at hf <;> cases hf <;> trivial

variable {op op' : Token}

/-- A prefix operator is known, or it is none. -/
theorem operation_unary (hkind : op'.kind = op.kind) (operand : Value) :
    Operation op.kind.IsPrefix op op' (applyUnary op operand) (applyUnary op' operand) := by
  unfold applyUnary
  rw [hkind]
  split
  · exact .value trivial
  · cases operand with
    | number x => exact .value trivial
    | _ => exact .blame _
  · next hbang hminus => exact .unknown fun hknown => hknown.elim hbang hminus

theorem operation_add {known : Prop} (left right : Value) :
    Operation known op op' (add op left right) (add op' left right) := by
  unfold add
  split
  · exact .value trivial
  · exact .value trivial
  · exact .blame _

/-- An operator between two operands is known, or it is none. -/
theorem operation_binary (hkind : op'.kind = op.kind) (left right : Value) :
    Operation op.kind.IsBinary op op' (applyBinary op left right) (applyBinary op' left right) := by
  rw [applyBinary, applyBinary, hkind]
  split
  · exact operation_add left right
  · exact .value trivial
  · exact .value trivial
  · next hplus hequal hunequal =>
    split
    · cases hf : arithmetic? op.kind with
      | some f => exact .value (isPlain_of_arithmetic? hf _ _)
      | none =>
        refine .unknown ?_
        rintro (h | h | h | h)
        · exact hplus h
        · exact hequal h
        · exact hunequal h
        · rw [hf] at h
          cases h
    · exact .blame _

end LoxInterpreter.Run
