import LoxInterpreter.Proofs.Grammar.Moved
import LoxInterpreter.Proofs.Twin.Relocated

/-!
# Moved trees are twins

A text that moves as a whole is relocated, so the mistakes of a moved tree are those of the tree,
moved (`Stmt.scopeMistakesBody_movedBy`), and a linked tree and the moved one are twins
(`Stmt.twins_linkBody_movedBodyBy`).
-/

namespace LoxInterpreter

/-- The mistake in a text that begins at the origin. -/
def ScopeMistake.movedBy (m : ScopeMistake) (origin : Position) : ScopeMistake :=
  { m with token := m.token.movedBy origin }

/-- The mistakes in a text that begins at the origin. -/
def movedMistakes (origin : Position) (ms : List ScopeMistake) : List ScopeMistake :=
  ms.map (·.movedBy origin)

variable {origin : Position}

namespace Stmt

/-- The mistakes of statements move along with them. -/
theorem scopeMistakesBody_movedBy (body : List (Stmt Blank)) (c : Surroundings) :
    scopeMistakesBody c (movedBodyBy origin body) =
      movedMistakes origin (scopeMistakesBody c body) := by
  have hrelocated := scopeMistakesBody_relocated (ρ := .along origin) body c
  rw [relocatedBody_along] at hrelocated
  exact hrelocated

/-- Moved statements become twins. -/
theorem twins_linkBody_movedBodyBy {G : Guise} (body : List (Stmt Blank)) (scopes : Scopes)
    (h : EachTokenBody (G.Lets (.along origin)) body) :
    BodyTwins G scopes.layers (linkBody scopes body)
      (linkBody scopes (movedBodyBy origin body)) := by
  rw [← relocatedBody_along]
  exact twins_linkBody_relocated body scopes h

end Stmt

end LoxInterpreter
