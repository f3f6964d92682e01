import LoxInterpreter.Proofs.Loop.Direct
import LoxInterpreter.Proofs.Twin.Alone

/-!
# A `for` statement in step with its tree

The parser leaves out the blocks that a loop can do without: the one around the loop if there is no
initializer, the one around the body if there is no increment. `ForLoop.spread` is the tree with all
of them. Since blocks change nothing (`ForLoop.braced_tree`), one tree stands for those of all
loops, and what the loop means is compared with that one, part by part: in the second machine, each
round has a spare frame for the block with the increment (`ForLoop.inStep_turn`).
-/

namespace LoxInterpreter

open Run

namespace ForLoop

variable {l : ForLoop Blank} {scopes : Scopes}

/-! ### All blocks there may be -/

/-- The shape of the parts. The body declares nothing in the scope of the loop. -/
structure Shaped (l : ForLoop Blank) : Prop where
  initializer : ∀ s ∈ l.initializer, s.Shaped
  condition : ∀ e ∈ l.condition, e.Shaped
  increment : ∀ e ∈ l.increment, e.Shaped
  declared : l.body.declared? = none
  body : l.body.Shaped

theorem shaped_of_tree (hbody : l.body.declared? = none) (h : l.tree.Shaped) : l.Shaped := by
  obtain ⟨initializer, condition, increment, body⟩ := l
  have hcondition (h : (condition.getD (.literal (.bool true))).Shaped) :
      ∀ e ∈ condition, e.Shaped := by
    rintro e ⟨⟩
    exact h
  have hloop {initializer : Option (Stmt Blank)} (hinitializer : ∀ s ∈ initializer, s.Shaped)
      (h : (tree ⟨none, condition, increment, body⟩).Shaped) :
      Shaped ⟨initializer, condition, increment, body⟩ := by
    cases increment with
    | none => exact ⟨hinitializer, hcondition h.1, nofun, hbody, h.2.2⟩
    | some e =>
      refine ⟨hinitializer, hcondition h.1, ?_, hbody, h.2.2.1⟩
      rintro _ ⟨⟩
      exact h.2.2.2.1
  cases initializer with
  | none => exact hloop nofun h
  | some s =>
    refine hloop ?_ h.2.1
    rintro _ ⟨⟩
    exact h.1

/-- The increment as a statement, if there is one. -/
def afterwards (l : ForLoop Blank) : List (Stmt Blank) := l.increment.toList.map .expression

/-- The loop without the initializer. The body is in a block whether there is an increment or not. -/
def looping (l : ForLoop Blank) : Stmt Blank :=
  .loop (l.condition.getD (.literal (.bool true))) (.block (l.body :: l.afterwards))

/-- The loop in a block, whether there is an initializer or not. -/
def spread (l : ForLoop Blank) : Stmt Blank := .block (l.initializer.toList ++ [l.looping])

/-- The blocks that a parser leaves out do no harm. -/
theorem braced_tree (hbody : l.body.declared? = none) : l.tree.Braced l.spread := by
  obtain ⟨initializer, condition, increment, body⟩ := l
  have hloop : (tree ⟨none, condition, increment, body⟩).Braced
      (looping ⟨initializer, condition, increment, body⟩) := by
    cases increment with
    | none => exact .loop _ (.wrap hbody (.refl body))
    | some e => exact .refl _
  cases initializer with
  | none => exact .wrap rfl hloop
  | some s => exact .block (.cons (.refl s) (.cons hloop .nil))

/-! ### The meaning in step with the tree -/

/-- Inside of the loop no scope binds `super` that did not before. -/
theorem Shaped.regular_inside (hl : l.Shaped) (h : scopes.Regular) : (l.inside scopes).Regular := by
  have hopened : Scopes.Regular ([] :: scopes) := .scope List.not_mem_nil h
  unfold inside
  split
  · next s hs => exact hopened.enter (hl.initializer s hs).isName
  · exact hopened

/-- Each frame is in both trees. -/
theorem layers_inside : (l.inside scopes).layers = .same :: scopes.layers := by
  unfold inside
  split
  · exact Scopes.layers_enter _ _
  · rfl

/-- In a block that comes after the initializer a statement is executed if that carries on. -/
theorem executeAll_initializer (host : Host) {s : Stmt Blank} (hs : s.declared? = none) :
    executeAll host (Stmt.linkBody ([] :: scopes) (l.initializer.toList ++ [s])) = (do
      match ← (l.link scopes).start host with
      | .normal => execute host (s.link (l.inside scopes))
      | .returning value => return .returning value) := by
  have henter (scopes : Scopes) : scopes.enter s = scopes := by rw [Scopes.enter, hs]
  obtain ⟨initializer, condition, increment, body⟩ := l
  cases initializer with
  | none =>
    show executeAll host [s.link (Scopes.enter ([] :: scopes) s)] = _
    rw [henter, executeAll_singleton]
    rfl
  | some first =>
    show executeAll host (_ :: [s.link (Scopes.enter (Scopes.enter ([] :: scopes) first) s)]) = _
    rw [henter, executeAll, executeAll_singleton]
    rfl

section InStep

variable {host host' : Host} (hosts : host.Twins .plain host') (hl : l.Shaped)
  (hscopes : scopes.Regular) {p : Pairing}

include hosts hl hscopes

theorem inStep_start (h : p.Here .plain (l.inside scopes).layers) :
    InStep .plain p ((l.link scopes).start host) ((l.link scopes).start host')
      (Gives (Run.Ending .plain)) := by
  have hspaced := (hl.regular_inside hscopes).spaced
  obtain ⟨initializer, condition, increment, body⟩ := l
  cases initializer with
  | none => exact .pure_gives h.sound trivial
  | some s =>
    exact inStep_execute hosts (Stmt.twins_link_braced (.refl s) (hl.initializer s rfl) hspaced
      (.inr (Scopes.open_layers _))) h

/-- A missing condition is `true`. -/
theorem inStep_goesOn (h : p.Here .plain (l.inside scopes).layers) :
    InStep .plain p ((l.link scopes).goesOn host)
      (do return (← evaluate host'
        ((l.condition.getD (.literal (.bool true))).link (l.inside scopes))).truthy)
      (Gives fun _ _ => True) := by
  have hspaced := (hl.regular_inside hscopes).spaced
  have htwins := Expr.twins_link hspaced
  obtain ⟨initializer, condition, increment, body⟩ := l
  cases condition with
  | none => exact .pure_gives h.sound trivial
  | some e =>
    refine (inStep_evaluate hosts _ _ h (htwins e (hl.condition e rfl))).bind_gives
      fun q x hq _ => ?_
    exact .pure_gives hq.sound trivial

/-- A round is a block with the body and the increment. -/
theorem inStep_turn (h : p.Here .plain (l.inside scopes).layers) :
    InStep .plain p ((l.link scopes).turn host)
      (execute host' (.block (Stmt.linkBody ([] :: l.inside scopes) (l.body :: l.afterwards))))
      (Gives (Run.Ending .plain)) := by
  have hspaced := (hl.regular_inside hscopes).spaced.spare
  have henter : Scopes.enter ([] :: l.inside scopes) l.body = [] :: l.inside scopes := by
    rw [Scopes.enter, hl.declared]
  refine .braced h fun q hq => ?_
  rw [Stmt.linkBody, henter, executeAll, turn]
  refine InStep.mono (Q := Gives (Run.Ending .plain)) ?_ fun q₁ c c' hq₁ hc =>
    ⟨hc.1, hc.2.goTo hq₁.sound _ _⟩
  have hbody := Stmt.twins_link_braced (.refl l.body) hl.body hspaced (.inl hl.declared)
  refine (inStep_execute hosts hbody hq).bind_gives fun q₁ c hq₁ hc => ?_
  cases c with
  | returning value => exact .pure_gives hq₁.sound hc
  | normal =>
    obtain ⟨initializer, condition, increment, body⟩ := l
    cases increment with
    | none => exact .pure_gives hq₁.sound trivial
    | some e =>
      have htwins := Expr.twins_link hspaced e (hl.increment e rfl)
      show InStep .plain q₁
        ((evaluate host (e.link _) >>= fun _ => pure ()) >>= fun _ => pure Completion.normal)
        (executeAll host' [.expression (e.link _)]) _
      rw [executeAll_singleton, bind_assoc]
      refine (inStep_evaluate hosts _ _ (hq.follow hq₁) htwins).bind_gives fun q₂ x hq₂ _ => ?_
      exact .pure_gives hq₂.sound trivial

/-- **The loop in step with its tree**, if all blocks are there. -/
theorem inStep_run (hhost : host.Homing) (h : p.Here .plain scopes.layers) :
    InStep .plain p ((l.link scopes).run host) (execute host' (l.spread.link scopes))
      (Gives (Run.Ending .plain)) := by
  rw [run_eq hhost, spread, Stmt.link, execute]
  refine .get_bind ?_
  refine (InStep.newFrame h.sound h.stands (.refl String)).bind fun q frame frame' hq hframe => ?_
  refine .inFrame hq.sound (InStep.mono (Q := Gives (Run.Ending .plain)) ?_ fun q₁ c c' hq₁ hc =>
    ⟨hc.1, hc.2.goTo hq₁.sound _ _⟩)
  have hhere : (q.goTo frame frame').Here .plain (l.inside scopes).layers := by
    rw [layers_inside]
    exact .goTo hq.sound hframe
  rw [executeAll_initializer host' rfl]
  refine (inStep_start hosts hl hscopes hhere).bind_gives fun q₁ c hq₁ hc => ?_
  cases c with
  | returning value => exact .pure_gives hq₁.sound hc
  | normal =>
    have hloop := inStep_repeatWhile (fun _ h => inStep_goesOn hosts hl hscopes h)
      (fun _ h => inStep_turn hosts hl hscopes h) host.rounds (hhere.follow hq₁)
    show InStep _ _ _ (execute host' (l.looping.link (l.inside scopes))) _
    rw [looping, Stmt.link, execute, hosts.rounds]
    exact hloop

theorem inStep_advance (h : p.Here .plain (l.inside scopes).layers) :
    InStep .plain p ((l.link scopes).advance host) ((l.link scopes).advance host')
      fun _ _ _ => True := by
  have htwins := Expr.twins_link (hl.regular_inside hscopes).spaced
  obtain ⟨initializer, condition, increment, body⟩ := l
  cases increment with
  | none => exact .pure h.sound trivial
  | some e =>
    refine (inStep_evaluate hosts _ _ h (htwins e (hl.increment e rfl))).bind_gives
      fun q x hq _ => ?_
    exact .pure hq.sound trivial

theorem inStep_conclude (h : p.Here .plain (l.inside scopes).layers) (c : Completion) :
    InStep .plain p ((l.link scopes).conclude host c) ((l.link scopes).conclude host' c)
      (Gives fun _ _ => True) := by
  cases c with
  | returning value => exact .pure_gives h.sound trivial
  | normal =>
    refine (inStep_advance hosts hl hscopes h).bind fun q _ _ hq _ => ?_
    exact .pure_gives hq.sound trivial

end InStep

end ForLoop

end LoxInterpreter
