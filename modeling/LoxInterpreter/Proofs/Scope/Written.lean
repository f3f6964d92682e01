import LoxInterpreter.Proofs.Scope.Fits

/-!
# Statements of texts

A linked statement is *written* in some surroundings if it is one of a text that scope analysis had
no objection to, linked where it stands (`Stmt.Written`). What stands in a written statement is
written in turn, down to the bodies of functions; what is written fits (`Stmt.Written.fits`).
-/

namespace LoxInterpreter

namespace Stmt

/-- The linked statement is one of a text. It was linked in these surroundings, and scope analysis
had no objection to it. -/
structure Written (c : Surroundings) (around : List LocalScope) (s : Stmt Place) : Prop where
  coherent : Coherent c around
  shaped : s.unlink.Shaped
  mistakes : s.unlink.scopeMistakes (c.enter s.unlink) = []
  declared : ∀ name ∈ s.unlink.declared?, DeclaredAround around name
  link : s.unlink.link (c.scopes.enter s.unlink) = s

/-- So are the consecutive statements. -/
structure BodyWritten (c : Surroundings) (around : List LocalScope) (body : List (Stmt Place)) :
    Prop where
  coherent : Coherent c around
  shaped : ShapedBody (unlinkBody body)
  mistakes : scopeMistakesBody c (unlinkBody body) = []
  declared : ∀ name ∈ declaredIn (unlinkBody body), DeclaredAround around name
  link : linkBody c.scopes (unlinkBody body) = body

variable {c : Surroundings} {around : List LocalScope} {s : Stmt Place} {rest : List (Stmt Place)}
  {condition : Expr Place}

/-- What is written fits. -/
theorem Written.fits (h : s.Written c around) :
    s.Fits (fun _ => True) c.scopes around (returns c) := by
  have hfits := fits_link (Φ := fun _ => True) s.unlink h.coherent h.shaped h.mistakes h.declared
    fun _ _ => trivial
  rwa [h.link] at hfits

/-! ### What stands in it -/

theorem BodyWritten.head (h : BodyWritten c around (s :: rest)) : s.Written c around := by
  obtain ⟨hcoherent, hshaped, hmistakes, hdeclared, hlink⟩ := h
  simp only [unlinkBody, scopeMistakesBody, List.append_eq_nil_iff] at hmistakes
  simp only [unlinkBody, declaredIn_cons, List.forall_mem_append] at hdeclared
  simp only [unlinkBody, linkBody, List.cons.injEq] at hlink
  exact ⟨hcoherent, hshaped.1, hmistakes.1.2,
    fun name hname => hdeclared.1 name (Option.mem_toList.mpr hname), hlink.1⟩

theorem BodyWritten.tail (h : BodyWritten c around (s :: rest)) :
    BodyWritten (c.enter s.unlink) around rest := by
  obtain ⟨hcoherent, hshaped, hmistakes, hdeclared, hlink⟩ := h
  simp only [unlinkBody, scopeMistakesBody, List.append_eq_nil_iff] at hmistakes
  simp only [unlinkBody, declaredIn_cons, List.forall_mem_append] at hdeclared
  simp only [unlinkBody, linkBody, List.cons.injEq] at hlink
  exact ⟨hcoherent.enter hshaped.1.isName, hshaped.2, hmistakes.2, hdeclared.2, hlink.2⟩

theorem Written.block {body : List (Stmt Place)} (h : (Stmt.block body).Written c around) :
    BodyWritten c.inBlock (.declaring (declaredIn (unlinkBody body)) :: around) body := by
  obtain ⟨hcoherent, hshaped, hmistakes, -, hlink⟩ := h
  refine ⟨hcoherent.inBlock ⟨_, rfl, ShapedBody.isName hshaped⟩, hshaped, hmistakes,
    fun name hname => declaredAround_of_mem hname, ?_⟩
  exact Stmt.block.inj hlink

theorem Written.fits_condition {whenTrue : Stmt Place} {whenFalse : Option (Stmt Place)}
    (h : (Stmt.branch condition whenTrue whenFalse).Written c around) :
    condition.Fits (fun _ => True) c.scopes around none := by
  have hfits := h.fits
  cases whenFalse with
  | none | some => exact hfits.1

theorem Written.whenTrue {whenTrue : Stmt Place} {whenFalse : Option (Stmt Place)}
    (h : (Stmt.branch condition whenTrue whenFalse).Written c around) :
    whenTrue.Written c around := by
  obtain ⟨hcoherent, hshaped, hmistakes, -, hlink⟩ := h
  cases whenFalse with
  | none =>
    simp only [unlink, scopeMistakes, List.append_eq_nil_iff] at hmistakes
    simp only [unlink, Stmt.link, Stmt.branch.injEq] at hlink
    exact ⟨hcoherent, hshaped.2.2, hmistakes.2.2, by simp [hshaped.2.1], hlink.2.1⟩
  | some other =>
    simp only [unlink, scopeMistakes, List.append_eq_nil_iff] at hmistakes
    simp only [unlink, Stmt.link, Stmt.branch.injEq] at hlink
    exact ⟨hcoherent, hshaped.2.1.2, hmistakes.1.2.2, by simp [hshaped.2.1.1], hlink.2.1⟩

theorem Written.whenFalse {whenTrue whenFalse : Stmt Place}
    (h : (Stmt.branch condition whenTrue (some whenFalse)).Written c around) :
    whenFalse.Written c around := by
  obtain ⟨hcoherent, hshaped, hmistakes, -, hlink⟩ := h
  simp only [unlink, scopeMistakes, List.append_eq_nil_iff] at hmistakes
  simp only [unlink, Stmt.link, Stmt.branch.injEq, Option.some.injEq] at hlink
  exact ⟨hcoherent, hshaped.2.2.2, hmistakes.2.2, by simp [hshaped.2.2.1], hlink.2.2⟩

theorem Written.loop {body : Stmt Place} (h : (Stmt.loop condition body).Written c around) :
    body.Written c around := by
  obtain ⟨hcoherent, hshaped, hmistakes, -, hlink⟩ := h
  simp only [unlink, scopeMistakes, List.append_eq_nil_iff] at hmistakes
  simp only [unlink, Stmt.link, Stmt.loop.injEq] at hlink
  exact ⟨hcoherent, hshaped.2.2, hmistakes.2.2, by simp [hshaped.2.1], hlink.2⟩

/-- The body of a function is written in a scope that holds the parameters. -/
theorem RoutineWritten.body {scopes : Scopes} {name : Token} {params : List Token}
    {body : List (Stmt Place)} (h : RoutineWritten scopes around (.mk name params body)) :
    ∃ c : Surroundings, c.scopes = scopes.enterRoutine params ∧
      BodyWritten c (.declaring (params ++ declaredIn (unlinkBody body)) :: around) body := by
  obtain ⟨c, kind, rfl, hcoherent, hshaped, hmistakes, hlink⟩ := h
  obtain ⟨-, hmistakes⟩ := List.append_eq_nil_iff.mp hmistakes
  have hroutine : ShapedRoutine (.mk name params (unlinkBody body)) := hshaped
  refine ⟨c.inRoutine kind params, rfl,
    hcoherent.inRoutine kind (isPlain_routine hroutine) hroutine.1, hroutine.2, hmistakes,
    fun name hname => declaredAround_of_mem (List.mem_append_right _ hname), ?_⟩
  exact (Routine.mk.inj hlink).2.2

end Stmt

/-- The program of an accepted text is written at the top level. -/
theorem Accepted.written {text : String} {program : List (Stmt Place)}
    (h : Accepted text program) : Stmt.BodyWritten .topLevel [] program := by
  obtain ⟨statements, hprogram, hmistakes, rfl⟩ := h.exists_statements
  have hunlink : Stmt.unlinkBody (linkProgram statements) = statements :=
    Stmt.unlinkBody_linkBody [] statements
  refine ⟨.topLevel, ?_, ?_, ?_, ?_⟩
  · rw [hunlink]
    exact shaped_of_program hprogram
  · rw [hunlink]
    exact hmistakes
  · exact fun name _ scope hscope => absurd hscope (by simp)
  · rw [hunlink]
    rfl

end LoxInterpreter
