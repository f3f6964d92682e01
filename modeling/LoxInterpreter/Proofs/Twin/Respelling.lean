import Mathlib.Data.List.Nodup
import Mathlib.Data.List.Pairwise
import LoxInterpreter.Proofs.Scope.Fits
import LoxInterpreter.Proofs.Twin.Outcome

/-!
# Another name for a variable

A local variable or a parameter is given another name, at its declaration and wherever the links of
the program lead to it. `Stmt.respellBody` does so. It goes by the links and leaves them alone.

`Scopes.Respelled` relates the scopes around a place in the two programs. No name is captured, since
the new name is bound where the old one was and nowhere else (`Scopes.Respelled.place`). That takes
scopes in which nothing is declared twice: then nothing but the variable has its name
(`Stmt.solo_of_any`, `Stmt.solo_of_routine`).
-/

namespace LoxInterpreter

/-! ### Another name for a variable -/

/-- The token that declares a variable or a parameter, and another name for that. -/
structure Respelling where
  declaration : Token
  new : String

/-- The name that is replaced. -/
abbrev Respelling.old (R : Respelling) : String := R.declaration.lexeme

/-- The same token in another spelling. -/
def Token.respelled (t : Token) (y : String) : Token := { t with lexeme := y }

/-- Which of the scopes around a place declares the variable, innermost first. -/
abbrev Marks := List Bool

/-- The innermost scope declares the variable. The top level is no scope. -/
abbrev Marks.here (marks : Marks) : Bool := marks.headD false

/-- The marks around the methods of a class, whose own scopes declare nothing. -/
def Marks.aroundMethods {α : Type} (superclass : Option α) (marks : Marks) : Marks :=
  match superclass with
  | some _ => false :: false :: marks
  | none => false :: marks

/-- The place is in the frame of a scope that declares the variable. -/
def Place.marked (marks : Marks) : Place → Bool
  | .global => false
  | .outward distance => marks.getD distance false

/-- The token declares a variable by the statement. -/
def Stmt.declaresVariable {ρ : Type} (d : Token) : Stmt ρ → Bool
  | .declare name _ => name = d
  | _ => false

namespace Respelling

variable (R : Respelling) (marks : Marks)

/-- The new spelling of a token that declares a name in the innermost scope. -/
def token (t : Token) : Token :=
  if marks.here ∧ t = R.declaration then t.respelled R.new else t

/-- A reference to the variable gets the new name: it has the old one and leads to the scope. -/
def reference (r : Reference Place) : Reference Place :=
  if r.link.marked marks ∧ r.name = R.old then ⟨r.token.respelled R.new, r.link⟩ else r

end Respelling

namespace Expr

variable (R : Respelling) (marks : Marks)

mutual

/-- Give the variable its new name in an expression. -/
def respell : Expr Place → Expr Place
  | .literal value => .literal value
  | .grouping inner => .grouping inner.respell
  | .unary op operand => .unary op operand.respell
  | .binary left op right => .binary left.respell op right.respell
  | .logical left op right => .logical left.respell op right.respell
  | .reference target => .reference (R.reference marks target)
  | .assign target value => .assign (R.reference marks target) value.respell
  | .call callee paren values => .call callee.respell paren (respellAll values)
  | .property object name => .property object.respell name
  | .setProperty object name value => .setProperty object.respell name value.respell
  | .this receiver => .this receiver
  | .inherited superclass method => .inherited superclass method

/-- Give the variable its new name in several expressions. -/
def respellAll : List (Expr Place) → List (Expr Place)
  | [] => []
  | e :: rest => e.respell :: respellAll rest

end

end Expr

namespace Stmt

variable (R : Respelling)

mutual

/-- Give the variable its new name in a statement. -/
def respell (marks : Marks) : Stmt Place → Stmt Place
  | .malformed => .malformed
  | .expression value => .expression (value.respell R marks)
  | .print value => .print (value.respell R marks)
  | .declare name initial => .declare (R.token marks name) (initial.map (Expr.respell R marks))
  | .block body => .block (respellBody (body.any (declaresVariable R.declaration) :: marks) body)
  | .branch condition whenTrue none =>
    .branch (condition.respell R marks) (whenTrue.respell marks) none
  | .branch condition whenTrue (some whenFalse) =>
    .branch (condition.respell R marks) (whenTrue.respell marks) (some (whenFalse.respell marks))
  | .loop condition body => .loop (condition.respell R marks) (body.respell marks)
  | .function routine => .function (respellRoutine marks routine)
  | .giveBack keyword value => .giveBack keyword (value.map (Expr.respell R marks))
  | .klass name superclass methods =>
    .klass name (superclass.map (R.reference marks))
      (respellMethods (marks.aroundMethods superclass) methods)

/-- Give the variable its new name in consecutive statements. -/
def respellBody (marks : Marks) : List (Stmt Place) → List (Stmt Place)
  | [] => []
  | s :: rest => s.respell marks :: respellBody marks rest

/-- Give the variable its new name in a function or method. -/
def respellRoutine (marks : Marks) : Routine Place → Routine Place
  | .mk name params body =>
    let inside := (R.declaration ∈ params || body.any (declaresVariable R.declaration)) :: marks
    .mk name (params.map (R.token inside)) (respellBody inside body)

/-- Give the variable its new name in the methods of a class. -/
def respellMethods (marks : Marks) : List (Routine Place) → List (Routine Place)
  | [] => []
  | m :: rest => respellRoutine marks m :: respellMethods marks rest

end

end Stmt

/-- The program with another name for the variable or parameter. A variable of the top level, which
is no local, keeps its name. -/
def respellProgram (R : Respelling) (program : List (Stmt Place)) : List (Stmt Place) :=
  Stmt.respellBody R [] program

namespace Respelling

variable (R : Respelling)

/-- A token looks the same, or it has the new name in place of the old one. -/
def guise : Guise where
  of t t' := t' = t ∨ t.lexeme = R.old ∧ t' = t.respelled R.new
  kind := by
    rintro t t' (rfl | ⟨-, rfl⟩)
    · rfl
    · rfl

/-- What the names of a scope become. It is only ever asked of names that are not the new one. -/
def perm : Bool → Equiv.Perm String
  | true => Equiv.swap R.old R.new
  | false => .refl String

/-- The frames around a place in the two programs. -/
def layers (marks : Marks) : List Layer :=
  marks.map fun mark => .shared (R.perm mark)

variable {R} {x : String}

theorem perm_eq_ite (hx : x ≠ R.new) (mark : Bool) :
    R.perm mark x = if mark ∧ x = R.old then R.new else x := by
  cases mark with
  | false => rfl
  | true =>
    show Equiv.swap R.old R.new x = _
    rw [Equiv.swap_apply_def, if_neg hx]
    simp only [true_and]

/-- Two scopes never give one name to two. -/
theorem perm_inj {z : String} (hx : x ≠ R.new) (hz : z ≠ R.new) {mark mark' : Bool}
    (h : R.perm mark x = R.perm mark' z) : x = z := by
  rw [perm_eq_ite hx, perm_eq_ite hz] at h
  split at h <;> split at h
  · next hold hold' => exact hold.2.trans hold'.2.symm
  · exact absurd h.symm hz
  · exact absurd h hx
  · exact h

theorem perm_of_ne (hx : x ≠ R.new) {mark : Bool} (h : mark = true → x ≠ R.old) :
    R.perm mark x = x := by
  rw [perm_eq_ite hx, if_neg fun hold => h hold.1 hold.2]

theorem name_reference {marks : Marks} {r : Reference Place} (hr : r.name ≠ R.new) :
    (R.reference marks r).name = R.perm (r.link.marked marks) r.name := by
  rw [perm_eq_ite hr, reference]
  split <;> rfl

theorem link_reference (marks : Marks) (r : Reference Place) :
    (R.reference marks r).link = r.link := by
  rw [reference]
  split <;> rfl

theorem guise_reference (marks : Marks) (r : Reference Place) :
    R.guise.of r.token (R.reference marks r).token := by
  rw [reference]
  split
  · next h => exact .inr ⟨h.2, rfl⟩
  · exact .inl rfl

/-- What declares a name in the scope gets the name that the scope gives it, if nothing but the
declaration has the old name. -/
theorem lexeme_token {marks : Marks} {t : Token} (ht : t.lexeme ≠ R.new)
    (h : marks.here = true → t.lexeme = R.old → t = R.declaration) :
    (R.token marks t).lexeme = R.perm marks.here t.lexeme := by
  rw [perm_eq_ite ht, token]
  by_cases hmark : marks.here = true ∧ t.lexeme = R.old
  · rw [if_pos hmark, if_pos ⟨hmark.1, h hmark.1 hmark.2⟩]
    rfl
  · rw [if_neg hmark, if_neg fun hhere => hmark ⟨hhere.1, congrArg Token.lexeme hhere.2⟩]

theorem declares_layers (marks : Marks) (x : String) :
    Layer.Declares (R.layers marks) x (R.perm marks.here x) := by
  cases marks <;> rfl

end Respelling

/-! ### Scopes with another name in them -/

/-- The second scopes are the first ones with the new name for the old one where the scope is
marked. The new name is not in the first scopes, and no keyword is declared in a marked one. -/
inductive Scopes.Respelled (R : Respelling) : Marks → Scopes → Scopes → Prop where
  | topLevel : Respelled R [] [] []
  | scope {marks : Marks} {scopes scopes' : Scopes} {mark : Bool} {scope : Scope} :
      (mark = true → R.declaration.IsName) → R.new ∉ scope → Respelled R marks scopes scopes' →
      Respelled R (mark :: marks) (scope :: scopes) (scope.map (R.perm mark) :: scopes')

namespace Scopes.Respelled

variable {R : Respelling} {marks : Marks} {scopes scopes' : Scopes} {x : String}

/-- A renamed scope binds what it bound, and nothing else that has been renamed. -/
theorem mem_map_perm_iff {scope : Scope} (hscope : R.new ∉ scope) (hx : x ≠ R.new)
    (mark mark' : Bool) : R.perm mark' x ∈ scope.map (R.perm mark) ↔
      x ∈ scope ∧ R.perm mark' x = R.perm mark x := by
  rw [List.mem_map]
  constructor
  · rintro ⟨z, hz, heq⟩
    obtain rfl := Respelling.perm_inj (fun h => hscope (h ▸ hz)) hx heq
    exact ⟨hz, heq.symm⟩
  · rintro ⟨hmem, heq⟩
    exact ⟨x, hmem, heq.symm⟩

/-- **No capture.** A name and what it becomes are bound in twin frames, at the same distance. -/
theorem place (h : Respelled R marks scopes scopes') (hx : x ≠ R.new) :
    scopes'.placeOf (R.perm ((scopes.placeOf x).marked marks) x) = scopes.placeOf x ∧
      (scopes.placeOf x).Twins (R.layers marks) x
        (R.perm ((scopes.placeOf x).marked marks) x) (scopes.placeOf x) := by
  induction h with
  | topLevel => exact ⟨rfl, .global rfl⟩
  | @scope marks scopes scopes' mark scope _ hscope _ ih =>
    have hfurther (place : Place) : place.further.marked (mark :: marks) = place.marked marks := by
      cases place <;> rfl
    by_cases hmem : x ∈ scope
    · rw [placeOf_cons_of_mem hmem]
      exact ⟨placeOf_cons_of_mem (List.mem_map_of_mem hmem), .outward .here rfl⟩
    · rw [placeOf_cons_eq_further hmem, hfurther, placeOf_cons_eq_further, ih.1]
      · exact ⟨rfl, ih.2.further _⟩
      · rw [mem_map_perm_iff hscope hx]
        exact fun hbound => hmem hbound.1

/-- The declaration in a marked scope is no keyword. -/
theorem isName_of_marked (h : Respelled R marks scopes scopes') {place : Place}
    (hplace : place.marked marks = true) : R.declaration.IsName := by
  obtain ⟨d, rfl⟩ : ∃ d, place = .outward d := by
    cases place with
    | global => cases hplace
    | outward d => exact ⟨d, rfl⟩
  induction h generalizing d with
  | topLevel => cases hplace
  | scope hmark _ _ ih =>
    cases d with
    | zero => exact hmark hplace
    | succ d => exact ih d hplace

/-- Keywords are bound where they were. -/
theorem place_keyword (h : Respelled R marks scopes scopes') {word : String} (hword : word ≠ R.new)
    (hname : R.declaration.IsName → R.old ≠ word) : scopes'.placeOf word = scopes.placeOf word ∧
      (scopes.placeOf word).Twins (R.layers marks) word word (scopes.placeOf word) := by
  have hsame : R.perm ((scopes.placeOf word).marked marks) word = word :=
    Respelling.perm_of_ne hword fun hmarked => (hname (h.isName_of_marked hmarked)).symm
  have hplace := h.place hword
  rwa [hsame] at hplace

/-- Each frame has a twin at the same distance, and the names of keywords in it are the same. -/
theorem exists_reaches (h : Respelled R marks scopes scopes') (hthis : R.new ≠ "this")
    (hsuper : R.new ≠ "super") {d : Nat} (hd : d < scopes.length) :
    ∃ σ, Layer.Reaches (R.layers marks) d d σ ∧ σ "this" = "this" ∧ σ "super" = "super" := by
  induction h generalizing d with
  | topLevel => cases hd
  | @scope marks scopes scopes' mark scope hmark _ _ ih =>
    cases d with
    | zero =>
      exact ⟨R.perm mark, .here,
        Respelling.perm_of_ne hthis.symm fun hmarked => (hmark hmarked).1.symm,
        Respelling.perm_of_ne hsuper.symm fun hmarked => (hmark hmarked).2.symm⟩
    | succ d =>
      obtain ⟨σ, hreaches, hkeywords⟩ := ih (Nat.lt_of_succ_lt_succ hd)
      exact ⟨σ, hreaches.outward, hkeywords⟩

/-- A method of the superclass is looked for through twin frames. -/
theorem superTwins (h : Respelled R marks scopes scopes') (hthis : R.new ≠ "this")
    (hsuper : R.new ≠ "super") (x : String) :
    (scopes.placeOf x).SuperTwins (R.layers marks) (scopes.placeOf x) := by
  cases hplace : scopes.placeOf x with
  | global => exact .global
  | outward d =>
    obtain ⟨hd, -⟩ := (placeOf_eq_outward_iff _ _ _).mp hplace
    obtain ⟨σ, hreaches, -, hfixed⟩ := h.exists_reaches hthis hsuper hd
    obtain ⟨τ, hinner, hfixed', -⟩ :=
      h.exists_reaches hthis hsuper (Nat.lt_of_le_of_lt (Nat.sub_le d 1) hd)
    exact .outward hreaches hfixed hinner hfixed'

/-- A declaration, and what it becomes. -/
theorem bind (h : Respelled R marks scopes scopes') (hx : x ≠ R.new) :
    Respelled R marks (scopes.bind x) (scopes'.bind (R.perm marks.here x)) := by
  cases h with
  | topLevel => exact .topLevel
  | scope hmark hscope houter =>
    exact .scope hmark (List.not_mem_cons_of_ne_of_not_mem hx.symm hscope) houter

theorem enterClass (h : Respelled R marks scopes scopes') (hthis : R.new ≠ "this")
    (hsuper : R.new ≠ "super") (superclass : Option (Reference Blank)) :
    Respelled R (marks.aroundMethods superclass) (scopes.enterClass superclass)
      (scopes'.enterClass superclass) := by
  have hinner {word : String} (hword : R.new ≠ word) {marks : Marks} {scopes scopes' : Scopes}
      (h : Respelled R marks scopes scopes') :
      Respelled R (false :: marks) ([word] :: scopes) ([word] :: scopes') :=
    .scope nofun (mt List.mem_singleton.mp hword) h
  cases superclass with
  | none => exact hinner hthis h
  | some _ => exact hinner hthis (hinner hsuper h)

end Scopes.Respelled

/-! ### One declaration of the name -/

namespace Stmt

/-- If the innermost scope declares the variable, then no statement declares another thing of its
name there. -/
def Solo (d : Token) (marks : Marks) (s : Stmt Blank) : Prop :=
  marks.here = true → ∀ name ∈ s.declared?, name.lexeme = d.lexeme → s.declaresVariable d = true

theorem solo_of_none {d : Token} {marks : Marks} {s : Stmt Blank} (h : s.declared? = none) :
    s.Solo d marks := by
  intro _ name hname
  rw [h] at hname
  cases hname

theorem declared?_of_declaresVariable {d : Token} {s : Stmt Blank}
    (h : s.declaresVariable d = true) : s.declared? = some d := by
  cases s with
  | declare name initial => rw [declared?, of_decide_eq_true h]
  | _ => cases h

theorem exists_declaresVariable {d : Token} {body : List (Stmt Blank)}
    (h : body.any (declaresVariable d) = true) :
    d ∈ declaredIn body ∧ ∃ s ∈ body, s.declaresVariable d = true := by
  obtain ⟨s, hs, hd⟩ := List.any_eq_true.mp h
  exact ⟨List.mem_filterMap.mpr ⟨s, hs, declared?_of_declaresVariable hd⟩, s, hs, hd⟩

/-- A body without mistakes declares nothing twice, and nothing that the scope holds already. -/
theorem nodup_of_scopeMistakesBody {body : List (Stmt Blank)} {c : Surroundings} {scope : Scope}
    {outer : Scopes} (hc : c.scopes = scope :: outer) (h : scopeMistakesBody c body = []) :
    (∀ name ∈ declaredIn body, name.lexeme ∉ scope) ∧
      ((declaredIn body).map Token.lexeme).Nodup := by
  induction body generalizing c scope with
  | nil => exact ⟨List.forall_mem_nil _, .nil⟩
  | cons s rest ih =>
    rw [scopeMistakesBody, List.append_eq_nil_iff, List.append_eq_nil_iff] at h
    obtain ⟨⟨hredeclaration, -⟩, hrest⟩ := h
    rw [declaredIn_cons]
    cases hs : s.declared? with
    | none =>
      have henter : (c.enter s).scopes = scope :: outer := by
        rw [Surroundings.enter, Scopes.enter, hs, hc]
      exact ih henter hrest
    | some name =>
      have henter : (c.enter s).scopes = (name.lexeme :: scope) :: outer := by
        rw [Surroundings.enter, Scopes.enter, hs, hc]
        rfl
      have hname : name.lexeme ∉ scope := by
        intro hmem
        rw [Surroundings.redeclaration, hs, hc] at hredeclaration
        simp only [if_pos hmem, reduceCtorEq] at hredeclaration
      obtain ⟨hnew, hnodup⟩ := ih henter hrest
      refine ⟨List.forall_mem_cons.mpr ⟨hname, fun other hother => ?_⟩,
        List.nodup_cons.mpr ⟨?_, hnodup⟩⟩
      · exact fun hmem => hnew other hother (List.mem_cons_of_mem _ hmem)
      · intro hmem
        obtain ⟨other, hother, hsame⟩ := List.mem_map.mp hmem
        exact hnew other hother (hsame ▸ List.mem_cons_self)

/-- Two statements of a body do not declare the same name. -/
theorem eq_of_lexeme_eq {body : List (Stmt Blank)}
    (hnodup : ((declaredIn body).map Token.lexeme).Nodup) {s s' : Stmt Blank} (hs : s ∈ body)
    (hs' : s' ∈ body) {name name' : Token} (hname : s.declared? = some name)
    (hname' : s'.declared? = some name') (heq : name.lexeme = name'.lexeme) : s = s' := by
  have hpairwise := List.pairwise_filterMap.mp (List.pairwise_map.mp hnodup)
  have hsymm : Std.Symm fun s s' : Stmt Blank => ∀ name, s.declared? = some name →
      ∀ name', s'.declared? = some name' → name.lexeme ≠ name'.lexeme :=
    ⟨fun _ _ h name hname name' hname' => (h name' hname' name hname).symm⟩
  by_contra hne
  exact hpairwise.forall hs hs' hne name hname name' hname' heq

/-- In a body without mistakes nothing else has the name of the variable. -/
theorem solo_of_any {d : Token} {body : List (Stmt Blank)}
    (hnodup : ((declaredIn body).map Token.lexeme).Nodup)
    (hany : body.any (declaresVariable d) = true) :
    ∀ s ∈ body, ∀ name ∈ s.declared?, name.lexeme = d.lexeme → s.declaresVariable d = true := by
  intro s hs name hname heq
  obtain ⟨-, s', hs', hd⟩ := exists_declaresVariable hany
  obtain rfl := eq_of_lexeme_eq hnodup hs hs' hname (declared?_of_declaresVariable hd) heq
  exact hd

end Stmt

/-- Parameters make no mistake exactly if they are named differently, and not as before. -/
theorem repeatedParams_eq_nil_iff {earlier : List String} {params : List Token} :
    repeatedParams earlier params = [] ↔
      (∀ param ∈ params, param.lexeme ∉ earlier) ∧ (params.map Token.lexeme).Nodup := by
  induction params generalizing earlier with
  | nil => simp [repeatedParams]
  | cons param rest ih =>
    rw [repeatedParams, List.append_eq_nil_iff, ih, List.forall_mem_cons, List.map_cons,
      List.nodup_cons]
    have hhead : (if param.lexeme ∈ earlier then [(⟨param, .alreadyDeclared⟩ : ScopeMistake)]
        else []) = [] ↔ param.lexeme ∉ earlier := by
      split <;> simp [*]
    have hrest : (∀ other ∈ rest, other.lexeme ∉ param.lexeme :: earlier) ↔
        (∀ other ∈ rest, other.lexeme ∉ earlier) ∧ param.lexeme ∉ rest.map Token.lexeme := by
      simp only [List.mem_cons, not_or, List.mem_map, not_exists, not_and]
      exact ⟨fun h => ⟨fun t ht => (h t ht).2, fun t ht => (h t ht).1⟩,
        fun h t ht => ⟨h.2 t ht, h.1 t ht⟩⟩
    rw [hhead, hrest]
    tauto

/-- In a routine without mistakes nothing else has the name of the variable, neither a parameter nor
what the body declares. -/
theorem Stmt.solo_of_routine {d : Token} {params : List Token} {body : List (Stmt Blank)}
    {c : Surroundings} {kind : Enclosing} (hparams : repeatedParams [] params = [])
    (hbody : scopeMistakesBody (c.inRoutine kind params) body = [])
    (hmark : (d ∈ params || body.any (declaresVariable d)) = true) :
    (∀ param ∈ params, param.lexeme = d.lexeme → param = d) ∧
      ∀ s ∈ body, ∀ name ∈ s.declared?, name.lexeme = d.lexeme → s.declaresVariable d = true := by
  obtain ⟨-, hnodup⟩ := repeatedParams_eq_nil_iff.mp hparams
  obtain ⟨hnew, hnodup'⟩ := nodup_of_scopeMistakesBody rfl hbody
  have hapart : ∀ name ∈ declaredIn body, ∀ param ∈ params, param.lexeme ≠ name.lexeme := by
    intro name hname param hparam heq
    exact hnew name hname (List.mem_map.mpr ⟨param, List.mem_reverse.mpr hparam, heq⟩)
  rcases Bool.or_eq_true_iff.mp hmark with hd | hany
  · have hd := of_decide_eq_true hd
    refine ⟨fun param hparam heq => List.inj_on_of_nodup_map hnodup hparam hd heq, ?_⟩
    intro s hs name hname heq
    exact absurd heq.symm (hapart name (List.mem_filterMap.mpr ⟨s, hs, hname⟩) d hd)
  · obtain ⟨hd, -⟩ := exists_declaresVariable hany
    exact ⟨fun param hparam heq => absurd heq (hapart d hd param hparam),
      solo_of_any hnodup' hany⟩

end LoxInterpreter
