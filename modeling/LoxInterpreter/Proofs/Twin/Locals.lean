import LoxInterpreter.Proofs.Accepted
import LoxInterpreter.Proofs.Grammar.Tokens
import LoxInterpreter.Proofs.Twin.Respelling

/-!
# Names of locals do not matter

A local variable or a parameter may get any name that occurs nowhere else. Scope analysis finds no
mistake in the new program and the same links again, and the linked programs are twins: their frames
bind the same values, to other names in the frame of the variable. So a run of the new program takes
the course of the old one (`outcome_respelled`).

The three facts are proved together (`Stmt.Respells`), one case for each construct.
-/

namespace LoxInterpreter

/-! ### Expressions -/

namespace Expr

/-- What giving the variable its new name does to an expression: the linked trees are twins, scope
analysis finds the same links again, and no mistake. -/
structure Respells (R : Respelling) (marks : Marks) (scopes scopes' : Scopes) (kind : ClassKind)
    (own' : Option String) (e : Expr Blank) : Prop where
  twins : (e.link scopes).Twins R.guise (R.layers marks) ((e.link scopes).respell R marks)
  link : ((e.link scopes).respell R marks).unlink.link scopes' = (e.link scopes).respell R marks
  mistakes : ((e.link scopes).respell R marks).unlink.scopeMistakes kind own' = []

/-- The same for several expressions. -/
structure AllRespell (R : Respelling) (marks : Marks) (scopes scopes' : Scopes) (kind : ClassKind)
    (own' : Option String) (es : List (Expr Blank)) : Prop where
  twins : List.Forall₂ (Twins R.guise (R.layers marks)) (linkAll scopes es)
    (respellAll R marks (linkAll scopes es))
  link : linkAll scopes' (unlinkAll (respellAll R marks (linkAll scopes es))) =
    respellAll R marks (linkAll scopes es)
  mistakes : scopeMistakesAll kind own' (unlinkAll (respellAll R marks (linkAll scopes es))) = []

/-- What surrounds an expression in the two programs. The variable in whose initializer it stands
may be the one with the new name. -/
structure Respelled (R : Respelling) (marks : Marks) (scopes scopes' : Scopes)
    (own own' : Option String) : Prop where
  scopes : Scopes.Respelled R marks scopes scopes'
  new_ne_this : R.new ≠ "this"
  new_ne_super : R.new ≠ "super"
  own_eq : own' = own.map (R.perm marks.here)
  own_ne : ∀ x ∈ own, x ≠ R.new

variable {R : Respelling} {marks : Marks} {scopes scopes' : Scopes} {kind : ClassKind}
  {own own' : Option String}

/-- A reference, and what it becomes. -/
theorem twins_reference (h : Scopes.Respelled R marks scopes scopes') {r : Reference Blank}
    (hr : r.name ≠ R.new) :
    (r.linkIn scopes).Twins R.guise (R.layers marks) (R.reference marks (r.linkIn scopes)) := by
  refine ⟨Respelling.guise_reference marks _, ?_⟩
  rw [Respelling.link_reference, Respelling.name_reference hr]
  exact (h.place hr).2

/-- Scope analysis finds the link of the reference again. -/
theorem linkIn_unlink_reference (h : Scopes.Respelled R marks scopes scopes') {r : Reference Blank}
    (hr : r.name ≠ R.new) : (R.reference marks (r.linkIn scopes)).unlink.linkIn scopes' =
      R.reference marks (r.linkIn scopes) := by
  have hplace : scopes'.placeOf (R.reference marks (r.linkIn scopes)).name =
      (R.reference marks (r.linkIn scopes)).link := by
    rw [Respelling.link_reference, Respelling.name_reference hr]
    exact (h.place hr).1
  rw [Reference.linkIn]
  exact congrArg (Reference.mk _) hplace

mutual

theorem respells (h : Respelled R marks scopes scopes' own own') (e : Expr Blank)
    (hshape : e.Shaped) (hnames : e.EachToken (·.lexeme ≠ R.new))
    (hmistakes : e.scopeMistakes kind own = []) :
    e.Respells R marks scopes scopes' kind own' := by
  cases e with
  | literal value => exact ⟨.literal value, rfl, rfl⟩
  | grouping inner =>
    have hinner := respells h inner hshape hnames hmistakes
    exact ⟨.grouping hinner.twins, congrArg Expr.grouping hinner.link, hinner.mistakes⟩
  | unary op operand =>
    have hoperand := respells h operand hshape.2 hnames.2 hmistakes
    exact ⟨.unary (.inl rfl) hoperand.twins, congrArg (Expr.unary op) hoperand.link,
      hoperand.mistakes⟩
  | binary left op right =>
    obtain ⟨hnil, hnil'⟩ := List.append_eq_nil_iff.mp hmistakes
    have hleft := respells h left hshape.2.1 hnames.1 hnil
    have hright := respells h right hshape.2.2 hnames.2.2 hnil'
    exact ⟨.binary hleft.twins (.inl rfl) hright.twins,
      congrArg₂ (Expr.binary · op ·) hleft.link hright.link,
      List.append_eq_nil_iff.mpr ⟨hleft.mistakes, hright.mistakes⟩⟩
  | logical left op right =>
    obtain ⟨hnil, hnil'⟩ := List.append_eq_nil_iff.mp hmistakes
    have hleft := respells h left hshape.1 hnames.1 hnil
    have hright := respells h right hshape.2 hnames.2.2 hnil'
    exact ⟨.logical hleft.twins (.inl rfl) hright.twins,
      congrArg₂ (Expr.logical · op ·) hleft.link hright.link,
      List.append_eq_nil_iff.mpr ⟨hleft.mistakes, hright.mistakes⟩⟩
  | reference target =>
    refine ⟨.reference (twins_reference h.scopes hnames),
      congrArg Expr.reference (linkIn_unlink_reference h.scopes hnames), if_neg fun hown => ?_⟩
    -- a variable that reads itself now did so before
    rw [h.own_eq] at hown
    obtain ⟨x, rfl, hx⟩ := Option.map_eq_some_iff.mp hown
    have hname : R.perm marks.here x = R.perm _ target.name :=
      hx.trans (Respelling.name_reference hnames)
    obtain rfl := Respelling.perm_inj (h.own_ne x rfl) hnames hname
    rw [scopeMistakes, if_pos rfl] at hmistakes
    cases hmistakes
  | assign target value =>
    have hvalue := respells h value hshape.2 hnames.2 hmistakes
    exact ⟨.assign (twins_reference h.scopes hnames.1) hvalue.twins,
      congrArg₂ Expr.assign (linkIn_unlink_reference h.scopes hnames.1) hvalue.link,
      hvalue.mistakes⟩
  | call callee paren values =>
    obtain ⟨hnil, hnil'⟩ := List.append_eq_nil_iff.mp hmistakes
    have hcallee := respells h callee hshape.1 hnames.1 hnil
    have hvalues := allRespell h values hshape.2 hnames.2.2 hnil'
    exact ⟨.call hcallee.twins (.inl rfl) hvalues.twins,
      congrArg₂ (Expr.call · paren ·) hcallee.link hvalues.link,
      List.append_eq_nil_iff.mpr ⟨hcallee.mistakes, hvalues.mistakes⟩⟩
  | property object name =>
    have hobject := respells h object hshape hnames.1 hmistakes
    exact ⟨.property hobject.twins ⟨.inl rfl, rfl⟩, congrArg (Expr.property · name) hobject.link,
      hobject.mistakes⟩
  | setProperty object name value =>
    obtain ⟨hnil, hnil'⟩ := List.append_eq_nil_iff.mp hmistakes
    have hobject := respells h object hshape.1 hnames.1 hnil'
    have hvalue := respells h value hshape.2 hnames.2.2 hnil
    exact ⟨.setProperty hobject.twins ⟨.inl rfl, rfl⟩ hvalue.twins,
      congrArg₂ (Expr.setProperty · name ·) hobject.link hvalue.link,
      List.append_eq_nil_iff.mpr ⟨hvalue.mistakes, hobject.mistakes⟩⟩
  | this receiver =>
    have hname : receiver.name = "this" := hshape
    have hplace := h.scopes.place_keyword (hname ▸ h.new_ne_this.symm) fun hd => hname ▸ hd.1
    exact ⟨.this ⟨.inl rfl, hplace.2⟩,
      congrArg (fun place => Expr.this ⟨receiver.token, place⟩) hplace.1, hmistakes⟩
  | inherited superclass method =>
    have hname : superclass.name = "super" := hshape
    have hplace := h.scopes.place_keyword (hname ▸ h.new_ne_super.symm) fun hd => hname ▸ hd.2
    exact ⟨.inherited (h.scopes.superTwins h.new_ne_this h.new_ne_super _) ⟨.inl rfl, rfl⟩,
      congrArg (fun place => Expr.inherited ⟨superclass.token, place⟩ method) hplace.1, hmistakes⟩

theorem allRespell (h : Respelled R marks scopes scopes' own own') (es : List (Expr Blank))
    (hshape : ShapedAll es) (hnames : EachTokenAll (·.lexeme ≠ R.new) es)
    (hmistakes : scopeMistakesAll kind own es = []) :
    AllRespell R marks scopes scopes' kind own' es := by
  cases es with
  | nil => exact ⟨.nil, rfl, rfl⟩
  | cons e rest =>
    obtain ⟨hnil, hnil'⟩ := List.append_eq_nil_iff.mp hmistakes
    have hfirst := respells h e hshape.1 hnames.1 hnil
    have hrest := allRespell h rest hshape.2 hnames.2 hnil'
    exact ⟨.cons hfirst.twins hrest.twins, congrArg₂ List.cons hfirst.link hrest.link,
      List.append_eq_nil_iff.mpr ⟨hfirst.mistakes, hrest.mistakes⟩⟩

end

end Expr

/-! ### Statements -/

/-- The surroundings differ in the name of the variable alone. -/
structure Surroundings.Respelled (R : Respelling) (marks : Marks) (c c' : Surroundings) : Prop where
  scopes : Scopes.Respelled R marks c.scopes c'.scopes
  routine : c'.routine = c.routine
  classKind : c'.classKind = c.classKind
  new_ne_this : R.new ≠ "this"
  new_ne_super : R.new ≠ "super"

/-- What is declared there other than the variable keeps its name. -/
theorem Stmt.Solo.perm_eq {R : Respelling} {marks : Marks} {s : Stmt Blank}
    (h : s.Solo R.declaration marks) (hvariable : s.declaresVariable R.declaration = false)
    {name : Token} (hname : s.declared? = some name) (hne : name.lexeme ≠ R.new) :
    R.perm marks.here name.lexeme = name.lexeme := by
  refine Respelling.perm_of_ne hne fun hhere heq => ?_
  rw [h hhere name hname heq] at hvariable
  cases hvariable

theorem Stmt.Solo.declares {R : Respelling} {marks : Marks} {s : Stmt Blank}
    (h : s.Solo R.declaration marks) (hvariable : s.declaresVariable R.declaration = false)
    {name : Token} (hname : s.declared? = some name) (hne : name.lexeme ≠ R.new) :
    Layer.Declares (R.layers marks) name.lexeme name.lexeme := by
  have hdeclares := Respelling.declares_layers (R := R) marks name.lexeme
  rwa [h.perm_eq hvariable hname hne] at hdeclares

/-- The name that a statement declares becomes what its scope makes of it. -/
theorem Stmt.map_lexeme_declared? {R : Respelling} {marks : Marks} (scopes : Scopes)
    {s : Stmt Blank} (hsolo : s.Solo R.declaration marks)
    (hnames : ∀ name ∈ s.declared?, name.lexeme ≠ R.new) :
    ((s.link scopes).respell R marks).unlink.declared?.map Token.lexeme =
      s.declared?.map fun name => R.perm marks.here name.lexeme := by
  match s with
  | .declare name initial =>
    refine congrArg some (Respelling.lexeme_token (hnames name rfl) fun hhere heq => ?_)
    exact of_decide_eq_true (hsolo hhere name rfl heq)
  | .function (.mk name params body) =>
    exact congrArg some (hsolo.perm_eq rfl rfl (hnames name rfl)).symm
  | .klass name superclass methods =>
    exact congrArg some (hsolo.perm_eq rfl rfl (hnames name rfl)).symm
  | .malformed | .expression _ | .print _ | .block _ | .branch _ _ none | .branch _ _ (some _)
  | .loop _ _ | .giveBack _ _ => rfl

namespace Surroundings.Respelled

variable {R : Respelling} {marks : Marks} {c c' : Surroundings} {s : Stmt Blank}

theorem inBlock (h : c.Respelled R marks c') {mark : Bool}
    (hmark : mark = true → R.declaration.IsName) :
    c.inBlock.Respelled R (mark :: marks) c'.inBlock :=
  ⟨.scope hmark List.not_mem_nil h.scopes, h.routine, h.classKind, h.new_ne_this, h.new_ne_super⟩

theorem inRoutine (h : c.Respelled R marks c') (kind : Enclosing) {mark : Bool}
    (hmark : mark = true → R.declaration.IsName) {params params' : List Token}
    (hnames : ∀ param ∈ params, param.lexeme ≠ R.new)
    (hparams : params'.map Token.lexeme = (params.map Token.lexeme).map (R.perm mark)) :
    (c.inRoutine kind params).Respelled R (mark :: marks) (c'.inRoutine kind params') := by
  have hfresh : R.new ∉ params.reverse.map Token.lexeme := by
    intro hmem
    obtain ⟨param, hparam, hname⟩ := List.mem_map.mp hmem
    exact hnames param (List.mem_reverse.mp hparam) hname
  have hscope : c'.scopes.enterRoutine params' =
      (params.reverse.map Token.lexeme).map (R.perm mark) :: c'.scopes := by
    rw [Scopes.enterRoutine, List.map_reverse, hparams, List.map_reverse, List.map_reverse]
  refine ⟨?_, rfl, h.classKind, h.new_ne_this, h.new_ne_super⟩
  show Scopes.Respelled R (mark :: marks) _ (c'.scopes.enterRoutine params')
  rw [hscope]
  exact .scope hmark hfresh h.scopes

theorem inClass (h : c.Respelled R marks c') (superclass : Option (Reference Blank)) :
    (c.inClass superclass).Respelled R (marks.aroundMethods superclass) (c'.inClass superclass) :=
  ⟨h.scopes.enterClass h.new_ne_this h.new_ne_super superclass, h.routine, rfl, h.new_ne_this,
    h.new_ne_super⟩

/-- After a statement, and at it. -/
theorem enter (h : c.Respelled R marks c') (hsolo : s.Solo R.declaration marks)
    (hnames : ∀ name ∈ s.declared?, name.lexeme ≠ R.new) : (c.enter s).Respelled R marks
      (c'.enter ((s.link (c.scopes.enter s)).respell R marks).unlink) := by
  refine ⟨?_, h.routine, h.classKind, h.new_ne_this, h.new_ne_super⟩
  have hdeclared := Stmt.map_lexeme_declared? (c.scopes.enter s) hsolo hnames
  generalize ((s.link (c.scopes.enter s)).respell R marks).unlink = s' at hdeclared ⊢
  rw [Surroundings.enter, Surroundings.enter, Scopes.enter, Scopes.enter]
  cases hs : s.declared? with
  | none =>
    rw [hs] at hdeclared
    rw [Option.map_eq_none_iff.mp hdeclared]
    exact h.scopes
  | some name =>
    rw [hs] at hdeclared
    obtain ⟨name', hname', hlexeme⟩ := Option.map_eq_some_iff.mp hdeclared
    rw [hname']
    dsimp only
    rw [hlexeme]
    exact h.scopes.bind (hnames name hs)

/-- What is declared once stays so. -/
theorem redeclaration_eq_nil (h : c.Respelled R marks c') (hsolo : s.Solo R.declaration marks)
    (hnames : ∀ name ∈ s.declared?, name.lexeme ≠ R.new) (hnil : c.redeclaration s = []) :
    c'.redeclaration ((s.link (c.scopes.enter s)).respell R marks).unlink = [] := by
  have hdeclared := Stmt.map_lexeme_declared? (c.scopes.enter s) hsolo hnames
  generalize ((s.link (c.scopes.enter s)).respell R marks).unlink = s' at hdeclared ⊢
  obtain ⟨scopes, _, _⟩ := c
  obtain ⟨scopes', _, _⟩ := c'
  rw [redeclaration] at hnil ⊢
  cases hs : s.declared? with
  | none =>
    rw [hs] at hdeclared
    rw [Option.map_eq_none_iff.mp hdeclared]
  | some name =>
    rw [hs] at hdeclared hnil
    obtain ⟨name', hname', hlexeme⟩ := Option.map_eq_some_iff.mp hdeclared
    rw [hname']
    cases h.scopes with
    | topLevel => rfl
    | @scope marks _ _ mark scope _ hscope _ =>
      refine if_neg fun hmem => ?_
      rw [hlexeme, Scopes.Respelled.mem_map_perm_iff hscope (hnames name hs)] at hmem
      dsimp only at hnil
      rw [if_pos hmem.1] at hnil
      cases hnil

theorem sees (h : c.Respelled R marks c') : Expr.Respelled R marks c.scopes c'.scopes none none :=
  ⟨h.scopes, h.new_ne_this, h.new_ne_super, rfl, nofun⟩

theorem sees_initializing (h : c.Respelled R marks c') {name name' : Token}
    (hname : name.lexeme ≠ R.new) (hlexeme : name'.lexeme = R.perm marks.here name.lexeme) :
    Expr.Respelled R marks c.scopes c'.scopes (c.initializing name) (c'.initializing name') := by
  have hown : c'.initializing name' = (c.initializing name).map (R.perm marks.here) ∧
      ∀ x ∈ c.initializing name, x ≠ R.new := by
    rw [initializing, initializing, hlexeme]
    obtain ⟨scopes, _, _⟩ := c
    obtain ⟨scopes', _, _⟩ := c'
    cases h.scopes with
    | topLevel => exact ⟨rfl, nofun⟩
    | scope =>
      refine ⟨rfl, ?_⟩
      rintro x ⟨⟩
      exact hname
  exact ⟨h.scopes, h.new_ne_this, h.new_ne_super, hown.1, hown.2⟩

/-- An expression outside initializers. -/
theorem expression (h : c.Respelled R marks c') (e : Expr Blank) (hshape : e.Shaped)
    (hnames : e.EachToken (·.lexeme ≠ R.new)) (hmistakes : e.scopeMistakes c.classKind none = []) :
    e.Respells R marks c.scopes c'.scopes c'.classKind none := by
  rw [h.classKind]
  exact Expr.respells h.sees e hshape hnames hmistakes

end Surroundings.Respelled

namespace Stmt

/-- What giving the variable its new name does to a statement: the linked trees are twins, scope
analysis finds the same links again, and no mistake. -/
structure Respells (R : Respelling) (marks : Marks) (c c' : Surroundings) (s : Stmt Blank) :
    Prop where
  twins : (s.link c.scopes).Twins R.guise (R.layers marks) ((s.link c.scopes).respell R marks)
  link : ((s.link c.scopes).respell R marks).unlink.link c'.scopes =
    (s.link c.scopes).respell R marks
  mistakes : ((s.link c.scopes).respell R marks).unlink.scopeMistakes c' = []

/-- The same for consecutive statements. -/
structure BodyRespells (R : Respelling) (marks : Marks) (c c' : Surroundings)
    (body : List (Stmt Blank)) : Prop where
  twins : BodyTwins R.guise (R.layers marks) (linkBody c.scopes body)
    (respellBody R marks (linkBody c.scopes body))
  link : linkBody c'.scopes (unlinkBody (respellBody R marks (linkBody c.scopes body))) =
    respellBody R marks (linkBody c.scopes body)
  mistakes : scopeMistakesBody c' (unlinkBody (respellBody R marks (linkBody c.scopes body))) = []

/-- The same for a function or method. -/
structure RoutineRespells (R : Respelling) (marks : Marks) (c c' : Surroundings) (kind : Enclosing)
    (routine : Routine Blank) : Prop where
  twins : RoutineTwins R.guise (R.layers marks) (linkRoutine c.scopes routine)
    (respellRoutine R marks (linkRoutine c.scopes routine))
  link : linkRoutine c'.scopes (unlinkRoutine (respellRoutine R marks
      (linkRoutine c.scopes routine))) = respellRoutine R marks (linkRoutine c.scopes routine)
  mistakes : scopeMistakesRoutine c' kind (unlinkRoutine (respellRoutine R marks
    (linkRoutine c.scopes routine))) = []

/-- The same for the methods of a class. -/
structure MethodsRespell (R : Respelling) (marks : Marks) (c c' : Surroundings)
    (methods : List (Routine Blank)) : Prop where
  twins : MethodsTwins R.guise (R.layers marks) (linkMethods c.scopes methods)
    (respellMethods R marks (linkMethods c.scopes methods))
  link : linkMethods c'.scopes (unlinkMethods (respellMethods R marks
      (linkMethods c.scopes methods))) = respellMethods R marks (linkMethods c.scopes methods)
  mistakes : scopeMistakesMethods c' (unlinkMethods (respellMethods R marks
    (linkMethods c.scopes methods))) = []

/-- A statement declares its name once and makes no mistake. -/
theorem Respells.append_eq_nil {R : Respelling} {marks : Marks} {c c' : Surroundings}
    {s : Stmt Blank}
    (hs : s.Respells R marks (c.enter s)
      (c'.enter ((s.link (c.scopes.enter s)).respell R marks).unlink))
    (h : c.Respelled R marks c') (hsolo : s.Solo R.declaration marks)
    (hnames : s.EachToken (·.lexeme ≠ R.new)) (hnil : c.redeclaration s = []) :
    c'.redeclaration ((s.link (c.scopes.enter s)).respell R marks).unlink ++
      ((s.link (c.scopes.enter s)).respell R marks).unlink.scopeMistakes
        (c'.enter ((s.link (c.scopes.enter s)).respell R marks).unlink) = [] :=
  List.append_eq_nil_iff.mpr ⟨h.redeclaration_eq_nil hsolo hnames.declared hnil, hs.mistakes⟩

/-- Links do not change what is declared. -/
theorem any_declaresVariable_linkBody (d : Token) (scopes : Scopes) (body : List (Stmt Blank)) :
    (linkBody scopes body).any (declaresVariable d) = body.any (declaresVariable d) := by
  induction body generalizing scopes with
  | nil => rfl
  | cons s rest ih =>
    rw [linkBody, List.any_cons, List.any_cons, ih]
    congr 1
    match s with
    | .declare .. | .function _ | .klass .. | .malformed | .expression _ | .print _ | .block _
    | .branch _ _ none | .branch _ _ (some _) | .loop _ _ | .giveBack _ _ => rfl

/-- A variable that a shaped body declares is no keyword. -/
theorem isName_of_any {d : Token} {body : List (Stmt Blank)} (hshape : ShapedBody body)
    (hany : body.any (declaresVariable d) = true) : d.IsName := by
  induction body with
  | nil => cases hany
  | cons s rest ih =>
    rcases Bool.or_eq_true_iff.mp hany with hd | hrest
    · exact hshape.1.isName d (declared?_of_declaresVariable hd)
    · exact ih hshape.2 hrest

variable {R : Respelling}

mutual

/-- A statement without mistakes, in surroundings that hold already what it declares. -/
theorem respells (s : Stmt Blank) {marks : Marks} {c c' : Surroundings}
    (h : c.Respelled R marks c') (hshape : s.Shaped) (hnames : s.EachToken (·.lexeme ≠ R.new))
    (hsolo : s.Solo R.declaration marks) (hmistakes : s.scopeMistakes c = []) :
    s.Respells R marks c c' := by
  match s with
  | .malformed => exact ⟨.malformed, rfl, rfl⟩
  | .expression value =>
    have hvalue := h.expression value hshape hnames hmistakes
    exact ⟨.expression hvalue.twins, congrArg Stmt.expression hvalue.link, hvalue.mistakes⟩
  | .print value =>
    have hvalue := h.expression value hshape hnames hmistakes
    exact ⟨.print hvalue.twins, congrArg Stmt.print hvalue.link, hvalue.mistakes⟩
  | .declare name initial =>
    have hlexeme : (R.token marks name).lexeme = R.perm marks.here name.lexeme :=
      Respelling.lexeme_token hnames.1 fun hhere heq => of_decide_eq_true (hsolo hhere name rfl heq)
    have hdeclares : Layer.Declares (R.layers marks) name.lexeme (R.token marks name).lexeme :=
      hlexeme ▸ Respelling.declares_layers marks name.lexeme
    cases initial with
    | none => exact ⟨.declare hdeclares .none, rfl, rfl⟩
    | some initial =>
      rw [scopeMistakes, ← h.classKind] at hmistakes
      have hinitial := Expr.respells (h.sees_initializing hnames.1 hlexeme) initial
        (hshape.2 initial rfl) (hnames.2 initial rfl) hmistakes
      exact ⟨.declare hdeclares (.some hinitial.twins),
        congrArg (fun e => Stmt.declare (R.token marks name) (some e)) hinitial.link,
        hinitial.mistakes⟩
  | .block body =>
    have hany := any_declaresVariable_linkBody R.declaration c.inBlock.scopes body
    have hsolos := solo_of_any (d := R.declaration) (nodup_of_scopeMistakesBody rfl hmistakes).2
    have hbody := bodyRespells body (h.inBlock fun hmark => isName_of_any hshape (hany ▸ hmark))
      hshape hnames (fun s hs hhere => hsolos (hany ▸ hhere) s hs) hmistakes
    exact ⟨.block hbody.twins, congrArg Stmt.block hbody.link, hbody.mistakes⟩
  | .branch condition whenTrue none =>
    obtain ⟨hcondition, hnone, hshape⟩ := hshape
    obtain ⟨hnil, hmistakes⟩ := List.append_eq_nil_iff.mp hmistakes
    obtain ⟨hredeclaration, hmistakes⟩ := List.append_eq_nil_iff.mp hmistakes
    have hsolo : whenTrue.Solo R.declaration marks := solo_of_none hnone
    have hcondition := h.expression condition hcondition hnames.1 hnil
    have htrue := respells whenTrue (h.enter hsolo hnames.2.declared) hshape hnames.2 hsolo
      hmistakes
    exact ⟨.branch hcondition.twins htrue.twins,
      congrArg₂ (Stmt.branch · · none) hcondition.link htrue.link,
      List.append_eq_nil_iff.mpr ⟨hcondition.mistakes,
        htrue.append_eq_nil h hsolo hnames.2 hredeclaration⟩⟩
  | .branch condition whenTrue (some whenFalse) =>
    obtain ⟨hcondition, ⟨hnone, hshape⟩, hnone', hshape'⟩ := hshape
    obtain ⟨hmistakes, hmistakes'⟩ := List.append_eq_nil_iff.mp hmistakes
    obtain ⟨hnil, hmistakes⟩ := List.append_eq_nil_iff.mp hmistakes
    obtain ⟨hredeclaration, hmistakes⟩ := List.append_eq_nil_iff.mp hmistakes
    obtain ⟨hredeclaration', hmistakes'⟩ := List.append_eq_nil_iff.mp hmistakes'
    have hsolo : whenTrue.Solo R.declaration marks := solo_of_none hnone
    have hsolo' : whenFalse.Solo R.declaration marks := solo_of_none hnone'
    have hcondition := h.expression condition hcondition hnames.1 hnil
    have htrue := respells whenTrue (h.enter hsolo hnames.2.1.declared) hshape hnames.2.1 hsolo
      hmistakes
    have hfalse := respells whenFalse (h.enter hsolo' hnames.2.2.declared) hshape' hnames.2.2
      hsolo' hmistakes'
    exact ⟨.branchElse hcondition.twins htrue.twins hfalse.twins,
      congr (congrArg₂ Stmt.branch hcondition.link htrue.link) (congrArg some hfalse.link),
      List.append_eq_nil_iff.mpr ⟨List.append_eq_nil_iff.mpr ⟨hcondition.mistakes,
        htrue.append_eq_nil h hsolo hnames.2.1 hredeclaration⟩,
        hfalse.append_eq_nil h hsolo' hnames.2.2 hredeclaration'⟩⟩
  | .loop condition body =>
    obtain ⟨hcondition, hnone, hshape⟩ := hshape
    obtain ⟨hnil, hmistakes⟩ := List.append_eq_nil_iff.mp hmistakes
    obtain ⟨hredeclaration, hmistakes⟩ := List.append_eq_nil_iff.mp hmistakes
    have hsolo : body.Solo R.declaration marks := solo_of_none hnone
    have hcondition := h.expression condition hcondition hnames.1 hnil
    have hbody := respells body (h.enter hsolo hnames.2.declared) hshape hnames.2 hsolo hmistakes
    exact ⟨.loop hcondition.twins hbody.twins, congrArg₂ Stmt.loop hcondition.link hbody.link,
      List.append_eq_nil_iff.mpr ⟨hcondition.mistakes,
        hbody.append_eq_nil h hsolo hnames.2 hredeclaration⟩⟩
  | .function (.mk name params body) =>
    have hdeclares := hsolo.declares rfl rfl hnames.1
    have hroutine := routineRespells (.mk name params body) h .function hshape.2 hnames hmistakes
    exact ⟨.function hdeclares hroutine.twins, congrArg Stmt.function hroutine.link,
      hroutine.mistakes⟩
  | .giveBack keyword none =>
    refine ⟨.giveBack .none, rfl, ?_⟩
    rw [scopeMistakes, ← h.routine] at hmistakes
    exact hmistakes
  | .giveBack keyword (some value) =>
    obtain ⟨hplace, hmistakes⟩ := List.append_eq_nil_iff.mp hmistakes
    obtain ⟨hallowed, hmistakes⟩ := List.append_eq_nil_iff.mp hmistakes
    have hvalue := h.expression value (hshape value rfl) (hnames.2 value rfl) hmistakes
    rw [← h.routine] at hplace hallowed
    exact ⟨.giveBack (.some hvalue.twins),
      congrArg (fun e => Stmt.giveBack keyword (some e)) hvalue.link,
      List.append_eq_nil_iff.mpr ⟨hplace, List.append_eq_nil_iff.mpr ⟨hallowed, hvalue.mistakes⟩⟩⟩
  | .klass name none methods =>
    have hdeclares := hsolo.declares rfl rfl hnames.1
    have hmethods := methodsRespell methods (h.inClass none) hshape.2 hnames.2.2 hmistakes
    exact ⟨.klass hdeclares ⟨.inl rfl, rfl⟩ .none hmethods.twins,
      congrArg (Stmt.klass name none) hmethods.link, hmethods.mistakes⟩
  | .klass name (some superclass) methods =>
    obtain ⟨hitself, hmistakes⟩ := List.append_eq_nil_iff.mp hmistakes
    have hdeclares := hsolo.declares rfl rfl hnames.1
    have hsuper : superclass.name ≠ R.new := hnames.2.1 superclass rfl
    have hmethods := methodsRespell methods (h.inClass (some superclass)) hshape.2 hnames.2.2
      hmistakes
    refine ⟨.klass hdeclares ⟨.inl rfl, rfl⟩ (.some (Expr.twins_reference h.scopes hsuper))
      hmethods.twins, ?_, List.append_eq_nil_iff.mpr ⟨if_neg fun heq => ?_, hmethods.mistakes⟩⟩
    · exact congrArg₂ (fun target => Stmt.klass name (some target))
        (Expr.linkIn_unlink_reference h.scopes hsuper) hmethods.link
    · -- a class that inherits from itself now did so before
      have hsame : R.perm _ superclass.name = R.perm marks.here name.lexeme :=
        (Respelling.name_reference hsuper).symm.trans
          (heq.trans (hsolo.perm_eq rfl rfl hnames.1).symm)
      dsimp only at hitself
      rw [if_pos (Respelling.perm_inj hsuper hnames.1 hsame)] at hitself
      cases hitself

/-- Consecutive statements without mistakes. -/
theorem bodyRespells (body : List (Stmt Blank)) {marks : Marks} {c c' : Surroundings}
    (h : c.Respelled R marks c') (hshape : ShapedBody body)
    (hnames : EachTokenBody (·.lexeme ≠ R.new) body) (hsolo : ∀ s ∈ body, s.Solo R.declaration marks)
    (hmistakes : scopeMistakesBody c body = []) : BodyRespells R marks c c' body := by
  match body with
  | [] => exact ⟨.nil, rfl, rfl⟩
  | s :: rest =>
    obtain ⟨hmistakes, hmistakes'⟩ := List.append_eq_nil_iff.mp hmistakes
    obtain ⟨hredeclaration, hmistakes⟩ := List.append_eq_nil_iff.mp hmistakes
    obtain ⟨hfirst, hothers⟩ := List.forall_mem_cons.mp hsolo
    have henter := h.enter hfirst hnames.1.declared
    have hs := respells s henter hshape.1 hnames.1 hfirst hmistakes
    have hrest := bodyRespells rest henter hshape.2 hnames.2 hothers hmistakes'
    exact ⟨.cons hs.twins hrest.twins, congrArg₂ List.cons hs.link hrest.link,
      List.append_eq_nil_iff.mpr ⟨hs.append_eq_nil h hfirst hnames.1 hredeclaration,
        hrest.mistakes⟩⟩

/-- A function or method without mistakes. -/
theorem routineRespells (routine : Routine Blank) {marks : Marks} {c c' : Surroundings}
    (h : c.Respelled R marks c') (kind : Enclosing) (hshape : ShapedRoutine routine)
    (hnames : EachTokenRoutine (·.lexeme ≠ R.new) routine)
    (hmistakes : scopeMistakesRoutine c kind routine = []) :
    RoutineRespells R marks c c' kind routine := by
  match routine with
  | .mk name params body =>
    obtain ⟨hrepeated, hmistakes⟩ := List.append_eq_nil_iff.mp hmistakes
    have hany := any_declaresVariable_linkBody R.declaration (c.scopes.enterRoutine params) body
    have hsolos := solo_of_routine (d := R.declaration) hrepeated hmistakes
    have hname : (R.declaration ∈ params || body.any (declaresVariable R.declaration)) = true →
        R.declaration.IsName := by
      intro hmark
      rcases Bool.or_eq_true_iff.mp hmark with hparam | hbody
      · exact hshape.1 _ (of_decide_eq_true hparam)
      · exact isName_of_any hshape.2 hbody
    rw [← hany] at hsolos hname
    generalize hmark : (R.declaration ∈ params ||
      (linkBody (c.scopes.enterRoutine params) body).any (declaresVariable R.declaration)) = mark
      at hsolos hname
    have hlexeme : ∀ param ∈ params,
        (R.token (mark :: marks) param).lexeme = R.perm mark param.lexeme := fun param hparam =>
      Respelling.lexeme_token (hnames.2.1 param hparam) fun hhere => (hsolos hhere).1 param hparam
    have hlexemes : (params.map (R.token (mark :: marks))).map Token.lexeme =
        (params.map Token.lexeme).map (R.perm mark) := by
      rw [List.map_map, List.map_map]
      exact List.map_congr_left hlexeme
    have hbody := bodyRespells body (h.inRoutine kind hname hnames.2.1 hlexemes) hshape.2 hnames.2.2
      (fun s hs hhere => (hsolos hhere).2 s hs) hmistakes
    have hdistinct : repeatedParams [] (params.map (R.token (mark :: marks))) = [] := by
      refine repeatedParams_eq_nil_iff.mpr ⟨fun _ _ => List.not_mem_nil, ?_⟩
      rw [hlexemes]
      exact (repeatedParams_eq_nil_iff.mp hrepeated).2.map (R.perm mark).injective
    subst hmark
    exact ⟨.mk rfl (List.forall₂_map_right_iff.mpr (List.forall₂_same.mpr hlexeme)) hbody.twins,
      congrArg (Routine.mk name _) hbody.link,
      List.append_eq_nil_iff.mpr ⟨hdistinct, hbody.mistakes⟩⟩

/-- The methods of a class without mistakes. -/
theorem methodsRespell (methods : List (Routine Blank)) {marks : Marks} {c c' : Surroundings}
    (h : c.Respelled R marks c') (hshape : ShapedMethods methods)
    (hnames : EachTokenMethods (·.lexeme ≠ R.new) methods)
    (hmistakes : scopeMistakesMethods c methods = []) : MethodsRespell R marks c c' methods := by
  match methods with
  | [] => exact ⟨.nil, rfl, rfl⟩
  | .mk name params body :: rest =>
    obtain ⟨hmistakes, hmistakes'⟩ := List.append_eq_nil_iff.mp hmistakes
    have hfirst := routineRespells (.mk name params body) h (methodKind name) hshape.1 hnames.1
      hmistakes
    have hrest := methodsRespell rest h hshape.2 hnames.2 hmistakes'
    exact ⟨.cons hfirst.twins hrest.twins, congrArg₂ List.cons hfirst.link hrest.link,
      List.append_eq_nil_iff.mpr ⟨hfirst.mistakes, hrest.mistakes⟩⟩

end

end Stmt

open Run in
/-- **Names of locals do not matter.** In the program of an accepted text, a local variable or a
parameter gets another name, where it is declared and where links lead to it. The new name is no
reserved word and occurs nowhere in the text; whether something global has it is of no concern.
Scope analysis has no objection to the new program and finds the same links in it. Run on a fresh
machine, it has the same output, ends with the same globals, and fails, if it does, with the same
message at the same token, which may have the new name in place of the old one. -/
theorem outcome_respelled {text : String} {program : List (Stmt Place)}
    (haccepted : Accepted text program) (R : Respelling)
    (hkeyword : keywords.lookup R.new = none)
    (hfresh : ∀ t ∈ (scan text).tokens, t.lexeme ≠ R.new) {answers : Answers}
    (honest : answers.Honest) (settled : answers.Settled) (natives : List Native) (clock : Float)
    (limits : Limits) :
    scopeMistakes (Stmt.unlinkBody (respellProgram R program)) = [] ∧
      linkProgram (Stmt.unlinkBody (respellProgram R program)) = respellProgram R program ∧
      (outcome answers natives clock limits program).Twins R.guise
        (outcome answers natives clock limits (respellProgram R program)) := by
  obtain ⟨-, hparsed, hmistakes, rfl⟩ := haccepted.nothing_wrong
  have hderived := Parse.parse_sound hparsed
  have hthis : R.new ≠ "this" := by
    intro heq
    rw [heq] at hkeyword
    exact absurd hkeyword (by decide)
  have hsuper : R.new ≠ "super" := by
    intro heq
    rw [heq] at hkeyword
    exact absurd hkeyword (by decide)
  have hrespells := Stmt.bodyRespells _ (R := R) ⟨.topLevel, rfl, rfl, hthis, hsuper⟩
    (shaped_of_program hderived) (eachToken_of_program hderived hfresh)
    (fun _ _ hhere => by cases hhere) hmistakes
  exact ⟨hrespells.mistakes, hrespells.link,
    twins_outcome honest settled natives clock limits hrespells.twins⟩

/-- A text in which a function sees a global that is shadowed afterwards. -/
def shadowedLate : String :=
  "var a = 1; \x7b fun g() \x7b return a; \x7d var a = g; a(); a.b; \x7d"

/-- Another name for the variable that shadows the global. -/
def unshadowing : Respelling := ⟨⟨.identifier, "a", none, 1, 39⟩, "z"⟩

open Run in
/-- The local variable gets its new name, the global in the function keeps the old one, and the run
fails at the same token. -/
theorem outcome_respelled_unshadowing :
    Accepted shadowedLate (linkProgram (parse (scan shadowedLate).tokens).statements) ∧
      keywords.lookup unshadowing.new = none ∧
      (∀ t ∈ (scan shadowedLate).tokens, t.lexeme ≠ unshadowing.new) ∧
      Answers.usual.Honest ∧ Answers.usual.Settled ∧
      (Stmt.mentionsBody (respellProgram unshadowing
        (linkProgram (parse (scan shadowedLate).tokens).statements))).map (·.reference.name) =
          ["a", "g", "z", "z"] ∧
      (outcome .usual Native.all 0 ⟨9, 9⟩
        (linkProgram (parse (scan shadowedLate).tokens).statements)).Twins unshadowing.guise
          (outcome .usual Native.all 0 ⟨9, 9⟩ (respellProgram unshadowing
            (linkProgram (parse (scan shadowedLate).tokens).statements))) := by
  have haccepted :
      Accepted shadowedLate (linkProgram (parse (scan shadowedLate).tokens).statements) :=
    accepted_of_nothing_wrong (by decide +kernel)
  obtain ⟨hfresh, hnames⟩ : (∀ t ∈ (scan shadowedLate).tokens, t.lexeme ≠ unshadowing.new) ∧
      (Stmt.mentionsBody (respellProgram unshadowing
        (linkProgram (parse (scan shadowedLate).tokens).statements))).map (·.reference.name) =
          ["a", "g", "z", "z"] := by
    decide +kernel
  have hkeyword : keywords.lookup unshadowing.new = none := by decide
  obtain ⟨-, -, hsame⟩ := outcome_respelled haccepted unshadowing hkeyword hfresh
    Answers.honest_usual Answers.settled_usual Native.all 0 ⟨9, 9⟩
  exact ⟨haccepted, hkeyword, hfresh, Answers.honest_usual, Answers.settled_usual, hnames, hsame⟩

end LoxInterpreter
