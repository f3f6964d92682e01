import LoxInterpreter.Scope.Table

/-!
# Lexical scopes, read off the tree

The local scopes of a program and the places where it mentions a name, told from the tree alone:
nothing here walks with a stack of names or knows which declarations came before.

* `LocalScope` is what a block, a routine or a class binds. The top level is no local scope.
* `Site` is a mention of a name with the scopes around it, innermost first. `sites` lists those of a
  program; they are its mentions (`map_mention_sites`).
* `Site.Resolves` is the law of lexical scope: a name means the innermost scope around it that
  declares it before. `Site.Lawful` says that the link of a site follows the law.
-/

namespace LoxInterpreter

variable {ρ : Type}

/-- What a local scope binds. -/
inductive LocalScope where
  /-- Around the methods of a class: `this`, or `super` outside of that. -/
  | keyword (word : String)
  /-- In a block, or in a routine with its parameters: the names that are declared there. -/
  | declaring (names : List Token)
  deriving DecidableEq

namespace LocalScope

/-- The scope binds the name of a token as seen from the token: a declaration has to come first. -/
def Binds (scope : LocalScope) (t : Token) : Prop :=
  match scope with
  | keyword word => t.lexeme = word
  | declaring names => ∃ name ∈ names, name.lexeme = t.lexeme ∧ name.offset < t.offset

instance (scope : LocalScope) (t : Token) : Decidable (scope.Binds t) :=
  match scope with
  | keyword word => inferInstanceAs (Decidable (t.lexeme = word))
  | declaring names =>
    inferInstanceAs (Decidable (∃ name ∈ names, name.lexeme = t.lexeme ∧ name.offset < t.offset))

/-- The scopes around the methods of a class. -/
def aroundMethods (superclass : Option (Reference ρ)) (around : List LocalScope) :
    List LocalScope :=
  match superclass with
  | some _ => keyword "this" :: keyword "super" :: around
  | none => keyword "this" :: around

end LocalScope

/-- The names that consecutive statements declare in the scope they stand in. -/
def declaredIn (body : List (Stmt ρ)) : List Token :=
  body.filterMap Stmt.declared?

theorem declaredIn_cons (s : Stmt ρ) (rest : List (Stmt ρ)) :
    declaredIn (s :: rest) = s.declared?.toList ++ declaredIn rest := by
  rw [declaredIn]
  rw [List.filterMap_cons]
  cases s.declared? <;> rfl

/-- The ways to mention a name. -/
inductive SiteKind where
  | read
  | assign
  | this
  | super
  deriving DecidableEq, Repr

/-- A mention of a name at its place in the program. -/
structure Site (ρ : Type) where
  kind : SiteKind
  mention : Mention ρ
  /-- The local scopes around the mention, innermost first. -/
  around : List LocalScope
  /-- The variable declaration whose initializer the mention stands in, if it stands in any. -/
  initializing : Option Token

namespace Site

/-- The token of a site. -/
abbrev token (site : Site ρ) : Token := site.mention.reference.token

/-- The link of a site. -/
abbrev link (site : Site ρ) : ρ := site.mention.reference.link

/-- **The law of lexical scope.** That many scopes are passed over on the way out to the first one
that binds the name. -/
def Resolves (site : Site ρ) (distance : Nat) : Prop :=
  ∃ h : distance < site.around.length, site.around[distance].Binds site.token ∧
    ∀ i, ∀ hi : i < distance, ¬site.around[i].Binds site.token

/-- The link follows the law. -/
def Lawful (site : Site Place) : Prop :=
  ∀ distance, site.link = .outward distance ↔ site.Resolves distance

end Site

/-! ### The sites of a program -/

namespace Expr

variable (around : List LocalScope) (initializing : Option Token)

mutual

/-- The sites in an expression. -/
def sites : Expr ρ → List (Site ρ)
  | .literal _ => []
  | .grouping inner => inner.sites
  | .unary _ operand => operand.sites
  | .binary left _ right | .logical left _ right => left.sites ++ right.sites
  | .reference target => [⟨.read, ⟨target, target.label⟩, around, initializing⟩]
  | .assign target value =>
    ⟨.assign, ⟨target, (Expr.assign target value).label⟩, around, initializing⟩ :: value.sites
  | .call callee _ values => callee.sites ++ sitesAll values
  | .property object _ => object.sites
  | .setProperty object _ value => object.sites ++ value.sites
  | .this receiver =>
    [⟨.this, ⟨receiver, (Expr.this receiver).label⟩, around, initializing⟩]
  | .inherited superclass method =>
    [⟨.super, ⟨superclass, (Expr.inherited superclass method).label⟩, around, initializing⟩]

/-- The sites in several expressions. -/
def sitesAll : List (Expr ρ) → List (Site ρ)
  | [] => []
  | e :: rest => e.sites ++ sitesAll rest

end

mutual

/-- The sites of an expression are its mentions. -/
@[simp]
theorem map_mention_sites (e : Expr ρ) :
    (e.sites around initializing).map Site.mention = e.mentions := by
  cases e with
  | literal | reference | this | inherited => simp [sites, mentions]
  | grouping inner => simpa [sites, mentions] using map_mention_sites inner
  | unary _ operand => simpa [sites, mentions] using map_mention_sites operand
  | binary left _ right | logical left _ right =>
    simp [sites, mentions, map_mention_sites left, map_mention_sites right]
  | assign _ value => simp [sites, mentions, map_mention_sites value]
  | call callee _ values =>
    simp [sites, mentions, map_mention_sites callee, map_mention_sitesAll values]
  | property object => simpa [sites, mentions] using map_mention_sites object
  | setProperty object _ value =>
    simp [sites, mentions, map_mention_sites object, map_mention_sites value]

@[simp]
theorem map_mention_sitesAll (es : List (Expr ρ)) :
    (sitesAll around initializing es).map Site.mention = mentionsAll es := by
  cases es with
  | nil => rfl
  | cons e rest =>
    simp [sitesAll, mentionsAll, map_mention_sites e, map_mention_sitesAll rest]

end

end Expr

namespace Stmt

mutual

/-- The sites in a statement. -/
def sites (around : List LocalScope) : Stmt ρ → List (Site ρ)
  | .malformed => []
  | .expression value | .print value => value.sites around none
  | .declare _ none | .giveBack _ none => []
  | .declare name (some initial) => initial.sites around (some name)
  | .giveBack _ (some value) => value.sites around none
  | .block body => sitesBody (.declaring (declaredIn body) :: around) body
  | .branch condition whenTrue none => condition.sites around none ++ whenTrue.sites around
  | .branch condition whenTrue (some whenFalse) =>
    condition.sites around none ++ whenTrue.sites around ++ whenFalse.sites around
  | .loop condition body => condition.sites around none ++ body.sites around
  | .function (.mk _ params body) =>
    sitesBody (.declaring (params ++ declaredIn body) :: around) body
  | .klass _ superclass methods =>
    (match superclass with
      | some target => [⟨.read, ⟨target, target.label⟩, around, none⟩]
      | none => []) ++ sitesMethods (LocalScope.aroundMethods superclass around) methods

/-- The sites in consecutive statements. -/
def sitesBody (around : List LocalScope) : List (Stmt ρ) → List (Site ρ)
  | [] => []
  | s :: rest => s.sites around ++ sitesBody around rest

/-- The sites in the methods of a class. -/
def sitesMethods (around : List LocalScope) : List (Routine ρ) → List (Site ρ)
  | [] => []
  | .mk _ params body :: rest =>
    sitesBody (.declaring (params ++ declaredIn body) :: around) body ++ sitesMethods around rest

end

mutual

/-- The sites of a statement are its mentions. -/
theorem map_mention_sites (around : List LocalScope) (s : Stmt ρ) :
    (s.sites around).map Site.mention = s.mentions := by
  match s with
  | .malformed | .declare _ none | .giveBack _ none => rfl
  | .expression value | .print value | .declare _ (some value) | .giveBack _ (some value) =>
    simp [sites, mentions]
  | .block body => simpa [sites, mentions] using map_mention_sitesBody _ body
  | .branch condition whenTrue none =>
    simp [sites, mentions, map_mention_sites around whenTrue]
  | .branch condition whenTrue (some whenFalse) =>
    simp [sites, mentions, map_mention_sites around whenTrue,
      map_mention_sites around whenFalse]
  | .loop condition body => simp [sites, mentions, map_mention_sites around body]
  | .function (.mk _ params body) => simpa [sites, mentions] using map_mention_sitesBody _ body
  | .klass _ none methods => simpa [sites, mentions] using map_mention_sitesMethods _ methods
  | .klass _ (some target) methods =>
    simpa [sites, mentions] using map_mention_sitesMethods _ methods

theorem map_mention_sitesBody (around : List LocalScope) (body : List (Stmt ρ)) :
    (sitesBody around body).map Site.mention = mentionsBody body := by
  match body with
  | [] => rfl
  | s :: rest =>
    simp [sitesBody, mentionsBody, map_mention_sites around s, map_mention_sitesBody around rest]

theorem map_mention_sitesMethods (around : List LocalScope) (methods : List (Routine ρ)) :
    (sitesMethods around methods).map Site.mention = mentionsMethods methods := by
  match methods with
  | [] => rfl
  | .mk _ params body :: rest =>
    simp [sitesMethods, mentionsMethods, map_mention_sitesBody _ body,
      map_mention_sitesMethods around rest]

end

end Stmt

/-- The sites of a program. No local scope is around it. -/
def sites (program : List (Stmt ρ)) : List (Site ρ) :=
  Stmt.sitesBody [] program

/-- **Sites and entries.** The table of a program is made of the sites whose link leads to a frame,
and of nothing else. -/
theorem localTable_eq_filterMap_sites (program : List (Stmt Place)) :
    localTable program = (sites program).filterMap fun site => site.mention.entry? := by
  rw [localTable, ← Stmt.map_mention_sitesBody [], List.filterMap_map]
  rfl

end LoxInterpreter
