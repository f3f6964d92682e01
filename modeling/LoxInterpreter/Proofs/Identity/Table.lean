import Mathlib.Data.List.AList
import LoxInterpreter.Proofs.Identity.Assembles
import LoxInterpreter.Proofs.Scan.Token
import LoxInterpreter.Scope.Table

/-!
# One token, one occurrence

Scope analysis keeps a table of the local references that it finds, and it writes to the table at
every occurrence of a name that is bound around it. The occurrences could be told apart by the nodes
that stand for them, or by the places of their tokens in the text.

It comes to the same (`stored_once`). Parsing stores no token in two places and no node either, so
the occurrences of a text share neither. Whatever the table is keyed by, an entry once written is
never written again, and the entries are those of the table that is read off the linked program.

* `visits` lists the occurrences of a tree, in the order in which scope analysis comes by.
* `sideTable` is the table under a key.
-/

namespace LoxInterpreter

/-- What scope analysis finds at an occurrence: the node, and the reference with its link. -/
structure Visit where
  node : Nat
  reference : Reference Place

/-- The token of the occurrence. -/
abbrev Visit.token (v : Visit) : Token := v.reference.token

/-- Where the token of the occurrence starts in the text. -/
def Visit.offset (v : Visit) : Nat := v.token.offset

/-- How many frames out the binding is, if the name is bound around the occurrence. -/
def Place.distance? : Place → Option Nat
  | .global => none
  | .outward distance => some distance

/-- How many frames out the binding is, if the name is bound around the occurrence. -/
abbrev Visit.distance? (v : Visit) : Option Nat := v.reference.link.distance?

/-- Scope analysis comes by an occurrence. -/
def Occurrence.visit (scopes : Scopes) (o : Occurrence) : Visit := ⟨o.node, o.plain.linkIn scopes⟩

/-! ### The course of scope analysis -/

namespace ExprNode

mutual

/-- The occurrences in an expression. The value of an assignment comes before its target, and the
new value of a property before the object. -/
def visits (scopes : Scopes) : ExprNode → List Visit
  | .literal _ _ => []
  | .grouping _ inner => inner.visits scopes
  | .unary _ _ operand => operand.visits scopes
  | .binary _ left _ right | .logical _ left _ right => left.visits scopes ++ right.visits scopes
  | .reference target => [target.visit scopes]
  | .assign target value => value.visits scopes ++ [target.visit scopes]
  | .call _ callee _ values => callee.visits scopes ++ visitsAll scopes values
  | .property _ object _ => object.visits scopes
  | .setProperty _ object _ value => value.visits scopes ++ object.visits scopes
  | .this receiver => [receiver.visit scopes]
  | .inherited superclass _ => [superclass.visit scopes]

/-- The occurrences in several expressions. -/
def visitsAll (scopes : Scopes) : List ExprNode → List Visit
  | [] => []
  | e :: rest => e.visits scopes ++ visitsAll scopes rest

end

end ExprNode

namespace StmtNode

mutual

/-- The occurrences in a statement, in scopes that hold already what it declares. -/
def visits (scopes : Scopes) : StmtNode → List Visit
  | .malformed => []
  | .expression _ value | .print _ value => value.visits scopes
  | .declare _ _ none | .giveBack _ _ none => []
  | .declare _ _ (some value) | .giveBack _ _ (some value) => value.visits scopes
  | .block _ body => visitsBody ([] :: scopes) body
  | .branch _ condition whenTrue none =>
    condition.visits scopes ++ whenTrue.visits (scopes.enter whenTrue.plain)
  | .branch _ condition whenTrue (some whenFalse) =>
    condition.visits scopes ++ whenTrue.visits (scopes.enter whenTrue.plain) ++
      whenFalse.visits (scopes.enter whenFalse.plain)
  | .loop _ condition body => condition.visits scopes ++ body.visits (scopes.enter body.plain)
  | .function routine => visitsRoutine scopes routine
  | .klass _ _ none methods =>
    visitsMethods (scopes.enterClass (none : Option (Reference Blank))) methods
  | .klass _ _ (some superclass) methods =>
    superclass.visit scopes :: visitsMethods (scopes.enterClass (some superclass.plain)) methods

/-- The occurrences in consecutive statements, each of which sees what those before declare. -/
def visitsBody (scopes : Scopes) : List StmtNode → List Visit
  | [] => []
  | s :: rest => s.visits (scopes.enter s.plain) ++ visitsBody (scopes.enter s.plain) rest

/-- The occurrences in a function or method. -/
def visitsRoutine (scopes : Scopes) : RoutineNode → List Visit
  | .mk _ _ params body => visitsBody (scopes.enterRoutine params) body

/-- The occurrences in the methods of a class. -/
def visitsMethods (scopes : Scopes) : List RoutineNode → List Visit
  | [] => []
  | m :: rest => visitsRoutine scopes m ++ visitsMethods scopes rest

end

end StmtNode

/-! ### Occurrences are mentions -/

/-- The references of mentions. -/
abbrev references (ms : List (Mention Place)) : List (Reference Place) :=
  ms.map Mention.reference

namespace ExprNode

mutual

/-- Scope analysis comes by all mentions of an expression, though not in the order of the text. -/
theorem reference_visits_perm (scopes : Scopes) (e : ExprNode) :
    ((e.visits scopes).map Visit.reference).Perm (references (e.plain.link scopes).mentions) := by
  cases e with
  | literal | reference | this | inherited => exact .refl _
  | grouping _ inner => exact inner.reference_visits_perm scopes
  | unary _ _ operand => exact operand.reference_visits_perm scopes
  | property _ object _ => exact object.reference_visits_perm scopes
  | binary _ left _ right | logical _ left _ right =>
    simp only [visits, plain, Expr.link, Expr.mentions, List.map_append]
    exact (left.reference_visits_perm scopes).append (right.reference_visits_perm scopes)
  | assign target value =>
    simp only [visits, plain, Expr.link, Expr.mentions, List.map_append, List.map_cons]
    exact (List.perm_append_singleton _ _).trans ((value.reference_visits_perm scopes).cons _)
  | call _ callee _ values =>
    simp only [visits, plain, Expr.link, Expr.mentions, List.map_append]
    exact (callee.reference_visits_perm scopes).append (reference_visitsAll_perm scopes values)
  | setProperty _ object _ value =>
    simp only [visits, plain, Expr.link, Expr.mentions, List.map_append]
    exact List.perm_append_comm.trans
      ((object.reference_visits_perm scopes).append (value.reference_visits_perm scopes))

theorem reference_visitsAll_perm (scopes : Scopes) (es : List ExprNode) :
    ((visitsAll scopes es).map Visit.reference).Perm
      (references (Expr.mentionsAll (Expr.linkAll scopes (plainAll es)))) := by
  cases es with
  | nil => exact .refl _
  | cons e rest =>
    simp only [visitsAll, plainAll, Expr.linkAll, Expr.mentionsAll, List.map_append]
    exact (e.reference_visits_perm scopes).append (reference_visitsAll_perm scopes rest)

end

end ExprNode

namespace StmtNode

mutual

theorem reference_visits_perm (scopes : Scopes) (s : StmtNode) :
    ((s.visits scopes).map Visit.reference).Perm (references (s.plain.link scopes).mentions) := by
  match s with
  | .malformed | .declare _ _ none | .giveBack _ _ none => exact .refl _
  | .expression _ value | .print _ value | .declare _ _ (some value)
  | .giveBack _ _ (some value) => exact value.reference_visits_perm scopes
  | .block _ body => exact reference_visitsBody_perm _ body
  | .branch _ condition whenTrue none =>
    simp only [visits, plain, Stmt.link, Stmt.mentions, List.map_append]
    exact (condition.reference_visits_perm scopes).append (whenTrue.reference_visits_perm _)
  | .branch _ condition whenTrue (some whenFalse) =>
    simp only [visits, plain, Stmt.link, Stmt.mentions, List.map_append]
    exact ((condition.reference_visits_perm scopes).append
      (whenTrue.reference_visits_perm _)).append (whenFalse.reference_visits_perm _)
  | .loop _ condition body =>
    simp only [visits, plain, Stmt.link, Stmt.mentions, List.map_append]
    exact (condition.reference_visits_perm scopes).append (body.reference_visits_perm _)
  | .function (.mk _ _ params body) => exact reference_visitsBody_perm _ body
  | .klass _ _ none methods => exact reference_visitsMethods_perm _ methods
  | .klass _ _ (some superclass) methods => exact (reference_visitsMethods_perm _ methods).cons _

theorem reference_visitsBody_perm (scopes : Scopes) (body : List StmtNode) :
    ((visitsBody scopes body).map Visit.reference).Perm
      (references (Stmt.mentionsBody (Stmt.linkBody scopes (plainBody body)))) := by
  match body with
  | [] => exact .refl _
  | s :: rest =>
    simp only [visitsBody, plainBody, Stmt.linkBody, Stmt.mentionsBody, List.map_append]
    exact (s.reference_visits_perm _).append (reference_visitsBody_perm _ rest)

theorem reference_visitsMethods_perm (scopes : Scopes) (methods : List RoutineNode) :
    ((visitsMethods scopes methods).map Visit.reference).Perm
      (references (Stmt.mentionsMethods (Stmt.linkMethods scopes (plainMethods methods)))) := by
  match methods with
  | [] => exact .refl _
  | .mk _ _ params body :: rest =>
    simp only [visitsMethods, visitsRoutine, plainMethods, plainRoutine, Stmt.linkMethods,
      Stmt.linkRoutine, Stmt.mentionsMethods, List.map_append]
    exact (reference_visitsBody_perm _ body).append (reference_visitsMethods_perm scopes rest)

end

end StmtNode

/-! ### Occurrences are stored -/

/-- What is stored in the tree for the occurrence. -/
def Visit.items (v : Visit) : List Item := [.node v.node, .token v.token]

namespace ExprNode

mutual

/-- The nodes of the occurrences and their tokens are stored in the expression, each of them in a
place of its own. -/
theorem items_visits_subperm (scopes : Scopes) (e : ExprNode) :
    ((e.visits scopes).flatMap Visit.items).Subperm e.items := by
  cases e with
  | literal => exact List.nil_subperm
  | reference | this => exact .refl _
  | inherited superclass method => exact (List.Subperm.refl _).cons_right _
  | grouping _ inner => exact (inner.items_visits_subperm scopes).cons_right _
  | unary _ _ operand => exact ((operand.items_visits_subperm scopes).cons_right _).cons_right _
  | property _ object _ => exact ((object.items_visits_subperm scopes).cons_right _).cons_right _
  | binary _ left _ right | logical _ left _ right =>
    rw [visits, items, List.flatMap_append]
    exact (((left.items_visits_subperm scopes).append
      (right.items_visits_subperm scopes)).cons_right _).cons_right _
  | assign target value =>
    rw [visits, items, List.flatMap_append]
    exact List.perm_append_comm.subperm.trans
      ((List.Subperm.refl _).append (value.items_visits_subperm scopes))
  | call _ callee _ values =>
    rw [visits, items, List.flatMap_append]
    exact (((callee.items_visits_subperm scopes).append
      (items_visitsAll_subperm scopes values)).cons_right _).cons_right _
  | setProperty _ object _ value =>
    rw [visits, items, List.flatMap_append]
    exact ((List.perm_append_comm.subperm.trans ((object.items_visits_subperm scopes).append
      (value.items_visits_subperm scopes))).cons_right _).cons_right _

theorem items_visitsAll_subperm (scopes : Scopes) (es : List ExprNode) :
    ((visitsAll scopes es).flatMap Visit.items).Subperm (itemsAll es) := by
  cases es with
  | nil => exact .refl _
  | cons e rest =>
    rw [visitsAll, itemsAll, List.flatMap_append]
    exact (e.items_visits_subperm scopes).append (items_visitsAll_subperm scopes rest)

end

end ExprNode

namespace StmtNode

mutual

theorem items_visits_subperm (scopes : Scopes) (s : StmtNode) :
    ((s.visits scopes).flatMap Visit.items).Subperm s.items := by
  match s with
  | .malformed => exact .refl _
  | .declare _ _ none | .giveBack _ _ none => exact List.nil_subperm
  | .expression _ value | .print _ value => exact (value.items_visits_subperm scopes).cons_right _
  | .declare _ _ (some value) | .giveBack _ _ (some value) =>
    exact ((value.items_visits_subperm scopes).cons_right _).cons_right _
  | .block _ body => exact (items_visitsBody_subperm _ body).cons_right _
  | .branch _ condition whenTrue none =>
    rw [visits, items, List.flatMap_append]
    exact ((condition.items_visits_subperm scopes).append
      (whenTrue.items_visits_subperm _)).cons_right _
  | .branch _ condition whenTrue (some whenFalse) =>
    rw [visits, items, List.flatMap_append, List.flatMap_append]
    exact (((condition.items_visits_subperm scopes).append
      (whenTrue.items_visits_subperm _)).append (whenFalse.items_visits_subperm _)).cons_right _
  | .loop _ condition body =>
    rw [visits, items, List.flatMap_append]
    exact ((condition.items_visits_subperm scopes).append
      (body.items_visits_subperm _)).cons_right _
  | .function routine => exact items_visitsRoutine_subperm scopes routine
  | .klass _ _ none methods =>
    exact ((items_visitsMethods_subperm _ methods).cons_right _).cons_right _
  | .klass _ _ (some superclass) methods =>
    exact (((List.Subperm.refl superclass.items).append
      (items_visitsMethods_subperm _ methods)).cons_right _).cons_right _

theorem items_visitsBody_subperm (scopes : Scopes) (body : List StmtNode) :
    ((visitsBody scopes body).flatMap Visit.items).Subperm (itemsBody body) := by
  match body with
  | [] => exact .refl _
  | s :: rest =>
    rw [visitsBody, itemsBody, List.flatMap_append]
    exact (s.items_visits_subperm _).append (items_visitsBody_subperm _ rest)

theorem items_visitsRoutine_subperm (scopes : Scopes) (r : RoutineNode) :
    ((visitsRoutine scopes r).flatMap Visit.items).Subperm (itemsRoutine r) := by
  match r with
  | .mk _ _ params body =>
    rw [visitsRoutine, itemsRoutine]
    exact (((items_visitsBody_subperm _ body).trans
      (List.sublist_append_right _ _).subperm).cons_right _).cons_right _

theorem items_visitsMethods_subperm (scopes : Scopes) (methods : List RoutineNode) :
    ((visitsMethods scopes methods).flatMap Visit.items).Subperm (itemsMethods methods) := by
  match methods with
  | [] => exact .refl _
  | m :: rest =>
    rw [visitsMethods, itemsMethods, List.flatMap_append]
    exact (items_visitsRoutine_subperm scopes m).append (items_visitsMethods_subperm scopes rest)

end

end StmtNode

/-! ### Tables -/

section Tables

variable {κ : Type} (key : Visit → κ)

/-- The entry of an occurrence, if its name is bound around it. -/
def Visit.entry? (v : Visit) : Option (Sigma fun _ : κ => Nat) :=
  v.distance?.map fun distance => ⟨key v, distance⟩

variable [DecidableEq κ]

/-- Write the entry of an occurrence, in place of an earlier one under the same key. -/
def Visit.record (table : AList fun _ : κ => Nat) (v : Visit) : AList fun _ : κ => Nat :=
  match v.distance? with
  | some distance => table.insert (key v) distance
  | none => table

/-- The table that is written while scope analysis comes by the occurrences. -/
def sideTable (visits : List Visit) : AList fun _ : κ => Nat :=
  visits.foldl (Visit.record key) ∅

variable {key}

theorem sideTable_concat (visits : List Visit) (v : Visit) :
    sideTable key (visits ++ [v]) = Visit.record key (sideTable key visits) v := by
  rw [sideTable, List.foldl_append]
  rfl

/-- What is in the table has been written at some occurrence. -/
theorem mem_map_of_mem_sideTable {visits : List Visit} {k : κ} (h : k ∈ sideTable key visits) :
    k ∈ visits.map key := by
  induction visits using List.reverseRecOn with
  | nil => exact absurd h (AList.notMem_empty k)
  | append_singleton visits v ih =>
    rw [sideTable_concat, Visit.record] at h
    rw [List.map_append, List.mem_append, List.map_singleton, List.mem_singleton]
    split at h
    · exact ((AList.mem_insert _).mp h).symm.imp_left ih
    · exact .inl (ih h)

/-- Where no two occurrences share a key, there is no entry under the key of the next one. -/
theorem notMem_sideTable_of_nodup {before after : List Visit} {v : Visit}
    (h : ((before ++ v :: after).map key).Nodup) : key v ∉ sideTable key before := by
  intro hmem
  rw [List.map_append, List.map_cons] at h
  exact (List.disjoint_of_nodup_append h) (mem_map_of_mem_sideTable hmem) List.mem_cons_self

/-- Where no two occurrences share a key, the table has an entry for each occurrence that is bound
around it, the latest first. -/
theorem entries_sideTable {visits : List Visit} (h : (visits.map key).Nodup) :
    (sideTable key visits).entries = (visits.filterMap (Visit.entry? key)).reverse := by
  induction visits using List.reverseRecOn with
  | nil => rfl
  | append_singleton visits v ih =>
    have hnot := notMem_sideTable_of_nodup h
    have hvisits := ih (h.sublist ((List.sublist_append_left visits [v]).map key))
    rw [sideTable_concat, Visit.record, List.filterMap_append, List.reverse_append, ← hvisits]
    cases hv : v.distance? with
    | none => simp [Visit.entry?, hv]
    | some distance =>
      dsimp only
      rw [AList.entries_insert_of_notMem hnot]
      simp [Visit.entry?, hv]

/-- Where no two occurrences share a key, each finds in the table what was found there. -/
theorem lookup_sideTable {visits : List Visit} (h : (visits.map key).Nodup) {v : Visit}
    (hv : v ∈ visits) : (sideTable key visits).lookup (key v) = v.distance? := by
  refine Option.ext fun distance => ?_
  have hmem : (sideTable key visits).lookup (key v) = some distance ↔
      ∃ w ∈ visits, w.entry? key = some ⟨key v, distance⟩ := by
    rw [← Option.mem_def, AList.mem_lookup_iff, entries_sideTable h, List.mem_reverse,
      List.mem_filterMap]
  rw [hmem]
  constructor
  · rintro ⟨w, hw, hentry⟩
    obtain ⟨d, hd, heq⟩ := Option.map_eq_some_iff.mp hentry
    injection heq with hkey hdistance
    rw [← List.inj_on_of_nodup_map h hw hv hkey, hd, hdistance]
  · intro hd
    exact ⟨v, hv, by rw [Visit.entry?, hd]; rfl⟩

end Tables

/-- The entries under offsets are those of the table that is read off the linked program. -/
theorem entries_perm_localTable (program : List StmtNode) :
    ((StmtNode.visitsBody [] program).filterMap (Visit.entry? Visit.offset)).Perm
      ((localTable (linkProgram (StmtNode.plainBody program))).map fun e =>
        ⟨e.token.offset, e.distance⟩) := by
  have hperm := (StmtNode.reference_visitsBody_perm [] program).filterMap fun r =>
    r.link.distance?.map fun d => (⟨r.token.offset, d⟩ : Sigma fun _ : Nat => Nat)
  rw [List.filterMap_map, List.filterMap_map] at hperm
  rw [localTable, List.map_filterMap]
  refine hperm.trans (.of_eq (List.filterMap_congr fun m _ => ?_))
  rw [Mention.entry?, Function.comp]
  cases m.reference.link <;> rfl

/-! ### Texts -/

/-- No two tokens of a text start in one place. -/
theorem nodup_offset_tokens (text : String) : ((scan text).tokens.map Token.offset).Nodup :=
  List.pairwise_map.mpr ((pairwise_offset_tokens text).imp Nat.ne_of_lt)

/-- The program of a text stores tokens of the text alone. -/
theorem mem_tokens_of_mem_items {tokens : List Token} {t : Token}
    (h : .token t ∈ StmtNode.itemsBody (buildProgram tokens)) : t ∈ tokens :=
  List.count_pos_iff.mp (Nat.lt_of_lt_of_le (List.count_pos_iff.mpr h)
    ((plainBody_buildProgram_and_count tokens).2 (.token t)))

/-- What is stored in the program of a text is stored there once. -/
theorem nodup_items {tokens : List Token} (h : tokens.Nodup) :
    (StmtNode.itemsBody (buildProgram tokens)).Nodup := by
  refine List.nodup_iff_count_le_one.mpr fun i => ?_
  refine Nat.le_trans ((plainBody_buildProgram_and_count tokens).2 i) ?_
  cases i with
  | token t => exact List.nodup_iff_count_le_one.mp h t
  | node n => exact Nat.le_refl 1

/-- Where nothing is stored twice, two occurrences share neither their node nor their token. -/
theorem nodup_node_and_token {program : List StmtNode}
    (h : (StmtNode.itemsBody program).Nodup) (scopes : Scopes) :
    ((StmtNode.visitsBody scopes program).map Visit.node).Nodup ∧
      ((StmtNode.visitsBody scopes program).map Visit.token).Nodup := by
  obtain ⟨stored, hperm, hsub⟩ := StmtNode.items_visitsBody_subperm scopes program
  have hapart := (List.nodup_flatMap.mp (hperm.nodup_iff.mp (h.sublist hsub))).2
  refine ⟨List.pairwise_map.mpr (hapart.imp fun hdisjoint heq => ?_),
    List.pairwise_map.mpr (hapart.imp fun hdisjoint heq => ?_)⟩
  · exact hdisjoint List.mem_cons_self (by rw [heq]; exact List.mem_cons_self)
  · have hlast (v : Visit) : .token v.token ∈ v.items := List.mem_cons_of_mem _ List.mem_cons_self
    exact hdisjoint (hlast _) (heq ▸ hlast _)

/-- The token of an occurrence is stored in the tree. -/
theorem token_mem_items {program : List StmtNode} {scopes : Scopes} {v : Visit}
    (h : v ∈ StmtNode.visitsBody scopes program) :
    .token v.token ∈ StmtNode.itemsBody program := by
  refine (StmtNode.items_visitsBody_subperm scopes program).subset (List.mem_flatMap.mpr ⟨v, h, ?_⟩)
  exact List.mem_cons_of_mem _ List.mem_cons_self

/-- **One token, one occurrence.** Let a text be parsed into numbered nodes; without the numbers,
these are the statements that the text is parsed into, whatever mistakes there are in it. Every node
and every token is stored once, and the tokens are tokens of the text. Scope analysis comes by the
mentions of the linked program, and no two of these occurrences share their node or the place of
their token. Hence it never finds an entry where it is about to write one, whether the table is
keyed by nodes or by places. Both tables hold one entry for each occurrence of a name that is bound
around it, and answer the same at every occurrence; the entries are those of the table that is read
off the linked program. -/
theorem stored_once (text : String) :
    let tokens := (scan text).tokens
    let program := buildProgram tokens
    let visits := StmtNode.visitsBody [] program
    StmtNode.plainBody program = (parse tokens).statements ∧
      (StmtNode.itemsBody program).Nodup ∧
      (∀ t, .token t ∈ StmtNode.itemsBody program → t ∈ tokens) ∧
      (visits.map Visit.reference).Perm
        (references (Stmt.mentionsBody (linkProgram (parse tokens).statements))) ∧
      (visits.map Visit.node).Nodup ∧ (visits.map Visit.offset).Nodup ∧
      (∀ before v after, visits = before ++ v :: after →
        v.node ∉ sideTable Visit.node before ∧ v.offset ∉ sideTable Visit.offset before) ∧
      (sideTable Visit.node visits).entries =
        (visits.filterMap (Visit.entry? Visit.node)).reverse ∧
      (sideTable Visit.offset visits).entries =
        (visits.filterMap (Visit.entry? Visit.offset)).reverse ∧
      (∀ v ∈ visits, (sideTable Visit.node visits).lookup v.node = v.distance? ∧
        (sideTable Visit.offset visits).lookup v.offset = v.distance?) ∧
      (sideTable Visit.offset visits).entries.Perm
        ((localTable (linkProgram (parse tokens).statements)).map fun e =>
          ⟨e.token.offset, e.distance⟩) := by
  intro tokens program visits
  have hoffsets : (tokens.map Token.offset).Nodup := nodup_offset_tokens text
  have hitems := nodup_items hoffsets.of_map
  have htokens (t : Token) (ht : .token t ∈ StmtNode.itemsBody program) : t ∈ tokens :=
    mem_tokens_of_mem_items ht
  have hplain := (plainBody_buildProgram_and_count tokens).1
  obtain ⟨hnode, htoken⟩ : (visits.map Visit.node).Nodup ∧ (visits.map Visit.token).Nodup :=
    nodup_node_and_token hitems []
  have hoffset : (visits.map Visit.offset).Nodup := by
    refine hnode.of_map.map_on fun v hv w hw heq => ?_
    have hsame := List.inj_on_of_nodup_map hoffsets (htokens _ (token_mem_items hv))
      (htokens _ (token_mem_items hw)) heq
    exact List.inj_on_of_nodup_map htoken hv hw hsame
  refine ⟨hplain, hitems, htokens, ?_, hnode, hoffset, ?_, entries_sideTable hnode,
    entries_sideTable hoffset, fun v hv => ⟨lookup_sideTable hnode hv, lookup_sideTable hoffset hv⟩,
    ?_⟩
  · rw [← hplain]
    exact StmtNode.reference_visitsBody_perm [] program
  · intro before v after hvisits
    rw [hvisits] at hnode hoffset
    exact ⟨notMem_sideTable_of_nodup hnode, notMem_sideTable_of_nodup hoffset⟩
  · rw [entries_sideTable hoffset, ← hplain]
    exact (List.reverse_perm _).trans (entries_perm_localTable program)

end LoxInterpreter
