import Mathlib.Logic.Relation
import Mathlib.Order.Bounds.Basic
import LoxInterpreter.Proofs.Run.Search

/-!
# Search by name and access by distance

A forest that has been made step by step (`Forest.Reached`) is *ordered*: every frame is enclosed by
an older one (`Forest.Reached.ordered`). In an ordered forest the chain of a frame lists what is
found outward of it at each distance (`Forest.Ordered.getElem?_chain`). Hence a search by name comes
to the frame at the least distance where the name is bound (`Forest.Ordered.holder?_of_isLeast`),
and searches agree with accesses by that distance (`search_agrees_with_access`).

What a write does is the same in both ways: `Forest.Rebound` says that one binding has changed, and
who gets to see it.
-/

namespace LoxInterpreter

open Run

namespace Forest

variable {α : Type}

/-! ### Forests made step by step -/

/-- What may be done to a forest. Steps that fail leave the forest as it is. -/
inductive Step : Forest α → Forest α → Prop where
  /-- Make a frame, enclosed by one that is there. -/
  | push (f : Forest α) (enclosing : Option FrameId) (h : ∀ g ∈ enclosing, g < f.nextId) :
    Step f (f.push enclosing)
  | define (f : Forest α) (id : FrameId) (name : String) (value : α) (h : id < f.nextId) :
    Step f (f.define id name value)
  | assign {f f' : Forest α} (id : FrameId) (name : String) (value : α)
    (h : f.assign? id name value = some f') : Step f f'
  | assignAt {f f' : Forest α} (id : FrameId) (distance : Nat) (name : String) (value : α)
    (h : f.assignAt id distance name value = .ok f') : Step f f'

/-- Forests that are made from nothing, step by step. -/
def Reached (f : Forest α) : Prop := Relation.ReflTransGen Step empty f

/-- Every frame is enclosed by an older one. -/
def Ordered (f : Forest α) : Prop := ∀ i g, f.enclosing? i = some g → g < i

theorem ordered_empty : (empty : Forest α).Ordered := by
  intro i g h
  rw [enclosing?, empty, Array.getElem?_empty, Option.bind_none] at h
  cases h

variable {f f' : Forest α} {id i : FrameId} {d : Nat} {name : String} {value : α}

theorem Ordered.push (h : f.Ordered) {enclosing : Option FrameId}
    (henclosing : ∀ g ∈ enclosing, g < f.nextId) : (f.push enclosing).Ordered := by
  intro i g hg
  rw [enclosing?_push] at hg
  split at hg
  · next hi => exact hi ▸ henclosing g hg
  · exact h i g hg

theorem Ordered.define (h : f.Ordered) : (f.define id name value).Ordered := by
  intro i g hg
  rw [enclosing?_define] at hg
  exact h i g hg

/-- What an assignment by name does, if it does anything. -/
theorem assign?_eq_some (h : f.assign? id name value = some f') :
    ∃ i, f.holder? id name = some i ∧ f' = f.define i name value := by
  obtain ⟨i, hi, rfl⟩ := Option.map_eq_some_iff.mp h
  exact ⟨i, hi, rfl⟩

/-- What an assignment by distance does, if it does anything. -/
theorem assignAt_eq_ok (h : f.assignAt id d name value = .ok f') :
    ∃ i, f.holderAt id d name = .ok i ∧ f' = f.define i name value := by
  rw [assignAt] at h
  cases hholder : f.holderAt id d name with
  | error e =>
    rw [hholder] at h
    cases h
  | ok i =>
    rw [hholder] at h
    cases h
    exact ⟨i, rfl, rfl⟩

theorem Step.ordered (hstep : Step f f') (h : f.Ordered) : f'.Ordered := by
  cases hstep with
  | push enclosing henclosing => exact h.push henclosing
  | define id name value _ => exact h.define
  | assign id name value hassign =>
    obtain ⟨i, -, rfl⟩ := assign?_eq_some hassign
    exact h.define
  | assignAt id distance name value hassign =>
    obtain ⟨i, -, rfl⟩ := assignAt_eq_ok hassign
    exact h.define

/-- A forest that is made step by step is ordered. -/
theorem Reached.ordered (h : f.Reached) : f.Ordered := by
  induction h with
  | refl => exact ordered_empty
  | tail _ hstep ih => exact hstep.ordered ih

/-! ### Chains of ordered forests -/

theorem chainWithin_succ (f : Forest α) (fuel : Nat) (id : FrameId) :
    f.chainWithin (fuel + 1) id = id :: (f.enclosing? id).elim [] (f.chainWithin fuel) := by
  rw [chainWithin]
  cases f.enclosing? id <;> rfl

/-- A way outward with enough fuel goes all the way. -/
theorem Ordered.chainWithin_eq_chain (h : f.Ordered) {fuel : Nat} (hfuel : id < fuel) :
    f.chainWithin fuel id = f.chain id := by
  induction id using Nat.strong_induction_on generalizing fuel with
  | h id ih =>
    obtain ⟨fuel, rfl⟩ := Nat.exists_eq_add_one_of_ne_zero (Nat.ne_zero_of_lt hfuel)
    rw [chain, chainWithin_succ, chainWithin_succ]
    cases hg : f.enclosing? id with
    | none => rfl
    | some g =>
      have hlt := h id g hg
      show id :: f.chainWithin fuel g = id :: f.chainWithin id g
      rw [ih g hlt (hlt.trans_le (Nat.le_of_lt_succ hfuel)), ih g hlt hlt]

/-- A chain is its first frame, and the chain of the frame around it. -/
theorem Ordered.chain_eq (h : f.Ordered) (id : FrameId) :
    f.chain id = id :: (f.enclosing? id).elim [] f.chain := by
  rw [chain, chainWithin_succ]
  cases hg : f.enclosing? id with
  | none => rfl
  | some g => exact congrArg _ (h.chainWithin_eq_chain (h id g hg))

/-- **Chains and distances.** A chain lists the frames that are found going outward. -/
theorem Ordered.getElem?_chain (h : f.Ordered) (d : Nat) (id : FrameId) :
    (f.chain id)[d]? = f.ancestor? d id := by
  induction d generalizing id with
  | zero =>
    rw [h.chain_eq]
    rfl
  | succ d ih =>
    rw [h.chain_eq, List.getElem?_cons_succ, ancestor?]
    cases f.enclosing? id with
    | none => rfl
    | some g => exact ih g

/-! ### The nearest binding -/

/-- The frame that many steps outward binds the name. -/
def BindsAt (f : Forest α) (id : FrameId) (name : String) (d : Nat) : Prop :=
  ∃ i, f.ancestor? d id = some i ∧ f.binds i name

/-- A search by name comes to the nearest frame that binds the name. -/
theorem Ordered.holder?_of_isLeast (h : f.Ordered) (hd : IsLeast {d | f.BindsAt id name d} d) :
    ∃ i, f.ancestor? d id = some i ∧ f.binds i name ∧ f.holder? id name = some i := by
  obtain ⟨⟨i, hi, hbinds⟩, hleast⟩ := hd
  refine ⟨i, hi, hbinds, ?_⟩
  rw [← h.getElem?_chain] at hi
  obtain ⟨hlt, hget⟩ := List.getElem?_eq_some_iff.mp hi
  refine List.find?_eq_some_iff_getElem.mpr ⟨hbinds, d, hlt, hget, fun j hj => ?_⟩
  -- a nearer frame that binds the name would be at a smaller distance
  by_contra hnear
  rw [Bool.not_eq_true', Bool.not_eq_false] at hnear
  refine absurd (hleast ⟨(f.chain id)[j], ?_, hnear⟩) (Nat.not_le_of_lt hj)
  rw [← h.getElem?_chain, List.getElem?_eq_getElem]

/-- A search by name fails if the name is bound at no distance. -/
theorem Ordered.holder?_eq_none (h : f.Ordered) (hno : ∀ d, ¬f.BindsAt id name d) :
    f.holder? id name = none := by
  refine List.find?_eq_none.mpr fun i hi hbinds => ?_
  obtain ⟨d, hd⟩ := List.mem_iff_getElem?.mp hi
  exact hno d ⟨i, (h.getElem?_chain d id).symm.trans hd, hbinds⟩

/-! ### What a write changes -/

/-- A frame that binds something is there. -/
theorem lt_nextId_of_binds (h : f.binds i name) : i < f.nextId := by
  obtain ⟨value, hvalue⟩ := Option.isSome_iff_exists.mp h
  obtain ⟨frame, hframe, -⟩ := Option.bind_eq_some_iff.mp hvalue
  exact (Array.getElem?_eq_some_iff.mp hframe).1

/-- From one forest to the other, a binding of a frame is changed to a value and everything else is
as it was. The change is seen from where a search for the name comes to that frame. -/
structure Rebound (f f' : Forest α) (i : FrameId) (name : String) (value : α) : Prop where
  nextId : f'.nextId = f.nextId
  enclosing : ∀ j, f'.enclosing? j = f.enclosing? j
  here : f'.lookup? i name = some value
  otherName : ∀ other ≠ name, f'.lookup? i other = f.lookup? i other
  otherFrame : ∀ j ≠ i, f'.frames[j]? = f.frames[j]?
  seen : ∀ g, f.holder? g name = some i → f'.get? g name = some value
  unseen : ∀ g other, (other = name → f.holder? g name ≠ some i) → f'.get? g other = f.get? g other

/-- Changing a binding changes no search. -/
theorem holder?_define (hbinds : f.binds i name) (g : FrameId) (other : String) :
    (f.define i name value).holder? g other = f.holder? g other := by
  rw [holder?, holder?, chain_define]
  refine congrArg (fun p : FrameId → Bool => (f.chain g).find? p) (funext fun j => ?_)
  rw [binds, lookup?_define _ _ _ _ _ _ (lt_nextId_of_binds hbinds)]
  split
  · next hhere =>
    obtain ⟨rfl, rfl⟩ := hhere
    exact hbinds.symm
  · rfl

theorem rebound_define (hbinds : f.binds i name) (value : α) :
    f.Rebound (f.define i name value) i name value := by
  have hlt := lt_nextId_of_binds hbinds
  refine ⟨f.nextId_define i name value, fun j => f.enclosing?_define i j name value, ?_,
    fun other hne => ?_, fun j hne => ?_, fun g hg => ?_, fun g other hg => ?_⟩
  · rw [lookup?_define _ _ _ _ _ _ hlt, if_pos ⟨rfl, rfl⟩]
  · rw [lookup?_define _ _ _ _ _ _ hlt, if_neg fun h => hne h.2]
  · rw [define, Array.getElem?_modify, if_neg (Ne.symm hne)]
  · rw [get?, holder?_define hbinds, hg, Option.bind_some, lookup?_define _ _ _ _ _ _ hlt,
      if_pos ⟨rfl, rfl⟩]
  · rw [get?, get?, holder?_define hbinds]
    cases hholder : f.holder? g other with
    | none => rfl
    | some j =>
      rw [Option.bind_some, Option.bind_some, lookup?_define _ _ _ _ _ _ hlt, if_neg]
      rintro ⟨rfl, rfl⟩
      exact hg rfl hholder

end Forest

/-! ### The two ways on a machine -/

section Machines

variable {m : Machine} {name : Token} {v : Value} {d : Nat} {i : FrameId}

theorem readAt_apply : readAt d name.lexeme m =
    match m.forest.getAt m.current d name.lexeme with
    | .ok value => .ok value m
    | .error e => .error (.fault (.access e)) m := by
  rw [readAt]
  dsimp only [bind, EStateM.bind, get, getThe, MonadStateOf.get, EStateM.get]
  cases m.forest.getAt m.current d name.lexeme <;> rfl

/-- Past the end of the chain there is nothing to read or to write. -/
theorem access_offChain (h : m.forest.ancestor? d m.current = none) :
    readAt d name.lexeme m = .error (.fault (.access (.offChain d))) m ∧
      assignAt d name v m = .error (.fault (.access (.offChain d))) m := by
  constructor
  · rw [readAt_apply, Forest.getAt, h]
  · rw [assignAt]
    dsimp only [bind, EStateM.bind, get, getThe, MonadStateOf.get, EStateM.get]
    rw [Forest.holderAt, h]
    rfl

/-- A frame that does not bind the name is neither read nor written. -/
theorem access_unbound (hi : m.forest.ancestor? d m.current = some i)
    (hno : m.forest.lookup? i name.lexeme = none) :
    readAt d name.lexeme m = .error (.fault (.access (.unbound name.lexeme))) m ∧
      assignAt d name v m = .error (.fault (.unassignable name)) m := by
  constructor
  · rw [readAt_apply, Forest.getAt, hi]
    dsimp only
    rw [hno]
  · rw [assignAt]
    dsimp only [bind, EStateM.bind, get, getThe, MonadStateOf.get, EStateM.get]
    rw [Forest.holderAt, hi]
    dsimp only
    rw [Forest.binds, hno, Option.isSome_none, if_neg Bool.false_ne_true]
    rfl

/-- A frame that binds the name is read and written, whatever nearer frames bind. -/
theorem access_bound {old : Value} (hi : m.forest.ancestor? d m.current = some i)
    (hold : m.forest.lookup? i name.lexeme = some old) :
    readAt d name.lexeme m = .ok old m ∧
      assignAt d name v m =
        .ok () { m with forest := m.forest.define i name.lexeme v } := by
  constructor
  · rw [readAt_apply, Forest.getAt_eq_ok hi hold]
  · rw [assignAt]
    dsimp only [bind, EStateM.bind, get, getThe, MonadStateOf.get, EStateM.get]
    rw [Forest.holderAt_eq_ok hi (Option.isSome_of_eq_some hold)]
    rfl

/-- At the least distance where the name is bound, searching and going that far come to the same
frame. -/
theorem access_nearest (hordered : m.forest.Ordered)
    (hd : IsLeast {d | m.forest.BindsAt m.current name.lexeme d} d) :
    ∃ i, m.forest.ancestor? d m.current = some i ∧ m.forest.binds i name.lexeme ∧
      m.forest.holder? m.current name.lexeme = some i ∧
      readFrom m.current name m = readAt d name.lexeme m ∧
      assignFrom m.current name v m = assignAt d name v m := by
  obtain ⟨i, hi, hbinds, hholder⟩ := hordered.holder?_of_isLeast hd
  exact ⟨i, hi, hbinds, hholder, readFrom_eq_readAt hholder hi hbinds,
    assignFrom_eq_assignAt hholder hi hbinds⟩

/-- Where the name is bound at no distance, a search blames the name and changes nothing. -/
theorem search_unbound (hordered : m.forest.Ordered)
    (hno : ∀ d, ¬m.forest.BindsAt m.current name.lexeme d) :
    readFrom m.current name m = .error (.failure name (.undefinedVariable name.lexeme)) m ∧
      assignFrom m.current name v m =
        .error (.failure name (.undefinedVariable name.lexeme)) m := by
  have hnone := hordered.holder?_eq_none hno
  constructor
  · rw [readFrom_apply, Forest.get?, hnone, Option.bind_none]
  · rw [assignFrom_apply, hnone]

/-- **Search by name and access by distance agree** in every forest that is made step by step.

* At the least distance where the name is bound, both read the same value, and both writes lead to
  the same machine. It differs from the one before in that one binding, and a search finds the new
  value.
* If the name is bound at no distance, searches blame the name and leave the machine as it is.
* An access by any distance fails, and leaves the machine as it is, if the chain ends before or if
  the frame does not bind the name. Otherwise it reads or changes the binding of exactly that
  frame. -/
theorem search_agrees_with_access {m : Machine} (hreached : m.forest.Reached) (name : Token)
    (v : Value) :
    (∀ d, IsLeast {d | m.forest.BindsAt m.current name.lexeme d} d →
      ∃ i old f', m.forest.ancestor? d m.current = some i ∧
        m.forest.lookup? i name.lexeme = some old ∧
        readFrom m.current name m = .ok old m ∧ readAt d name.lexeme m = .ok old m ∧
        assignFrom m.current name v m = .ok () { m with forest := f' } ∧
        assignAt d name v m = .ok () { m with forest := f' } ∧
        m.forest.Rebound f' i name.lexeme v ∧
        readFrom m.current name { m with forest := f' } = .ok v { m with forest := f' }) ∧
    ((∀ d, ¬m.forest.BindsAt m.current name.lexeme d) →
      readFrom m.current name m = .error (.failure name (.undefinedVariable name.lexeme)) m ∧
      assignFrom m.current name v m =
        .error (.failure name (.undefinedVariable name.lexeme)) m) ∧
    ∀ d,
      (m.forest.ancestor? d m.current = none →
        readAt d name.lexeme m = .error (.fault (.access (.offChain d))) m ∧
        assignAt d name v m = .error (.fault (.access (.offChain d))) m) ∧
      ∀ i, m.forest.ancestor? d m.current = some i →
        (m.forest.lookup? i name.lexeme = none →
          readAt d name.lexeme m = .error (.fault (.access (.unbound name.lexeme))) m ∧
          assignAt d name v m = .error (.fault (.unassignable name)) m) ∧
        ∀ old, m.forest.lookup? i name.lexeme = some old →
          readAt d name.lexeme m = .ok old m ∧
          ∃ f', assignAt d name v m = .ok () { m with forest := f' } ∧
            m.forest.Rebound f' i name.lexeme v := by
  have hordered := hreached.ordered
  refine ⟨fun d hd => ?_, search_unbound hordered, fun d => ⟨access_offChain, fun i hi =>
    ⟨access_unbound hi, fun old hold => ?_⟩⟩⟩
  · obtain ⟨i, hi, hbinds, hholder, hread, hassign⟩ := access_nearest hordered hd
    obtain ⟨old, hold⟩ := Option.isSome_iff_exists.mp hbinds
    obtain ⟨hreadAt, hassignAt⟩ := access_bound (v := v) hi hold
    have hrebound := Forest.rebound_define hbinds v
    refine ⟨i, old, _, hi, hold, hread.trans hreadAt, hreadAt, hassign.trans hassignAt, hassignAt,
      hrebound, ?_⟩
    rw [readFrom_apply]
    dsimp only
    rw [hrebound.seen _ hholder]
  · obtain ⟨hreadAt, hassignAt⟩ := access_bound (v := v) hi hold
    exact ⟨hreadAt, _, hassignAt, Forest.rebound_define (Option.isSome_of_eq_some hold) v⟩

end Machines

/-- A machine whose current frame is enclosed by one that binds `a`, which is enclosed by another
that does. A further frame shares its surroundings. -/
def Machine.shadowing : Machine where
  forest := (((((Forest.empty.push none).push (some 0)).push (some 1)).push (some 1)).define 0 "a"
    (.text "outer")).define 1 "a" (.text "middle")
  closures := #[]
  classes := #[]
  instances := #[]
  current := 2
  output := ""
  clock := 0
  calls := []

theorem Machine.reached_shadowing : Machine.shadowing.forest.Reached := by
  refine ((((((Relation.ReflTransGen.refl.tail (.push _ none ?_)).tail (.push _ (some 0) ?_)).tail
    (.push _ (some 1) ?_)).tail (.push _ (some 1) ?_)).tail (.define _ 0 _ _ ?_)).tail
    (.define _ 1 _ _ ?_)) <;> decide

/-- The nearer of two bindings is the one that is found, and it alone is changed; the other one can
be read and written by its distance. -/
theorem search_agrees_with_access_shadowing :
    Machine.shadowing.forest.Reached ∧
      IsLeast {d | Machine.shadowing.forest.BindsAt Machine.shadowing.current "a" d} 1 ∧
      (∃ i old f', Machine.shadowing.forest.ancestor? 1 2 = some i ∧
        Machine.shadowing.forest.lookup? i "a" = some old ∧
        readFrom 2 ⟨.identifier, "a", none, 1, 0⟩ Machine.shadowing = .ok old Machine.shadowing ∧
        readAt 1 "a" Machine.shadowing = .ok old Machine.shadowing ∧
        assignFrom 2 ⟨.identifier, "a", none, 1, 0⟩ .nil Machine.shadowing =
          .ok () { Machine.shadowing with forest := f' } ∧
        assignAt 1 ⟨.identifier, "a", none, 1, 0⟩ .nil Machine.shadowing =
          .ok () { Machine.shadowing with forest := f' } ∧
        Machine.shadowing.forest.Rebound f' i "a" .nil ∧
        readFrom 2 ⟨.identifier, "a", none, 1, 0⟩ { Machine.shadowing with forest := f' } =
          .ok .nil { Machine.shadowing with forest := f' }) ∧
      readAt 2 "a" Machine.shadowing = .ok (.text "outer") Machine.shadowing ∧
      assignAt 0 ⟨.identifier, "a", none, 1, 0⟩ .nil Machine.shadowing =
        .error (.fault (.unassignable ⟨.identifier, "a", none, 1, 0⟩)) Machine.shadowing ∧
      readAt 3 "a" Machine.shadowing = .error (.fault (.access (.offChain 3))) Machine.shadowing := by
  obtain ⟨hnearest, -, hany⟩ := search_agrees_with_access Machine.reached_shadowing
    ⟨.identifier, "a", none, 1, 0⟩ .nil
  have hleast : IsLeast
      {d | Machine.shadowing.forest.BindsAt Machine.shadowing.current "a" d} 1 := by
    refine ⟨⟨1, by decide, by decide⟩, fun d hd => ?_⟩
    -- the current frame itself does not bind the name
    rcases Nat.eq_zero_or_pos d with rfl | hpos
    · obtain ⟨i, hi, hbinds⟩ := hd
      obtain rfl := Option.some.inj hi
      exact absurd hbinds (by decide)
    · exact hpos
  exact ⟨Machine.reached_shadowing, hleast, hnearest 1 hleast,
    (((hany 2).2 0 (by decide)).2 _ (by decide)).1, (((hany 0).2 2 (by decide)).1 (by decide)).2,
    ((hany 3).1 (by decide)).1⟩

end LoxInterpreter
