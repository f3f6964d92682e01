import LoxInterpreter.Text.Quoted

/-!
# Frames

A frame holds bindings and may be enclosed by another; frames that share an enclosing frame see
each other's changes to it. A `Forest` holds all frames ever made, numbered in order of creation.
A new frame is enclosed by an older one, so that every way outward ends.

* `Forest.chain` lists the frames from one outward; searches by name go along it.
* `Forest.ancestor?` goes outward by a number of steps; accesses by distance start from there.
* `Forest.define` is the only operation that changes bindings. It changes one
  (`Forest.lookup?_define`) and no way outward (`Forest.ancestor?_define`, `Forest.chain_define`).
-/

namespace LoxInterpreter

/-- Frames are named by their number in order of creation. -/
abbrev FrameId := Nat

/-- Bindings of names, each name at most once, and the enclosing frame. -/
structure Frame (α : Type) where
  enclosing : Option FrameId
  bindings : List (String × α)
  deriving Inhabited

/-- Bind a name, in place of an earlier binding if there is one. -/
def bindName {α : Type} (name : String) (value : α) : List (String × α) → List (String × α)
  | [] => [(name, value)]
  | (other, old) :: rest =>
    if other = name then (name, value) :: rest else (other, old) :: bindName name value rest

/-- Binding a name changes what that name is bound to, and nothing else. -/
@[simp]
theorem lookup_bindName {α : Type} (name other : String) (value : α)
    (bindings : List (String × α)) :
    (bindName name value bindings).lookup other =
      if other = name then some value else bindings.lookup other := by
  induction bindings with
  | nil => simp only [bindName, List.lookup_cons, List.lookup_nil]; grind
  | cons head rest ih =>
    obtain ⟨first, old⟩ := head
    unfold bindName
    split <;> grind

/-- What is bound after a name has been bound is the new binding or was bound before. -/
theorem mem_bindName {α : Type} {b : String × α} {x : String} {v : α}
    {bindings : List (String × α)} (h : b ∈ bindName x v bindings) :
    b = (x, v) ∨ b ∈ bindings := by
  induction bindings with
  | nil => exact .inl (List.mem_singleton.mp h)
  | cons head rest ih =>
    obtain ⟨y, w⟩ := head
    rw [bindName] at h
    split at h
    · exact (List.mem_cons.mp h).imp_right (List.mem_cons_of_mem _)
    · rcases List.mem_cons.mp h with rfl | h
      · exact .inr List.mem_cons_self
      · exact (ih h).imp_right (List.mem_cons_of_mem _)

/-- Binding a name binds it once. -/
theorem nodup_bindName {α : Type} {bindings : List (String × α)}
    (h : (bindings.map Prod.fst).Nodup) (x : String) (v : α) :
    ((bindName x v bindings).map Prod.fst).Nodup := by
  induction bindings with
  | nil => exact List.nodup_cons.mpr ⟨List.not_mem_nil, List.nodup_nil⟩
  | cons head rest ih =>
    obtain ⟨y, w⟩ := head
    obtain ⟨hy, hrest⟩ := List.nodup_cons.mp h
    rw [bindName]
    split
    · next heq =>
      subst heq
      exact List.nodup_cons.mpr ⟨hy, hrest⟩
    · next hne =>
      refine List.nodup_cons.mpr ⟨fun hmem => ?_, ih hrest⟩
      obtain ⟨b, hb, hby⟩ := List.mem_map.mp hmem
      rcases mem_bindName hb with rfl | hold
      · exact hne hby.symm
      · exact hy (List.mem_map.mpr ⟨b, hold, hby⟩)

/-- All frames ever made. -/
structure Forest (α : Type) where
  frames : Array (Frame α)
  deriving Inhabited

/-- Why an access by distance fails. -/
inductive AccessError where
  /-- There are not as many enclosing frames. -/
  | offChain (distance : Nat)
  /-- The frame at that distance does not bind the name. -/
  | unbound (name : String)
  deriving DecidableEq, Repr

namespace Forest

variable {α : Type} (f : Forest α)

/-- No frame. -/
def empty : Forest α := ⟨#[]⟩

/-- The number of the next frame to be made. -/
def nextId : FrameId := f.frames.size

/-- Make a frame without bindings. Its number is the `nextId` of the forest before. -/
def push (enclosing : Option FrameId) : Forest α := ⟨f.frames.push ⟨enclosing, []⟩⟩

/-- Bind a name in a frame, in place of an earlier binding if there is one. -/
def define (id : FrameId) (name : String) (value : α) : Forest α :=
  ⟨f.frames.modify id fun frame => { frame with bindings := bindName name value frame.bindings }⟩

/-- What a frame itself binds a name to. -/
def lookup? (id : FrameId) (name : String) : Option α :=
  f.frames[id]?.bind fun frame => frame.bindings.lookup name

/-- A frame itself binds a name. -/
def binds (id : FrameId) (name : String) : Bool := (f.lookup? id name).isSome

/-- The frame that encloses a frame. -/
def enclosing? (id : FrameId) : Option FrameId := f.frames[id]?.bind Frame.enclosing

/-- At most `fuel` frames from one outward. -/
def chainWithin : Nat → FrameId → List FrameId
  | 0, _ => []
  | fuel + 1, id =>
    id :: match f.enclosing? id with
      | some outer => chainWithin fuel outer
      | none => []

/-- The frames from one outward. Numbers decrease on the way, which bounds it. -/
def chain (id : FrameId) : List FrameId := f.chainWithin (id + 1) id

/-! ### Search by name -/

/-- The nearest frame outward that binds a name. -/
def holder? (id : FrameId) (name : String) : Option FrameId :=
  (f.chain id).find? fun i => f.binds i name

/-- What a name means in a frame: its nearest binding outward. -/
def get? (id : FrameId) (name : String) : Option α :=
  (f.holder? id name).bind fun i => f.lookup? i name

/-- Change the nearest binding outward. -/
def assign? (id : FrameId) (name : String) (value : α) : Option (Forest α) :=
  (f.holder? id name).map fun i => f.define i name value

/-! ### Access by distance -/

/-- The frame that many steps outward. -/
def ancestor? : Nat → FrameId → Option FrameId
  | 0, id => some id
  | distance + 1, id => (f.enclosing? id).bind (ancestor? distance)

/-- The frame that many steps outward, if it binds the name. -/
def holderAt (id : FrameId) (distance : Nat) (name : String) : Except AccessError FrameId :=
  match f.ancestor? distance id with
  | none => .error (.offChain distance)
  | some i => if f.binds i name then .ok i else .error (.unbound name)

/-- What the frame that many steps outward binds a name to. -/
def getAt (id : FrameId) (distance : Nat) (name : String) : Except AccessError α :=
  match f.ancestor? distance id with
  | none => .error (.offChain distance)
  | some i =>
    match f.lookup? i name with
    | some value => .ok value
    | none => .error (.unbound name)

variable {f} in
/-- A frame that binds the name is found by its distance. -/
theorem holderAt_eq_ok {id i : FrameId} {distance : Nat} {name : String}
    (hi : f.ancestor? distance id = some i) (hbinds : f.binds i name) :
    f.holderAt id distance name = .ok i := by
  rw [holderAt, hi]
  exact if_pos hbinds

variable {f} in
/-- What it binds the name to is found by its distance. -/
theorem getAt_eq_ok {id i : FrameId} {distance : Nat} {name : String} {value : α}
    (hi : f.ancestor? distance id = some i) (hvalue : f.lookup? i name = some value) :
    f.getAt id distance name = .ok value := by
  rw [getAt, hi]
  dsimp only
  rw [hvalue]

/-- Change a binding of the frame that many steps outward. -/
def assignAt (id : FrameId) (distance : Nat) (name : String) (value : α) :
    Except AccessError (Forest α) :=
  match f.holderAt id distance name with
  | .ok i => .ok (f.define i name value)
  | .error e => .error e

/-! ### What making and binding change -/

/-- A new frame takes one number. -/
@[simp]
theorem nextId_push (enclosing : Option FrameId) : (f.push enclosing).nextId = f.nextId + 1 := by
  simp [push, nextId]

/-- A new frame has the enclosing frame that it is made with, and changes no other. -/
theorem enclosing?_push (enclosing : Option FrameId) (i : FrameId) :
    (f.push enclosing).enclosing? i = if i = f.nextId then enclosing else f.enclosing? i := by
  unfold enclosing? push nextId
  rw [Array.getElem?_push]
  split <;> rfl

/-- A new frame binds nothing, and changes no binding. -/
@[simp]
theorem lookup?_push (enclosing : Option FrameId) (i : FrameId) (name : String) :
    (f.push enclosing).lookup? i name = f.lookup? i name := by
  unfold lookup? push
  rw [Array.getElem?_push]
  split
  · next h =>
    subst h
    simp
  · rfl

/-- Binding a name makes no frame. -/
@[simp]
theorem nextId_define (id : FrameId) (name : String) (value : α) :
    (f.define id name value).nextId = f.nextId := by
  simp [define, nextId]

/-- Binding a name encloses no frame anew. -/
@[simp]
theorem enclosing?_define (id i : FrameId) (name : String) (value : α) :
    (f.define id name value).enclosing? i = f.enclosing? i := by
  by_cases h : id = i
  · subst h
    cases hf : f.frames[id]? <;> simp [enclosing?, define, Array.getElem?_modify, hf]
  · simp [enclosing?, define, Array.getElem?_modify, h]

/-- Binding a name in a frame changes what that frame binds that name to, and nothing else. -/
theorem lookup?_define (id i : FrameId) (name other : String) (value : α) (h : id < f.nextId) :
    (f.define id name value).lookup? i other =
      if i = id ∧ other = name then some value else f.lookup? i other := by
  by_cases hi : id = i
  · subst hi
    have hs : id < f.frames.size := h
    simp [lookup?, define, hs, Array.getElem_modify]
  · simp [lookup?, define, Array.getElem?_modify, hi, Ne.symm hi]

/-- Binding a name changes no way outward. -/
@[simp]
theorem ancestor?_define (id i : FrameId) (name : String) (value : α) (distance : Nat) :
    (f.define id name value).ancestor? distance i = f.ancestor? distance i := by
  induction distance generalizing i with
  | zero => rfl
  | succ distance ih => simp [ancestor?, funext ih]

/-- Binding a name changes no part of a chain. -/
@[simp]
theorem chainWithin_define (id i : FrameId) (name : String) (value : α) (fuel : Nat) :
    (f.define id name value).chainWithin fuel i = f.chainWithin fuel i := by
  induction fuel generalizing i with
  | zero => rfl
  | succ fuel ih => simp [chainWithin, ih]

/-- Binding a name changes no chain. -/
@[simp]
theorem chain_define (id i : FrameId) (name : String) (value : α) :
    (f.define id name value).chain i = f.chain i :=
  f.chainWithin_define id i name value (i + 1)

/-- The frame that a search by name finds does bind the name. -/
theorem binds_of_holder? {id i : FrameId} {name : String} (h : f.holder? id name = some i) :
    f.binds i name :=
  List.find?_some (p := fun i => f.binds i name) h

/-- A frame that binds the name is found first. -/
theorem holder?_of_binds {id : FrameId} {name : String} (h : f.binds id name) :
    f.holder? id name = some id := by
  rw [holder?, chain, chainWithin, List.find?_cons, h]

/-! ### Views -/

/-- The bindings of a frame in the order of their names. -/
def sorted (id : FrameId) : List (String × α) :=
  match f.frames[id]? with
  | some frame => frame.bindings.mergeSort fun a b => decide (a.1 ≤ b.1)
  | none => []

/-- A frame on one line: how many frames enclose it, and the names it binds. -/
def describe (id : FrameId) : String :=
  "<Environment depth=" ++ toString ((f.chain id).length - 1) ++ " " ++
    Quoted.encodeList ((f.sorted id).map Prod.fst) ++ ">"

end Forest

end LoxInterpreter
