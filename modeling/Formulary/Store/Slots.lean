/-
# Slots and keys

Nodes of a store are kept in numbered slots.  A slot counts its versions: the version is odd
while the slot holds a node and even while it is free.  A key names a slot and a version, so a
key of a node that was removed never names the node that uses the slot later.

Slot numbers start at 1; the slot 0 is never used.  A new node takes the slot that was freed
last, and a slot of its own only if none is free.
-/

namespace Formulary.Store

/-- The three kinds of nodes. -/
inductive NodeKind where
  | formula
  | definition
  | set
deriving DecidableEq, Repr

/-- The name of a node of a kind: a slot and the version that the slot had when it was
filled. -/
structure Key (kind : NodeKind) where
  /-- The number of the slot. -/
  slot : Nat
  /-- The version of the slot. -/
  version : Nat
deriving DecidableEq, Repr

/-- A place for a node. -/
structure Slot (α : Type) where
  /-- How often the slot was filled or freed. -/
  version : Nat
  /-- The node in the slot, if it is not free. -/
  node? : Option α
deriving Repr

/-- The nodes of one kind. -/
structure Slots (kind : NodeKind) (α : Type) where
  /-- The slots, the unused slot 0 first. -/
  slots : List (Slot α)
  /-- The free slots, the one freed last first. -/
  free : List Nat
deriving Repr

namespace Slots

variable {kind : NodeKind} {α : Type}

/-- No nodes. -/
def empty : Slots kind α := ⟨[⟨0, none⟩], []⟩

/-- The node that a key names. -/
def get? (s : Slots kind α) (key : Key kind) : Option α :=
  match s.slots[key.slot]? with
  | some slot => if slot.version = key.version then slot.node? else none
  | none => none

/-- The key under which the next node will be stored. -/
def nextKey (s : Slots kind α) : Key kind :=
  match s.free with
  | i :: _ => ⟨i, (s.slots[i]?.map Slot.version).getD 0 + 1⟩
  | [] => ⟨s.slots.length, 1⟩

/-- Stores a node under `nextKey`. -/
def insert (s : Slots kind α) (node : α) : Slots kind α :=
  let slot : Slot α := ⟨s.nextKey.version, some node⟩
  match s.free with
  | i :: free => ⟨s.slots.set i slot, free⟩
  | [] => ⟨s.slots ++ [slot], []⟩

/-- Replaces the node that a key names, if there is one. -/
def modify (s : Slots kind α) (key : Key kind) (f : α → α) : Slots kind α :=
  match s.get? key with
  | some node => { s with slots := s.slots.set key.slot ⟨key.version, some (f node)⟩ }
  | none => s

/-- Removes the node that a key names, if there is one, and frees its slot. -/
def remove (s : Slots kind α) (key : Key kind) : Slots kind α :=
  match s.get? key with
  | some _ => ⟨s.slots.set key.slot ⟨key.version + 1, none⟩, key.slot :: s.free⟩
  | none => s

/-- The number of nodes. -/
def size (s : Slots kind α) : Nat := s.slots.countP (·.node?.isSome)

/-- The nodes with their keys, in the order of the slots. -/
def entries (s : Slots kind α) : List (Key kind × α) :=
  s.slots.zipIdx.filterMap fun (slot, i) => slot.node?.map fun node => (⟨i, slot.version⟩, node)

/-- Removing a node makes room. -/
theorem size_remove_lt {s : Slots kind α} {key : Key kind} {node : α}
    (h : s.get? key = some node) : (s.remove key).size < s.size := by
  unfold get? at h
  split at h
  · rename_i slot hslot
    split at h
    · obtain ⟨hi, rfl⟩ := List.getElem?_eq_some_iff.mp hslot
      have hp : (s.slots[key.slot]).node?.isSome = true := by rw [h]; rfl
      have hpos : 0 < s.slots.countP (·.node?.isSome) :=
        List.countP_pos_iff.mpr ⟨_, List.getElem_mem hi, hp⟩
      have hget : s.get? key = some node := by
        unfold get?; rw [hslot]; simp_all
      simp only [remove, hget, size, List.countP_set hi, hp, Option.isSome_none, if_true,
        Bool.false_eq_true, if_false]
      omega
    · cases h
  · cases h

end Slots

end Formulary.Store
