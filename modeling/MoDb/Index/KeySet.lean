import MoDb.Error
import MoDb.Index.Key

/-!
# Indexes as sorted sets

What a B+ tree holds: entries in increasing order, without duplicates.
-/

namespace MoDb.Index

open Storage

/-- `header_size` of a node. -/
def nodeHeaderSize : Nat := 32

/-- `node_capacity`. -/
def nodeCapacity [PageSize] : Nat := pageSize - nodeHeaderSize

/-- `slot_size`. -/
def nodeSlotSize : Nat := 2

/-- `cell_bytes`. -/
def cellBytes (keyLength : Nat) (leaf : Bool) : Nat := 2 + keyLength + 8 + if leaf then 0 else 8

/-- The size check of `BTree::insert`. -/
def keyTooLarge [PageSize] (key : Bytes) : Bool :=
  nodeCapacity / 2 < cellBytes key.length false + nodeSlotSize

@[ext]
structure KeySet where
  entries : List Entry
  sorted : Sorted entries

namespace KeySet

def empty : KeySet := ⟨[], List.Pairwise.nil⟩

/-- `BTree::insert`. -/
def insert [PageSize] (tree : KeySet) (key : Bytes) (id : Nat) : Except Error KeySet :=
  if keyTooLarge key then .error ⟨.valueTooLarge, "index key is too large for a B+ tree node"⟩
  else if hmem : (key, id) ∈ tree.entries then .error ⟨.invalidArgument, "duplicate index entry"⟩
  else .ok ⟨insertEntry (key, id) tree.entries, tree.sorted.insertEntry hmem⟩

/-- `BTree::remove`. -/
def remove (tree : KeySet) (key : Bytes) (id : Nat) : Except Error KeySet :=
  if (key, id) ∈ tree.entries then
    .ok ⟨tree.entries.erase (key, id), tree.sorted.sublist List.erase_sublist⟩
  else .error ⟨.recordNotFound, "index entry not found"⟩

/-- `BTree::range`. -/
def range (tree : KeySet) (lo hi : Bytes) : List Nat :=
  (tree.entries.filter fun entry => inBounds lo hi entry.1).map Prod.snd

theorem mem_of_insert [PageSize] {tree tree' : KeySet} {key : Bytes} {id : Nat}
    (h : tree.insert key id = .ok tree') (e : Entry) :
    e ∈ tree'.entries ↔ e = (key, id) ∨ e ∈ tree.entries := by
  unfold insert at h
  split at h
  · injection h
  · split at h
    · injection h
    · injection h with htree
      rw [← htree]
      exact mem_insertEntry

theorem mem_of_remove {tree tree' : KeySet} {key : Bytes} {id : Nat}
    (h : tree.remove key id = .ok tree') (e : Entry) :
    e ∈ tree'.entries ↔ e ≠ (key, id) ∧ e ∈ tree.entries := by
  unfold remove at h
  split at h
  · injection h with htree
    rw [← htree]
    exact tree.sorted.nodup.mem_erase_iff
  · injection h

theorem not_mem_of_remove_error {tree : KeySet} {key : Bytes} {id : Nat} {error : Error}
    (h : tree.remove key id = .error error) :
    (key, id) ∉ tree.entries ∧ error.code = .recordNotFound := by
  unfold remove at h
  split at h
  · injection h
  · rename_i hnot
    injection h with herror
    exact ⟨hnot, herror ▸ rfl⟩

end KeySet

end MoDb.Index
