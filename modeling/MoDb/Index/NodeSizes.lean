import MoDb.Index.BTree

/-!
# Bytes of nodes

Where a node that is too full is cut. The left half never has more than half a page, as no entry has.
What is left over for the right half depends on the entry at the cut: it fits when all entries have
the same size, and not in general.
-/

namespace MoDb.Index

open Storage

@[simp]
theorem totalBytes_nil (leaf : Bool) : totalBytes [] leaf = 0 := rfl

@[simp]
theorem totalBytes_cons (entry : Entry) (entries : List Entry) (leaf : Bool) :
    totalBytes (entry :: entries) leaf = entryBytes leaf entry + totalBytes entries leaf := rfl

theorem totalBytes_sublist {first second : List Entry} (h : first.Sublist second) (leaf : Bool) :
    totalBytes first leaf ≤ totalBytes second leaf := by
  induction h with
  | slnil => exact Nat.le_refl _
  | cons entry h ih => exact Nat.le_trans ih (Nat.le_add_left _ _)
  | cons_cons entry h ih => exact Nat.add_le_add_left ih _

theorem totalBytes_le_of_length {first second : List Entry} (leaf : Bool)
    (hsame : ∀ e ∈ first, ∀ e' ∈ second, e.1.length = e'.1.length)
    (hlength : first.length ≤ second.length) : totalBytes first leaf ≤ totalBytes second leaf := by
  induction first generalizing second with
  | nil => exact Nat.zero_le _
  | cons e first ih =>
    cases second with
    | nil => exact absurd hlength (Nat.not_succ_le_zero _)
    | cons e' second =>
      have hhead : entryBytes leaf e = entryBytes leaf e' := by
        simp only [entryBytes, hsame e List.mem_cons_self e' List.mem_cons_self]
      have htail := ih (fun a ha b hb =>
        hsame a (List.mem_cons_of_mem e ha) b (List.mem_cons_of_mem e' hb))
        (Nat.le_of_succ_le_succ hlength)
      calc totalBytes (e :: first) leaf
          = entryBytes leaf e' + totalBytes first leaf := by rw [totalBytes_cons, hhead]
        _ ≤ entryBytes leaf e' + totalBytes second leaf := Nat.add_le_add_left htail _
        _ = totalBytes (e' :: second) leaf := (totalBytes_cons e' second leaf).symm

theorem entryBytes_leaf_le (entry : Entry) : entryBytes true entry ≤ entryBytes false entry := by
  simp [entryBytes, cellBytes]

section Split

variable [PageSize] {leaf : Bool} {used i : Nat} {entries : List Entry}

/-- Keys that `insert` takes. -/
def Accepted (entry : Entry) : Prop := keyTooLarge entry.1 = false

theorem Accepted.bytes_le {entry : Entry} (h : Accepted entry) (leaf : Bool) :
    entryBytes leaf entry ≤ nodeCapacity / 2 := by
  have hinner : entryBytes false entry ≤ nodeCapacity / 2 := by
    unfold Accepted keyTooLarge at h
    exact Nat.not_lt.1 (of_decide_eq_false h)
  cases leaf with
  | false => exact hinner
  | true => exact Nat.le_trans (entryBytes_leaf_le entry) hinner

theorem fits_iff : fits entries leaf = true ↔ totalBytes entries leaf ≤ nodeCapacity := by
  simp [fits]

theorem underfull_iff :
    underfull entries leaf = true ↔ totalBytes entries leaf < nodeCapacity / 3 := by
  simp [underfull]

theorem fits_of_sublist {entries' : List Entry} (h : entries'.Sublist entries)
    (hfits : fits entries leaf = true) : fits entries' leaf = true :=
  fits_iff.2 (Nat.le_trans (totalBytes_sublist h leaf) (fits_iff.1 hfits))

theorem ne_nil_of_not_underfull {other : List Entry} {kind : Bool}
    (h : underfull entries leaf = false) (hunder : underfull other kind = true) : entries ≠ [] := by
  rintro rfl
  rw [underfull_iff] at hunder
  rw [← Bool.not_eq_true, underfull_iff, totalBytes_nil] at h
  omega

/-! ### The cut -/

theorem splitScan_eq (hused : used ≤ nodeCapacity / 2)
    (hbytes : ∀ entry ∈ entries, entryBytes leaf entry ≤ nodeCapacity / 2) (hstart : i = 0 → used = 0)
    (hover : nodeCapacity / 2 < used + totalBytes entries leaf) :
    ∃ left entry right, entries = left ++ entry :: right ∧
      splitScan leaf used i entries = some (i + left.length) ∧ 0 < i + left.length ∧
        used + totalBytes left leaf ≤ nodeCapacity / 2 ∧
          nodeCapacity / 2 < used + totalBytes left leaf + entryBytes leaf entry := by
  induction entries generalizing used i with
  | nil => exact absurd hover (Nat.not_lt.2 hused)
  | cons entry entries ih =>
    rw [splitScan]
    split
    · rename_i hcut
      exact ⟨[], entry, entries, rfl, rfl, hcut.2, hused, hcut.1⟩
    · rename_i hcut
      have hentry := hbytes entry List.mem_cons_self
      have hnext : used + entryBytes leaf entry ≤ nodeCapacity / 2 := by omega
      rw [totalBytes_cons, ← Nat.add_assoc] at hover
      obtain ⟨left, cut, right, rfl, hscan, hpos, hleft, hright⟩ :=
        @ih (used + entryBytes leaf entry) (i + 1) hnext
          (fun e he => hbytes e (List.mem_cons_of_mem _ he)) (fun h => absurd h (Nat.succ_ne_zero i))
          hover
      refine ⟨entry :: left, cut, right, rfl, ?_, ?_, ?_, ?_⟩
      · rw [hscan, List.length_cons]
        congr 1
        omega
      · rw [List.length_cons]
        omega
      · rw [totalBytes_cons]
        omega
      · rw [totalBytes_cons]
        omega

theorem splitPoint_eq (haccepted : ∀ entry ∈ entries, Accepted entry)
    (hfull : fits entries leaf = false) :
    ∃ left entry right, entries = left ++ entry :: right ∧ left ≠ [] ∧
      splitPoint entries leaf = left.length ∧ totalBytes left leaf ≤ nodeCapacity / 2 ∧
        nodeCapacity / 2 < totalBytes left leaf + entryBytes leaf entry := by
  rw [← Bool.not_eq_true, fits_iff] at hfull
  obtain ⟨left, entry, right, rfl, hscan, hpos, hleft, hright⟩ :=
    @splitScan_eq _ leaf 0 0 entries (Nat.zero_le _) (fun e he => (haccepted e he).bytes_le leaf)
      (fun _ => rfl) (by omega)
  rw [Nat.zero_add] at hscan hpos hleft hright
  refine ⟨left, entry, right, rfl, List.ne_nil_of_length_pos hpos, ?_, hleft, hright⟩
  unfold splitPoint
  rw [hscan]
  have hlt : ¬(left ++ entry :: right).length ≤ left.length := by
    rw [List.length_append, List.length_cons]
    omega
  dsimp only
  rw [Option.getD_some, if_neg (Nat.ne_of_gt hpos), if_neg hlt]

end Split

end MoDb.Index
