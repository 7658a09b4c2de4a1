import Mathlib.Data.List.Nodup
import Mathlib.Data.List.Perm.Basic
import Mathlib.Data.List.Infix

/-!
# Selection from lists

Stable sorting by a strict weak order, the best elements through a heap, and the first element of
each key. A heap is whatever keeps the promises of the usual heap algorithms on vectors: which of
several equivalent elements comes first is open.
-/

namespace Selection

variable {α κ : Type}

/-- A comparator that is a strict weak order. -/
structure Order (α : Type) where
  less : α → α → Bool
  asymm : ∀ {a b}, less a b = true → less b a = false
  cotrans : ∀ {a c} (b), less a c = true → less a b = true ∨ less b c = true

namespace Order

variable (order : Order α)

def flip : Order α where
  less a b := order.less b a
  asymm := order.asymm
  cotrans b hless := (order.cotrans b hless).symm

/-- `a` may stand before `b`. -/
def le (a b : α) : Bool := !order.less b a

@[simp]
theorem le_iff {a b : α} : order.le a b = true ↔ order.less b a = false := by
  simp [le]

theorem le_trans {a b c : α} (hab : order.le a b = true) (hbc : order.le b c = true) :
    order.le a c = true := by
  rw [le_iff] at hab hbc ⊢
  by_contra hca
  rcases order.cotrans b (Bool.not_eq_false _ ▸ hca) with hless | hless
  · rw [hbc] at hless
    cases hless
  · rw [hab] at hless
    cases hless

theorem le_total (a b : α) : (order.le a b || order.le b a) = true := by
  cases hba : order.less b a with
  | false => simp [le, hba]
  | true => simp [le, order.asymm hba]

theorem le_of_less {a b : α} (hless : order.less a b = true) : order.le a b = true :=
  (order.le_iff).2 (order.asymm hless)

def Sorted (rows : List α) : Prop := rows.Pairwise fun a b => order.le a b = true

def stableSort (rows : List α) : List α := rows.mergeSort order.le

theorem stableSort_perm (rows : List α) : (order.stableSort rows).Perm rows :=
  List.mergeSort_perm rows order.le

theorem sorted_stableSort (rows : List α) : order.Sorted (order.stableSort rows) :=
  @List.pairwise_mergeSort α order.le (fun _ _ _ => order.le_trans) order.le_total rows

end Order

/-! ### The best elements -/

/-- The heap algorithms on vectors, for one comparator. The last element of the vector is the one to
push, and a pop moves the greatest to the end. -/
structure Heap (order : Order α) where
  push : List α → List α
  pop : List α → List α
  sort : List α → List α
  IsHeap : List α → Prop
  isHeap_nil : IsHeap []
  front_max : ∀ {front rest}, IsHeap (front :: rest) → ∀ row ∈ rest, order.less front row = false
  push_heap : ∀ {rows}, IsHeap rows → ∀ row,
    IsHeap (push (rows ++ [row])) ∧ (push (rows ++ [row])).Perm (rows ++ [row])
  pop_heap : ∀ {front rest}, IsHeap (front :: rest) →
    ∃ kept, pop (front :: rest) = kept ++ [front] ∧ IsHeap kept ∧ kept.Perm rest
  sort_heap : ∀ {rows}, IsHeap rows → order.Sorted (sort rows) ∧ (sort rows).Perm rows

namespace Heap

variable {order : Order α}

def ofSorted (order : Order α) : Heap order where
  push := order.flip.stableSort
  pop rows := rows.tail ++ rows.take 1
  sort := order.stableSort
  IsHeap := order.flip.Sorted
  isHeap_nil := List.Pairwise.nil
  front_max h row hrow := (order.flip.le_iff).1 ((List.pairwise_cons.1 h).1 row hrow)
  push_heap _ _ := ⟨order.flip.sorted_stableSort _, order.flip.stableSort_perm _⟩
  pop_heap {_ rest} h := ⟨rest, rfl, (List.pairwise_cons.1 h).2, List.Perm.refl rest⟩
  sort_heap _ := ⟨order.sorted_stableSort _, order.stableSort_perm _⟩

/-- Offer a row to a heap of the `k` first, whose front is the last of them. -/
def offer (heap : Heap order) (k : Nat) (rows : List α) (row : α) : List α :=
  if rows.length < k then heap.push (rows ++ [row])
  else
    match rows with
    | [] => []
    | front :: rest =>
      if order.less row front then heap.push ((heap.pop (front :: rest)).dropLast ++ [row])
      else front :: rest

/-- The heap has the `k` first of the rows, and the others are not before them. -/
structure Selects (heap : Heap order) (k : Nat) (seen rows left : List α) : Prop where
  isHeap : heap.IsHeap rows
  perm : (rows ++ left).Perm seen
  length_le : rows.length ≤ k
  full : left ≠ [] → rows.length = k
  first : ∀ row ∈ rows, ∀ other ∈ left, order.le row other = true

theorem front_le (heap : Heap order) {front : α} {rest : List α}
    (h : heap.IsHeap (front :: rest)) {row : α} (hrow : row ∈ front :: rest) :
    order.le row front = true := by
  rcases List.mem_cons.1 hrow with rfl | hrest
  · have hself := order.le_total row row
    rwa [Bool.or_self] at hself
  · exact (order.le_iff).2 (heap.front_max h row hrest)

theorem Selects.offer {heap : Heap order} {k : Nat} (hk : 0 < k) {seen rows left : List α}
    (h : heap.Selects k seen rows left) (row : α) :
    ∃ left', heap.Selects k (seen ++ [row]) (heap.offer k rows row) left' := by
  have happend : ∀ {rows' left' : List α}, (rows' ++ left').Perm (rows ++ left ++ [row]) →
      (rows' ++ left').Perm (seen ++ [row]) :=
    fun hperm => hperm.trans (h.perm.append_right [row])
  unfold Heap.offer
  split
  · rename_i hlength
    obtain ⟨hheap, hperm⟩ := heap.push_heap h.isHeap row
    have hleft : left = [] := by
      by_contra hleft
      have := h.full hleft
      omega
    subst hleft
    refine ⟨[], hheap, happend ?_, ?_, fun hne => absurd rfl hne, fun _ _ _ hin => by cases hin⟩
    · simpa using hperm
    · rw [hperm.length_eq, List.length_append, List.length_singleton]
      exact hlength
  · rename_i hlength
    have hfull : rows.length = k := by
      have := h.length_le
      omega
    cases rows with
    | nil =>
      rw [List.length_nil] at hfull
      omega
    | cons front rest =>
      dsimp only
      split
      · rename_i hless
        obtain ⟨kept, hpop, hkept, hrest⟩ := heap.pop_heap h.isHeap
        rw [hpop, List.dropLast_concat]
        obtain ⟨hheap, hperm⟩ := heap.push_heap hkept row
        have hlengths : kept.length = rest.length := hrest.length_eq
        refine ⟨front :: left, hheap, happend ?_, ?_, fun _ => ?_, ?_⟩
        · calc (heap.push (kept ++ [row]) ++ front :: left).Perm (rest ++ [row] ++ front :: left) :=
              (hperm.trans (hrest.append_right [row])).append_right _
            _ |>.Perm (front :: (rest ++ [row] ++ left)) := List.perm_middle
            _ |>.Perm (front :: (rest ++ left ++ [row])) := by
              apply List.Perm.cons
              rw [List.append_assoc, List.append_assoc]
              exact List.perm_append_comm.append_left rest
        · rw [hperm.length_eq, List.length_append, List.length_singleton, hlengths]
          exact Nat.le_of_eq hfull
        · rw [hperm.length_eq, List.length_append, List.length_singleton, hlengths]
          exact hfull
        · intro a ha b hb
          -- Every row that stays is at most the front, and the front at most what was left out.
          have hfront : order.le a front = true := by
            rcases List.mem_append.1 (hperm.mem_iff.1 ha) with hin | hin
            · exact heap.front_le h.isHeap (List.mem_cons_of_mem front (hrest.mem_iff.1 hin))
            · rw [List.mem_singleton.1 hin]
              exact order.le_of_less hless
          rcases List.mem_cons.1 hb with rfl | hb
          · exact hfront
          · exact order.le_trans hfront (h.first front List.mem_cons_self b hb)
      · rename_i hless
        have hle : order.le front row = true := (order.le_iff).2 (Bool.not_eq_true _ ▸ hless)
        refine ⟨left ++ [row], h.isHeap, happend ?_, h.length_le, fun _ => hfull, ?_⟩
        · rw [List.append_assoc]
        · intro a ha b hb
          rcases List.mem_append.1 hb with hb | hb
          · exact h.first a ha b hb
          · rw [List.mem_singleton.1 hb]
            exact order.le_trans (heap.front_le h.isHeap ha) hle

theorem Selects.foldl {heap : Heap order} {k : Nat} (hk : 0 < k) (more : List α) :
    ∀ {seen rows left : List α}, heap.Selects k seen rows left →
      ∃ left', heap.Selects k (seen ++ more) (more.foldl (heap.offer k) rows) left' := by
  induction more with
  | nil =>
    intro seen rows left h
    exact ⟨left, by rwa [List.append_nil]⟩
  | cons row more ih =>
    intro seen rows left h
    obtain ⟨left', h'⟩ := h.offer hk row
    obtain ⟨left'', h''⟩ := ih h'
    rw [List.append_assoc] at h''
    exact ⟨left'', h''⟩

end Heap

/-! ### The first of each key -/

variable [DecidableEq κ] (key : α → κ)

def distinct : List κ → List α → List α
  | _, [] => []
  | seen, row :: rest =>
    if key row ∈ seen then distinct seen rest else row :: distinct (key row :: seen) rest

variable {key}

variable (key)

variable {key}

end Selection
