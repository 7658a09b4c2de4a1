import MoDb.Index.NodePages
import MoDb.Index.NodeSizes
import MoDb.Lib.Levels

/-!
# The tree behind the pages

What the pages of a tree stand for: its leaves from left to right, and above them the levels of inner
nodes. Every node has a part of the keys, which begins at the entry `low`; for the first leaf that is
the least entry there is. The two kinds of node differ in what they hold; what `Row` asks of a kind
is all that a call needs to move entries between neighbours.
-/

namespace MoDb.Index

open Storage Effect Levels

structure Leaf where
  low : Entry
  id : Nat
  entries : List Entry

abbrev Inner := Group Entry Nat

/-- The separators of an inner node: where the parts of its children begin, but for the first. -/
def separators (inner : Inner) : List Entry := inner.children.tail.map Prod.fst

/-! ### Order -/

/-- The start of a part, or an entry in it. -/
abbrev Mark := Entry × Bool

def Before (a b : Mark) : Prop :=
  entryLess a.1 b.1 = true ∨ a.1 = b.1 ∧ a.2 = false ∧ b.2 = true

theorem Before.trans {a b c : Mark} (hab : Before a b) (hbc : Before b c) : Before a c := by
  rcases hab with hab | ⟨hab, -, hb⟩
  · rcases hbc with hbc | ⟨hbc, -⟩
    · exact .inl (entryLess_trans hab hbc)
    · exact .inl (hbc ▸ hab)
  · rcases hbc with hbc | ⟨-, hb', -⟩
    · exact .inl (hab ▸ hbc)
    · rw [hb] at hb'
      exact absurd hb' (by decide)

theorem before_entry {a b : Entry} {kind : Bool} :
    Before (a, true) (b, kind) ↔ entryLess a b = true := by
  simp [Before]

theorem before_start {a b : Entry} {kind : Bool} :
    Before (a, kind) (b, false) ↔ entryLess a b = true := by
  simp [Before]

theorem pairwise_insert {first second : List Mark} {m : Mark}
    (h : (first ++ second).Pairwise Before) (hfirst : ∀ a ∈ first, Before a m)
    (hsecond : ∀ b ∈ second, Before m b) : (first ++ m :: second).Pairwise Before := by
  rw [List.pairwise_append] at h ⊢
  refine ⟨h.1, List.pairwise_cons.2 ⟨hsecond, h.2.1⟩, fun a ha b hb => ?_⟩
  rcases List.mem_cons.1 hb with rfl | hb
  · exact hfirst a ha
  · exact h.2.2 a ha b hb

namespace Leaf

def item (leaf : Leaf) : Entry × Nat := (leaf.low, leaf.id)

def marks (leaf : Leaf) : List Mark := (leaf.low, false) :: leaf.entries.map fun e => (e, true)

end Leaf

def walk (leaves : List Leaf) : List Mark := leaves.flatMap Leaf.marks

@[simp]
theorem walk_nil : walk [] = [] := rfl

@[simp]
theorem walk_cons (leaf : Leaf) (leaves : List Leaf) :
    walk (leaf :: leaves) = leaf.marks ++ walk leaves := List.flatMap_cons

@[simp]
theorem walk_append (first second : List Leaf) : walk (first ++ second) = walk first ++ walk second :=
  List.flatMap_append

def InOrder (leaves : List Leaf) : Prop := (walk leaves).Pairwise Before

def contents (leaves : List Leaf) : List Entry := leaves.flatMap Leaf.entries

@[simp]
theorem contents_nil : contents [] = [] := rfl

@[simp]
theorem contents_cons (leaf : Leaf) (leaves : List Leaf) :
    contents (leaf :: leaves) = leaf.entries ++ contents leaves := List.flatMap_cons

@[simp]
theorem contents_append (first second : List Leaf) :
    contents (first ++ second) = contents first ++ contents second := List.flatMap_append

theorem contents_sublist (leaves : List Leaf) :
    ((contents leaves).map fun e => (e, true)).Sublist (walk leaves) := by
  induction leaves with
  | nil => exact List.Sublist.refl _
  | cons leaf leaves ih =>
    rw [contents_cons, List.map_append, walk_cons]
    exact (List.sublist_cons_self _ _).append ih

theorem lows_sublist (leaves : List Leaf) :
    ((leaves.map Leaf.low).map fun e => (e, false)).Sublist (walk leaves) := by
  induction leaves with
  | nil => exact List.Sublist.refl _
  | cons leaf leaves ih =>
    rw [walk_cons, List.map_cons, List.map_cons, Leaf.marks, List.cons_append]
    exact (ih.trans (List.sublist_append_right _ _)).cons_cons _

namespace InOrder

variable {leaves before after : List Leaf} {low low' : Entry} {id id' : Nat}
  {left right : List Entry} {e : Entry}

theorem sorted (h : InOrder leaves) : Sorted (contents leaves) := by
  have hmap := List.Pairwise.sublist (contents_sublist leaves) h
  rw [List.pairwise_map] at hmap
  exact hmap.imp before_entry.1

theorem lows (h : InOrder leaves) :
    (leaves.map Leaf.low).Pairwise fun a b => entryLess a b = true := by
  have hmap := List.Pairwise.sublist (lows_sublist leaves) h
  rw [List.pairwise_map] at hmap
  exact hmap.imp before_start.1

theorem before_of_mem (h : InOrder leaves) {leaf : Leaf} (hleaf : leaf ∈ leaves)
    (he : e ∈ leaf.entries) : Before (leaf.low, false) (e, true) := by
  have hmarks : leaf.marks.Sublist (walk leaves) := by
    rw [walk, List.flatMap_def]
    exact List.sublist_flatten_of_mem (List.mem_map_of_mem hleaf)
  have hpair := List.Pairwise.sublist hmarks h
  exact (List.pairwise_cons.1 hpair).1 _ (List.mem_map_of_mem he)

theorem joined (h : InOrder (before ++ ⟨low, id, left⟩ :: ⟨low', id', right⟩ :: after)) :
    InOrder (before ++ ⟨low, id, left ++ right⟩ :: after) := by
  refine List.Pairwise.sublist ?_ h
  simp only [walk_append, walk_cons, Leaf.marks, List.map_append, List.cons_append,
    List.append_assoc]
  exact (List.Sublist.refl _).append (((List.Sublist.refl _).append (List.sublist_cons_self _ _)).cons_cons _)

theorem cut (h : InOrder (before ++ ⟨low, id, left ++ e :: right⟩ :: after)) (hleft : left ≠ []) :
    InOrder (before ++ ⟨low, id, left⟩ :: ⟨e, id', e :: right⟩ :: after) := by
  obtain ⟨init, last, rfl⟩ := List.eq_nil_or_concat' left |>.resolve_left hleft
  have hwalk : walk (before ++ ⟨low, id, init ++ [last] ++ e :: right⟩ :: after) =
      (walk before ++ (low, false) :: (init ++ [last]).map fun e => (e, true)) ++
        ((e, true) :: right.map (fun e => (e, true)) ++ walk after) := by
    simp [Leaf.marks]
  have hgoal : walk (before ++ ⟨low, id, init ++ [last]⟩ :: ⟨e, id', e :: right⟩ :: after) =
      (walk before ++ (low, false) :: (init ++ [last]).map fun e => (e, true)) ++
        (e, false) :: ((e, true) :: right.map (fun e => (e, true)) ++ walk after) := by
    simp [Leaf.marks]
  unfold InOrder at h ⊢
  rw [hwalk] at h
  rw [hgoal]
  have hparts := List.pairwise_append.1 h
  refine pairwise_insert h (fun a ha => ?_) fun b hb => ?_
  · -- Everything on the left is before the last entry there or is that entry.
    have hlast : Before (last, true) (e, true) :=
      hparts.2.2 (last, true) (by simp) (e, true) (by simp)
    rw [before_entry] at hlast
    have hfirst := hparts.1
    rw [List.map_append, List.map_singleton, ← List.cons_append, ← List.append_assoc] at hfirst ha
    rcases List.mem_append.1 ha with ha | ha
    · have hbefore := (List.pairwise_append.1 hfirst).2.2 a ha (last, true) (by simp)
      exact hbefore.trans (before_start.2 hlast)
    · rw [List.mem_singleton.1 ha]
      exact before_start.2 hlast
  · have hself : Before (e, false) (e, true) := .inr ⟨rfl, rfl, rfl⟩
    rcases List.mem_cons.1 hb with rfl | hb
    · exact hself
    · exact hself.trans ((List.pairwise_cons.1 hparts.2.1).1 b hb)

theorem put (h : InOrder (before ++ ⟨low, id, left ++ right⟩ :: after))
    (hlow : entryLess e low = false) (hleft : ∀ a ∈ left, entryLess a e = true)
    (hright : ∀ a ∈ right, entryLess e a = true)
    (hafter : ∀ leaf ∈ after, entryLess e leaf.low = true) :
    InOrder (before ++ ⟨low, id, left ++ e :: right⟩ :: after) := by
  have hwalk : walk (before ++ ⟨low, id, left ++ right⟩ :: after) =
      (walk before ++ (low, false) :: left.map fun e => (e, true)) ++
        (right.map (fun e => (e, true)) ++ walk after) := by
    simp [Leaf.marks]
  have hgoal : walk (before ++ ⟨low, id, left ++ e :: right⟩ :: after) =
      (walk before ++ (low, false) :: left.map fun e => (e, true)) ++
        (e, true) :: (right.map (fun e => (e, true)) ++ walk after) := by
    simp [Leaf.marks]
  have hall := h
  unfold InOrder at h ⊢
  rw [hwalk] at h
  rw [hgoal]
  have hstart : Before (low, false) (e, true) := by
    cases hless : entryLess low e with
    | true => exact .inl hless
    | false => exact .inr ⟨eq_of_not_entryLess hless hlow, rfl, rfl⟩
  have hparts := List.pairwise_append.1 h
  refine pairwise_insert h (fun a ha => ?_) fun b hb => ?_
  · rcases List.mem_append.1 ha with ha | ha
    · exact ((List.pairwise_append.1 hparts.1).2.2 a ha _ List.mem_cons_self).trans hstart
    · rcases List.mem_cons.1 ha with rfl | ha
      · exact hstart
      · obtain ⟨x, hx, rfl⟩ := List.mem_map.1 ha
        exact before_entry.2 (hleft x hx)
  · rcases List.mem_append.1 hb with hb | hb
    · obtain ⟨x, hx, rfl⟩ := List.mem_map.1 hb
      exact before_entry.2 (hright x hx)
    · obtain ⟨leaf, hleaf, hb⟩ := List.mem_flatMap.1 hb
      have hless : Before (e, true) (leaf.low, false) := before_entry.2 (hafter leaf hleaf)
      rcases List.mem_cons.1 hb with rfl | hb
      · exact hless
      · obtain ⟨x, hx, rfl⟩ := List.mem_map.1 hb
        exact hless.trans (hall.before_of_mem (by simp [hleaf]) hx)

end InOrder

end MoDb.Index
