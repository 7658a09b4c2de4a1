import MoDb.Index.TreeShape

/-!
# Neighbours on a level

Leaves and inner nodes lend and merge alike. A `Row` is one kind of node: what stands for a node one
level up, what its page holds, which changes of a run of neighbours leave the tree below as it was,
and that the loans and merges of the code are such changes.
-/

namespace MoDb.Index

open Storage Effect Levels

/-- The form of a row; the link of a node may be the page of the node to its right. -/
structure RowForm (N : Type) where
  isLeaf : Bool
  level : Nat
  item : N → Entry × Nat
  link : Nat → N → Nat
  cells : N → List Cell
  Keeps : List N → List N → Prop

namespace RowForm

variable {N : Type} (row : RowForm N)

def node (next : Nat) (n : N) : Node :=
  ⟨if row.isLeaf then .leaf else .internal, row.level, row.link next n, row.cells n⟩

def entries (n : N) : List Entry := (row.cells n).map Cell.entry

@[simp]
theorem isLeaf_node (next : Nat) (n : N) : (row.node next n).isLeaf = row.isLeaf := by
  cases h : row.isLeaf <;> simp [node, h, Node.isLeaf]

@[simp]
theorem entries_node (next : Nat) (n : N) : (row.node next n).entries = row.entries n := rfl

variable [PageSize]

def Fit (n : N) : Prop := fits (row.entries n) row.isLeaf = true

def Filled (n : N) : Prop := underfull (row.entries n) row.isLeaf = false

def Loan (l r : N) (x y : Nat) (loan : Node × Node × Entry) : Prop :=
  ∃ l' r', loan.1 = row.node x l' ∧ loan.2.1 = row.node y r' ∧ row.item l' = row.item l ∧
    row.item r' = (loan.2.2, (row.item r).2) ∧ row.Keeps [l, r] [l', r'] ∧ row.Fit l' ∧ row.Fit r' ∧
      row.Filled l' ∧ row.Filled r'

end RowForm

structure Row [PageSize] (N : Type) extends RowForm N where
  keeps_refl (l : List N) : Keeps l l
  keeps_append {l l' : List N} (h : Keeps l l') (before after : List N) :
    Keeps (before ++ l ++ after) (before ++ l' ++ after)
  lent_right {n r : N} {x y : Nat} {loan : Node × Node × Entry}
    (hunder : underfull (toRowForm.entries n) isLeaf = true) (hfit : toRowForm.Fit r)
    (h : borrowRight (toRowForm.node x n) (toRowForm.node y r) (item r).1 = some loan) :
    toRowForm.Loan n r x y loan
  lent_left {l n : N} {x y : Nat} {loan : Node × Node × Entry}
    (hunder : underfull (toRowForm.entries n) isLeaf = true) (hfit : toRowForm.Fit l)
    (h : borrowLeft (toRowForm.node x l) (toRowForm.node y n) (item n).1 = some loan) :
    toRowForm.Loan l n x y loan
  joined (l r : N) (x y : Nat) :
    ∃ m, merged (toRowForm.node x l) (toRowForm.node y r) (item r).1 = toRowForm.node y m ∧
      item m = item l ∧ Keeps [l, r] [m]

/-! ### Leaves -/

/-- What may change between neighbouring leaves. -/
structure SameContents (l l' : List Leaf) : Prop where
  inOrder {before after : List Leaf} : InOrder (before ++ l ++ after) → InOrder (before ++ l' ++ after)
  contents : contents l' = contents l
  start : (l'.head?.map Leaf.low) = (l.head?.map Leaf.low)
  keys {m : Mark} : m ∈ walk l' → ∃ m' ∈ walk l, m'.1 = m.1

namespace SameContents

variable {l l' : List Leaf} {low low' e : Entry} {i i' : Nat} {first second left right : List Entry}

theorem refl (l : List Leaf) : SameContents l l := ⟨id, rfl, rfl, fun h => ⟨_, h, rfl⟩⟩

theorem append (h : SameContents l l') (before after : List Leaf) :
    SameContents (before ++ l ++ after) (before ++ l' ++ after) where
  inOrder {before' after'} hin := by
    have heq (m : List Leaf) : before' ++ (before ++ m ++ after) ++ after' =
        (before' ++ before) ++ m ++ (after ++ after') := by
      simp
    rw [heq] at hin ⊢
    exact h.inOrder hin
  contents := by
    rw [contents_append, contents_append, contents_append, contents_append, h.contents]
  start := by
    simp only [List.head?_append, Option.map_or, h.start]
  keys {m} hm := by
    simp only [walk_append, List.mem_append] at hm ⊢
    rcases hm with (hm | hm) | hm
    · exact ⟨m, .inl (.inl hm), rfl⟩
    · obtain ⟨m', hm', heq⟩ := h.keys hm
      exact ⟨m', .inl (.inr hm'), heq⟩
    · exact ⟨m, .inr hm, rfl⟩

theorem join : SameContents [⟨low, i, first⟩, ⟨low', i', second⟩] [⟨low, i, first ++ second⟩] where
  inOrder {before after} hin := by
    simp only [List.append_assoc, List.cons_append, List.nil_append] at hin ⊢
    exact hin.joined
  contents := by simp
  start := rfl
  keys {m} hm := by
    refine ⟨m, ?_, rfl⟩
    simp only [walk_cons, walk_nil, Leaf.marks, List.append_nil, List.map_append, List.mem_cons,
      List.mem_append] at hm ⊢
    tauto

theorem loan (heq : first ++ second = left ++ e :: right) (hleft : left ≠ []) :
    SameContents [⟨low, i, first⟩, ⟨low', i', second⟩]
      [⟨low, i, left⟩, ⟨e, i', e :: right⟩] where
  inOrder {before after} hin := by
    have hjoined := join.inOrder hin
    rw [heq] at hjoined
    simp only [List.append_assoc, List.cons_append, List.nil_append] at hjoined ⊢
    exact hjoined.cut hleft
  contents := by simp [← heq]
  start := rfl
  keys {m} hm := by
    have hentry : ∀ x, x ∈ left ++ e :: right →
        (x, true) ∈ walk [⟨low, i, first⟩, ⟨low', i', second⟩] := by
      intro x hx
      rw [← heq] at hx
      simpa [Leaf.marks] using hx
    have hcases : m = (low, false) ∨ m.1 ∈ left ++ e :: right := by
      simp only [walk_cons, walk_nil, Leaf.marks, List.append_nil, List.mem_cons, List.mem_append,
        List.mem_map] at hm ⊢
      aesop
    rcases hcases with rfl | hx
    · exact ⟨_, List.mem_cons_self, rfl⟩
    · exact ⟨_, hentry _ hx, rfl⟩

end SameContents

section LendCount

variable [PageSize]

theorem lendCount_some {donor trial : Nat → List Cell} {fuel take taken : Nat}
    (h : lendCount donor trial fuel take = some taken) :
    underfull ((donor taken).map Cell.entry) true = false ∧
      underfull ((trial taken).map Cell.entry) true = false ∧
        fits ((trial taken).map Cell.entry) true = true := by
  induction fuel generalizing take with
  | zero => injection h
  | succ fuel ih =>
    rw [lendCount] at h
    split at h
    · injection h
    · rename_i hdonor
      split at h
      · rename_i htrial
        injection h with h
        rw [Bool.and_eq_true, Bool.not_eq_true'] at htrial
        rw [← h]
        exact ⟨Bool.not_eq_true _ ▸ hdonor, htrial.1, htrial.2⟩
      · exact ih h

end LendCount

theorem entry_ofEntry (e : Entry) (child : Nat) : (Cell.ofEntry e child).entry = e := rfl

def leafCells (entries : List Entry) : List Cell := entries.map fun e => Cell.ofEntry e 0

@[simp]
theorem entries_leafCells (entries : List Entry) : (leafCells entries).map Cell.entry = entries := by
  rw [leafCells, List.map_map]
  exact List.map_id _

def leafForm : RowForm Leaf where
  isLeaf := true
  level := 0
  item := Leaf.item
  link := fun next _ => next
  cells := fun leaf => leafCells leaf.entries
  Keeps := SameContents

@[simp]
theorem entries_leafForm (leaf : Leaf) : leafForm.entries leaf = leaf.entries :=
  entries_leafCells _

theorem isLeaf_leafNode (next : Nat) (leaf : Leaf) : (leafForm.node next leaf).isLeaf = true := rfl

section Leaves

variable [PageSize] {l r n : Leaf} {x y : Nat} {loan : Node × Node × Entry}

theorem leaf_loan {left right : List Entry} {low low' : Entry} {i i' : Nat}
    {first second : List Entry}
    (heq : first ++ second = left ++ right) (hleft : left ≠ []) (hright : right ≠ [])
    (hfits : fits left true = true) (hfits' : fits right true = true)
    (hfilled : underfull left true = false) (hfilled' : underfull right true = false) :
    leafForm.Loan ⟨low, i, first⟩ ⟨low', i', second⟩ x y
      (leafForm.node x ⟨low, i, left⟩, leafForm.node y ⟨low', i', right⟩, right.headD ([], 0)) := by
  obtain ⟨e, right, rfl⟩ := List.exists_cons_of_ne_nil hright
  refine ⟨⟨low, i, left⟩, ⟨e, i', e :: right⟩, rfl, rfl, rfl, rfl, .loan heq hleft, ?_⟩
  simp only [RowForm.Fit, RowForm.Filled, entries_leafForm]
  exact ⟨hfits, hfits', hfilled, hfilled'⟩

omit [PageSize] in
@[simp]
theorem headD_leafCells (entries : List Entry) :
    ((leafCells entries).headD ⟨[], 0, 0⟩).entry = entries.headD ([], 0) := by
  cases entries <;> rfl

omit [PageSize] in
theorem leafCells_append (first second : List Entry) :
    leafCells (first ++ second) = leafCells first ++ leafCells second := List.map_append

theorem leaf_lent_right (hunder : underfull (leafForm.entries n) true = true) (hfit : leafForm.Fit r)
    (h : borrowRight (leafForm.node x n) (leafForm.node y r) r.low = some loan) :
    leafForm.Loan n r x y loan := by
  unfold borrowRight at h
  rw [if_pos (isLeaf_leafNode x n), Option.map_eq_some_iff] at h
  obtain ⟨take, hcount, rfl⟩ := h
  obtain ⟨hdonor, htrial, hfits⟩ := lendCount_some hcount
  have hdrop : (leafForm.node y r).cells.drop take = leafCells (r.entries.drop take) :=
    List.map_drop.symm
  have htake : (leafForm.node x n).cells ++ (leafForm.node y r).cells.take take =
      leafCells (n.entries ++ r.entries.take take) := by
    rw [leafCells_append]
    exact congrArg _ List.map_take.symm
  rw [hdrop, entries_leafCells] at hdonor
  rw [htake, entries_leafCells] at htrial hfits
  rw [hdrop, htake, headD_leafCells]
  unfold RowForm.Fit at hfit
  rw [entries_leafForm] at hfit
  exact leaf_loan (by rw [List.append_assoc, List.take_append_drop])
    (ne_nil_of_not_underfull htrial hunder) (ne_nil_of_not_underfull hdonor hunder) hfits
    (fits_of_sublist (List.drop_sublist _ _) hfit) htrial hdonor

theorem leaf_lent_left (hunder : underfull (leafForm.entries n) true = true) (hfit : leafForm.Fit l)
    (h : borrowLeft (leafForm.node x l) (leafForm.node y n) n.low = some loan) :
    leafForm.Loan l n x y loan := by
  unfold borrowLeft at h
  rw [if_pos (isLeaf_leafNode y n), Option.map_eq_some_iff] at h
  obtain ⟨take, hcount, rfl⟩ := h
  obtain ⟨hdonor, htrial, hfits⟩ := lendCount_some hcount
  have hlength : (leafForm.node x l).cells.length = l.entries.length := List.length_map _
  dsimp only at hdonor htrial hfits ⊢
  rw [hlength] at hdonor htrial hfits ⊢
  generalize l.entries.length - take = kept at hdonor htrial hfits ⊢
  have htake : (leafForm.node x l).cells.take kept = leafCells (l.entries.take kept) :=
    List.map_take.symm
  have hdrop : (leafForm.node x l).cells.drop kept ++ (leafForm.node y n).cells =
      leafCells (l.entries.drop kept ++ n.entries) := by
    rw [leafCells_append]
    exact congrArg (· ++ _) List.map_drop.symm
  rw [htake, entries_leafCells] at hdonor
  rw [hdrop, entries_leafCells] at htrial hfits
  rw [hdrop, htake, headD_leafCells]
  unfold RowForm.Fit at hfit
  rw [entries_leafForm] at hfit
  exact leaf_loan (by rw [← List.append_assoc, List.take_append_drop])
    (ne_nil_of_not_underfull hdonor hunder) (ne_nil_of_not_underfull htrial hunder)
    (fits_of_sublist (List.take_sublist _ _) hfit) hfits hdonor htrial

def leafRow : Row Leaf where
  toRowForm := leafForm
  keeps_refl := SameContents.refl
  keeps_append h before after := h.append before after
  lent_right := leaf_lent_right
  lent_left := leaf_lent_left
  joined l r x y := by
    refine ⟨⟨l.low, l.id, l.entries ++ r.entries⟩, ?_, rfl, SameContents.join⟩
    unfold merged
    rw [if_pos (isLeaf_leafNode x l)]
    simp only [RowForm.node, leafForm, leafCells_append]

end Leaves

/-! ### Inner nodes -/

def innerCells (children : List (Entry × Nat)) : List Cell :=
  children.tail.map fun child => Cell.ofEntry child.1 child.2

@[simp]
theorem entries_innerCells (children : List (Entry × Nat)) :
    (innerCells children).map Cell.entry = children.tail.map Prod.fst := by
  rw [innerCells, List.map_map]
  rfl

theorem innerCells_append {first second : List (Entry × Nat)} (h : first ≠ []) :
    innerCells (first ++ second) = innerCells first ++ second.map fun child =>
      Cell.ofEntry child.1 child.2 := by
  rw [innerCells, List.tail_append_of_ne_nil h, List.map_append]
  rfl

def innerForm (level : Nat) : RowForm Inner where
  isLeaf := false
  level := level % 2 ^ 16
  item := Group.item
  link := fun _ inner => (inner.children.head inner.nonempty).2
  cells := fun inner => innerCells inner.children
  Keeps := fun l l' => flat l' = flat l

@[simp]
theorem entries_innerForm (level : Nat) (inner : Inner) :
    (innerForm level).entries inner = separators inner := entries_innerCells _

theorem isLeaf_innerNode (level next : Nat) (inner : Inner) :
    ((innerForm level).node next inner).isLeaf = false := rfl

section Inner

variable [PageSize] {level x y : Nat} {l r n : Inner} {loan : Node × Node × Entry}

omit [PageSize] in
theorem entries_cells (children : List (Entry × Nat)) :
    (children.map fun child => Cell.ofEntry child.1 child.2).map Cell.entry =
      children.map Prod.fst := by
  rw [List.map_map]
  rfl

theorem inner_loan {id id' : Nat} {first second left right : List (Entry × Nat)}
    {hfirst : first ≠ []} {hsecond : second ≠ []} (hleft : left ≠ []) (hright : right ≠ [])
    (heq : left ++ right = first ++ second) (hhead : left.head hleft = first.head hfirst)
    (hfits : fits (left.tail.map Prod.fst) false = true)
    (hfits' : fits (right.tail.map Prod.fst) false = true)
    (hfilled : underfull (left.tail.map Prod.fst) false = false)
    (hfilled' : underfull (right.tail.map Prod.fst) false = false) :
    (innerForm level).Loan ⟨id, first, hfirst⟩ ⟨id', second, hsecond⟩ x y
      ((innerForm level).node x ⟨id, left, hleft⟩, (innerForm level).node y ⟨id', right, hright⟩,
        (right.head hright).1) := by
  refine ⟨⟨id, left, hleft⟩, ⟨id', right, hright⟩, rfl, rfl, ?_, rfl, ?_, ?_⟩
  · simp only [innerForm, Group.item, hhead]
  · simp only [innerForm, flat_cons, flat_nil, List.append_nil, heq]
  · simp only [RowForm.Fit, RowForm.Filled, entries_innerForm]
    exact ⟨hfits, hfits', hfilled, hfilled'⟩

theorem inner_lent_right (hfit : (innerForm level).Fit r)
    (h : borrowRight ((innerForm level).node x n) ((innerForm level).node y r) r.item.1 = some loan) :
    (innerForm level).Loan n r x y loan := by
  obtain ⟨id, first, hfirst⟩ := n
  obtain ⟨id', second, hsecond⟩ := r
  obtain ⟨c, cs, rfl⟩ := List.exists_cons_of_ne_nil hfirst
  obtain ⟨d, rest, rfl⟩ := List.exists_cons_of_ne_nil hsecond
  unfold RowForm.Fit at hfit
  rw [entries_innerForm] at hfit
  unfold borrowRight at h
  rw [isLeaf_innerNode, if_neg Bool.false_ne_true] at h
  cases rest with
  | nil => injection h
  | cons up rest =>
    have htrial : innerCells (c :: cs) ++ [Cell.ofEntry d.1 d.2] = innerCells (c :: cs ++ [d]) := by
      rw [innerCells_append hfirst]
      rfl
    simp only [RowForm.node, innerForm, Group.item, List.head_cons, htrial, entries_innerCells] at h
    simp only [innerCells, List.tail_cons, List.map_cons, entries_cells] at h
    split at h
    · injection h
    · rename_i hdonor
      split at h
      · injection h
      · rename_i hcase
        rw [Bool.or_eq_true, Bool.not_eq_true', not_or, Bool.not_eq_true, Bool.not_eq_false] at hcase
        injection h with h
        rw [← h]
        have hrest : fits (rest.map Prod.fst) false = true :=
          fits_of_sublist (List.sublist_cons_self _ _) hfit
        exact @inner_loan _ level x y id id' (c :: cs) (d :: up :: rest) (c :: cs ++ [d]) (up :: rest)
          hfirst hsecond (List.cons_ne_nil _ _) (List.cons_ne_nil _ _) (by simp) rfl hcase.2 hrest
          hcase.1
          (Bool.not_eq_true _ ▸ hdonor)

theorem inner_lent_left (hfit : (innerForm level).Fit l)
    (h : borrowLeft ((innerForm level).node x l) ((innerForm level).node y n) n.item.1 = some loan) :
    (innerForm level).Loan l n x y loan := by
  obtain ⟨id, first, hfirst⟩ := l
  obtain ⟨id', second, hsecond⟩ := n
  obtain ⟨c, rest, rfl⟩ := List.exists_cons_of_ne_nil hfirst
  obtain ⟨d, others, rfl⟩ := List.exists_cons_of_ne_nil hsecond
  unfold RowForm.Fit at hfit
  rw [entries_innerForm] at hfit
  unfold borrowLeft at h
  rw [isLeaf_innerNode, if_neg Bool.false_ne_true] at h
  obtain rfl | ⟨init, up, rfl⟩ := List.eq_nil_or_concat' rest
  · injection h
  · simp only [RowForm.node, innerForm, Group.item, List.head_cons, innerCells, List.tail_cons,
      List.map_append, List.map_cons, List.map_nil, List.getLast?_concat, List.dropLast_concat,
      entries_cells, entry_ofEntry] at h
    split at h
    · injection h
    · rename_i hdonor
      split at h
      · injection h
      · rename_i hcase
        rw [Bool.or_eq_true, Bool.not_eq_true', not_or, Bool.not_eq_true, Bool.not_eq_false] at hcase
        injection h with h
        rw [← h]
        have hinit : fits (init.map Prod.fst) false = true := by
          refine fits_of_sublist ?_ hfit
          exact (List.sublist_append_left _ _).map _
        exact @inner_loan _ level x y id id' (c :: (init ++ [up])) (d :: others) (c :: init)
          (up :: d :: others) hfirst hsecond (List.cons_ne_nil _ _) (List.cons_ne_nil _ _)
          (by simp) rfl hinit hcase.2 (Bool.not_eq_true _ ▸ hdonor) hcase.1

omit [PageSize] in
theorem inner_joined (l r : Inner) (x y : Nat) :
    ∃ m, merged ((innerForm level).node x l) ((innerForm level).node y r) r.item.1 =
      (innerForm level).node y m ∧ m.item = l.item ∧ flat [m] = flat [l, r] := by
  obtain ⟨id, first, hfirst⟩ := l
  obtain ⟨id', second, hsecond⟩ := r
  obtain ⟨c, rest, rfl⟩ := List.exists_cons_of_ne_nil hfirst
  obtain ⟨d, others, rfl⟩ := List.exists_cons_of_ne_nil hsecond
  refine ⟨⟨id, c :: (rest ++ d :: others), List.cons_ne_nil _ _⟩, ?_, rfl, by simp⟩
  unfold merged
  rw [isLeaf_innerNode, if_neg Bool.false_ne_true]
  simp [RowForm.node, innerForm, Group.item, innerCells]

def innerRow (level : Nat) : Row Inner where
  toRowForm := innerForm level
  keeps_refl _ := rfl
  keeps_append h before after := by
    change flat _ = flat _ at h
    change flat _ = flat _
    simp only [flat_append, h]
  lent_right _ := inner_lent_right
  lent_left _ := inner_lent_left
  joined := inner_joined

end Inner

end MoDb.Index
