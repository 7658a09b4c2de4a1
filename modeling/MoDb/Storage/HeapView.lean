import MoDb.Storage.HeapFree

/-!
# What a heap holds

The slots of the pages of a heap, page by page, and what the operations make of them. The steps say nothing of
where the records stand in their pages.
-/

namespace MoDb.Storage

/-- The data pages and their slots. -/
abbrev HeapView := List (Nat × List Cell)

def HeapView.Has (view : HeapView) (id : HeapRecordId) (record : HeldRecord) : Prop :=
  ∃ cells, (id.page, cells) ∈ view ∧ cells[id.slot]? = some (some record, id.generation)

def NewCell (cells : List Cell) (slot generation : Nat) : Prop :=
  (slot = cells.length ∧ generation = 1) ∨
    ∃ last, cells[slot]? = some (none, last) ∧ last ≠ 65535 ∧ generation = last + 1

/-- The record comes into a slot of a page, or into a page of its own. -/
inductive Placed (record : HeldRecord) (view : HeapView) : HeapRecordId → HeapView → Prop
  | slot {before after : HeapView} {id slot generation : Nat} {cells : List Cell}
      (hview : view = before ++ (id, cells) :: after) (hnew : NewCell cells slot generation) :
      Placed record view ⟨id, slot, generation⟩
        (before ++ (id, put cells slot (some record, generation)) :: after)
  | page {id : Nat} (hnew : id ∉ view.map Prod.fst) :
      Placed record view ⟨id, 0, 1⟩ (view ++ [(id, [(some record, 1)])])

/-- The record leaves its slot, or its page leaves the chain with it. -/
inductive Removed (view : HeapView) : HeapRecordId → HeapView → Prop
  | slot {before after : HeapView} {id slot generation : Nat} {cells : List Cell} {record : HeldRecord}
      (hview : view = before ++ (id, cells) :: after) (hcell : cells[slot]? = some (some record, generation)) :
      Removed view ⟨id, slot, generation⟩ (before ++ (id, put cells slot (none, generation)) :: after)
  | page {before after : HeapView} {id slot generation : Nat} {cells : List Cell} {record : HeldRecord}
      (hview : view = before ++ (id, cells) :: after) (hcell : cells[slot]? = some (some record, generation))
      (hlast : (put cells slot (none, generation)).countP Cell.live = 0) :
      Removed view ⟨id, slot, generation⟩ (before ++ after)

/-- The record is replaced in its slot, or comes in elsewhere before the old one leaves. -/
inductive Replaces (record : HeldRecord) (view : HeapView) : HeapRecordId → HeapRecordId → HeapView → Prop
  | slot {before after : HeapView} {id slot generation : Nat} {cells : List Cell} {old : HeldRecord}
      (hview : view = before ++ (id, cells) :: after) (hcell : cells[slot]? = some (some old, generation)) :
      Replaces record view ⟨id, slot, generation⟩ ⟨id, slot, generation⟩
        (before ++ (id, put cells slot (some record, generation)) :: after)
  | moved {id placed : HeapRecordId} {middle view' : HeapView} {old : HeldRecord}
      (hold : view.Has id old) (hplaced : Placed record view placed middle) (hremoved : Removed middle id view') : Replaces record view id placed view'

def viewOf (list : List DataPage) : HeapView := list.map fun data => (data.id, data.cells)

def HeapLayout.view (layout : HeapLayout) : HeapView := viewOf layout.data

/-! ### Slots -/

section Cells

variable {cells : List Cell} {slot generation : Nat} {record : HeldRecord}

theorem NewCell.le_length (h : NewCell cells slot generation) : slot ≤ cells.length := by
  rcases h with ⟨hslot, -⟩ | ⟨last, hcell, -⟩
  · exact Nat.le_of_eq hslot
  · exact Nat.le_of_lt (List.getElem?_eq_some_iff.1 hcell).1

theorem NewCell.of_entries {tagged : Bool}
    (h : SlottedPage.NewGeneration (cells.map (Cell.entry tagged)) slot generation) :
    NewCell cells slot generation := by
  rcases h with ⟨hslot, hone⟩ | ⟨last, hentry, hlast, hnext⟩
  · exact .inl ⟨by rw [hslot, List.length_map], hone⟩
  · rw [List.getElem?_map] at hentry
    obtain ⟨cell, hcell, heq⟩ := Option.map_eq_some_iff.1 hentry
    obtain ⟨held, generation'⟩ := cell
    cases held with
    | some held => cases heq
    | none =>
      cases heq
      exact .inr ⟨_, hcell, hlast, hnext⟩

theorem NewCell.notMem (h : NewCell cells slot generation) {other : Nat} :
    cells[slot]? ≠ some (some record, other) := by
  intro hcell
  rcases h with ⟨rfl, -⟩ | ⟨last, hfree, -⟩
  · rw [List.getElem?_eq_none (Nat.le_refl _)] at hcell
    cases hcell
  · rw [hfree] at hcell
    cases hcell

theorem Placed.has {view view' : HeapView} {id placed : HeapRecordId} {held : HeldRecord}
    (h : Placed record view placed view') (hhas : view.Has id held) : view'.Has id held := by
  obtain ⟨cells, hmem, hcell⟩ := hhas
  cases h with
  | slot hview hnew =>
    rename_i before after page slot generation cells'
    rw [hview] at hmem
    rcases List.mem_append.1 hmem with hmem | hmem
    · exact ⟨cells, List.mem_append_left _ hmem, hcell⟩
    · rcases List.mem_cons.1 hmem with heq | hmem
      · rw [Prod.mk.injEq] at heq
        obtain ⟨hpage, rfl⟩ := heq
        refine ⟨_, List.mem_append_right _ (by rw [hpage]; exact List.mem_cons_self), ?_⟩
        rw [getElem?_put hnew.le_length, if_neg, hcell]
        rintro rfl
        exact hnew.notMem hcell
      · exact ⟨cells, List.mem_append_right _ (List.mem_cons_of_mem _ hmem), hcell⟩
  | page hnew => exact ⟨cells, List.mem_append_left _ hmem, hcell⟩

theorem sum_map_put {M : Type} [AddCommMonoid M] (f : Cell → M) {old : Cell} (hold : cells[slot]? = some old)
    (new : Cell) : ((put cells slot new).map f).sum + f old = (cells.map f).sum + f new := by
  have hlt := (List.getElem?_eq_some_iff.1 hold).1
  rw [put, if_pos hlt]
  induction cells generalizing slot with
  | nil => cases hold
  | cons cell cells ih =>
    cases slot with
    | zero =>
      cases hold
      simp only [List.set_cons_zero, List.map_cons, List.sum_cons]
      abel
    | succ slot =>
      have hrest := @ih slot (by simpa using hold) (by simpa using hlt)
      simp only [List.set_cons_succ, List.map_cons, List.sum_cons]
      rw [add_assoc, hrest, add_assoc]

theorem NewCell.sum_map {M : Type} [AddCommMonoid M] {f : Cell → M} (hfree : ∀ last, f (none, last) = 0)
    (h : NewCell cells slot generation) (new : Cell) :
    ((put cells slot new).map f).sum = (cells.map f).sum + f new := by
  rcases h with ⟨hslot, -⟩ | ⟨last, hcell, -⟩
  · rw [put, if_neg (by omega), List.map_append, List.sum_append, List.map_singleton, List.sum_singleton]
  · have hsum := sum_map_put f hcell new
    rw [hfree, add_zero] at hsum
    exact hsum

theorem countP_eq_sum (cells : List Cell) :
    cells.countP Cell.live = (cells.map fun cell => if cell.live then 1 else 0).sum := by
  induction cells with
  | nil => rfl
  | cons cell cells ih =>
    rw [List.countP_cons, ih, List.map_cons, List.sum_cons, Nat.add_comm]

theorem mem_put {new cell : Cell} (hslot : slot ≤ cells.length) (hmem : cell ∈ put cells slot new) :
    cell = new ∨ cell ∈ cells := by
  obtain ⟨k, hk⟩ := List.mem_iff_getElem?.1 hmem
  rw [getElem?_put hslot] at hk
  split at hk
  · exact .inl (Option.some.inj hk).symm
  · exact .inr (List.mem_of_getElem? hk)

end Cells

/-! ### Pages of the chain -/

section Pages

variable {layout : HeapLayout} {before after : List DataPage} {data data' : DataPage}

def DataPage.link (data : DataPage) : Nat × Option Nat × Option Nat :=
  (data.id, data.page.previousPage, data.page.nextPage)

theorem Linked.congr {previous : Option Nat} {list list' : List DataPage}
    (hsame : list'.map DataPage.link = list.map DataPage.link) (h : Linked previous list) :
    Linked previous list' := by
  induction list generalizing previous list' with
  | nil =>
    rw [List.map_nil, List.map_eq_nil_iff] at hsame
    rw [hsame]
    trivial
  | cons data rest ih =>
    cases list' with
    | nil => cases hsame
    | cons data' rest' =>
      rw [List.map_cons, List.map_cons, List.cons.injEq] at hsame
      obtain ⟨hlink, hrest⟩ := hsame
      obtain ⟨hprevious, hnext, hlinked⟩ := h
      simp only [DataPage.link, Prod.mk.injEq] at hlink
      obtain ⟨hid, hprevious', hnext'⟩ := hlink
      have hhead : rest'.head?.map DataPage.id = rest.head?.map DataPage.id := by
        have hmap := congrArg (fun links => links.head?.map Prod.fst) hrest
        simp only [List.head?_map, Option.map_map] at hmap
        exact hmap
      refine ⟨hprevious'.trans hprevious, hnext'.trans (hnext.trans hhead.symm), ?_⟩
      rw [hid]
      exact ih hrest hlinked

theorem Linked.next_eq {previous : Option Nat} (h : Linked previous (before ++ data :: after)) :
    data.page.nextPage = after.head?.map DataPage.id := by
  induction before generalizing previous with
  | nil => exact h.2.1
  | cons first before ih => exact ih h.2.2

theorem Linked.previous_eq {previous : Option Nat} (h : Linked previous (before ++ data :: after)) :
    data.page.previousPage = (before.getLast?.map DataPage.id).or previous := by
  induction before generalizing previous with
  | nil => exact h.1
  | cons first before ih =>
    rw [ih h.2.2, List.getLast?_cons]
    cases before.getLast? <;> rfl

theorem Linked.concat {previous : Option Nat} {last : DataPage} (h : Linked previous (before ++ [data]))
    (hid : data'.id = data.id) (hprevious : data'.page.previousPage = data.page.previousPage)
    (hnext : data'.page.nextPage = some last.id) (hback : last.page.previousPage = some data.id)
    (hend : last.page.nextPage = none) : Linked previous (before ++ [data', last]) := by
  induction before generalizing previous with
  | nil => exact ⟨hprevious.trans h.1, hnext, by rw [hid]; exact hback, hend, trivial⟩
  | cons first before ih =>
    refine ⟨h.1, h.2.1.trans ?_, ih h.2.2⟩
    cases before with
    | nil => simp [hid]
    | cons second before => rfl

def pagesOf (list : List DataPage) : Multiset (Nat × Area) := (list.map DataPage.pages).sum

theorem pagesOf_nil : pagesOf [] = 0 := rfl

theorem pagesOf_append (list list' : List DataPage) : pagesOf (list ++ list') = pagesOf list + pagesOf list' := by
  unfold pagesOf
  rw [List.map_append, List.sum_append]

theorem mem_pagesOf {list : List DataPage} (hmem : data ∈ list) : (data.id, data.page.area) ∈ pagesOf list := by
  obtain ⟨before, after, rfl⟩ := List.append_of_mem hmem
  rw [pagesOf, List.map_append, List.sum_append, List.map_cons, List.sum_cons, DataPage.pages]
  exact Multiset.mem_add.2 (.inr (Multiset.mem_add.2 (.inl (Multiset.mem_add.2
    (.inl (Multiset.mem_singleton_self _))))))

theorem pagesOf_split (before : List DataPage) (data : DataPage) (after : List DataPage) :
    pagesOf (before ++ data :: after) =
      {(data.id, data.page.area)} + ((data.cells.map Cell.chain).sum + pagesOf (before ++ after)) := by
  unfold pagesOf
  rw [List.map_append, List.map_cons, List.sum_append, List.sum_cons, List.map_append, List.sum_append,
    DataPage.pages]
  abel

theorem pagesOf_concat (before : List DataPage) (data : DataPage) (frame : Multiset (Nat × Area)) :
    pagesOf (before ++ [data]) + frame =
      {(data.id, data.page.area)} + ((data.cells.map Cell.chain).sum + (pagesOf before + frame)) := by
  rw [pagesOf_split, List.append_nil, add_assoc, add_assoc]

theorem pagesOf_cons (data : DataPage) (after : List DataPage) (frame : Multiset (Nat × Area)) :
    pagesOf (data :: after) + frame =
      {(data.id, data.page.area)} + ((data.cells.map Cell.chain).sum + (pagesOf after + frame)) := by
  have hsplit := pagesOf_split [] data after
  rw [List.nil_append, List.nil_append] at hsplit
  rw [hsplit, add_assoc, add_assoc]

theorem HeapLayout.map_view (layout : HeapLayout) : layout.view.map Prod.fst = layout.ids := by
  rw [HeapLayout.view, viewOf, List.map_map]
  rfl

theorem viewOf_split (before : List DataPage) (data : DataPage) (after : List DataPage) :
    viewOf (before ++ data :: after) = viewOf before ++ (data.id, data.cells) :: viewOf after := by
  rw [viewOf, List.map_append, List.map_cons]
  rfl

end Pages

end MoDb.Storage
