import MoDb.Storage.HeapRecords

/-!
# Who owns the pages

Several heaps have their pages in one file. Whatever they do, each page that a heap has acquired is in its
chain, in the chain of one of its records or free, and no page is in two of these places.
-/

namespace MoDb.Storage

open Effect

/-! ### The pages of one heap -/

def Cell.chainIds (cell : Cell) : List Nat :=
  match cell.1 with
  | some record => record.chain.map Prod.fst
  | none => []

theorem sum_map_chain (cells : List Cell) :
    ((cells.map Cell.chain).sum).map Prod.fst = (cells.flatMap Cell.chainIds : Multiset Nat) := by
  induction cells with
  | nil => rfl
  | cons cell cells ih =>
    rw [List.map_cons, List.sum_cons, Multiset.map_add, ih, List.flatMap_cons, ← Multiset.coe_add]
    obtain ⟨record, generation⟩ := cell
    cases record <;> rfl

theorem flatMap_overflowChain (id : Nat) (cells : List Cell) (k : Nat) :
    (((cells.zipIdx k).filterMap fun cell => cell.1.1.map fun record => (cell.2, record, cell.1.2)).map
        fun cell => overflowChain (⟨id, cell.1, cell.2.2⟩, cell.2.1)).reduceOption.flatMap OverflowChain.pages =
      cells.flatMap Cell.chainIds := by
  induction cells generalizing k with
  | nil => rfl
  | cons cell cells ih =>
    obtain ⟨held, generation⟩ := cell
    rw [List.zipIdx_cons, List.filterMap_cons, List.flatMap_cons, ← ih (k + 1)]
    cases held with
    | none => rfl
    | some record =>
      by_cases hchain : record.chain = []
      · have hnone : overflowChain (⟨id, k, generation⟩, record) = none := if_pos hchain
        dsimp only [Option.map_some]
        rw [List.map_cons, hnone, List.reduceOption_cons_of_none]
        change _ = record.chain.map Prod.fst ++ _
        rw [hchain]
        rfl
      · have hsome : overflowChain (⟨id, k, generation⟩, record) =
            some ⟨id, k, generation, record.bytes.length, record.chain.map Prod.fst⟩ := if_neg hchain
        dsimp only [Option.map_some]
        rw [List.map_cons, hsome, List.reduceOption_cons_of_some]
        rfl

theorem HeapLayout.map_fst_used (layout : HeapLayout) : layout.used.map Prod.fst =
    (layout.ids ++ (layout.view.records.map overflowChain).reduceOption.flatMap OverflowChain.pages :
      Multiset Nat) := by
  rw [layout.map_records, HeapLayout.used, HeapLayout.ids]
  generalize layout.data = list
  induction list with
  | nil => rfl
  | cons data list ih =>
    have hcells := flatMap_overflowChain data.id data.cells 0
    rw [List.map_cons, List.sum_cons, Multiset.map_add, ih, DataPage.pages, Multiset.map_add, sum_map_chain,
      Multiset.map_singleton, List.flatMap_cons, List.reduceOption_append, List.flatMap_append, liveCells, hcells,
      List.map_cons]
    simp only [← Multiset.coe_add, ← Multiset.cons_coe, ← Multiset.singleton_add]
    abel

variable [PageSize] {handle handle' : HeapHandle} {layout layout' : HeapLayout} {frame : Multiset (Nat × Area)}
  {file file' : PageFile Area} {free : List (Nat × Area)}

omit [PageSize] in
theorem FreeLinked.path (h : FreeLinked free) (hstanding : Standing file free) :
    Chain.Path (nextOf file) (free.head?.map Prod.fst) (free.map Prod.fst) none := by
  induction free with
  | nil => rfl
  | cons page rest ih =>
    obtain ⟨-, hnext, hrest⟩ := h
    refine ⟨rfl, ?_⟩
    have hload : loadTrusted file page.1 = .ok (SlottedPage.fromTrustedPage page.2) := by
      rw [loadTrusted, hstanding page List.mem_cons_self]
      rfl
    rw [nextOf_of_loadTrusted hload, hnext]
    exact ih hrest fun other hother => hstanding other (List.mem_cons_of_mem _ hother)

/-- Each page that the heap has acquired is in one place: in the chain, in the chain of a record, or on the
list of free pages that the root in the file begins. -/
def Partitioned (file : PageFile Area) (heap : TableHeap) (acquired : Multiset Nat) : Prop :=
  file.read heap.root = .ok (encodeRoot heap.toRootMetadata) ∧
    ∃ ids chains free, Chain.Path (nextOf file) heap.first ids none ∧
      heap.overflowChains file = .ok chains ∧ Chain.Path (nextOf file) heap.freeHead free none ∧
      acquired = (ids ++ (chains.flatMap OverflowChain.pages ++ free) : Multiset Nat)

theorem Represents.partitioned (h : Represents handle layout frame) (hrooted : Rooted handle layout)
    (htagged : handle.heap.tagged = true) :
    Partitioned handle.file handle.heap (layout.owned.map Prod.fst) := by
  have hstanding : Standing handle.file layout.free := fun page hpage =>
    (h.pages.holds.read page (Multiset.mem_add.2 (.inl hpage))).2
  have hfree := h.pages.linked.path hstanding
  rw [← h.pages.freeHead_eq] at hfree
  refine ⟨h.current_iff.2 hrooted, _, _, _, h.path, h.overflowChains htagged, hfree, ?_⟩
  rw [HeapLayout.owned, Multiset.map_add, layout.map_fst_used, Multiset.map_coe, Multiset.coe_add, List.append_assoc]

/-! ### The heaps of a file -/

def HeapHandle.seeing (handle : HeapHandle) (file : PageFile Area) : HeapHandle := { handle with file := file }

/-- The heaps of a file, and the pages that each of them has acquired from it. The heaps take turns, and what
else writes to the file leaves their pages alone. A call that fails ends the run. -/
inductive HeapsReached : PageFile Area → List (HeapHandle × Multiset Nat) → Prop
  | start {file : PageFile Area} (hpos : 0 < file.pageCount) (hfits : file.pageCount < 2 ^ 64) :
      HeapsReached file []
  | create {file : PageFile Area} {heaps : List (HeapHandle × Multiset Nat)} {handle : HeapHandle}
      (h : HeapsReached file heaps) (hcreate : HeapHandle.create file = .ok handle) :
      HeapsReached handle.file (heaps ++ [(handle, 0)])
  | call {file : PageFile Area} {before after : List (HeapHandle × Multiset Nat)} {handle handle' : HeapHandle}
      {acquired : Multiset Nat} {op : HeapOp} {answer : Option HeapRecordId} (hfits : op.Fits)
      (h : HeapsReached file (before ++ (handle, acquired) :: after))
      (hrun : op.run (handle.seeing file) = .ok answer handle') :
      HeapsReached handle'.file
        (before ++ (handle', acquired + fresh file.pageCount handle'.file.pageCount) :: after)
  | reopen {file : PageFile Area} {before after : List (HeapHandle × Multiset Nat)} {handle handle' : HeapHandle}
      {acquired : Multiset Nat} (hsize : 48 ≤ pageSize) (hbytes : file.pageCount * pageSize < 2 ^ 64)
      (h : HeapsReached file (before ++ (handle, acquired) :: after))
      (hopen : HeapHandle.open file handle.heap.root = .ok handle') :
      HeapsReached file (before ++ (handle', acquired) :: after)
  | elsewhere {file file' : PageFile Area} {heaps : List (HeapHandle × Multiset Nat)}
      (h : HeapsReached file heaps) (hcount : file.pageCount ≤ file'.pageCount) (hfits : file'.pageCount < 2 ^ 64)
      (hsame : ∀ heap ∈ heaps, ∀ id, id = heap.1.heap.root ∨ id ∈ heap.2 → file'.read id = file.read id) :
      HeapsReached file' heaps

/-- A heap with its pages. -/
structure OwnedHeap where
  handle : HeapHandle
  acquired : Multiset Nat
  layout : HeapLayout

namespace OwnedHeap

def pages (owned : OwnedHeap) : Multiset (Nat × Area) :=
  {(owned.handle.heap.root, owned.layout.rootPage)} + owned.layout.owned

/-- What does not depend on the file. -/
structure Stands (owned : OwnedHeap) : Prop where
  freeHead_eq : owned.handle.heap.freeHead = owned.layout.free.head?.map Prod.fst
  linked : FreeLinked owned.layout.free
  chained : Chained owned.handle owned.layout.data
  rooted : Rooted owned.handle owned.layout
  tagged_eq : owned.handle.heap.tagged = true
  acquired_eq : owned.acquired = owned.layout.owned.map Prod.fst

end OwnedHeap

/-- The pages of all heaps are in the file, each of them once. -/
structure Shared (file : PageFile Area) (list : List OwnedHeap) : Prop where
  holds : Holds file (list.map OwnedHeap.pages).sum
  pos : 0 < file.pageCount
  fits : file.pageCount < 2 ^ 64
  stands : ∀ owned ∈ list, owned.Stands

variable {before after list : List OwnedHeap} {owned owned' : OwnedHeap}

omit [PageSize] in
theorem sum_pages (before : List OwnedHeap) (owned : OwnedHeap) (after : List OwnedHeap) :
    ((before ++ owned :: after).map OwnedHeap.pages).sum =
      (owned.layout.free : Multiset (Nat × Area)) + ({(owned.handle.heap.root, owned.layout.rootPage)} +
        (owned.layout.used + ((before ++ after).map OwnedHeap.pages).sum)) := by
  rw [List.map_append, List.map_cons, List.sum_append, List.sum_cons, List.map_append, List.sum_append,
    OwnedHeap.pages, HeapLayout.owned]
  abel

theorem Shared.represents (h : Shared file (before ++ owned :: after)) :
    Represents (owned.handle.seeing file) owned.layout ((before ++ after).map OwnedHeap.pages).sum := by
  have hstands := h.stands owned (List.mem_append_right _ List.mem_cons_self)
  refine ⟨⟨?_, h.pos, h.fits, hstands.freeHead_eq, hstands.linked⟩, hstands.chained.same rfl⟩
  exact h.holds.of_eq (sum_pages before owned after)

theorem Shared.replaced (h : Shared file (before ++ owned :: after))
    (hrepresents : Represents owned'.handle owned'.layout ((before ++ after).map OwnedHeap.pages).sum)
    (hfile : owned'.handle.file = file') (hrooted : Rooted owned'.handle owned'.layout)
    (htagged : owned'.handle.heap.tagged = true)
    (hacquired : owned'.acquired = owned'.layout.owned.map Prod.fst) :
    Shared file' (before ++ owned' :: after) := by
  subst hfile
  have hpages := hrepresents.pages
  refine ⟨hpages.holds.of_eq (sum_pages before owned' after).symm, hpages.pos, hpages.fits, ?_⟩
  intro other hother
  rcases List.mem_append.1 hother with hmem | (_ | ⟨_, hmem⟩)
  · exact h.stands other (List.mem_append_left _ hmem)
  · exact ⟨hpages.freeHead_eq, hpages.linked, hrepresents.chained, hrooted, htagged, hacquired⟩
  · exact h.stands other (List.mem_append_right _ (List.mem_cons_of_mem _ hmem))

theorem Advances.owned_eq (h : Advances handle layout frame handle' layout' frame) :
    layout'.owned.map Prod.fst =
      layout.owned.map Prod.fst + fresh handle.file.pageCount handle'.file.pageCount := by
  have hids := h.ids_eq
  rw [Multiset.map_add, Multiset.map_add, add_right_comm] at hids
  exact add_right_cancel hids

theorem OwnedHeap.Stands.ids_eq (h : owned.Stands) :
    owned.pages.map Prod.fst = {owned.handle.heap.root} + owned.acquired := by
  rw [OwnedHeap.pages, Multiset.map_add, Multiset.map_singleton, h.acquired_eq]

theorem Shared.elsewhere (h : Shared file list) (hcount : file.pageCount ≤ file'.pageCount)
    (hfits : file'.pageCount < 2 ^ 64)
    (hsame : ∀ owned ∈ list, ∀ id, id = owned.handle.heap.root ∨ id ∈ owned.acquired →
      file'.read id = file.read id) : Shared file' list := by
  refine ⟨⟨h.holds.nodup, ?_⟩, Nat.lt_of_lt_of_le h.pos hcount, hfits, h.stands⟩
  intro page hpage
  obtain ⟨hne, hread⟩ := h.holds.read page hpage
  obtain ⟨pages, hpages, hmem⟩ := Multiset.mem_join.1 (show page ∈ Multiset.join ↑(list.map OwnedHeap.pages) from hpage)
  obtain ⟨owned, howned, rfl⟩ := List.mem_map.1 (Multiset.mem_coe.1 hpages)
  have hid := Multiset.mem_map_of_mem Prod.fst hmem
  rw [(h.stands owned howned).ids_eq, Multiset.mem_add, Multiset.mem_singleton] at hid
  exact ⟨hne, (hsame owned howned page.1 hid).trans hread⟩

/-! ### Runs -/

def OwnedHeap.entry (owned : OwnedHeap) : HeapHandle × Multiset Nat := (owned.handle, owned.acquired)

omit [PageSize] in
theorem entry_split {heap : HeapHandle × Multiset Nat} {heaps heaps' : List (HeapHandle × Multiset Nat)}
    (h : list.map OwnedHeap.entry = heaps ++ heap :: heaps') : ∃ before owned after,
      list = before ++ owned :: after ∧ before.map OwnedHeap.entry = heaps ∧ owned.entry = heap ∧
        after.map OwnedHeap.entry = heaps' := by
  obtain ⟨before, rest, rfl, hbefore, hrest⟩ := List.map_eq_append_iff.1 h
  obtain ⟨owned, after, rfl, howned, hafter⟩ := List.map_eq_cons_iff.1 hrest
  exact ⟨before, owned, after, rfl, hbefore, howned, hafter⟩

theorem HeapsReached.shared {heaps : List (HeapHandle × Multiset Nat)} (h : HeapsReached file heaps) :
    ∃ list : List OwnedHeap, list.map OwnedHeap.entry = heaps ∧ Shared file list := by
  induction h with
  | start hpos hfits => exact ⟨[], rfl, .empty, hpos, hfits, fun _ hmem => absurd hmem List.not_mem_nil⟩
  | @create file _ handle _ hcreate ih =>
    obtain ⟨list, rfl, hshared⟩ := ih
    obtain ⟨hrepresents, htagged⟩ := represents_create hshared.holds hshared.pos hshared.fits hcreate
    have hpages := hrepresents.pages
    refine ⟨list ++ [⟨handle, 0, ⟨encodeRoot handle.heap.toRootMetadata, [], []⟩⟩], ?_, ?_, hpages.pos,
      hpages.fits, ?_⟩
    · rw [List.map_append]
      rfl
    · apply hpages.holds.of_eq
      rw [sum_pages, List.append_nil]
    · intro owned howned
      rcases List.mem_append.1 howned with hmem | hmem
      · exact hshared.stands owned hmem
      · rw [List.mem_singleton.1 hmem]
        exact ⟨hpages.freeHead_eq, hpages.linked, hrepresents.chained, rfl, htagged, rfl⟩
  | @call file _ _ _ handle' _ _ _ hfits _ hrun ih =>
    obtain ⟨list, hentries, hshared⟩ := ih
    obtain ⟨before, owned, after, rfl, rfl, howned, rfl⟩ := entry_split hentries
    cases howned
    have hstands := hshared.stands owned (List.mem_append_right _ List.mem_cons_self)
    have hacts := hshared.represents.run hfits
    rw [hrun] at hacts
    obtain ⟨layout', -, hadvances, hpersisted, -⟩ := hacts
    refine ⟨before ++ ⟨handle', owned.acquired + fresh file.pageCount handle'.file.pageCount, layout'⟩ :: after, ?_,
      hshared.replaced hadvances.represents rfl (hpersisted.rooted hstands.rooted) ?_ ?_⟩
    · rw [List.map_append, List.map_cons]
      rfl
    · exact hadvances.tagged_eq.trans hstands.tagged_eq
    · rw [hadvances.owned_eq, hstands.acquired_eq]
      rfl
  | @reopen file _ _ _ handle' _ hsize hbytes _ hopen ih =>
    obtain ⟨list, hentries, hshared⟩ := ih
    obtain ⟨before, owned, after, rfl, rfl, howned, rfl⟩ := entry_split hentries
    cases howned
    have hstands := hshared.stands owned (List.mem_append_right _ List.mem_cons_self)
    obtain ⟨opened, hrun, hfile, hheap, hrepresents⟩ := hshared.represents.opened hstands.rooted hsize hbytes
    change HeapHandle.open file owned.handle.heap.root = _ at hrun
    rw [hopen] at hrun
    cases hrun
    refine ⟨before ++ ⟨handle', owned.acquired, owned.layout⟩ :: after, ?_,
      hshared.replaced hrepresents hfile ?_ ?_ hstands.acquired_eq⟩
    · rw [List.map_append, List.map_cons]
      rfl
    · rw [Rooted, hheap]
      exact hstands.rooted
    · rw [hheap]
      exact hstands.tagged_eq
  | elsewhere _ hcount hfits hsame ih =>
    obtain ⟨list, rfl, hshared⟩ := ih
    refine ⟨list, rfl, hshared.elsewhere hcount hfits ?_⟩
    intro owned howned
    exact hsame owned.entry (List.mem_map_of_mem howned)

/-- After every run without failures the pages that each heap has acquired are in its chain, in the chains of
its records and on its list of free pages, and no page is in two places or of two heaps. -/
theorem partitioned_of_reached {heaps : List (HeapHandle × Multiset Nat)} (h : HeapsReached file heaps) :
    (heaps.map fun heap => heap.1.heap.root ::ₘ heap.2).sum.Nodup ∧
      ∀ heap ∈ heaps, Partitioned file heap.1.heap heap.2 := by
  obtain ⟨list, rfl, hshared⟩ := h.shared
  constructor
  · have hnodup := hshared.holds.nodup
    have hids : ((list.map OwnedHeap.pages).sum).map Prod.fst =
        ((list.map OwnedHeap.entry).map fun heap => heap.1.heap.root ::ₘ heap.2).sum := by
      have hstands := hshared.stands
      clear hshared hnodup h
      induction list with
      | nil => rfl
      | cons owned list ih =>
        rw [List.map_cons, List.sum_cons, Multiset.map_add, (hstands owned List.mem_cons_self).ids_eq,
          ih fun other hother => hstands other (List.mem_cons_of_mem _ hother)]
        rfl
    rwa [← hids]
  · intro heap hheap
    obtain ⟨owned, howned, rfl⟩ := List.mem_map.1 hheap
    obtain ⟨before, after, rfl⟩ := List.append_of_mem howned
    have hstands := hshared.stands owned howned
    have hpartitioned := hshared.represents.partitioned hstands.rooted hstands.tagged_eq
    rw [← hstands.acquired_eq] at hpartitioned
    exact hpartitioned

omit [PageSize] in
/-- The first record of a new heap takes a page of its own. -/
theorem partitioned_of_reached_insert : letI := PageSize.default
    ∃ handle handle' : HeapHandle, HeapHandle.create PageFile.create = .ok handle ∧
      (∃ answer, (HeapOp.insert [7]).run handle = .ok answer handle') ∧
      Partitioned handle'.file handle'.heap {2} := by
  obtain ⟨handle, answer, handle', hcreate, hrun, hfresh⟩ : ∃ handle answer handle',
      HeapHandle.create PageFile.create = .ok handle ∧
      @HeapOp.run PageSize.default (.insert [7]) handle = .ok answer handle' ∧
      fresh handle.file.pageCount handle'.file.pageCount = {2} := ⟨_, _, _, rfl, rfl, rfl⟩
  have hfits : (HeapOp.insert [7]).Fits := by
    change 1 < 2 ^ 64
    decide
  have hcreated := @HeapsReached.create PageSize.default _ _ _
    (@HeapsReached.start PageSize.default PageFile.create (by decide) (by decide)) hcreate
  have hreached := @HeapsReached.call PageSize.default _ [] [] _ _ _ _ _ hfits hcreated hrun
  have hpartitioned := (@partitioned_of_reached PageSize.default _ _ hreached).2 _ List.mem_cons_self
  rw [hfresh] at hpartitioned
  exact ⟨handle, handle', hcreate, ⟨answer, hrun⟩, hpartitioned⟩

end MoDb.Storage
