import MoDb.Storage.HeapView
import MoDb.Storage.SlottedCapacity

/-!
# Steps of a heap

What the operations on a heap are made of: pages of the chain are read and written, the root is written, and
what is in memory follows.
-/

namespace MoDb.Storage

open Effect

variable [PageSize] {handle handle' handle'' : HeapHandle} {layout layout' layout'' : HeapLayout}
  {free free' : List (Nat × Area)} {frame frame' frame'' : Multiset (Nat × Area)}
  {before after : List DataPage} {data data' : DataPage} {id : Nat}

omit [PageSize] in
def Rooted (handle : HeapHandle) (layout : HeapLayout) : Prop :=
  layout.rootPage = encodeRoot handle.heap.toRootMetadata

omit [PageSize] in
def Persisted (handle : HeapHandle) (layout : HeapLayout) (handle' : HeapHandle) (layout' : HeapLayout) : Prop :=
  Rooted handle' layout' ∨ (layout'.rootPage = layout.rootPage ∧ handle'.heap = handle.heap)

omit [PageSize] in
theorem Persisted.rooted (h : Persisted handle layout handle' layout') (hrooted : Rooted handle layout) :
    Rooted handle' layout' := by
  rcases h with hwritten | ⟨hpage, hheap⟩
  · exact hwritten
  · rw [Rooted, hpage, hheap]
    exact hrooted

def HeapLayout.beside (layout : HeapLayout) (root : Nat) (frame : Multiset (Nat × Area)) :
    Multiset (Nat × Area) := {(root, layout.rootPage)} + (layout.used + frame)

/-- From one state of a heap to another one, no page of the heap and of the frame is lost, and those that
came are new in the file. -/
structure Advances (handle : HeapHandle) (layout : HeapLayout) (frame : Multiset (Nat × Area))
    (handle' : HeapHandle) (layout' : HeapLayout) (frame' : Multiset (Nat × Area)) : Prop where
  accounts : Accounts handle layout.free (layout.beside handle.heap.root frame) handle' layout'.free
    (layout'.beside handle.heap.root frame')
  chained : Chained handle' layout'.data
  root_eq : handle'.heap.root = handle.heap.root
  tagged_eq : handle'.heap.tagged = handle.heap.tagged

theorem Advances.represents (h : Advances handle layout frame handle' layout' frame') :
    Represents handle' layout' frame' := by
  refine ⟨?_, h.chained⟩
  rw [h.root_eq]
  exact h.accounts.pages

theorem Advances.trans (h : Advances handle layout frame handle' layout' frame')
    (h' : Advances handle' layout' frame' handle'' layout'' frame'') :
    Advances handle layout frame handle'' layout'' frame'' where
  accounts := by
    have hnext := h'.accounts
    rw [h.root_eq] at hnext
    exact h.accounts.trans hnext
  chained := h'.chained
  root_eq := h'.root_eq.trans h.root_eq
  tagged_eq := h'.tagged_eq.trans h.tagged_eq

theorem Advances.ids_eq (h : Advances handle layout frame handle' layout' frame') :
    (layout'.owned + frame').map Prod.fst =
      (layout.owned + frame).map Prod.fst + fresh handle.file.pageCount handle'.file.pageCount := by
  have hids := h.accounts.ids_eq
  simp only [HeapLayout.beside, HeapLayout.owned, Multiset.map_add, Multiset.map_singleton] at hids ⊢
  apply add_left_cancel (a := ({handle.heap.root} : Multiset Nat))
  calc ({handle.heap.root} : Multiset Nat) + (layout'.used.map Prod.fst +
        (layout'.free : Multiset (Nat × Area)).map Prod.fst + frame'.map Prod.fst) =
      (layout'.free : Multiset (Nat × Area)).map Prod.fst +
        ({handle.heap.root} + (layout'.used.map Prod.fst + frame'.map Prod.fst)) := by abel
    _ = _ := hids
    _ = _ := by abel

/-- A step that failed keeps the chain and all that is beside the free pages. -/
def KeepsPages (handle : HeapHandle) (layout : HeapLayout) (frame : Multiset (Nat × Area))
    (handle' : HeapHandle) : Prop :=
  Loses handle (layout.beside handle.heap.root frame) handle'

theorem Chained.same {list : List DataPage} (h : Chained handle list) (hsame : SameChain handle handle') :
    Chained handle' list := by
  rw [hsame]
  exact ⟨h.data, h.nodup, h.linked, h.first_eq, h.last_eq, h.pageCount_eq, h.recordCount_eq, h.pageIds_eq,
    h.capacities⟩

theorem Represents.keeps (h : Represents handle layout frame) (hkeeps : KeepsPages handle layout frame' handle') :
    ∃ free, Represents handle' { layout with free := free } frame' := by
  obtain ⟨⟨free, hpages⟩, -, hsame⟩ := hkeeps
  refine ⟨free, ?_, h.chained.same hsame⟩
  rw [hsame.root_eq]
  exact hpages

omit [PageSize] in
theorem HeapLayout.beside_add (layout : HeapLayout) (root : Nat) (frame frame' : Multiset (Nat × Area)) :
    layout.beside root (frame + frame') = frame + layout.beside root frame' := by
  unfold HeapLayout.beside
  abel

theorem Represents.moves {extra : Multiset (Nat × Area)} (h : Represents handle layout frame)
    (hmoves : Moves handle layout.free (layout.beside handle.heap.root frame) handle' free
      (extra + layout.beside handle.heap.root frame)) :
    Advances handle layout frame handle' { layout with free := free } (extra + frame) where
  accounts := by
    have haccounts := hmoves.toAccounts
    rw [← HeapLayout.beside_add] at haccounts
    exact haccounts
  chained := h.chained.same hmoves.same
  root_eq := hmoves.same.root_eq
  tagged_eq := hmoves.same.tagged_eq

/-! ### Pages of the chain -/

omit [PageSize] in
theorem HeapLayout.used_eq (layout : HeapLayout) : layout.used = pagesOf layout.data := rfl

omit [PageSize] in
theorem HeapLayout.beside_split (hdata : layout.data = before ++ data :: after) (root : Nat)
    (frame : Multiset (Nat × Area)) : layout.beside root frame =
      {(data.id, data.page.area)} + ({(root, layout.rootPage)} + ((data.cells.map Cell.chain).sum +
        (pagesOf (before ++ after) + frame))) := by
  rw [HeapLayout.beside, HeapLayout.used_eq, hdata, pagesOf_split]
  abel

omit [PageSize] in
theorem FreePages.loadPage {page : Area} (h : FreePages handle free ({(id, page)} + frame)) :
    HeapHandle.loadPage id handle = .ok (SlottedPage.fromTrustedPage page) handle := by
  apply Holds.loadPage_run
  apply h.holds.of_eq
  exact add_left_comm _ _ _

theorem Chained.valid (h : Chained handle (before ++ data :: after)) : data.Valid handle.heap.tagged :=
  h.data data (List.mem_append_right _ List.mem_cons_self)

theorem Represents.loadPage (h : Represents handle layout frame) (hdata : layout.data = before ++ data :: after) :
    HeapHandle.loadPage data.id handle = .ok data.page handle := by
  have hpages := h.pages
  have hchained := h.chained
  rw [hdata] at hchained
  change FreePages handle layout.free (layout.beside _ _) at hpages
  rw [HeapLayout.beside_split hdata] at hpages
  rw [hpages.loadPage, hchained.valid.image]

omit [PageSize] in
theorem FreePages.persistRoot {page : Area} (h : FreePages handle free ({(handle.heap.root, page)} + frame)) :
    ∃ file, HeapHandle.persistRoot handle = .ok () { handle with file := file } ∧
      Accounts handle free ({(handle.heap.root, page)} + frame) { handle with file := file } free
        ({(handle.heap.root, encodeRoot handle.heap.toRootMetadata)} + frame) := by
  obtain ⟨file, hwrite, hmoves⟩ := h.writePage (encodeRoot handle.heap.toRootMetadata)
  exact ⟨file, hwrite, hmoves.toAccounts⟩

omit [PageSize] in
theorem FreePages.rewrite {old rootPage : Area}
    (h : FreePages handle free ({(id, old)} + ({(handle.heap.root, rootPage)} + frame))) (page : Area)
    {next : PageFile Area → HeapHandle} (hfile : ∀ file, (next file).file = file)
    (hhead : ∀ file, (next file).heap.freeHead = handle.heap.freeHead)
    (hroot : ∀ file, (next file).heap.root = handle.heap.root) :
    ∃ file file', HeapHandle.writePage id page handle = .ok () { handle with file := file } ∧
      HeapHandle.persistRoot (next file) = .ok () { next file with file := file' } ∧
      Accounts handle free ({(id, old)} + ({(handle.heap.root, rootPage)} + frame))
        { next file with file := file' } free
        ({(id, page)} + ({(handle.heap.root, encodeRoot (next file).heap.toRootMetadata)} + frame)) := by
  obtain ⟨file, hwrite, hwritten⟩ := h.writePage page
  have hchanged : Accounts { handle with file := file } free _ (next file) free _ :=
    hwritten.pages.accounts (hfile file) (hhead file)
  have hpages := hchanged.pages
  rw [add_left_comm, ← hroot file] at hpages
  obtain ⟨file', hpersist, hpersisted⟩ := hpages.persistRoot
  rw [hroot file, add_left_comm] at hpersisted
  have hrest := hchanged.trans hpersisted
  rw [add_left_comm {(handle.heap.root, encodeRoot _)}] at hrest
  exact ⟨file, file', hwrite, hpersist, hwritten.toAccounts.trans hrest⟩

/-! ### The chain in memory -/

theorem map_fst_capacity (list : List DataPage) :
    (list.map DataPage.capacity).map Prod.fst = list.map DataPage.id := by
  rw [List.map_map]
  rfl

theorem Chained.replaced (h : Chained handle (before ++ data :: after)) (hlink : data'.link = data.link)
    (hvalid : data'.Valid handle.heap.tagged)
    (hheap : handle'.heap = { handle.heap with
      recordCount := handle'.heap.recordCount
      freeHead := handle'.heap.freeHead })
    (hcount : handle'.heap.recordCount + data.recordCount = handle.heap.recordCount + data'.recordCount)
    (hids : handle'.pageIds = handle.pageIds)
    (hcapacities : handle'.capacities = handle.capacities.set data.id data'.page.insertionCapacity) :
    Chained handle' (before ++ data' :: after) := by
  have hid : data'.id = data.id := congrArg Prod.fst hlink
  have hsame : (before ++ data' :: after).map DataPage.id = (before ++ data :: after).map DataPage.id := by
    rw [List.map_append, List.map_append, List.map_cons, List.map_cons, hid]
  have hhead : (before ++ data' :: after).head?.map DataPage.id =
      (before ++ data :: after).head?.map DataPage.id := by
    rw [← List.head?_map, hsame, List.head?_map]
  have hlast : (before ++ data' :: after).getLast?.map DataPage.id =
      (before ++ data :: after).getLast?.map DataPage.id := by
    rw [← List.getLast?_map, hsame, List.getLast?_map]
  have htagged : handle'.heap.tagged = handle.heap.tagged := by rw [hheap]
  refine ⟨?_, ?_, ?_, ?_, ?_, ?_, ?_, ?_, ?_⟩
  · intro other hother
    rw [htagged]
    rcases List.mem_append.1 hother with hmem | (_ | ⟨_, hmem⟩)
    · exact h.data other (List.mem_append_left _ hmem)
    · exact hvalid
    · exact h.data other (List.mem_append_right _ (List.mem_cons_of_mem _ hmem))
  · rw [hsame]
    exact h.nodup
  · apply h.linked.congr
    rw [List.map_append, List.map_append, List.map_cons, List.map_cons, hlink]
  · rw [hhead, ← h.first_eq, hheap]
  · rw [hlast, ← h.last_eq, hheap]
  · have hlength := congrArg List.length hsame
    rw [List.length_map, List.length_map] at hlength
    rw [hlength, ← h.pageCount_eq, hheap]
  · have hbefore := h.recordCount_eq
    rw [List.map_append, List.map_cons, List.sum_append, List.sum_cons] at hbefore ⊢
    omega
  · rw [hids, hsame]
    exact h.pageIds_eq
  · have hlists := h.capacities
    have hnodup := h.nodup
    rw [List.map_append, List.map_cons] at hlists ⊢
    rw [hcapacities]
    rw [DataPage.capacity, hid]
    apply hlists.set_old
    rw [← map_fst_capacity, List.map_append, List.map_cons] at hnodup
    exact hnodup

def DataPage.relinked (data : DataPage) (previous next : Option Nat) : DataPage :=
  let page := { data.page with previousPage := previous, nextPage := next }
  ⟨data.id, { page with area := page.page }, data.cells⟩

theorem DataPage.Valid.relinked {tagged : Bool} (h : data.Valid tagged)
    {previous next : Option Nat} (hprevious : previous ≠ some 0 ∧ previous.getD 0 < 2 ^ 64)
    (hnext : next ≠ some 0 ∧ next.getD 0 < 2 ^ 64) : (data.relinked previous next).Valid tagged := by
  have hvalid := h.sane.valid
  exact DataPage.valid_page ⟨hvalid.boundary, hvalid.freeEnd_le, hvalid.generation, hvalid.free, hvalid.live,
    hvalid.apart⟩ h.sane.signed ⟨hnext, hprevious⟩ h.entries h.records

omit [PageSize] in
theorem FreePages.link_data {list : List DataPage} {root : Nat} {rootPage : Area}
    (h : FreePages handle free ({(root, rootPage)} + (pagesOf list + frame))) (hmem : data ∈ list) :
    (some data.id : Option Nat) ≠ some 0 ∧ (some data.id : Option Nat).getD 0 < 2 ^ 64 :=
  h.link (Multiset.mem_add.2 (.inr (Multiset.mem_add.2 (.inr (Multiset.mem_add.2 (.inl (mem_pagesOf hmem)))))))

omit [PageSize] in
theorem FreePages.notMem_ids {page : Area} {list : List DataPage} {root : Nat} {rootPage : Area}
    (h : FreePages handle free ({(id, page)} + ({(root, rootPage)} + (pagesOf list + frame)))) :
    id ∉ list.map DataPage.id := by
  intro hmem
  obtain ⟨data, hdata, hid⟩ := List.mem_map.1 hmem
  have hholds := h.holds
  rw [add_left_comm] at hholds
  exact hholds.ne (Multiset.mem_add.2 (.inr (Multiset.mem_add.2 (.inr (Multiset.mem_add.2
    (.inl (mem_pagesOf hdata)))))) ) hid

theorem Chained.joined {list others : List DataPage} {last : DataPage} (h : Chained handle list)
    (hview : viewOf others = viewOf list) (hothers : ∀ data ∈ others, data.Valid handle.heap.tagged)
    (hlast : last.Valid handle.heap.tagged) (hone : last.recordCount = 1)
    (hnew : last.id ∉ list.map DataPage.id) (hlinked : Linked none (others ++ [last]))
    (hheap : handle'.heap = { handle.heap with
      first := (list.map DataPage.id ++ [last.id]).head?
      last := some last.id
      pageCount := handle.heap.pageCount + 1
      recordCount := handle.heap.recordCount + 1
      freeHead := handle'.heap.freeHead })
    (hids : handle'.pageIds = insert last.id handle.pageIds)
    (hcapacities : handle'.capacities.Lists ((others ++ [last]).map DataPage.capacity)) :
    Chained handle' (others ++ [last]) := by
  have hmap : others.map DataPage.id = list.map DataPage.id := by
    have hfst := congrArg (List.map Prod.fst) hview
    rw [viewOf, viewOf, List.map_map, List.map_map] at hfst
    exact hfst
  have hcounts : others.map DataPage.recordCount = list.map DataPage.recordCount := by
    have hlive := congrArg (List.map fun page : Nat × List Cell => page.2.countP Cell.live) hview
    rw [viewOf, viewOf, List.map_map, List.map_map] at hlive
    exact hlive
  have hall : (others ++ [last]).map DataPage.id = list.map DataPage.id ++ [last.id] := by
    rw [List.map_append, hmap, List.map_singleton]
  have hlength : others.length = list.length := by
    have hlengths := congrArg List.length hmap
    rwa [List.length_map, List.length_map] at hlengths
  refine ⟨?_, ?_, hlinked, ?_, ?_, ?_, ?_, ?_, hcapacities⟩
  · intro data hdata
    rw [hheap]
    rcases List.mem_append.1 hdata with hmem | hmem
    · exact hothers data hmem
    · rw [List.mem_singleton.1 hmem]
      exact hlast
  · rw [hall]
    apply List.nodup_append.2
    refine ⟨h.nodup, List.nodup_singleton _, ?_⟩
    rintro id hid other hother rfl
    rw [List.mem_singleton.1 hother] at hid
    exact hnew hid
  · rw [hheap, ← List.head?_map, hall]
  · rw [hheap, ← List.getLast?_map, hall, List.getLast?_concat]
  · rw [hheap, List.length_append, hlength]
    exact congrArg (· + 1) h.pageCount_eq
  · rw [hheap, List.map_append, hcounts, List.sum_append, List.map_singleton, List.sum_singleton, hone]
    exact congrArg (· + 1) h.recordCount_eq
  · rw [hids, hall, h.pageIds_eq, List.toFinset_append, Finset.insert_eq, Finset.union_comm]
    rfl

end MoDb.Storage
