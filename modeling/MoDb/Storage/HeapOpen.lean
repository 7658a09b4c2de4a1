import MoDb.Storage.HeapUpdate
import MoDb.Storage.HeapRepair

/-!
# Opening a heap again

The chain of a heap stands in its file, and a heap that is opened from a root that is current has in memory
what the one that wrote it had.
-/

namespace MoDb.Storage

open Effect

variable [PageSize] {handle handle' : HeapHandle} {layout : HeapLayout} {frame : Multiset (Nat × Area)}
  {list : List DataPage} {data : DataPage} {file : PageFile Area}

/-! ### The chain in the file -/

theorem Represents.read_data (h : Represents handle layout frame) (hmem : data ∈ layout.data) :
    handle.file.read data.id = .ok data.page.area :=
  (h.pages.holds.read (data.id, data.page.area) (Multiset.mem_add.2 (.inr (Multiset.mem_add.2
    (.inr (Multiset.mem_add.2 (.inl (mem_pagesOf hmem)))))))).2

theorem Represents.load_data (h : Represents handle layout frame) (hmem : data ∈ layout.data) :
    load handle.file data.id = .ok data.page :=
  load_of_read (h.read_data hmem) (h.chained.data data hmem).loads

theorem Represents.loadTrusted_data (h : Represents handle layout frame) (hmem : data ∈ layout.data) :
    loadTrusted handle.file data.id = .ok data.page := loadTrusted_of_load (h.load_data hmem)

theorem Linked.path {previous : Option Nat} (hlinked : Linked previous list)
    (hloads : ∀ data ∈ list, load file data.id = .ok data.page) :
    Chain.Path (nextOf file) (list.head?.map DataPage.id) (list.map DataPage.id) none := by
  induction list generalizing previous with
  | nil => rfl
  | cons data rest ih =>
    refine ⟨rfl, ?_⟩
    rw [nextOf_of_load (hloads data List.mem_cons_self), hlinked.2.1]
    exact ih hlinked.2.2 fun other hother => hloads other (List.mem_cons_of_mem _ hother)

theorem Linked.backLinked {previous : Option Nat} (hlinked : Linked previous list)
    (hloads : ∀ data ∈ list, load file data.id = .ok data.page) :
    BackLinked file previous (list.map DataPage.id) := by
  induction list generalizing previous with
  | nil => trivial
  | cons data rest ih =>
    refine ⟨?_, ih hlinked.2.2 fun other hother => hloads other (List.mem_cons_of_mem _ hother)⟩
    rw [previousOf_of_load (hloads data List.mem_cons_self)]
    exact hlinked.1

theorem Represents.path (h : Represents handle layout frame) :
    Chain.Path (nextOf handle.file) handle.heap.first layout.ids none := by
  rw [h.chained.first_eq]
  exact h.chained.linked.path fun data hdata => h.load_data hdata

theorem Represents.backLinked (h : Represents handle layout frame) : BackLinked handle.file none layout.ids :=
  h.chained.linked.backLinked fun _ hdata => h.load_data hdata

theorem Represents.loads (h : Represents handle layout frame) : Loads handle.file layout.ids := by
  intro id hid
  obtain ⟨data, hdata, rfl⟩ := List.mem_map.1 hid
  exact ⟨data.page, h.load_data hdata⟩

theorem Represents.recordsOf_eq (h : Represents handle layout frame) :
    layout.ids.map (recordsOf handle.file) = layout.data.map DataPage.recordCount := by
  rw [HeapLayout.ids, List.map_map]
  apply List.map_congr_left
  intro data hdata
  exact (recordsOf_of_load (h.load_data hdata)).trans (h.chained.data data hdata).recordCount_eq

/-! ### The root -/

theorem Represents.read_root (h : Represents handle layout frame) :
    handle.heap.root ≠ 0 ∧ handle.file.read handle.heap.root = .ok layout.rootPage :=
  h.pages.holds.read (handle.heap.root, layout.rootPage) (Multiset.mem_add.2 (.inr (Multiset.mem_add.2
    (.inl (Multiset.mem_singleton_self _)))))

theorem Represents.valid_root (h : Represents handle layout frame) (hsize : 48 ≤ pageSize)
    (hbytes : handle.file.pageCount * pageSize < 2 ^ 64) : handle.heap.toRootMetadata.Valid := by
  have hlink : ∀ data ∈ layout.data,
      (some data.id : Option Nat) ≠ some 0 ∧ (some data.id : Option Nat).getD 0 < 2 ^ 64 :=
    fun data hdata => h.pages.link_data hdata
  have hchained := h.chained
  have hcount : layout.data.length ≤ handle.file.pageCount := by
    have hle := length_le_pageCount h.path.nodup h.loads.lt_pageCount
    rwa [HeapLayout.ids, List.length_map] at hle
  have hrecords : handle.heap.recordCount < 2 ^ 64 := by
    rw [hchained.recordCount_eq, ← h.recordsOf_eq]
    calc (layout.ids.map (recordsOf handle.file)).sum ≤ (layout.ids.map (recordsOf handle.file)).sum * 8 :=
        Nat.le_mul_of_pos_right _ (by decide)
      _ ≤ layout.ids.length * pageSize := h.loads.records_le
      _ ≤ handle.file.pageCount * pageSize := by
        apply Nat.mul_le_mul_right
        rwa [HeapLayout.ids, List.length_map]
      _ < 2 ^ 64 := hbytes
  refine ⟨?_, ?_, h.pages.freeHead_link, ?_, hrecords, ?_, by omega, by omega⟩
  · rw [hchained.first_eq]
    cases hdata : layout.data with
    | nil => exact link_none
    | cons data rest => exact hlink data (by rw [hdata]; exact List.mem_cons_self)
  · rw [hchained.last_eq]
    cases hdata : layout.data.getLast? with
    | none => exact link_none
    | some data => exact hlink data (List.mem_of_getLast? hdata)
  · rw [hchained.pageCount_eq]
    exact Nat.lt_of_le_of_lt hcount h.pages.fits
  · have hfirst := hchained.first_eq
    have hlast := hchained.last_eq
    have hpages := hchained.pageCount_eq
    have hsum := hchained.recordCount_eq
    cases hdata : layout.data using List.reverseRecOn with
    | nil =>
      rw [hdata] at hfirst hlast hpages hsum
      simp [RootMetadata.consistent, hfirst, hlast, hpages, hsum]
    | append_singleton before last =>
      rw [hdata] at hfirst hlast hpages
      rw [List.getLast?_concat] at hlast
      rw [List.length_append] at hpages
      have hsome : handle.heap.first.isSome = true := by
        rw [hfirst]
        cases before <;> rfl
      have hne : handle.heap.first ≠ none := Option.isSome_iff_ne_none.1 hsome
      simp [RootMetadata.consistent, hsome, hlast, hpages, hne]

theorem Represents.opened_but (h : Represents handle layout frame) {head : Option Nat}
    (hhead : head ≠ some 0 ∧ head.getD 0 < 2 ^ 64)
    (hrooted : layout.rootPage = encodeRoot { handle.heap.toRootMetadata with freeHead := head })
    (hsize : 48 ≤ pageSize) (hbytes : handle.file.pageCount * pageSize < 2 ^ 64) :
    ∃ handle', HeapHandle.open handle.file handle.heap.root = .ok handle' ∧ handle'.file = handle.file ∧
      handle'.heap = { handle.heap with freeHead := head } ∧
      Represents { handle' with heap := handle.heap } layout frame := by
  obtain ⟨hroot, hread⟩ := h.read_root
  rw [hrooted] at hread
  have hvalid : RootMetadata.Valid { handle.heap.toRootMetadata with freeHead := head } := by
    have hcurrent := h.valid_root hsize hbytes
    exact ⟨hcurrent.first, hcurrent.last, hhead, hcurrent.pageCount, hcurrent.recordCount, hcurrent.consistent,
      hcurrent.fits.1, fun hsmall => absurd hsize (Nat.not_le.2 hsmall)⟩
  have hdecode := (decodeRoot_encodeRoot hvalid).2
  have hlayout : TableHeap.layout handle.file { handle.heap with freeHead := head } =
      .ok (layout.ids.map (infoOf handle.file)) := by
    apply layout_of_path h.path h.loads h.backLinked
    · rw [HeapLayout.ids, List.getLast?_map]
      exact h.chained.last_eq
    · rw [HeapLayout.ids, List.length_map]
      exact h.chained.pageCount_eq
    · rw [h.recordsOf_eq]
      exact h.chained.recordCount_eq
  have hopen : TableHeap.open handle.file handle.heap.root =
      .ok ({ handle.heap with freeHead := head }, layout.ids.map (infoOf handle.file)) := by
    rw [TableHeap.open, if_neg hroot, hread]
    change (decodeRoot (encodeRoot { handle.heap.toRootMetadata with freeHead := head }) >>= _) = _
    rw [hdecode]
    change (TableHeap.layout handle.file { handle.heap with freeHead := head } >>= _) = _
    rw [hlayout]
    rfl
  obtain ⟨opened, hopened⟩ : ∃ opened : HeapHandle, opened = ⟨handle.file, { handle.heap with freeHead := head },
      ((layout.ids.map (infoOf handle.file)).map TableHeapPageInfo.id).toFinset,
      .ofEntries ((layout.ids.map (infoOf handle.file)).map fun info : TableHeapPageInfo => (info.id,
        ((loadTrusted handle.file info.id).map SlottedPage.insertionCapacity).toOption.getD 0))⟩ := ⟨_, rfl⟩
  have hfile : opened.file = handle.file := by rw [hopened]
  have haccounts : Accounts handle layout.free _ { opened with heap := handle.heap } layout.free _ :=
    h.pages.accounts hfile rfl
  refine ⟨opened, ?_, hfile, by rw [hopened], haccounts.pages, ?_⟩
  · rw [HeapHandle.open, hopen, hopened]
    rfl
  have hinfo : ∀ data ∈ layout.data, (infoOf handle.file data.id).id = data.id := by
    intro data hdata
    rw [infoOf, h.loadTrusted_data hdata]
  have hids : (layout.ids.map (infoOf handle.file)).map TableHeapPageInfo.id = layout.ids := by
    rw [HeapLayout.ids, List.map_map, List.map_map]
    exact List.map_congr_left hinfo
  have hchained := h.chained
  refine ⟨hchained.data, hchained.nodup, hchained.linked, hchained.first_eq, hchained.last_eq,
    hchained.pageCount_eq, hchained.recordCount_eq, ?_, ?_⟩
  · rw [hopened]
    change List.toFinset _ = _
    rw [hids]
    rfl
  · have hentries : ((layout.ids.map (infoOf handle.file)).map fun info => (info.id,
        ((loadTrusted handle.file info.id).map SlottedPage.insertionCapacity).toOption.getD 0)) =
        layout.data.map DataPage.capacity := by
      rw [HeapLayout.ids, List.map_map, List.map_map]
      apply List.map_congr_left
      intro data hdata
      dsimp only [Function.comp_apply]
      rw [hinfo data hdata, h.loadTrusted_data hdata]
      rfl
    rw [hopened]
    dsimp only
    rw [hentries]
    apply KeyIndex.lists_ofEntries
    rw [map_fst_capacity]
    exact hchained.nodup

theorem Represents.opened (h : Represents handle layout frame) (hrooted : Rooted handle layout)
    (hsize : 48 ≤ pageSize) (hbytes : handle.file.pageCount * pageSize < 2 ^ 64) :
    ∃ handle', HeapHandle.open handle.file handle.heap.root = .ok handle' ∧ handle'.file = handle.file ∧
      handle'.heap = handle.heap ∧ Represents handle' layout frame := by
  obtain ⟨handle', hopen, hfile, hheap, hrepresents⟩ := h.opened_but h.pages.freeHead_link hrooted hsize hbytes
  have hsame : handle'.heap = handle.heap := hheap
  refine ⟨handle', hopen, hfile, hsame, ?_⟩
  rwa [← hsame] at hrepresents

end MoDb.Storage
