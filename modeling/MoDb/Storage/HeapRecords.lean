import MoDb.Storage.HeapRuns
import Mathlib.Data.List.ReduceOption

/-!
# Reading the records of a heap

What is read of a heap: a record by its id, all records along the chain, and the chains of those that
overflow.
-/

namespace MoDb.Storage

open Effect

/-! ### The records of a view -/

def liveCells (cells : List Cell) : List (Nat × HeldRecord × Nat) :=
  cells.zipIdx.filterMap fun cell => cell.1.1.map fun record => (cell.2, record, cell.1.2)

def HeapView.records (view : HeapView) : List (HeapRecordId × HeldRecord) :=
  view.flatMap fun page => (liveCells page.2).map fun cell => (⟨page.1, cell.1, cell.2.2⟩, cell.2.1)

theorem mem_liveCells {cells : List Cell} {slot generation : Nat} {record : HeldRecord} :
    (slot, record, generation) ∈ liveCells cells ↔ cells[slot]? = some (some record, generation) := by
  rw [liveCells, List.mem_filterMap]
  constructor
  · rintro ⟨⟨⟨held, generation'⟩, slot'⟩, hmem, heq⟩
    rw [List.mem_zipIdx_iff_getElem?] at hmem
    cases held with
    | none => cases heq
    | some held =>
      cases heq
      exact hmem
  · intro hcell
    exact ⟨((some record, generation), slot), List.mem_zipIdx_iff_getElem?.2 hcell, rfl⟩

namespace HeapView

variable {view : HeapView} {id : HeapRecordId} {record : HeldRecord}

theorem mem_records : (id, record) ∈ view.records ↔ view.Has id record := by
  rw [records, List.mem_flatMap]
  constructor
  · rintro ⟨page, hpage, hmem⟩
    obtain ⟨cell, hcell, heq⟩ := List.mem_map.1 hmem
    cases heq
    exact ⟨page.2, hpage, mem_liveCells.1 hcell⟩
  · rintro ⟨cells, hpage, hcell⟩
    exact ⟨_, hpage, List.mem_map.2 ⟨_, mem_liveCells.2 hcell, rfl⟩⟩

theorem Has.unique {record' : HeldRecord} (h : view.Has id record) (h' : view.Has id record')
    (hnodup : (view.map Prod.fst).Nodup) : record = record' := by
  obtain ⟨cells, hpage, hcell⟩ := h
  obtain ⟨cells', hpage', hcell'⟩ := h'
  have heq := List.inj_on_of_nodup_map hnodup hpage hpage' rfl
  rw [Prod.mk.injEq] at heq
  rw [heq.2, hcell'] at hcell
  cases hcell
  rfl

end HeapView

theorem pairwise_liveCells (cells : List Cell) : (liveCells cells).Pairwise fun a b => a.1 ≠ b.1 := by
  have hnodup : (cells.zipIdx.map Prod.snd).Nodup := by
    rw [List.zipIdx_map_snd]
    exact List.nodup_range'
  rw [List.Nodup, List.pairwise_map] at hnodup
  rw [liveCells, List.pairwise_filterMap]
  apply hnodup.imp
  rintro ⟨⟨held, generation⟩, slot⟩ ⟨⟨held', generation'⟩, slot'⟩ hne a ha b hb
  obtain ⟨record, -, rfl⟩ := Option.map_eq_some_iff.1 ha
  obtain ⟨record', -, rfl⟩ := Option.map_eq_some_iff.1 hb
  exact hne

theorem HeapView.nodup_records {view : HeapView} (hnodup : (view.map Prod.fst).Nodup) :
    (view.records.map Prod.fst).Nodup := by
  rw [records, List.map_flatMap, List.nodup_flatMap]
  constructor
  · rintro ⟨page, cells⟩ -
    rw [List.map_map, List.Nodup, List.pairwise_map]
    apply (pairwise_liveCells cells).imp
    rintro ⟨slot, record, generation⟩ ⟨slot', record', generation'⟩ hne heq
    exact hne (congrArg HeapRecordId.slot heq)
  · rw [List.Nodup, List.pairwise_map] at hnodup
    apply hnodup.imp
    rintro ⟨page, cells⟩ ⟨page', cells'⟩ hne
    rw [Function.onFun, List.disjoint_left]
    intro id hid hid'
    rw [List.map_map, List.mem_map] at hid hid'
    obtain ⟨cell, -, rfl⟩ := hid
    obtain ⟨cell', -, heq⟩ := hid'
    exact hne (congrArg HeapRecordId.page heq).symm

theorem mapM_occupied {β : Type} {tagged : Bool} {area : Area} {F : Slot × Nat → Except Error β}
    {G : Nat → HeldRecord → Nat → β} {slots : List Slot} {cells : List Cell} {k : Nat}
    (hentries : slots.map (Slot.entry area) = cells.map (Cell.entry tagged))
    (hF : ∀ i slot record, slots[i]? = some slot → cells[i]? = some (some record, slot.generation) →
      F (slot, i + k) = .ok (G (i + k) record slot.generation)) :
    ((slots.zipIdx k).filter fun entry => entry.1.occupied).mapM F =
      .ok (((cells.zipIdx k).filterMap fun cell =>
        cell.1.1.map fun record => (cell.2, record, cell.1.2)).map fun cell => G cell.1 cell.2.1 cell.2.2) := by
  induction slots generalizing cells k with
  | nil =>
    rw [List.map_nil, eq_comm, List.map_eq_nil_iff] at hentries
    rw [hentries]
    rfl
  | cons slot slots ih =>
    cases cells with
    | nil => cases hentries
    | cons cell cells =>
      obtain ⟨held, generation⟩ := cell
      rw [List.map_cons, List.map_cons, List.cons.injEq, Slot.entry, Cell.entry, Prod.mk.injEq] at hentries
      obtain ⟨⟨hheld, rfl⟩, hrest⟩ := hentries
      have htail := @ih cells (k + 1) hrest fun i slot' record hslot hcell => by
        have hturn := hF (i + 1) slot' record hslot hcell
        rwa [Nat.add_right_comm i 1 k] at hturn
      rw [List.zipIdx_cons, List.zipIdx_cons, List.filter_cons, List.filterMap_cons]
      cases held with
      | none =>
        have hfree : slot.occupied = false := by
          by_contra hocc
          rw [if_pos (Bool.of_not_eq_false hocc)] at hheld
          cases hheld
        rw [if_neg (by rw [hfree]; exact Bool.false_ne_true)]
        exact htail
      | some record =>
        have hocc : slot.occupied = true := by
          by_contra hfree
          rw [if_neg hfree] at hheld
          cases hheld
        have hturn := hF 0 slot record rfl rfl
        rw [Nat.zero_add] at hturn
        rw [if_pos hocc, List.mapM_cons, hturn]
        change (List.mapM F _ >>= _) = _
        rw [htail]
        rfl

variable [PageSize] {handle handle' : HeapHandle} {layout : HeapLayout} {frame : Multiset (Nat × Area)}
  {data : DataPage} {id : HeapRecordId} {record : HeldRecord}

theorem DataPage.Valid.mapM_occupiedSlots {β : Type} {tagged : Bool} {F : Slot × Nat → Except Error β}
    {G : Nat → HeldRecord → Nat → β} (h : data.Valid tagged)
    (hF : ∀ i slot record, data.page.slots[i]? = some slot → data.cells[i]? = some (some record, slot.generation) →
      F (slot, i) = .ok (G i record slot.generation)) :
    (TableHeap.occupiedSlots data.page).mapM F =
      .ok ((liveCells data.cells).map fun cell => G cell.1 cell.2.1 cell.2.2) :=
  mapM_occupied h.entries hF

/-! ### One record -/

/-- `read_chain` gives back what the record was written with. -/
def HeldRecord.Readable (record : HeldRecord) : Prop :=
  record.chain ≠ [] → record.bytes.length ≤ overflowMaxTotal

omit [PageSize] in
theorem Located.beside {before after : List DataPage} (h : Located layout id before data after record)
    (root : Nat) (frame : Multiset (Nat × Area)) : ∃ rest, layout.beside root frame =
      (record.chain : Multiset (Nat × Area)) + rest := by
  refine ⟨{(data.id, data.page.area)} + ({(root, layout.rootPage)} +
    (((put data.cells id.slot (none, id.generation)).map Cell.chain).sum +
      (pagesOf (before ++ after) + frame))), ?_⟩
  rw [HeapLayout.beside_split h.data_eq, DataPage.chain_emptied h.cell]
  abel

theorem Represents.located (h : Represents handle layout frame) (hhas : layout.view.Has id record) :
    ∃ before data after, Located layout id before data after record ∧ data ∈ layout.data ∧
      record.Valid handle.heap.tagged ∧
      ∃ rest, FreePages handle layout.free ((record.chain : Multiset (Nat × Area)) + rest) := by
  obtain ⟨before, data, after, hlocated⟩ := located_of_has hhas
  have hmem : data ∈ layout.data := by
    rw [hlocated.data_eq]
    exact List.mem_append_right _ List.mem_cons_self
  obtain ⟨rest, hbeside⟩ := hlocated.beside handle.heap.root frame
  refine ⟨before, data, after, hlocated, hmem,
    (h.chained.data data hmem).records _ (List.mem_of_getElem? hlocated.cell) record rfl, rest, ?_⟩
  rw [← hbeside]
  exact h.pages

theorem Represents.nodup_view (h : Represents handle layout frame) : (layout.view.map Prod.fst).Nodup := by
  rw [HeapLayout.map_view]
  exact h.chained.nodup

theorem Represents.decodeStored (h : Represents handle layout frame) (hhas : layout.view.Has id record)
    (hreadable : record.Readable) :
    TableHeap.decodeStored handle.file handle.heap.tagged (record.stored handle.heap.tagged) =
      .ok record.bytes := by
  obtain ⟨-, -, -, -, -, hvalid, rest, hpages⟩ := h.located hhas
  cases htagged : handle.heap.tagged with
  | false => rfl
  | true =>
    rw [htagged] at hvalid
    have hparse := hpages.parseStored_eq hvalid
    unfold TableHeap.decodeStored
    rw [if_pos rfl]
    cases hchain : record.chain with
    | nil =>
      rw [HeldRecord.stored, if_pos rfl, hchain]
      change (parseStored (recordTagInline :: record.bytes) >>= _) = _
      rw [parseStored_inline]
      rfl
    | cons page rest' =>
      have hne : record.chain ≠ [] := by
        rw [hchain]
        exact List.cons_ne_nil _ _
      rw [hparse, hchain]
      have hread := (hvalid.carries hne).2.readChain hpages.standing (by rw [hchain]; rfl) (hreadable hne)
      exact hread

theorem Represents.decodeStored_error (h : Represents handle layout frame) (hhas : layout.view.Has id record)
    (hunreadable : ¬record.Readable) :
    TableHeap.decodeStored handle.file handle.heap.tagged (record.stored handle.heap.tagged) =
      .error ⟨.corruptPage, "overflow stub has an invalid total length"⟩ := by
  obtain ⟨-, -, -, -, -, hvalid, rest, hpages⟩ := h.located hhas
  rw [HeldRecord.Readable, Classical.not_imp] at hunreadable
  obtain ⟨hne, hlarge⟩ := hunreadable
  have htagged := (hvalid.carries hne).1
  rw [htagged] at hvalid ⊢
  have hparse := hpages.parseStored_eq hvalid
  unfold TableHeap.decodeStored
  rw [if_pos rfl, hparse]
  cases hchain : record.chain with
  | nil => exact absurd hchain hne
  | cons page rest' =>
    change TableHeap.readChain handle.file ⟨record.bytes.length, page.1⟩ = _
    unfold TableHeap.readChain
    exact if_pos (.inr (Nat.not_le.1 hlarge))

theorem HeapHandle.read_of_locate (handle : HeapHandle) (id : HeapRecordId) :
    (∀ page handle', HeapHandle.locate id handle = .ok page handle' →
      HeapHandle.read handle id = do
        let stored ← page.read id.slot
        TableHeap.decodeStored handle.file handle.heap.tagged stored) ∧
      ∀ error handle', HeapHandle.locate id handle = .error error handle' →
        HeapHandle.read handle id = .error error := by
  unfold HeapHandle.read HeapHandle.locate
  rw [get_bind_run]
  by_cases hpage : id.page ∈ handle.pageIds
  · rw [if_neg (not_not.2 hpage), if_neg (not_not.2 hpage)]
    have hrun : HeapHandle.loadPage id.page handle =
        HeapHandle.demand (loadTrusted handle.file id.page) handle := rfl
    cases hload : loadTrusted handle.file id.page with
    | error error =>
      rw [hload] at hrun
      rw [bind_of_error hrun]
      exact ⟨fun _ _ heq => (by cases heq), fun _ _ heq => by cases heq; rfl⟩
    | ok page =>
      rw [hload] at hrun
      rw [bind_of_ok hrun]
      change (_ ∧ _)
      simp only [bind, Except.bind]
      cases page.generation id.slot with
      | error error => exact ⟨fun _ _ heq => (by cases heq), fun _ _ heq => by cases heq; rfl⟩
      | ok generation =>
        dsimp only
        by_cases heq : generation = id.generation
        · rw [if_neg (not_not.2 heq), if_pos heq]
          exact ⟨fun _ _ heq => by cases heq; rfl, fun _ _ heq => by cases heq⟩
        · rw [if_pos heq, if_neg heq]
          exact ⟨fun _ _ heq => (by cases heq), fun _ _ heq => by cases heq; rfl⟩
  · rw [if_pos hpage, if_pos hpage]
    exact ⟨fun _ _ heq => (by cases heq), fun _ _ heq => by cases heq; rfl⟩

theorem Represents.read (h : Represents handle layout frame) (hhas : layout.view.Has id record) :
    HeapHandle.read handle id =
      TableHeap.decodeStored handle.file handle.heap.tagged (record.stored handle.heap.tagged) := by
  rcases h.locate id with ⟨before, data, after, record', hlocated, hrun⟩ | ⟨hnone, -⟩
  · have hmem : data ∈ layout.data := by
      rw [hlocated.data_eq]
      exact List.mem_append_right _ List.mem_cons_self
    rw [(handle.read_of_locate id).1 _ _ hrun, hhas.unique hlocated.has h.nodup_view]
    rw [SlottedPage.read_of_some ((h.chained.data data hmem).entry_of_cell hlocated.cell)]
    rfl
  · exact absurd hhas (hnone record)

theorem Represents.read_none (h : Represents handle layout frame) (hnone : ∀ record, ¬layout.view.Has id record) :
    ∃ error, error.code = .recordNotFound ∧ HeapHandle.read handle id = .error error := by
  rcases h.locate id with ⟨before, data, after, record, hlocated, -⟩ | ⟨-, error, hcode, hrun⟩
  · exact absurd hlocated.has (hnone record)
  · exact ⟨error, hcode, (handle.read_of_locate id).2 _ _ hrun⟩

/-! ### Along the chain -/

omit [PageSize] in
theorem along_pages {β : Type} {turn : Nat → List β → Except Error (List β × Option Nat)}
    {part : DataPage → List β} {list : List DataPage}
    (hturn : ∀ data ∈ list, ∀ found, turn data.id found = .ok (found ++ part data, data.page.nextPage))
    (found : List β) :
    Walk.along turn (list.map DataPage.id) found = .ok (found ++ list.flatMap part) := by
  induction list generalizing found with
  | nil =>
    rw [List.flatMap_nil, List.append_nil]
    rfl
  | cons data rest ih =>
    rw [List.map_cons, Walk.along, hturn data List.mem_cons_self]
    dsimp only
    rw [ih (fun other hother => hturn other (List.mem_cons_of_mem _ hother)), List.flatMap_cons, List.append_assoc]

theorem Represents.visit_pages {β : Type} {turn : Nat → List β → Except Error (List β × Option Nat)}
    {part : DataPage → List β} {first : Nat} (h : Represents handle layout frame)
    (hfirst : handle.heap.first = some first)
    (hlink : ∀ id found found' next, turn id found = .ok (found', next) → nextOf handle.file id = next)
    (hturn : ∀ data ∈ layout.data, ∀ found, turn data.id found = .ok (found ++ part data, data.page.nextPage)) :
    Walk.visit visitCycle turn (pageFuel handle.file) [] first [] = .ok (layout.data.flatMap part) := by
  have hpath := h.path
  rw [hfirst] at hpath
  refine (Walk.visit_eq_ok_iff hlink).2 ⟨layout.ids,
    Nat.le_succ_of_le (length_le_pageCount hpath.nodup h.loads.lt_pageCount), hpath,
    fun _ _ => List.not_mem_nil, ?_⟩
  rw [HeapLayout.ids, along_pages hturn, List.nil_append]

omit [PageSize] in
theorem link_scanTurn [PageSize] {file : PageFile Area} (heap : TableHeap) (id : Nat)
    (found found' : List HeapRecord) (next : Option Nat)
    (h : TableHeap.scanTurn file heap id found = .ok (found', next)) : nextOf file id = next := by
  obtain ⟨slice, hslice, hdone⟩ := except_bind_eq_ok h
  obtain ⟨page, hload, hrest⟩ := except_bind_eq_ok hslice
  obtain ⟨records, -, hmade⟩ := except_bind_eq_ok hrest
  cases hmade
  cases hdone
  exact nextOf_of_loadTrusted hload

def heapRecord (entry : HeapRecordId × HeldRecord) : HeapRecord :=
  ⟨entry.1.page, entry.1.slot, entry.1.generation, entry.2.bytes⟩

omit [PageSize] in
theorem HeapLayout.has_of_cell {slot generation : Nat} (hmem : data ∈ layout.data)
    (hcell : data.cells[slot]? = some (some record, generation)) :
    layout.view.Has ⟨data.id, slot, generation⟩ record :=
  ⟨data.cells, List.mem_map_of_mem hmem, hcell⟩

omit [PageSize] in
theorem HeapLayout.map_records {β : Type} (layout : HeapLayout) (f : HeapRecordId × HeldRecord → β) :
    layout.view.records.map f = layout.data.flatMap fun data =>
      (liveCells data.cells).map fun cell => f (⟨data.id, cell.1, cell.2.2⟩, cell.2.1) := by
  rw [HeapLayout.view, viewOf, HeapView.records, List.map_flatMap, List.flatMap_map]
  simp only [List.map_map]
  rfl

theorem Represents.scanTurn (h : Represents handle layout frame)
    (hreadable : ∀ id record, layout.view.Has id record → record.Readable) (hmem : data ∈ layout.data)
    (found : List HeapRecord) : TableHeap.scanTurn handle.file handle.heap data.id found =
      .ok (found ++ (liveCells data.cells).map (fun cell =>
        heapRecord (⟨data.id, cell.1, cell.2.2⟩, cell.2.1)), data.page.nextPage) := by
  have hvalid := h.chained.data data hmem
  have hslots : (TableHeap.occupiedSlots data.page).mapM
      (TableHeap.slotRecord handle.file handle.heap.tagged data.id data.page) =
      .ok ((liveCells data.cells).map fun cell => heapRecord (⟨data.id, cell.1, cell.2.2⟩, cell.2.1)) := by
    apply hvalid.mapM_occupiedSlots (G := fun slot record generation => heapRecord (⟨data.id, slot, generation⟩, record))
    intro slot entry record hentry hcell
    have hhas := HeapLayout.has_of_cell hmem hcell
    rw [TableHeap.slotRecord, SlottedPage.read_of_some (hvalid.entry_of_cell hcell)]
    change (TableHeap.decodeStored _ _ _ >>= _) = _
    rw [h.decodeStored hhas (hreadable _ _ hhas)]
    rfl
  rw [TableHeap.scanTurn, TableHeap.readPageRecords, h.loadTrusted_data hmem]
  change ((TableHeap.occupiedSlots data.page).mapM _ >>= _) >>= _ = _
  rw [hslots]
  rfl

theorem Represents.scanRecords (h : Represents handle layout frame)
    (hreadable : ∀ id record, layout.view.Has id record → record.Readable) :
    TableHeap.scanRecords handle.file handle.heap = .ok (layout.view.records.map heapRecord) := by
  rw [layout.map_records, TableHeap.scanRecords]
  cases hfirst : handle.heap.first with
  | none =>
    have hnone := h.chained.first_eq
    rw [hfirst, eq_comm, Option.map_eq_none_iff, List.head?_eq_none_iff] at hnone
    rw [hnone]
    rfl
  | some first => exact h.visit_pages hfirst (link_scanTurn _) fun data hdata found => h.scanTurn hreadable hdata found

/-! ### The chains of the records that overflow -/

def overflowChain (entry : HeapRecordId × HeldRecord) : Option OverflowChain :=
  if entry.2.chain = [] then none
  else some ⟨entry.1.page, entry.1.slot, entry.1.generation, entry.2.bytes.length, entry.2.chain.map Prod.fst⟩

omit [PageSize] in
theorem link_chainsTurn [PageSize] {file : PageFile Area} (id : Nat) (found found' : List OverflowChain)
    (next : Option Nat) (h : TableHeap.chainsTurn file id found = .ok (found', next)) : nextOf file id = next := by
  obtain ⟨page, hload, hrest⟩ := except_bind_eq_ok h
  obtain ⟨chains, -, hdone⟩ := except_bind_eq_ok hrest
  cases hdone
  exact nextOf_of_loadTrusted hload

theorem Represents.slotChain (h : Represents handle layout frame) (htagged : handle.heap.tagged = true)
    (hmem : data ∈ layout.data) {slot generation : Nat}
    (hcell : data.cells[slot]? = some (some record, generation)) (entry : Slot)
    (hentry : entry.generation = generation) :
    TableHeap.slotChain handle.file data.id data.page (entry, slot) =
      .ok (overflowChain (⟨data.id, slot, generation⟩, record)) := by
  have hvalid := h.chained.data data hmem
  obtain ⟨-, -, -, -, -, hrecord, rest, hpages⟩ := h.located (HeapLayout.has_of_cell hmem hcell)
  rw [TableHeap.slotChain, SlottedPage.read_of_some (hvalid.entry_of_cell hcell)]
  rw [htagged] at hrecord ⊢
  change (parseStored _ >>= _) = _
  rw [hpages.parseStored_eq hrecord]
  cases hchain : record.chain with
  | nil =>
    rw [overflowChain, if_pos hchain]
    rfl
  | cons page pages =>
    have hne : record.chain ≠ [] := by
      rw [hchain]
      exact List.cons_ne_nil _ _
    have hfirst : record.chain.head?.map Prod.fst = some page.1 := by
      rw [hchain]
      rfl
    have hvisit := (hrecord.carries hne).2.visit hpages.standing hfirst
    change (Walk.visit overflowCycle (TableHeap.overflowTurn handle.file) (pageFuel handle.file) [] page.1 ([], 0) >>= _) = _
    rw [hvisit, overflowChain, if_neg hne, ← hentry]
    change (if record.bytes.length ≠ record.bytes.length then _ else _) = _
    rw [if_neg (not_not.2 rfl)]
    rfl

theorem Represents.overflowChains (h : Represents handle layout frame) (htagged : handle.heap.tagged = true) :
    TableHeap.overflowChains handle.file handle.heap = .ok (layout.view.records.map overflowChain).reduceOption := by
  have hparts : (layout.view.records.map overflowChain).reduceOption = layout.data.flatMap fun data =>
      ((liveCells data.cells).map fun cell =>
        overflowChain (⟨data.id, cell.1, cell.2.2⟩, cell.2.1)).reduceOption := by
    rw [layout.map_records]
    generalize layout.data = list
    induction list with
    | nil => rfl
    | cons data list ih => rw [List.flatMap_cons, List.reduceOption_append, ih, List.flatMap_cons]
  rw [hparts, TableHeap.overflowChains, htagged]
  cases hfirst : handle.heap.first with
  | none =>
    have hnone := h.chained.first_eq
    rw [hfirst, eq_comm, Option.map_eq_none_iff, List.head?_eq_none_iff] at hnone
    rw [hnone]
    rfl
  | some first =>
    refine h.visit_pages hfirst link_chainsTurn fun data hdata found => ?_
    have hslots := (h.chained.data data hdata).mapM_occupiedSlots
      (F := TableHeap.slotChain handle.file data.id data.page)
      (G := fun slot record generation => overflowChain (⟨data.id, slot, generation⟩, record))
      fun slot entry record hentry hcell => h.slotChain htagged hdata hcell entry rfl
    rw [TableHeap.chainsTurn, h.loadTrusted_data hdata]
    change (List.mapM (TableHeap.slotChain handle.file data.id data.page) (TableHeap.occupiedSlots data.page) >>= _) = _
    rw [hslots]
    rfl

end MoDb.Storage
