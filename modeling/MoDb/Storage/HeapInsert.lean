import MoDb.Storage.HeapSteps

/-!
# Insertion

A record that is stored comes into a page of the chain that has room for it, or into a new page after the
last one. Nothing else that the heap holds changes.
-/

namespace MoDb.Storage

open Effect

variable [PageSize] {handle handle' : HeapHandle} {layout : HeapLayout} {frame : Multiset (Nat × Area)}
  {free : List (Nat × Area)} {record : HeldRecord} {id : Nat} {before after : List DataPage} {data : DataPage}

/-- What an insertion does: the pages of the record's chain are those of the heap now. -/
def Inserts (handle : HeapHandle) (layout : HeapLayout) (record : HeldRecord)
    (frame : Multiset (Nat × Area)) (id : HeapRecordId) (handle' : HeapHandle) : Prop :=
  ∃ layout', Placed record layout.view id layout'.view ∧
    Advances handle layout ((record.chain : Multiset (Nat × Area)) + frame) handle' layout' frame ∧
    Rooted handle' layout'

/-! ### A page of the chain -/

def DataPage.filled (data : DataPage) (record : HeldRecord) (slot generation : Nat) (page : SlottedPage) :
    DataPage :=
  ⟨data.id, { page with area := page.page }, put data.cells slot (some record, generation)⟩

theorem DataPage.Valid.filled {tagged : Bool} (h : data.Valid tagged)
    (hrecord : record.Valid tagged) {slot generation : Nat} {page : SlottedPage}
    (hinsert : data.page.insert (record.stored tagged) = .ok (slot, page))
    (hinserted : SlottedPage.Inserted data.page (record.stored tagged) slot generation page) :
    NewCell data.cells slot generation ∧ (data.filled record slot generation page).Valid tagged := by
  have hnew : NewCell data.cells slot generation := .of_entries (h.entries ▸ hinserted.isNew)
  refine ⟨hnew, DataPage.valid_page hinserted.valid (h.sane.valid.signed_insert h.sane.signed hinsert)
    ⟨?_, ?_⟩ ?_ ?_⟩
  · rw [hinserted.nextPage]
    exact h.sane.linkable.next
  · rw [hinserted.previousPage]
    exact h.sane.linkable.previous
  · rw [hinserted.entries, h.entries, map_put]
    rfl
  · intro cell hcell held hheld
    rcases mem_put hnew.le_length hcell with rfl | hmem
    · exact Option.some.inj hheld ▸ hrecord
    · exact h.records cell hmem held hheld

omit [PageSize] in
theorem NewCell.recordCount_filled {slot generation : Nat} (h : NewCell data.cells slot generation)
    (page : SlottedPage) : (data.filled record slot generation page).recordCount = data.recordCount + 1 := by
  rw [DataPage.recordCount, DataPage.recordCount, countP_eq_sum, countP_eq_sum]
  exact h.sum_map (fun _ => rfl) (some record, generation)

theorem Represents.tryInsert (h : Represents handle layout ((record.chain : Multiset (Nat × Area)) + frame))
    (hrecord : record.Valid handle.heap.tagged) (hdata : layout.data = before ++ data :: after)
    (hne : record.stored handle.heap.tagged ≠ [])
    (hmax : (record.stored handle.heap.tagged).length ≤ slottedPageMaxRecordSize) :
    (data.page.insertionCapacity < (record.stored handle.heap.tagged).length ∧
      HeapHandle.tryInsert (record.stored handle.heap.tagged) data.id handle = .ok none handle) ∨
    (∃ placed handle', placed.page = data.id ∧
      HeapHandle.tryInsert (record.stored handle.heap.tagged) data.id handle = .ok (some placed) handle' ∧
      Inserts handle layout record frame placed handle') := by
  have hchained := h.chained
  rw [hdata] at hchained
  have hvalid := hchained.valid
  unfold HeapHandle.tryInsert
  rw [bind_of_ok (h.loadPage hdata)]
  cases hinsert : data.page.insert (record.stored handle.heap.tagged) with
  | error error =>
    obtain rfl := SlottedPage.insert_error hne hmax hinsert
    refine .inl ⟨?_, ?_⟩
    · by_contra hroom
      have hpos : 1 ≤ (record.stored handle.heap.tagged).length := List.length_pos_iff.2 hne
      obtain ⟨slot, page, hok⟩ := (SlottedPage.succeeds_iff data.page _).2
        ⟨hpos, hmax, (SlottedPage.requiredSpace_le_iff hpos).2 (Nat.not_lt.1 hroom)⟩
      rw [hinsert] at hok
      cases hok
    · have hself : handle.capacities.set data.id data.page.insertionCapacity = handle.capacities :=
        hchained.capacities.set_self (List.mem_map.2 ⟨data, List.mem_append_right _ List.mem_cons_self, rfl⟩)
      change EStateM.Result.ok none { handle with
        capacities := handle.capacities.set data.id data.page.insertionCapacity } = _
      rw [hself]
  | ok result =>
    obtain ⟨slot, page⟩ := result
    obtain ⟨generation, hinserted⟩ := hvalid.sane.valid.insert_spec hinsert
    obtain ⟨hnew, hfilled⟩ := hvalid.filled hrecord hinsert hinserted
    have hentry : page.entries[slot]? = some (some (record.stored handle.heap.tagged), generation) := by
      rw [hinserted.entries, getElem?_put hinserted.isNew.le_length, if_pos rfl]
    have hpages := h.pages
    change FreePages handle layout.free (layout.beside _ _) at hpages
    rw [HeapLayout.beside_split hdata] at hpages
    obtain ⟨next, hnext⟩ : ∃ next : PageFile Area → HeapHandle, next = fun file => { handle with
      file := file
      heap := { handle.heap with recordCount := handle.heap.recordCount + 1 }
      capacities := handle.capacities.set data.id page.insertionCapacity } := ⟨_, rfl⟩
    obtain ⟨file, file', hwrite, hpersist, haccounts⟩ := @FreePages.rewrite _ _ _ _ _ _ hpages page.page next
      (by rw [hnext]; exact fun _ => rfl) (by rw [hnext]; exact fun _ => rfl) (by rw [hnext]; exact fun _ => rfl)
    refine .inr ⟨⟨data.id, slot, generation⟩, { next file with file := file' }, rfl, ?_, ?_⟩
    · dsimp only
      rw [SlottedPage.generation_of_some hentry, demand_ok_bind, bind_of_ok hwrite]
      subst hnext
      exact bind_of_ok hpersist
    · refine ⟨⟨encodeRoot (next file).heap.toRootMetadata,
        before ++ data.filled record slot generation page :: after, layout.free⟩, ?_, ⟨?_, ?_, ?_, ?_⟩, rfl⟩
      · change Placed record layout.view _ (viewOf (before ++ data.filled record slot generation page :: after))
        rw [viewOf_split, HeapLayout.view, hdata, viewOf_split]
        exact .slot rfl hnew
      · rw [HeapLayout.beside_split hdata, @HeapLayout.beside_split ⟨_, _, _⟩ _ _ _ rfl]
        have hsum : ((data.filled record slot generation page).cells.map Cell.chain).sum =
            (data.cells.map Cell.chain).sum + (record.chain : Multiset (Nat × Area)) :=
          hnew.sum_map (fun _ => rfl) (some record, generation)
        rw [hsum, add_assoc, add_left_comm (record.chain : Multiset (Nat × Area))]
        exact haccounts
      · apply hchained.replaced
        · rw [DataPage.link, DataPage.link, ← hinserted.previousPage, ← hinserted.nextPage]
          rfl
        · exact hfilled
        · rw [hnext]
        · change (next file).heap.recordCount + _ = _
          rw [hnew.recordCount_filled, hnext]
          change handle.heap.recordCount + 1 + data.recordCount = _
          omega
        · change (next file).pageIds = _
          rw [hnext]
        · change (next file).capacities = _
          rw [hnext]
          rfl
      · rw [hnext]
      · rw [hnext]

/-! ### A new page -/

theorem insert_formatted {stored : Bytes} (hne : stored ≠ []) (hmax : stored.length ≤ slottedPageMaxRecordSize)
    {previous : Option Nat} (hprevious : previous ≠ some 0 ∧ previous.getD 0 < 2 ^ 64) :
    ∃ page, SlottedPage.insert { SlottedPage.formatted with previousPage := previous } stored = .ok (0, page) ∧
      page.generation 0 = .ok 1 ∧ page.nextPage = none ∧ page.previousPage = previous ∧
      ∀ {tagged : Bool} {record : HeldRecord} (id : Nat), record.Valid tagged →
        stored = record.stored tagged →
          DataPage.Valid tagged ⟨id, { page with area := page.page }, [(some record, 1)]⟩ := by
  have hsane := @SlottedPage.sane_formatted _ none previous link_none hprevious
  have hpos : 1 ≤ stored.length := List.length_pos_iff.2 hne
  have hsucceeds : SlottedPage.succeeds { SlottedPage.formatted with previousPage := previous } stored := by
    rw [SlottedPage.succeeds_iff]
    refine ⟨hpos, hmax, ?_⟩
    have hlower : 28 < pageSize := lt_pageSize
    unfold slottedPageMaxRecordSize slottedPageHeaderSize slottedPageSlotSize at hmax
    change stored.length + 8 ≤ pageSize - (28 + 0 * 8) + (pageSize - pageSize - 0)
    omega
  obtain ⟨slot, page, hinsert⟩ := hsucceeds
  obtain ⟨generation, hinserted⟩ := hsane.valid.insert_spec hinsert
  obtain ⟨rfl, rfl⟩ : slot = 0 ∧ generation = 1 := by
    rcases hinserted.isNew with hnew | ⟨last, hentry, -⟩
    · exact hnew
    · cases hentry
  have hentries : page.entries = [(some stored, 1)] := hinserted.entries
  refine ⟨page, hinsert, SlottedPage.generation_of_some (by rw [hentries]; rfl), hinserted.nextPage,
    hinserted.previousPage, ?_⟩
  intro tagged record id hrecord hstored
  refine DataPage.valid_page hinserted.valid (hsane.valid.signed_insert hsane.signed hinsert) ⟨?_, ?_⟩ ?_ ?_
  · rw [hinserted.nextPage]
    exact link_none
  · rw [hinserted.previousPage]
    exact hprevious
  · rw [hentries, hstored]
    rfl
  · intro cell hcell held hheld
    rw [List.mem_singleton] at hcell
    rw [hcell] at hheld
    exact Option.some.inj hheld ▸ hrecord

omit [PageSize] in
theorem HeapLayout.beside_nil (hempty : layout.data = []) (root : Nat) (frame : Multiset (Nat × Area)) :
    layout.beside root frame = {(root, layout.rootPage)} + frame := by
  rw [HeapLayout.beside, HeapLayout.used_eq, hempty]
  exact congrArg _ (zero_add _)

omit [PageSize] in
theorem sum_chain_one (record : HeldRecord) (generation : Nat) :
    (([(some record, generation)] : List Cell).map Cell.chain).sum = (record.chain : Multiset (Nat × Area)) :=
  add_zero _

theorem Represents.insertFirst
    (h : Represents handle layout ((record.chain : Multiset (Nat × Area)) + frame))
    (hrecord : record.Valid handle.heap.tagged) (hempty : layout.data = [])
    (hne : record.stored handle.heap.tagged ≠ [])
    (hmax : (record.stored handle.heap.tagged).length ≤ slottedPageMaxRecordSize) :
    Outcome (fun placed handle' => Inserts handle layout record frame placed handle' ∧ placed.page = handle.nextPage)
      (fun error handle' => Exhausted handle 1 error ∧ handle' = handle)
      (HeapHandle.insertFirst (record.stored handle.heap.tagged) handle) := by
  have hbefore := h.pages
  change FreePages handle layout.free (layout.beside _ _) at hbefore
  unfold HeapHandle.insertFirst
  refine hbefore.acquirePage.bind ?_
  rintro id middle ⟨htaken, blank, hacquired⟩
  obtain ⟨page, hinsert, hgeneration, hnext, hprevious, hpage⟩ := insert_formatted hne hmax link_none
  have hchained := h.chained.same hacquired.same
  rw [hempty] at hchained
  have hroot := hacquired.same.root_eq
  have hpages := hacquired.pages
  rw [HeapLayout.beside_nil hempty, ← hroot] at hpages
  obtain ⟨next, hmemory⟩ : ∃ next : PageFile Area → HeapHandle, next = fun file =>
      ⟨file, { middle.heap with first := some id, last := some id, pageCount := 1, recordCount := 1 },
        insert id middle.pageIds, middle.capacities.set id page.insertionCapacity⟩ := ⟨_, rfl⟩
  obtain ⟨file, file', hwrite, hpersist, haccounts⟩ := @FreePages.rewrite _ _ _ _ _ _ hpages page.page next
    (by rw [hmemory]; exact fun _ => rfl) (by rw [hmemory]; exact fun _ => rfl)
    (by rw [hmemory]; exact fun _ => rfl)
  change Outcome _ _ ((HeapHandle.demand
    (SlottedPage.insert { SlottedPage.formatted with previousPage := none } _) >>= _) middle)
  rw [hinsert, demand_ok_bind]
  dsimp only
  rw [hgeneration, demand_ok_bind, bind_of_ok hwrite]
  have hdone : (do
      modify fun handle => { handle with
        heap := { handle.heap with first := some id, last := some id, pageCount := 1, recordCount := 1 } }
      HeapHandle.join id page
      HeapHandle.persistRoot
      pure ⟨id, 0, 1⟩ : HeapM HeapRecordId) { middle with file := file } =
      .ok ⟨id, 0, 1⟩ { next file with file := file' } := by
    subst hmemory
    exact bind_of_ok hpersist
  rw [hdone]
  obtain ⟨last, hlast⟩ : ∃ last : DataPage, last =
      ⟨id, { page with area := page.page }, [(some record, 1)]⟩ := ⟨_, rfl⟩
  have hvalid : last.Valid middle.heap.tagged := by
    rw [hlast, hacquired.same.tagged_eq]
    exact hpage id hrecord rfl
  refine ⟨⟨⟨encodeRoot (next file).heap.toRootMetadata, [] ++ [last], layout.free.tail⟩, ?_, ⟨?_, ?_, ?_, ?_⟩, rfl⟩,
    htaken⟩
  · rw [HeapLayout.view, hempty, hlast]
    exact .page List.not_mem_nil
  · have hbeside := hacquired.toAccounts
    rw [HeapLayout.beside_nil hempty, ← hroot] at hbeside ⊢
    apply hbeside.trans
    rw [@HeapLayout.beside_split ⟨_, _, _⟩ [] [] last rfl, hlast]
    dsimp only
    rw [sum_chain_one, List.append_nil, pagesOf_nil, zero_add]
    exact haccounts
  · refine hchained.joined rfl (fun _ hdata => absurd hdata List.not_mem_nil) hvalid ?_ List.not_mem_nil ?_ ?_ ?_ ?_
    · rw [hlast]
      rfl
    · rw [hlast]
      exact ⟨hprevious, hnext, trivial⟩
    · rw [hlast, hchained.pageCount_eq, hchained.recordCount_eq, hmemory]
      rfl
    · change (next file).pageIds = _
      rw [hlast, hmemory]
    · change (next file).capacities.Lists _
      rw [hmemory, hlast]
      exact hchained.capacities.set_new List.not_mem_nil
  · change (next file).heap.root = _
    rw [hmemory]
    exact hroot
  · change (next file).heap.tagged = _
    rw [hmemory]
    exact hacquired.same.tagged_eq

theorem Represents.insertAfter
    (h : Represents handle layout ((record.chain : Multiset (Nat × Area)) + frame))
    (hrecord : record.Valid handle.heap.tagged) (hdata : layout.data = before ++ [data])
    (hne : record.stored handle.heap.tagged ≠ [])
    (hmax : (record.stored handle.heap.tagged).length ≤ slottedPageMaxRecordSize) :
    Outcome (fun placed handle' => Inserts handle layout record frame placed handle' ∧ placed.page = handle.nextPage)
      (fun error handle' => Exhausted handle 1 error ∧ handle' = handle)
      (HeapHandle.insertAfter (record.stored handle.heap.tagged) data.id handle) := by
  have hbefore := h.pages
  change FreePages handle layout.free (layout.beside _ _) at hbefore
  have hend : data.page.nextPage = none := (hdata ▸ h.chained.linked : Linked none (before ++ [data])).next_eq
  have hmem : data ∈ layout.data := by
    rw [hdata]
    exact List.mem_append_right _ List.mem_cons_self
  have hlink := h.pages.link_data hmem
  unfold HeapHandle.insertAfter
  rw [bind_of_ok (h.loadPage hdata), if_neg (not_not.2 hend)]
  refine hbefore.acquirePage.bind ?_
  rintro id middle ⟨htaken, blank, hacquired⟩
  obtain ⟨page, hinsert, hgeneration, hnext, hprevious, hpage⟩ := insert_formatted hne hmax hlink
  have hroot := hacquired.same.root_eq
  have hchained := h.chained.same hacquired.same
  have hid : (some id : Option Nat) ≠ some 0 ∧ (some id : Option Nat).getD 0 < 2 ^ 64 :=
    hacquired.pages.link (Multiset.mem_add.2 (.inr (Multiset.mem_add.2 (.inl (Multiset.mem_singleton_self (id, blank))))))
  have hnew : id ∉ layout.data.map DataPage.id := hacquired.pages.notMem_ids
  obtain ⟨written, hwrite, hwritten⟩ := hacquired.pages.writePage page.page
  obtain ⟨moved, hmoved⟩ : ∃ moved, moved = data.relinked data.page.previousPage (some id) := ⟨_, rfl⟩
  have hvalid : ∀ data ∈ layout.data, data.Valid middle.heap.tagged := hchained.data
  have hmovedValid : moved.Valid middle.heap.tagged := by
    rw [hmoved]
    exact (hvalid data hmem).relinked (hvalid data hmem).sane.linkable.previous hid
  have hframe : ∀ (area : Area) (root : Nat), ({(id, area)} : Multiset (Nat × Area)) +
      layout.beside root ((record.chain : Multiset (Nat × Area)) + frame) =
      {(data.id, data.page.area)} + ({(root, layout.rootPage)} + ({(id, area)} +
        ((data.cells.map Cell.chain).sum +
          (pagesOf before + ((record.chain : Multiset (Nat × Area)) + frame))))) := by
    intro area root
    rw [HeapLayout.beside_split hdata, List.append_nil]
    abel
  have hpages := hwritten.pages
  rw [← hroot, hframe] at hpages
  obtain ⟨next, hmemory⟩ : ∃ next : PageFile Area → HeapHandle, next = fun file =>
      ⟨file, { middle.heap with
        last := some id
        pageCount := middle.heap.pageCount + 1
        recordCount := middle.heap.recordCount + 1 },
        insert id middle.pageIds,
        (middle.capacities.set data.id data.page.insertionCapacity).set id page.insertionCapacity⟩ := ⟨_, rfl⟩
  obtain ⟨file, file', hwrite', hpersist, haccounts⟩ := @FreePages.rewrite { middle with file := written } _ _ _ _ _
    hpages moved.page.area next (by rw [hmemory]; exact fun _ => rfl) (by rw [hmemory]; exact fun _ => rfl)
    (by rw [hmemory]; exact fun _ => rfl)
  rw [SlottedPage.setPreviousPage, if_neg hlink.1, demand_ok_bind, hinsert, demand_ok_bind]
  dsimp only
  rw [hgeneration, demand_ok_bind, bind_of_ok hwrite, SlottedPage.setNextPage, if_neg hid.1, demand_ok_bind]
  have hdone : (do
      HeapHandle.writePage data.id { data.page with nextPage := some id }.page
      HeapHandle.setInsertionCapacity data.id { data.page with nextPage := some id }.insertionCapacity
      HeapHandle.join id page
      modify fun handle => { handle with
        heap := { handle.heap with
          last := some id
          pageCount := handle.heap.pageCount + 1
          recordCount := handle.heap.recordCount + 1 } }
      HeapHandle.persistRoot
      pure ⟨id, 0, 1⟩ : HeapM HeapRecordId) { middle with file := written } =
      .ok ⟨id, 0, 1⟩ { next file with file := file' } := by
    subst hmoved hmemory
    exact (bind_of_ok hwrite').trans (bind_of_ok hpersist)
  rw [hdone]
  obtain ⟨last, hlast⟩ : ∃ last : DataPage, last =
      ⟨id, { page with area := page.page }, [(some record, 1)]⟩ := ⟨_, rfl⟩
  have hlastValid : last.Valid middle.heap.tagged := by
    rw [hlast, hacquired.same.tagged_eq]
    exact hpage id hrecord rfl
  have hview : viewOf (before ++ [moved]) = viewOf layout.data := by
    rw [hdata, viewOf_split, viewOf_split, hmoved]
    rfl
  refine ⟨⟨⟨encodeRoot (next file).heap.toRootMetadata, (before ++ [moved]) ++ [last], layout.free.tail⟩, ?_,
    ⟨?_, ?_, ?_, ?_⟩, rfl⟩, htaken⟩
  · change Placed record (viewOf layout.data) _ (viewOf ((before ++ [moved]) ++ [last]))
    rw [viewOf_split, hview, hlast]
    apply Placed.page
    change id ∉ layout.ids at hnew
    rw [← HeapLayout.map_view] at hnew
    exact hnew
  · have hbeside := hacquired.toAccounts.trans hwritten.toAccounts
    rw [hframe, ← hroot] at hbeside
    have hchains : (moved.cells.map Cell.chain).sum = (data.cells.map Cell.chain).sum := by
      rw [hmoved]
      rfl
    have hmovedId : moved.id = data.id := by
      rw [hmoved]
      rfl
    rw [← hroot]
    apply hbeside.trans
    rw [@HeapLayout.beside_split ⟨_, _, _⟩ _ [] last rfl, List.append_nil, pagesOf_split, List.append_nil,
      hchains, hmovedId, hlast]
    dsimp only
    rw [sum_chain_one]
    convert haccounts using 1
    abel
  · apply hchained.joined hview
    · intro other hother
      rcases List.mem_append.1 hother with hother | hother
      · exact hvalid other (by rw [hdata]; exact List.mem_append_left _ hother)
      · rw [List.mem_singleton.1 hother]
        exact hmovedValid
    · exact hlastValid
    · rw [hlast]
      rfl
    · rw [hlast]
      exact hnew
    · have hlinked := h.chained.linked
      rw [hdata] at hlinked
      rw [List.append_assoc, hmoved, hlast]
      exact hlinked.concat rfl rfl rfl hprevious hnext
    · have hfirst : middle.heap.first = (layout.data.map DataPage.id ++ [last.id]).head? := by
        rw [hchained.first_eq, hdata]
        cases before with
        | nil => rfl
        | cons first before => rfl
      rw [← hfirst, hlast]
      change (next file).heap = _
      rw [hmemory]
    · change (next file).pageIds = _
      rw [hlast, hmemory]
    · change (next file).capacities.Lists _
      have hlists := hchained.capacities
      have hmap : (before ++ [moved]).map DataPage.capacity = layout.data.map DataPage.capacity := by
        rw [hdata, List.map_append, List.map_append, hmoved]
        rfl
      rw [hmemory, List.map_append, hmap, hlast]
      dsimp only
      rw [hlists.set_self (List.mem_map.2 ⟨data, hmem, rfl⟩)]
      apply hlists.set_new
      rw [List.map_map]
      exact hnew
  · change (next file).heap.root = _
    rw [hmemory]
    exact hroot
  · change (next file).heap.tagged = _
    rw [hmemory]
    exact hacquired.same.tagged_eq

/-! ### The page that is picked -/

def HeapLayout.HasRoom (layout : HeapLayout) (size : Nat) : Prop :=
  ∃ data ∈ layout.data, size ≤ data.page.insertionCapacity

theorem Chained.candidate_eq_some {size : Nat} (h : Chained handle layout.data)
    (hcandidate : handle.candidate size = some id) :
    ∃ before data after, layout.data = before ++ data :: after ∧ data.id = id ∧
      size ≤ data.page.insertionCapacity := by
  obtain ⟨entry, hsearch, hid⟩ := Option.map_eq_some_iff.1 hcandidate
  obtain ⟨hmem, hbound, -⟩ := KeyIndex.search_eq_some hsearch
  have hlisted := (h.capacities.byValue (ofLex entry).2 (ofLex entry).1).1 hmem
  obtain ⟨data, hdata, heq⟩ := List.mem_map.1 hlisted
  obtain ⟨before, after, hsplit⟩ := List.append_of_mem hdata
  rw [DataPage.capacity, Prod.mk.injEq] at heq
  refine ⟨before, data, after, hsplit, heq.1.trans hid, ?_⟩
  rw [heq.2]
  exact Prod.Lex.monotone_fst _ _ hbound

theorem Chained.candidate_eq_none {size : Nat} (h : Chained handle layout.data)
    (hcandidate : handle.candidate size = none) (hmem : data ∈ layout.data)
    (hroom : size ≤ data.page.insertionCapacity) : handle.heap.last = some data.id := by
  have hlisted := (h.capacities.byValue data.id data.page.insertionCapacity).2 (List.mem_map.2 ⟨data, hmem, rfl⟩)
  have hbound : toLex (size, 0) ≤ toLex (data.page.insertionCapacity, data.id) := by
    rw [Prod.Lex.toLex_le_toLex]
    rcases Nat.lt_or_eq_of_le hroom with hlt | heq
    · exact .inl hlt
    · exact .inr ⟨heq, Nat.zero_le _⟩
  have hpassed := KeyIndex.search_eq_none (Option.map_eq_none_iff.1 hcandidate) hlisted hbound
  exact beq_iff_eq.1 hpassed

theorem Represents.insertStored
    (h : Represents handle layout ((record.chain : Multiset (Nat × Area)) + frame))
    (hrecord : record.Valid handle.heap.tagged) (hne : record.stored handle.heap.tagged ≠ []) :
    Outcome (fun id handle' => Inserts handle layout record frame id handle' ∧ (id.page ∈ layout.ids ∨
        (¬layout.HasRoom (record.stored handle.heap.tagged).length ∧ id.page = handle.nextPage)))
      (fun error handle' => ((Exhausted handle 1 error ∧
          ¬layout.HasRoom (record.stored handle.heap.tagged).length) ∨
        slottedPageMaxRecordSize < (record.stored handle.heap.tagged).length) ∧ handle' = handle)
      (HeapHandle.insertStored (record.stored handle.heap.tagged) handle) := by
  have hchained := h.chained
  have hplaced : ∀ {before data after}, layout.data = before ++ data :: after → data.id ∈ layout.ids := by
    intro before data after hdata
    rw [HeapLayout.ids, hdata]
    exact List.mem_map_of_mem (List.mem_append_right _ List.mem_cons_self)
  unfold HeapHandle.insertStored
  rw [get_bind_run]
  split
  · rename_i hlarge
    exact ⟨.inr hlarge, rfl⟩
  rename_i hmax
  rw [Nat.not_lt] at hmax
  cases hdata : layout.data using List.reverseRecOn with
  | nil =>
    rw [if_pos (by rw [hchained.first_eq, hdata]; rfl)]
    have hnone : ¬layout.HasRoom (record.stored handle.heap.tagged).length := by
      rintro ⟨data, hmem, -⟩
      rw [hdata] at hmem
      cases hmem
    exact (h.insertFirst hrecord hdata hne hmax).mono
      (fun _ _ hinserts => ⟨hinserts.1, .inr ⟨hnone, hinserts.2⟩⟩)
      fun _ _ herror => ⟨.inl ⟨herror.1, hnone⟩, herror.2⟩
  | append_singleton before last =>
    have hfirst : handle.heap.first ≠ none := by
      rw [hchained.first_eq, hdata]
      cases before <;> nofun
    have hlast : handle.heap.last = some last.id := by
      rw [hchained.last_eq, hdata, List.getLast?_concat]
      rfl
    rw [if_neg hfirst]
    cases hcandidate : handle.candidate (record.stored handle.heap.tagged).length with
    | some id =>
      obtain ⟨before, data, after, hsplit, rfl, hroom⟩ := hchained.candidate_eq_some hcandidate
      rcases h.tryInsert hrecord hsplit hne hmax with ⟨hfull, -⟩ | ⟨placed, handle', hpage, hrun, hinserts⟩
      · exact absurd hroom (Nat.not_le.2 hfull)
      · dsimp only
        rw [bind_of_ok hrun]
        exact ⟨hinserts, .inl (hpage ▸ hplaced hsplit)⟩
    | none =>
      dsimp only
      rw [pure_bind_run, hlast]
      dsimp only
      rcases h.tryInsert hrecord hdata hne hmax with ⟨hfull, hrun⟩ | ⟨placed, handle', hpage, hrun, hinserts⟩
      · rw [bind_of_ok hrun]
        have hnone : ¬layout.HasRoom (record.stored handle.heap.tagged).length := by
          rintro ⟨data, hmem, hroom⟩
          have hid : data.id = last.id :=
            Option.some.inj ((hchained.candidate_eq_none hcandidate hmem hroom).symm.trans hlast)
          have hsame : data = last := by
            apply List.inj_on_of_nodup_map hchained.nodup hmem _ hid
            rw [hdata]
            exact List.mem_append_right _ List.mem_cons_self
          rw [hsame] at hroom
          exact absurd hroom (Nat.not_le.2 hfull)
        exact (h.insertAfter hrecord hdata hne hmax).mono
          (fun _ _ hinserts => ⟨hinserts.1, .inr ⟨hnone, hinserts.2⟩⟩)
          fun _ _ herror => ⟨.inl ⟨herror.1, hnone⟩, herror.2⟩
      · rw [bind_of_ok hrun]
        exact ⟨hinserts, .inl (hpage ▸ hplaced hdata)⟩

/-! ### The whole insertion -/

/-- No page of the chain has the room, and this is the page that comes next: one of the free ones, past those
that the record's own chain takes, or a new one. -/
def TakesPage (handle : HeapHandle) (layout : HeapLayout) (record : Bytes) (page : Nat) : Prop :=
  ¬layout.HasRoom (storedLength handle.heap.tagged record) ∧
    ((layout.free.drop (chainLength handle.heap.tagged record)).head?.map Prod.fst = some page ∨
      handle.file.pageCount ≤ page)

/-- The record is held now, under the id. -/
structure HeapInserted (handle : HeapHandle) (layout : HeapLayout) (frame : Multiset (Nat × Area)) (record : Bytes)
    (id : HeapRecordId) (handle' : HeapHandle) (layout' : HeapLayout) : Prop where
  placed : ∃ held : HeldRecord, held.Keeps handle.heap.tagged record ∧ Placed held layout.view id layout'.view
  advances : Advances handle layout frame handle' layout' frame
  rooted : Rooted handle' layout'
  page : id.page ∈ layout.ids ∨ TakesPage handle layout record id.page

theorem HeapInserted.room {record : Bytes} {id : HeapRecordId} {layout' : HeapLayout}
    (h : HeapInserted handle layout frame record id handle' layout')
    (hroom : layout.HasRoom (storedLength handle.heap.tagged record)) : id.page ∈ layout.ids :=
  h.page.resolve_right fun htakes => htakes.1 hroom

/-- Why a record is not stored: the file can not grow, or the record is refused. -/
def Unstorable (handle : HeapHandle) (layout : HeapLayout) (record : Bytes) (error : Error) : Prop :=
  (Exhausted handle (chainLength handle.heap.tagged record + 1) error ∧
    (Overflows handle.heap.tagged record ∨ ¬layout.HasRoom (storedLength handle.heap.tagged record))) ∨
  Refused handle.heap.tagged record ∨ slottedPageMaxRecordSize < storedLength handle.heap.tagged record

omit [PageSize] in
theorem Moves.stored {held : HeldRecord} {count : Nat}
    (h : Moves handle free frame handle' (free.drop count) ((held.chain : Multiset (Nat × Area)) + frame))
    (hcount : held.chain.length = count) : handle'.file.pageCount ≤ handle.file.pageCount + count ∧
      ((free.drop count).head?.map Prod.fst = some handle'.nextPage ∨ handle.file.pageCount ≤ handle'.nextPage) := by
  constructor
  · apply h.pageCount_le
    rw [List.length_drop, Multiset.card_add, Multiset.coe_card]
    omega
  · rw [HeapHandle.nextPage, h.pages.freeHead_eq]
    cases (free.drop count).head? with
    | none => exact .inr h.count_le
    | some page => exact .inl rfl

theorem Represents.insertHeld {held : HeldRecord} {record : Bytes} (h : Represents handle layout frame)
    (hkeeps : held.Keeps handle.heap.tagged record) (hvalid : held.Valid handle.heap.tagged)
    (hne : held.stored handle.heap.tagged ≠ [])
    (hstored : (held.stored handle.heap.tagged).length = storedLength handle.heap.tagged record)
    (hmoves : Moves handle layout.free (layout.beside handle.heap.root frame) handle'
      (layout.free.drop (chainLength handle.heap.tagged record))
      ((held.chain : Multiset (Nat × Area)) + layout.beside handle.heap.root frame)) :
    Outcome (fun id handle'' => ∃ layout', HeapInserted handle layout frame record id handle'' layout')
      (fun error handle'' => Unstorable handle layout record error ∧ KeepsPages handle layout frame handle'')
      (Effect.onError (HeapHandle.insertStored (held.stored handle.heap.tagged))
        (HeapHandle.freeStored (held.stored handle.heap.tagged)) handle') := by
  have hadvances := h.moves hmoves
  have hcleanup := hmoves.cleanup hvalid
  obtain ⟨hgrown, hnext⟩ := hmoves.stored hkeeps.length_chain
  rw [← hadvances.tagged_eq] at hvalid hne hstored hcleanup ⊢
  refine ((hadvances.represents.insertStored hvalid hne).mono ?_ fun _ _ herror => herror).onError ?_
  · rintro id handle'' ⟨⟨layout', hplaced, hadvances', hrooted⟩, hpage⟩
    refine ⟨layout', ⟨held, hkeeps, hplaced⟩, hadvances.trans hadvances', hrooted, hpage.imp_right ?_⟩
    rintro ⟨hnone, htaken⟩
    rw [hstored, hadvances.tagged_eq] at hnone
    rw [← htaken] at hnext
    exact ⟨hnone, hnext⟩
  · rintro error handle'' ⟨herror, rfl⟩
    rw [hstored, hadvances.tagged_eq] at herror
    refine ⟨herror.imp (fun hfault => ⟨⟨hfault.1.1, ?_⟩, .inr hfault.2⟩) .inr, hcleanup⟩
    have hfull := hfault.1.2
    omega

theorem Represents.insert (h : Represents handle layout frame) {record : Bytes}
    (hlength : record.length < 2 ^ 64) :
    Outcome (fun id handle' => ∃ layout', HeapInserted handle layout frame record id handle' layout')
      (fun error handle' => Unstorable handle layout record error ∧ KeepsPages handle layout frame handle')
      (HeapHandle.insert record handle) := by
  have hpages := h.pages
  change FreePages handle layout.free (layout.beside _ _) at hpages
  unfold HeapHandle.insert
  refine ((hpages.encodeStored hlength).mono (fun _ _ hok => hok) ?_).bind ?_
  · rintro error handle' ⟨herror, hloses⟩
    exact ⟨herror.imp (fun hfault => ⟨hfault.1.mono (Nat.le_succ _), .inl hfault.2⟩) .inl, hloses⟩
  · rintro stored middle ⟨held, hkeeps, hvalid, rfl, hne, hstored, hmoves, -⟩
    exact h.insertHeld hkeeps hvalid hne hstored hmoves

end MoDb.Storage
