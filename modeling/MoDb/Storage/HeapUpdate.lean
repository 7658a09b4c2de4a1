import MoDb.Storage.HeapErase

/-!
# Update

A record is written over in its slot. Where the page has no room for it, it is inserted again, and the old
one is erased.
-/

namespace MoDb.Storage

open Effect

variable [PageSize] {handle handle' : HeapHandle} {layout : HeapLayout} {frame : Multiset (Nat × Area)}
  {free : List (Nat × Area)} {held : HeldRecord} {id : HeapRecordId} {before after : List DataPage}
  {data : DataPage} {slot generation : Nat}

/-! ### In its page -/

theorem DataPage.Valid.rewritten {tagged : Bool} {old : HeldRecord} {page : SlottedPage} (h : data.Valid tagged)
    (hcell : data.cells[slot]? = some (some old, generation)) (hheld : held.Valid tagged)
    (hupdate : data.page.update slot (held.stored tagged) = .ok page) :
    (data.filled held slot generation page).Valid tagged ∧ page.nextPage = data.page.nextPage ∧
      page.previousPage = data.page.previousPage := by
  obtain ⟨hvalid, hnext, hprevious, hentries⟩ := h.sane.valid.update_spec (h.entry_of_cell hcell) hupdate
  have hslot := Nat.le_of_lt (List.getElem?_eq_some_iff.1 hcell).1
  refine ⟨DataPage.valid_page hvalid (h.sane.valid.signed_update h.sane.signed hupdate) ⟨?_, ?_⟩ ?_ ?_, hnext,
    hprevious⟩
  · rw [hnext]
    exact h.sane.linkable.next
  · rw [hprevious]
    exact h.sane.linkable.previous
  · rw [hentries, h.entries, map_put]
    rfl
  · intro cell hmem record hrecord
    rcases mem_put hslot hmem with rfl | hmem
    · exact Option.some.inj hrecord ▸ hheld
    · exact h.records cell hmem record hrecord

omit [PageSize] in
theorem DataPage.recordCount_rewritten {old : HeldRecord}
    (hcell : data.cells[slot]? = some (some old, generation)) (page : SlottedPage) :
    (data.filled held slot generation page).recordCount = data.recordCount := by
  have hsum := sum_map_put (fun cell => if cell.live then 1 else 0) hcell (some held, generation)
  rw [DataPage.recordCount, DataPage.recordCount, countP_eq_sum, countP_eq_sum]
  exact Nat.add_right_cancel hsum

omit [PageSize] in
theorem DataPage.chain_filled {old : HeldRecord} (hcell : data.cells[slot]? = some (some old, generation))
    (page : SlottedPage) : ((data.filled held slot generation page).cells.map Cell.chain).sum =
      (held.chain : Multiset (Nat × Area)) +
        ((put data.cells slot (none, generation)).map Cell.chain).sum := by
  have hslot := Nat.le_of_lt (List.getElem?_eq_some_iff.1 hcell).1
  have hsum := sum_map_put Cell.chain hcell (some held, generation)
  have hrest := DataPage.chain_emptied hcell
  rw [hrest] at hsum
  apply add_right_cancel (b := (old.chain : Multiset (Nat × Area)))
  refine hsum.trans ?_
  change _ + (held.chain : Multiset (Nat × Area)) = _
  abel

omit [PageSize] in
theorem HeldRecord.Valid.chain_eq_nil {tagged : Bool} [PageSize] (h : held.Valid tagged)
    (hover : HeapHandle.isOverflow tagged (held.stored tagged) = false) : held.chain = [] := by
  cases hchain : held.chain with
  | nil => rfl
  | cons page rest =>
    obtain ⟨rfl, -⟩ := h.carries (by rw [hchain]; exact List.cons_ne_nil _ _)
    rw [HeldRecord.stored, if_pos rfl, hchain] at hover
    cases hover

def SlottedPage.TakesUpdate (page : SlottedPage) (id size : Nat) : Prop :=
  ∃ slot, page.occupiedSlot id = .ok slot ∧
    (size = slot.capacity ∨ size ≤ page.freeSpace + page.deadBytes + slot.capacity)

theorem SlottedPage.not_takesUpdate {page : SlottedPage} {record : Bytes} {error : Error}
    (h : page.update slot record = .error error) (hcode : error.code = .pageFull) :
    ¬page.TakesUpdate slot record.length := by
  rintro ⟨held, hslot, hroom⟩
  unfold SlottedPage.update at h
  split at h
  · cases h
    cases hcode
  · rw [hslot] at h
    dsimp only at h
    split at h
    · cases h
      cases hcode
    · split at h
      · rename_i hne
        split at h
        · rename_i hfull
          exact absurd (hroom.resolve_left hne) (Nat.not_le.2 hfull)
        · cases h
      · cases h

/-- The record with that id can not be written over in its slot by one of that length. -/
def HeapLayout.Outgrows (layout : HeapLayout) (id : HeapRecordId) (size : Nat) : Prop :=
  ∃ data ∈ layout.data, data.id = id.page ∧ ¬data.page.TakesUpdate id.slot size

/-- What an update does. -/
structure HeapUpdated (handle : HeapHandle) (layout : HeapLayout) (frame : Multiset (Nat × Area)) (record : Bytes)
    (id id' : HeapRecordId) (handle' : HeapHandle) (layout' : HeapLayout) : Prop where
  rewritten : ∃ held : HeldRecord, held.Keeps handle.heap.tagged record ∧ Replaces held layout.view id id' layout'.view
  advances : Advances handle layout frame handle' layout' frame
  persisted : Persisted handle layout handle' layout'
  page : id'.page ∈ layout.ids ∨ (layout.Outgrows id (storedLength handle.heap.tagged record) ∧
    TakesPage handle layout record id'.page)

theorem HeapUpdated.room {record : Bytes} {id id' : HeapRecordId} {layout' : HeapLayout}
    (h : HeapUpdated handle layout frame record id id' handle' layout')
    (hroom : layout.HasRoom (storedLength handle.heap.tagged record)) : id'.page ∈ layout.ids :=
  h.page.resolve_right fun htakes => htakes.2.1 hroom

theorem Represents.update (h : Represents handle layout frame) {record : Bytes}
    (hlength : record.length < 2 ^ 64) (id : HeapRecordId) :
    Outcome (fun id' handle' => ∃ layout', HeapUpdated handle layout frame record id id' handle' layout')
      (fun error handle' => ((error.code = .recordNotFound ∧ ∀ held, ¬layout.view.Has id held) ∨
          Unstorable handle layout record error) ∧ KeepsPages handle layout frame handle')
      (HeapHandle.update id record handle) := by
  unfold HeapHandle.update
  have hpages := h.pages
  change FreePages handle layout.free (layout.beside _ _) at hpages
  rcases h.locate id with ⟨before, data, after, old, hlocated, hrun⟩ | ⟨hnone, error, hcode, hrun⟩
  swap
  · rw [bind_of_error hrun]
    exact ⟨.inl ⟨hcode, hnone⟩, .refl hpages⟩
  have hhas := hlocated.has
  obtain ⟨hdata, hpage, hcell⟩ := hlocated
  obtain ⟨pageId, slot, generation⟩ := id
  obtain rfl : data.id = pageId := hpage
  have hchained := h.chained
  rw [hdata] at hchained
  have hvalid := hchained.valid
  have hentry := hvalid.entry_of_cell hcell
  have hold := hvalid.records _ (List.mem_of_getElem? hcell) old rfl
  rw [bind_of_ok hrun, SlottedPage.read_of_some hentry, demand_ok_bind]
  refine ((hpages.encodeStored hlength).mono (fun _ _ hok => hok) ?_).bind ?_
  · rintro error handle' ⟨herror, hloses⟩
    exact ⟨.inr (herror.imp (fun hfault => ⟨hfault.1.mono (Nat.le_succ _), .inl hfault.2⟩) .inl), hloses⟩
  rintro stored middle ⟨held, hkeeps, hheld, rfl, hne, hstored, hmoves, hinline⟩
  have htagged := hmoves.same.tagged_eq
  rw [get_bind_run, htagged]
  cases hupdate : data.page.update slot (held.stored handle.heap.tagged) with
  | error error =>
    have hcleanup := hmoves.cleanup hheld
    by_cases hcode : error.code ≠ .pageFull
    · have hlarge : slottedPageMaxRecordSize < (held.stored handle.heap.tagged).length := by
        by_contra hmax
        have hfull := SlottedPage.update_error hentry hne (Nat.not_lt.1 hmax) hupdate
        exact hcode (by rw [hfull])
      dsimp only
      rw [if_pos hcode]
      exact ⟨.inr (.inr (.inr (hstored ▸ hlarge))), hcleanup⟩
    · dsimp only
      rw [if_neg hcode]
      refine ((h.insertHeld hkeeps hheld hne hstored hmoves).mono (fun _ _ hok => hok) ?_).bind ?_
      · rintro error handle' ⟨herror, hkeeps⟩
        exact ⟨.inr herror, hkeeps⟩
      · rintro placed inserted ⟨layout', hinserted⟩
        obtain ⟨held, hkeeps, hplaced⟩ := hinserted.placed
        refine ((hinserted.advances.represents.erase ⟨data.id, slot, generation⟩).mono (fun _ _ hok => hok) ?_).bind ?_
        · rintro error handle' ⟨-, hnone, -⟩
          exact absurd (hplaced.has hhas) (hnone old)
        · rintro - handle' ⟨layout'', hremoved, herased, hrooted⟩
          refine ⟨layout'', ⟨⟨held, hkeeps, .moved hhas hplaced hremoved⟩, hinserted.advances.trans herased,
            .inl hrooted, hinserted.page.imp_right fun htakes => ⟨?_, htakes⟩⟩⟩
          refine ⟨data, ?_, rfl, ?_⟩
          · rw [hdata]
            exact List.mem_append_right _ List.mem_cons_self
          · rw [← hstored]
            exact SlottedPage.not_takesUpdate hupdate (not_not.1 hcode)
  | ok page =>
    dsimp only
    obtain ⟨hfilled, hnext, hprevious⟩ := hvalid.rewritten hcell hheld hupdate
    generalize layout.free.drop (chainLength handle.heap.tagged record) = free at hmoves
    have hframe : ∀ root, (held.chain : Multiset (Nat × Area)) + layout.beside root frame =
        {(data.id, data.page.area)} + ((old.chain : Multiset (Nat × Area)) + ({(root, layout.rootPage)} +
          ((held.chain : Multiset (Nat × Area)) + (((put data.cells slot (none, generation)).map Cell.chain).sum +
            (pagesOf (before ++ after) + frame))))) := by
      intro root
      rw [HeapLayout.beside_split hdata, DataPage.chain_emptied hcell]
      abel
    have haccounts := hmoves.toAccounts
    rw [hframe] at haccounts
    obtain ⟨file, hwrite, hwritten⟩ := haccounts.pages.writePage page.page
    obtain ⟨changed, hchanged⟩ : ∃ changed : HeapHandle, changed = { middle with
      file := file
      capacities := middle.capacities.set data.id page.insertionCapacity } := ⟨_, rfl⟩
    have hmemory : Accounts { middle with file := file } free _ changed free _ :=
      hwritten.pages.accounts (by rw [hchanged]) (by rw [hchanged])
    have htagged' : changed.heap.tagged = handle.heap.tagged := by
      rw [hchanged]
      exact htagged
    rw [add_left_comm {(data.id, page.page)}] at hwritten hmemory
    obtain ⟨freed, free', hfree, hfreed, hkept⟩ := hmemory.pages.freeStored (htagged'.symm ▸ hold)
    rw [htagged'] at hfree
    have hpages' := (haccounts.trans hwritten.toAccounts).trans (hmemory.trans hfreed.toAccounts)
    have hchained' : Chained freed (before ++ data.filled held slot generation page :: after) := by
      refine Chained.same ((hchained.same hmoves.same).replaced ?_ ?_ ?_ ?_ ?_ ?_) hfreed.same
      · rw [DataPage.link, DataPage.link, ← hprevious, ← hnext]
        rfl
      · rw [htagged]
        exact hfilled
      · rw [hchanged]
      · rw [DataPage.recordCount_rewritten hcell, hchanged]
      · rw [hchanged]
      · rw [hchanged]
        rfl
    have hroot : freed.heap.root = handle.heap.root := by
      rw [hfreed.same.root_eq, hchanged]
      exact hmoves.same.root_eq
    have hview : ∀ rootPage free', Replaces held layout.view ⟨data.id, slot, generation⟩ ⟨data.id, slot, generation⟩
        (HeapLayout.view ⟨rootPage, before ++ data.filled held slot generation page :: after, free'⟩) := by
      intro rootPage free'
      change Replaces held layout.view _ _ (viewOf (before ++ data.filled held slot generation page :: after))
      rw [HeapLayout.view, hdata, viewOf_split, viewOf_split]
      exact .slot rfl hcell
    have hbeside : ∀ rootPage free', HeapLayout.beside
        ⟨rootPage, before ++ data.filled held slot generation page :: after, free'⟩ handle.heap.root frame =
        {(data.id, page.page)} + ({(handle.heap.root, rootPage)} + ((held.chain : Multiset (Nat × Area)) +
          (((put data.cells slot (none, generation)).map Cell.chain).sum +
            (pagesOf (before ++ after) + frame)))) := by
      intro rootPage free'
      rw [@HeapLayout.beside_split ⟨_, _, _⟩ _ _ _ rfl, DataPage.chain_filled hcell, add_assoc]
      rfl
    have hmem : data.id ∈ layout.ids := by
      rw [HeapLayout.ids, hdata]
      exact List.mem_map_of_mem (List.mem_append_right _ List.mem_cons_self)
    have hdone : ∀ outside : Bool, (do
        HeapHandle.writePage data.id page.page
        HeapHandle.setInsertionCapacity data.id page.insertionCapacity
        HeapHandle.freeStored (old.stored handle.heap.tagged)
        if outside then HeapHandle.persistRoot
        pure ⟨data.id, slot, generation⟩ : HeapM HeapRecordId) middle = (do
          if outside then HeapHandle.persistRoot
          pure ⟨data.id, slot, generation⟩ : HeapM HeapRecordId) freed := by
      intro outside
      subst hchanged
      exact (bind_of_ok hwrite).trans (bind_of_ok hfree)
    rw [hdone]
    cases hover : HeapHandle.isOverflow handle.heap.tagged (old.stored handle.heap.tagged) ||
      HeapHandle.isOverflow handle.heap.tagged (held.stored handle.heap.tagged) with
    | true =>
      have hrooted := hpages'.pages
      rw [add_left_comm, ← hroot] at hrooted
      obtain ⟨file', hpersist, hpersisted⟩ := hrooted.persistRoot
      rw [hroot, add_left_comm, add_left_comm {(handle.heap.root, encodeRoot _)}] at hpersisted
      rw [if_pos rfl, bind_of_ok hpersist]
      refine ⟨⟨encodeRoot freed.heap.toRootMetadata, before ++ data.filled held slot generation page :: after, free'⟩,
        ⟨⟨held, hkeeps, hview _ _⟩, ⟨?_, hchained'.same rfl, hroot, ?_⟩, .inl rfl, .inl hmem⟩⟩
      · rw [hbeside]
        exact hpages'.trans hpersisted
      · exact hfreed.same.tagged_eq.trans htagged'
    | false =>
      rw [Bool.or_eq_false_iff] at hover
      have hsame : freed.heap = handle.heap := by
        rw [hkept (hold.chain_eq_nil hover.1), hchanged]
        rw [hinline (hheld.chain_eq_nil hover.2)]
      refine ⟨⟨layout.rootPage, before ++ data.filled held slot generation page :: after, free'⟩, ⟨⟨held, hkeeps,
        hview _ _⟩, ⟨?_, hchained', hroot, by rw [hsame]⟩, .inr ⟨rfl, hsame⟩, .inl hmem⟩⟩
      rw [hbeside]
      exact hpages'

end MoDb.Storage
