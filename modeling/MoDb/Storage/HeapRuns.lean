import MoDb.Storage.HeapOpen

/-!
# Runs of a heap

A heap is created or opened, and its operations are called in any order, whether they return or fail. After
every run the heap in memory and its file are as some layout says, so its index of capacities is that of the
pages of the chain.
-/

namespace MoDb.Storage

open Effect

/-- The calls that change a heap. -/
inductive HeapOp
  | insert (record : Bytes)
  | update (id : HeapRecordId) (record : Bytes)
  | erase (id : HeapRecordId)

namespace HeapOp

/-- The length of a record is a `size_t`. -/
def Fits : HeapOp → Prop
  | .insert record => record.length < 2 ^ 64
  | .update _ record => record.length < 2 ^ 64
  | .erase _ => True

variable [PageSize]

def run : HeapOp → HeapM (Option HeapRecordId)
  | .insert record => do
    let id ← HeapHandle.insert record
    pure (some id)
  | .update id record => do
    let id ← HeapHandle.update id record
    pure (some id)
  | .erase id => do
    HeapHandle.erase id
    pure none

def Acts (tagged : Bool) (view : HeapView) : HeapOp → Option HeapRecordId → HeapView → Prop
  | .insert record, answer, view' =>
    ∃ id, answer = some id ∧ ∃ held : HeldRecord, held.Keeps tagged record ∧ Placed held view id view'
  | .update id record, answer, view' =>
    ∃ id', answer = some id' ∧ ∃ held : HeldRecord, held.Keeps tagged record ∧ Replaces held view id id' view'
  | .erase id, answer, view' => answer = none ∧ Removed view id view'

def Takes (handle : HeapHandle) (layout : HeapLayout) (page : Nat) : HeapOp → Prop
  | .insert record => TakesPage handle layout record page
  | .update id record => layout.Outgrows id (storedLength handle.heap.tagged record) ∧
      TakesPage handle layout record page
  | .erase _ => False

end HeapOp

variable [PageSize] {handle handle' : HeapHandle} {layout : HeapLayout} {frame : Multiset (Nat × Area)}

/-! ### One call -/

theorem Represents.run (h : Represents handle layout frame) {op : HeapOp} (hfits : op.Fits) :
    Outcome (fun answer handle' => ∃ layout', op.Acts handle.heap.tagged layout.view answer layout'.view ∧
        Advances handle layout frame handle' layout' frame ∧ Persisted handle layout handle' layout' ∧
        ∀ id, answer = some id → id.page ∈ layout.ids ∨ op.Takes handle layout id.page)
      (fun _ handle' => KeepsPages handle layout frame handle') (op.run handle) := by
  cases op with
  | insert record =>
    refine ((h.insert hfits).mono (fun _ _ hok => hok) fun _ _ herror => herror.2).bind ?_
    rintro id handle' ⟨layout', ⟨held, hkeeps, hplaced⟩, hadvances, hrooted, hpage⟩
    refine ⟨layout', ⟨id, rfl, held, hkeeps, hplaced⟩, hadvances, .inl hrooted, ?_⟩
    rintro _ ⟨⟩
    exact hpage
  | update id record =>
    refine ((h.update hfits id).mono (fun _ _ hok => hok) fun _ _ herror => herror.2).bind ?_
    rintro id' handle' ⟨layout', ⟨held, hkeeps, hreplaces⟩, hadvances, hpersisted, hpage⟩
    refine ⟨layout', ⟨id', rfl, held, hkeeps, hreplaces⟩, hadvances, hpersisted, ?_⟩
    rintro _ ⟨⟩
    exact hpage
  | erase id =>
    refine ((h.erase id).mono (fun _ _ hok => hok) ?_).bind ?_
    · rintro error handle' ⟨-, -, rfl⟩
      exact .refl h.pages
    · rintro - handle' ⟨layout', hremoved, hadvances, hrooted⟩
      exact ⟨layout', ⟨rfl, hremoved⟩, hadvances, .inl hrooted, nofun⟩

theorem Represents.after_run (h : Represents handle layout frame) {op : HeapOp} (hfits : op.Fits) :
    (∃ layout', Represents (after (op.run handle)) layout' frame) ∧
      (after (op.run handle)).heap.tagged = handle.heap.tagged := by
  have hrun := h.run hfits
  cases hresult : op.run handle with
  | ok answer handle' =>
    rw [hresult] at hrun
    obtain ⟨layout', -, hadvances, -⟩ := hrun
    exact ⟨⟨layout', hadvances.represents⟩, hadvances.tagged_eq⟩
  | error error handle' =>
    rw [hresult] at hrun
    obtain ⟨free, hrepresents⟩ := h.keeps hrun
    exact ⟨⟨_, hrepresents⟩, hrun.same.tagged_eq⟩

theorem represents_create {file : PageFile Area} (hholds : Holds file frame) (hpos : 0 < file.pageCount)
    (hfits : file.pageCount < 2 ^ 64) (h : HeapHandle.create file = .ok handle) :
    Represents handle ⟨encodeRoot handle.heap.toRootMetadata, [], []⟩ frame ∧ handle.heap.tagged = true := by
  unfold HeapHandle.create at h
  rcases hholds.allocate hpos with hfull | ⟨hallocate, page, hholds⟩
  · rw [hfull] at h
    cases h
  · rw [hallocate] at h
    have hlt : file.pageCount ≠ 2 ^ 64 - 1 := by
      intro heq
      rw [PageFile.allocatePage, if_pos heq] at hallocate
      cases hallocate
    obtain ⟨file', hwrite, hholds', hcount⟩ := hholds.write (encodeRoot ⟨none, none, 0, 0, none, true⟩)
    change (file.extended.write file.pageCount _ >>= _) = _ at h
    rw [hwrite] at h
    cases h
    have hextended : file.extended.pageCount = file.pageCount + 1 := rfl
    refine ⟨⟨⟨?_, ?_, ?_, rfl, trivial⟩, ⟨?_, List.nodup_nil, trivial, rfl, rfl, rfl, rfl, rfl, ?_⟩⟩, rfl⟩
    · apply hholds'.of_eq
      change _ = 0 + (_ + (0 + frame))
      rw [zero_add, zero_add]
    · rw [hcount]
      exact Nat.succ_pos _
    · rw [hcount, hextended]
      omega
    · exact fun _ hdata => absurd hdata List.not_mem_nil
    · exact KeyIndex.lists_empty

/-! ### Runs -/

/-- The root in the file is the one that the heap has in memory, as every call that returns leaves it. -/
def HeapHandle.Current (handle : HeapHandle) : Prop :=
  handle.file.read handle.heap.root = .ok (encodeRoot handle.heap.toRootMetadata)

theorem Represents.current_iff (h : Represents handle layout frame) : handle.Current ↔ Rooted handle layout := by
  rw [HeapHandle.Current, h.read_root.2, Except.ok.injEq, Rooted]

/-- The heaps of all runs. A call may fail; a heap is opened again from a root that is current. -/
inductive HeapHandle.Reached : HeapHandle → Prop
  | create {file : PageFile Area} {handle : HeapHandle} (hpos : 0 < file.pageCount)
      (hfits : file.pageCount < 2 ^ 64) (hcreate : HeapHandle.create file = .ok handle) : Reached handle
  | call {handle : HeapHandle} (op : HeapOp) (hfits : op.Fits) (h : Reached handle) :
      Reached (after (op.run handle))
  | reopen {handle handle' : HeapHandle} (hsize : 48 ≤ pageSize)
      (hbytes : handle.file.pageCount * pageSize < 2 ^ 64) (hcurrent : handle.Current)
      (hopen : HeapHandle.open handle.file handle.heap.root = .ok handle') (h : Reached handle) : Reached handle'

theorem HeapHandle.Reached.represents (h : handle.Reached) :
    (∃ layout, Represents handle layout 0) ∧ handle.heap.tagged = true := by
  induction h with
  | create hpos hfits hcreate =>
    obtain ⟨hrepresents, htagged⟩ := represents_create .empty hpos hfits hcreate
    exact ⟨⟨_, hrepresents⟩, htagged⟩
  | call op hfits _ ih =>
    obtain ⟨⟨layout, hrepresents⟩, htagged⟩ := ih
    obtain ⟨hafter, hsame⟩ := hrepresents.after_run hfits
    exact ⟨hafter, hsame.trans htagged⟩
  | reopen hsize hbytes hcurrent hopen _ ih =>
    obtain ⟨⟨layout, hrepresents⟩, htagged⟩ := ih
    obtain ⟨opened, hrun, -, hheap, hopened⟩ :=
      hrepresents.opened (hrepresents.current_iff.1 hcurrent) hsize hbytes
    rw [hopen] at hrun
    cases hrun
    exact ⟨⟨layout, hopened⟩, by rw [hheap, htagged]⟩

/-! ### The index of capacities -/

/-- The index has one pair for each page of the chain: what the page takes, and the page. -/
structure CapacityIndexed (handle : HeapHandle) (ids : List Nat) : Prop where
  path : Chain.Path (nextOf handle.file) handle.heap.first ids none
  nodup : ids.Nodup
  index : ∀ capacity id, toLex (capacity, id) ∈ handle.capacities.byValue ↔
    id ∈ ids ∧ ∃ page, loadTrusted handle.file id = .ok page ∧ page.insertionCapacity = capacity
  card : handle.capacities.byValue.card = ids.length

theorem Represents.capacityIndexed (h : Represents handle layout frame) : CapacityIndexed handle layout.ids := by
  have hlists := h.chained.capacities
  have hindex : ∀ capacity id, toLex (capacity, id) ∈ handle.capacities.byValue ↔
      ∃ data ∈ layout.data, toLex (data.page.insertionCapacity, data.id) = toLex (capacity, id) := by
    intro capacity id
    rw [hlists.byValue, List.mem_map]
    simp only [DataPage.capacity, Prod.mk.injEq, toLex_inj]
    exact exists_congr fun data => and_congr_right fun _ => and_comm
  refine ⟨h.path, h.chained.nodup, ?_, ?_⟩
  · intro capacity id
    rw [hindex]
    constructor
    · rintro ⟨data, hdata, heq⟩
      cases heq
      exact ⟨List.mem_map_of_mem hdata, data.page, h.loadTrusted_data hdata, rfl⟩
    · rintro ⟨hid, page, hload, rfl⟩
      obtain ⟨data, hdata, rfl⟩ := List.mem_map.1 hid
      rw [h.loadTrusted_data hdata] at hload
      cases hload
      exact ⟨data, hdata, rfl⟩
  · have hpairs : handle.capacities.byValue =
        (layout.data.map fun data => toLex (data.page.insertionCapacity, data.id)).toFinset := by
      ext entry
      rw [List.mem_toFinset, List.mem_map]
      exact hindex (ofLex entry).1 (ofLex entry).2
    have hpairsNodup : (layout.data.map fun data => toLex (data.page.insertionCapacity, data.id)).Nodup := by
      apply List.Nodup.of_map (fun entry => (ofLex entry).2)
      rw [List.map_map]
      exact h.chained.nodup
    rw [hpairs, List.toFinset_card_of_nodup hpairsNodup, List.length_map, HeapLayout.ids, List.length_map]

def HasRoom (handle : HeapHandle) (ids : List Nat) (record : Bytes) : Prop :=
  ∃ id ∈ ids, ∃ page, loadTrusted handle.file id = .ok page ∧
    storedLength handle.heap.tagged record ≤ page.insertionCapacity

theorem Represents.hasRoom_iff (h : Represents handle layout frame) (record : Bytes) :
    HasRoom handle layout.ids record ↔ layout.HasRoom (storedLength handle.heap.tagged record) := by
  constructor
  · rintro ⟨id, hid, page, hload, hroom⟩
    obtain ⟨data, hdata, rfl⟩ := List.mem_map.1 hid
    rw [h.loadTrusted_data hdata] at hload
    cases hload
    exact ⟨data, hdata, hroom⟩
  · rintro ⟨data, hdata, hroom⟩
    exact ⟨data.id, List.mem_map_of_mem hdata, data.page, h.loadTrusted_data hdata, hroom⟩

theorem Unstorable.of_room {record : Bytes} {error : Error} (h : Unstorable handle layout record error)
    (htagged : handle.heap.tagged = true) (hroom : layout.HasRoom (storedLength handle.heap.tagged record)) :
    record = [] ∨ slottedPageMaxRecordSize < 1 + record.length := by
  rcases h with ⟨-, hover | hnone⟩ | (hempty | hlegacy) | hlarge
  · exact .inr hover.2
  · exact absurd hroom hnone
  · exact .inl hempty
  · rw [htagged] at hlegacy
    cases hlegacy.1
  · right
    by_contra hsmall
    rw [storedLength, htagged, if_pos rfl, if_pos (Nat.not_lt.1 hsmall)] at hlarge
    exact hsmall hlarge

/-- After every run the index is that of the pages of the chain, and a record comes into one of them if one
has room for it. -/
theorem capacityIndexed_of_reached (h : handle.Reached) : ∃ ids, CapacityIndexed handle ids ∧
    ∀ record : Bytes, record.length < 2 ^ 64 → HasRoom handle ids record →
      Outcome (fun placed _ => placed.page ∈ ids)
        (fun _ _ => record = [] ∨ slottedPageMaxRecordSize < 1 + record.length)
        (HeapHandle.insert record handle) ∧
      ∀ id, Outcome (fun placed _ => placed.page ∈ ids)
        (fun error _ => error.code = .recordNotFound ∨ record = [] ∨ slottedPageMaxRecordSize < 1 + record.length)
        (HeapHandle.update id record handle) := by
  obtain ⟨⟨layout, hrepresents⟩, htagged⟩ := h.represents
  refine ⟨layout.ids, hrepresents.capacityIndexed, fun record hlength hroom => ?_⟩
  rw [hrepresents.hasRoom_iff] at hroom
  constructor
  · refine (hrepresents.insert hlength).mono ?_ fun _ _ herror => herror.1.of_room htagged hroom
    rintro placed handle' ⟨layout', hinserted⟩
    exact hinserted.room hroom
  · intro id
    refine (hrepresents.update hlength id).mono ?_ ?_
    · rintro placed handle' ⟨layout', hupdated⟩
      exact hupdated.room hroom
    · rintro error handle' ⟨herror, -⟩
      exact herror.imp (fun hnone => hnone.1) fun hunstorable => hunstorable.of_room htagged hroom

omit [PageSize] in
/-- A new heap with one record. -/
theorem capacityIndexed_of_reached_insert : letI := PageSize.default
    ∃ handle, HeapHandle.create PageFile.create = .ok handle ∧
      ∃ ids, CapacityIndexed (after ((HeapOp.insert [7]).run handle)) ids := by
  obtain ⟨handle, hcreate⟩ : ∃ handle, HeapHandle.create PageFile.create = .ok handle := ⟨_, rfl⟩
  have hfits : (HeapOp.insert [7]).Fits := by
    change 1 < 2 ^ 64
    decide
  have hreached := @HeapHandle.Reached.call PageSize.default handle _ hfits
    (@HeapHandle.Reached.create PageSize.default _ _ (by decide) (by decide) hcreate)
  obtain ⟨ids, hindexed, -⟩ := @capacityIndexed_of_reached PageSize.default _ hreached
  exact ⟨handle, hcreate, ids, hindexed⟩

end MoDb.Storage
