import MoDb.Storage.SlottedPage
import Mathlib.Data.List.Forall2

/-!
# The directory of a slotted page

What a page says to its users is a directory: for each slot the record in it, if any, and its
generation. On a page that `validate_page` accepts the operations change the directory in one entry
and nothing else, also where they move every record of the page.
-/

namespace MoDb.Storage

/-- The record of a slot, if it holds one, and the generation of the slot. -/
abbrev Entry := Option Bytes × Nat

namespace Entry

def reusable (entry : Entry) : Bool := entry.1.isNone ∧ entry.2 ≠ 65535

end Entry

def Slot.entry (area : Area) (slot : Slot) : Entry :=
  (if slot.occupied then some (readArea area slot.offset slot.size) else none, slot.generation)

namespace SlottedPage

def entries (page : SlottedPage) : List Entry := page.slots.map (Slot.entry page.area)

@[simp]
theorem length_entries (page : SlottedPage) : page.entries.length = page.slots.length := by
  simp [entries]

theorem getElem?_entries (page : SlottedPage) (id : Nat) :
    page.entries[id]? = page.slots[id]?.map (Slot.entry page.area) := by
  simp [entries]

variable [PageSize]

/-- What `validate_page` checks, and the range of a generation. -/
structure Valid (page : SlottedPage) : Prop where
  boundary : page.freeStart ≤ page.freeEnd
  freeEnd_le : page.freeEnd ≤ pageSize
  generation : ∀ slot ∈ page.slots, 0 < slot.generation ∧ slot.generation ≤ 65535
  free : ∀ slot ∈ page.slots, slot.occupied = false → slot.offset = 0 ∧ slot.capacity = 0
  live : ∀ slot ∈ page.slots, slot.occupied = true →
    slot.size ≤ slot.capacity ∧ page.freeEnd ≤ slot.offset ∧ slot.offset + slot.capacity ≤ pageSize
  apart : ∀ (i j : Nat) (s t : Slot), page.slots[i]? = some s → page.slots[j]? = some t → i ≠ j →
    s.occupied = true → t.occupied = true → s.block.Apart t.block

omit [PageSize] in
theorem occupied_iff {slot : Slot} : slot.occupied = true ↔ slot.size ≠ 0 := by simp [Slot.occupied]

def blocks (page : SlottedPage) : List Block := (page.slots.filter Slot.occupied).map Slot.block

theorem Valid.pairwise_blocks {page : SlottedPage} (h : page.Valid) :
    page.blocks.Pairwise Block.Apart := by
  rw [blocks, List.pairwise_map, List.pairwise_filter, List.pairwise_iff_getElem]
  intro i j hi hj hij hs ht
  exact h.apart i j _ _ (List.getElem?_eq_getElem hi) (List.getElem?_eq_getElem hj) (by omega) hs ht

theorem Valid.within_blocks {page : SlottedPage} (h : page.Valid) :
    ∀ b ∈ page.blocks, b.Within page.freeEnd pageSize := by
  intro b hb
  obtain ⟨slot, hslot, rfl⟩ := List.mem_map.1 hb
  obtain ⟨hmem, hocc⟩ := List.mem_filter.1 hslot
  obtain ⟨hsize, hlow, hhigh⟩ := h.live slot hmem hocc
  have hpos := occupied_iff.1 hocc
  exact ⟨hlow, Nat.lt_add_of_pos_right (by omega), hhigh⟩

omit [PageSize] in
theorem liveCapacity_eq (page : SlottedPage) : page.liveCapacity = (page.blocks.map Block.size).sum := by
  simp [liveCapacity, blocks, Function.comp_def, Slot.block, Block.size]

theorem Valid.liveCapacity_le {page : SlottedPage} (h : page.Valid) :
    page.liveCapacity ≤ pageSize - page.freeEnd := by
  rw [liveCapacity_eq]
  exact Block.sum_size_le h.pairwise_blocks h.within_blocks

theorem Valid.reclaimable_add {page : SlottedPage} (h : page.Valid) :
    page.freeSpace + page.deadBytes + page.liveCapacity + page.freeStart = pageSize := by
  have hlive := h.liveCapacity_le
  have hboundary := h.boundary
  have hend := h.freeEnd_le
  unfold freeSpace deadBytes
  omega

theorem checkSlots_eq {freeEnd : Nat} {slots : List Slot}
    (hgeneration : ∀ slot ∈ slots, 0 < slot.generation)
    (hfree : ∀ slot ∈ slots, slot.occupied = false → slot.offset = 0 ∧ slot.capacity = 0)
    (hlive : ∀ slot ∈ slots, slot.occupied = true →
      slot.size ≤ slot.capacity ∧ freeEnd ≤ slot.offset ∧ slot.offset + slot.capacity ≤ pageSize) :
    checkSlots freeEnd slots = .ok ((slots.filter Slot.occupied).map Slot.block) := by
  induction slots with
  | nil => rfl
  | cons slot slots ih =>
    have hrest := ih (fun s hs => hgeneration s (List.mem_cons_of_mem slot hs))
      (fun s hs => hfree s (List.mem_cons_of_mem slot hs))
      (fun s hs => hlive s (List.mem_cons_of_mem slot hs))
    have hpos := hgeneration slot List.mem_cons_self
    rw [checkSlots, if_neg (Nat.ne_of_gt hpos)]
    by_cases hsize : slot.size = 0
    · have hocc : slot.occupied = false := by simp [Slot.occupied, hsize]
      obtain ⟨hoffset, hcapacity⟩ := hfree slot List.mem_cons_self hocc
      rw [if_pos hsize, if_neg (by simp [hoffset, hcapacity]), hrest, List.filter_cons_of_neg (by simp [hocc])]
    · have hocc : slot.occupied = true := occupied_iff.2 hsize
      obtain ⟨hfit, hlow, hhigh⟩ := hlive slot List.mem_cons_self hocc
      rw [if_neg hsize, if_neg (by omega), if_neg (by omega), hrest, List.filter_cons_of_pos hocc]
      rfl

theorem Valid.validate_eq {page : SlottedPage} (h : page.Valid) : page.validate = .ok () := by
  have hboundary := h.boundary
  have hend := h.freeEnd_le
  have hslots : checkSlots page.freeEnd page.slots = .ok page.blocks :=
    checkSlots_eq (fun slot hslot => (h.generation slot hslot).1) h.free h.live
  have horder := Block.inOrder_mergeSort h.pairwise_blocks fun b hb => (h.within_blocks b hb).2.1
  rw [validate, if_neg (by omega), if_neg (by omega), hslots]
  exact if_pos horder

/-! ### Compaction -/

/-- A slot after the records were packed: its record is where the new area says, between the two
bounds. -/
structure Moved (source area : Area) (low high : Nat) (slot moved : Slot) : Prop where
  size : moved.size = slot.size
  capacity : moved.capacity = slot.capacity
  generation : moved.generation = slot.generation
  free : slot.occupied = false → moved = slot
  live : slot.occupied = true → low ≤ moved.offset ∧ moved.offset + moved.capacity ≤ high ∧
    readArea area moved.offset slot.capacity = readArea source slot.offset slot.capacity

omit [PageSize] in
theorem Moved.occupied_eq {source area : Area} {low high : Nat} {slot moved : Slot}
    (h : Moved source area low high slot moved) : moved.occupied = slot.occupied := by
  simp [Slot.occupied, h.size]

structure Packed (source : Area) (slots : List Slot) (destination : Nat) (area : Area)
    (result : List Slot × Nat × Area) : Prop where
  stop : result.2.1 + ((slots.filter Slot.occupied).map Slot.capacity).sum = destination
  outside : ∀ i, i < result.2.1 ∨ destination ≤ i → result.2.2 i = area i
  moved : List.Forall₂ (Moved source result.2.2 result.2.1 destination) slots result.1
  descending : result.1.Pairwise fun s t => s.occupied = true → t.occupied = true →
    t.offset + t.capacity ≤ s.offset

omit [PageSize] in
theorem packed_pack (source : Area) (slots : List Slot) (destination : Nat) (area : Area)
    (hfit : ((slots.filter Slot.occupied).map Slot.capacity).sum ≤ destination)
    (hsame : ∀ i < destination, area i = source i) :
    Packed source slots destination area (pack source slots destination area) := by
  induction slots generalizing destination area with
  | nil => exact ⟨rfl, fun _ _ => rfl, .nil, .nil⟩
  | cons slot slots ih =>
    by_cases hocc : slot.occupied = true
    · have hsum : ((((slot :: slots).filter Slot.occupied).map Slot.capacity).sum) =
          slot.capacity + ((slots.filter Slot.occupied).map Slot.capacity).sum := by
        rw [List.filter_cons_of_pos hocc, List.map_cons, List.sum_cons]
      rw [hsum] at hfit
      let offset := destination - slot.capacity
      let copied := if slot.offset ≠ offset then
        copyTo area offset (readArea source slot.offset slot.capacity) else area
      have hoffset : offset + slot.capacity = destination := Nat.sub_add_cancel (by omega)
      have houtside : ∀ i, i < offset ∨ destination ≤ i → copied i = area i := by
        intro i hi
        dsimp only [copied]
        split
        · exact copyTo_of_outside (by simpa [hoffset] using hi)
        · rfl
      have hplaced : readArea copied offset slot.capacity =
          readArea source slot.offset slot.capacity := by
        dsimp only [copied]
        split
        · have hcopy := readArea_copyTo_self area offset (readArea source slot.offset slot.capacity)
          rwa [length_readArea] at hcopy
        · rename_i heq
          rw [not_not.1 heq]
          exact readArea_congr fun i _ hi => hsame i (by omega)
      have hrest := ih offset copied (by omega) (by
        intro i hi
        rw [houtside i (.inl hi)]
        exact hsame i (by omega))
      have hpack : pack source (slot :: slots) destination area =
          ({ slot with offset := offset } :: (pack source slots offset copied).1,
            (pack source slots offset copied).2.1, (pack source slots offset copied).2.2) := by
        rw [pack, if_pos hocc]
      have hstop := hrest.stop
      rw [hpack]
      constructor
      · dsimp only
        omega
      · intro i hi
        dsimp only at hi ⊢
        rw [hrest.outside i (by omega), houtside i (by omega)]
      · refine .cons ⟨rfl, rfl, rfl, ?_, ?_⟩ (hrest.moved.imp ?_)
        · intro hfree
          rw [hocc] at hfree
          exact absurd hfree (by simp)
        · intro _
          refine ⟨by dsimp only; omega, by dsimp only; omega, ?_⟩
          rw [← hplaced]
          apply readArea_congr
          intro i hi _
          exact hrest.outside i (.inr hi)
        · intro s moved hmoved
          refine ⟨hmoved.size, hmoved.capacity, hmoved.generation, hmoved.free, ?_⟩
          intro hs
          obtain ⟨hlow, hhigh, hread⟩ := hmoved.live hs
          exact ⟨hlow, by omega, hread⟩
      · refine List.pairwise_cons.2 ⟨?_, hrest.descending⟩
        intro t ht _ htocc
        obtain ⟨k, hk, rfl⟩ := List.getElem_of_mem ht
        have hlen := hrest.moved.length_eq
        have hmoved := hrest.moved.get (by omega) hk
        simp only [List.get_eq_getElem] at hmoved
        rw [hmoved.occupied_eq] at htocc
        exact (hmoved.live htocc).2.1
    · have hfree : slot.occupied = false := by simpa using hocc
      have hfilter : (slot :: slots).filter Slot.occupied = slots.filter Slot.occupied :=
        List.filter_cons_of_neg (by simp [hfree])
      rw [hfilter] at hfit
      have hrest := ih destination area hfit hsame
      have hpack : pack source (slot :: slots) destination area =
          (slot :: (pack source slots destination area).1,
            (pack source slots destination area).2.1, (pack source slots destination area).2.2) := by
        rw [pack, if_neg hocc]
      rw [hpack]
      constructor
      · rw [hfilter]
        exact hrest.stop
      · exact hrest.outside
      · refine .cons ⟨rfl, rfl, rfl, fun _ => rfl, ?_⟩ hrest.moved
        intro habsurd
        exact absurd habsurd hocc
      · refine List.pairwise_cons.2 ⟨?_, hrest.descending⟩
        intro t _ hs
        exact absurd hs hocc

theorem Valid.packed {page : SlottedPage} (h : page.Valid) :
    Packed page.area page.slots pageSize page.area (pack page.area page.slots pageSize page.area) := by
  apply packed_pack _ _ _ _ _ fun _ _ => rfl
  have hlive := h.liveCapacity_le
  unfold liveCapacity at hlive
  omega

theorem Valid.freeEnd_compact {page : SlottedPage} (h : page.Valid) :
    page.compact.freeEnd + page.liveCapacity = pageSize := h.packed.stop

omit [PageSize] in
theorem Moved.entry_eq {source area : Area} {low high : Nat} {slot moved : Slot}
    (h : Moved source area low high slot moved) (hsize : slot.occupied = true → slot.size ≤ slot.capacity) :
    moved.entry area = slot.entry source := by
  unfold Slot.entry
  rw [h.occupied_eq, h.generation]
  by_cases hocc : slot.occupied = true
  · have hread := (h.live hocc).2.2
    rw [if_pos hocc, if_pos hocc, h.size, readArea_take (hsize hocc), hread, ← readArea_take (hsize hocc)]
  · rw [if_neg hocc, if_neg hocc]

theorem Valid.entries_compact {page : SlottedPage} (h : page.Valid) :
    page.compact.entries = page.entries := by
  have hmoved := h.packed.moved
  change (pack page.area page.slots pageSize page.area).1.map
    (Slot.entry (pack page.area page.slots pageSize page.area).2.2) = page.slots.map (Slot.entry page.area)
  apply List.ext_getElem
  · simp [hmoved.length_eq]
  · intro i hi hi'
    rw [List.length_map] at hi hi'
    rw [List.getElem_map, List.getElem_map]
    apply (hmoved.get hi' hi).entry_eq
    intro hocc
    exact (h.live _ (List.getElem_mem hi') hocc).1

omit [PageSize] in
theorem Packed.exists_moved {source area : Area} {slots : List Slot} {destination : Nat}
    {result : List Slot × Nat × Area} (h : Packed source slots destination area result) {moved : Slot}
    (hmem : moved ∈ result.1) :
    ∃ slot ∈ slots, Moved source result.2.2 result.2.1 destination slot moved := by
  obtain ⟨i, hi, rfl⟩ := List.getElem_of_mem hmem
  have hlen := h.moved.length_eq
  exact ⟨slots[i], List.getElem_mem _, h.moved.get (by omega) hi⟩

theorem Valid.compact {page : SlottedPage} (h : page.Valid) : page.compact.Valid := by
  have hpacked := h.packed
  have hstop := h.freeEnd_compact
  have hlive := h.liveCapacity_le
  have hboundary := h.boundary
  have hend := h.freeEnd_le
  have hlen : page.compact.slots.length = page.slots.length := hpacked.moved.length_eq.symm
  constructor
  · have hstart : page.compact.freeStart = page.freeStart := by simp [freeStart, hlen]
    rw [hstart]
    omega
  · omega
  · intro moved hmem
    obtain ⟨slot, hslot, hmoved⟩ := hpacked.exists_moved hmem
    rw [hmoved.generation]
    exact h.generation slot hslot
  · intro moved hmem hfree
    obtain ⟨slot, hslot, hmoved⟩ := hpacked.exists_moved hmem
    rw [hmoved.occupied_eq] at hfree
    rw [hmoved.free hfree]
    exact h.free slot hslot hfree
  · intro moved hmem hocc
    obtain ⟨slot, hslot, hmoved⟩ := hpacked.exists_moved hmem
    rw [hmoved.occupied_eq] at hocc
    obtain ⟨hlow, hhigh, -⟩ := hmoved.live hocc
    refine ⟨?_, hlow, hhigh⟩
    rw [hmoved.size, hmoved.capacity]
    exact (h.live slot hslot hocc).1
  · intro i j s t hs ht hij hsocc htocc
    have hdescending := List.pairwise_iff_getElem.1 hpacked.descending
    obtain ⟨hi, rfl⟩ := List.getElem?_eq_some_iff.1 hs
    obtain ⟨hj, rfl⟩ := List.getElem?_eq_some_iff.1 ht
    rcases Nat.lt_or_gt_of_ne hij with hlt | hgt
    · exact .inr (hdescending i j hi hj hlt hsocc htocc)
    · exact .inl (hdescending j i hj hi hgt htocc hsocc)

@[simp]
theorem length_slots_compact {page : SlottedPage} (h : page.Valid) :
    page.compact.slots.length = page.slots.length := h.packed.moved.length_eq.symm

/-! ### One slot changes -/

omit [PageSize] in
theorem entry_copyTo {area : Area} {offset : Nat} {record : Bytes} {slot : Slot}
    (hsize : slot.size ≤ slot.capacity)
    (hapart : slot.block.Apart ⟨offset, offset + record.length⟩) :
    slot.entry (copyTo area offset record) = slot.entry area := by
  unfold Slot.entry
  split
  · congr 2
    apply readArea_congr
    intro i hlow hhigh
    apply copyTo_of_outside
    rcases hapart with hbefore | hafter
    · dsimp only [Slot.block] at hbefore
      omega
    · dsimp only [Slot.block] at hafter
      omega
  · rfl

omit [PageSize] in
theorem entry_copyTo_self (area : Area) (offset : Nat) {record : Bytes} (hne : record ≠ [])
    (generation : Nat) :
    Slot.entry (copyTo area offset record) ⟨offset, record.length, record.length, generation⟩ =
      (some record, generation) := by
  have hocc : Slot.occupied ⟨offset, record.length, record.length, generation⟩ = true :=
    occupied_iff.2 (by simpa using hne)
  simp only [Slot.entry, if_pos hocc, readArea_copyTo_self]

theorem Valid.writeSlot {page : SlottedPage} (h : page.Valid) {id freeEnd : Nat} {slot : Slot} {area : Area}
    (hid : id ≤ page.slots.length)
    (hstart : page.freeStart + (if id < page.slots.length then 0 else slottedPageSlotSize) ≤ freeEnd)
    (hend : freeEnd ≤ page.freeEnd) (hgeneration : 0 < slot.generation ∧ slot.generation ≤ 65535)
    (hfree : slot.occupied = false → slot.offset = 0 ∧ slot.capacity = 0)
    (hlive : slot.occupied = true →
      slot.size ≤ slot.capacity ∧ freeEnd ≤ slot.offset ∧ slot.offset + slot.capacity ≤ pageSize)
    (hapart : ∀ k s, k ≠ id → page.slots[k]? = some s → s.occupied = true → slot.occupied = true →
      s.block.Apart slot.block)
    (hentry : ∀ k s, k ≠ id → page.slots[k]? = some s → s.occupied = true →
      s.entry area = s.entry page.area) :
    ({ page with area := area, freeEnd := freeEnd }.writeSlot id slot).Valid ∧
      ({ page with area := area, freeEnd := freeEnd }.writeSlot id slot).entries =
        put page.entries id (slot.entry area) := by
  have hgetElem : ∀ k, (put page.slots id slot)[k]? = if k = id then some slot else page.slots[k]? :=
    getElem?_put hid slot
  have hmem : ∀ s ∈ put page.slots id slot, s = slot ∨ s ∈ page.slots := by
    intro s hs
    obtain ⟨k, hk⟩ := List.getElem?_of_mem hs
    rw [hgetElem] at hk
    split at hk
    · exact .inl (Option.some.inj hk).symm
    · exact .inr (List.mem_of_getElem? hk)
  constructor
  · constructor
    · change slottedPageHeaderSize + (put page.slots id slot).length * slottedPageSlotSize ≤ freeEnd
      unfold freeStart at hstart
      rw [length_put]
      split
      · rename_i hlt
        rwa [if_pos hlt] at hstart
      · rename_i hlt
        rw [if_neg hlt] at hstart
        rw [Nat.add_mul]
        omega
    · exact Nat.le_trans hend h.freeEnd_le
    · intro s hs
      rcases hmem s hs with rfl | hold
      · exact hgeneration
      · exact h.generation s hold
    · intro s hs hnot
      rcases hmem s hs with rfl | hold
      · exact hfree hnot
      · exact h.free s hold hnot
    · intro s hs hocc
      rcases hmem s hs with rfl | hold
      · exact hlive hocc
      · obtain ⟨hsize, hlow, hhigh⟩ := h.live s hold hocc
        exact ⟨hsize, Nat.le_trans hend hlow, hhigh⟩
    · intro i j s t hs ht hij hsocc htocc
      replace hs : (put page.slots id slot)[i]? = some s := hs
      replace ht : (put page.slots id slot)[j]? = some t := ht
      rw [hgetElem] at hs ht
      split at hs
      · rw [if_neg (by omega)] at ht
        cases hs
        exact (hapart j t (by omega) ht htocc hsocc).symm
      · rename_i hi
        split at ht
        · cases ht
          exact hapart i s hi hs hsocc htocc
        · exact h.apart i j s t hs ht hij hsocc htocc
  · change (put page.slots id slot).map (Slot.entry area) = put page.entries id (slot.entry area)
    have hlen : id ≤ page.entries.length := by simpa using hid
    apply List.ext_getElem?
    intro k
    rw [List.getElem?_map, hgetElem, getElem?_put hlen, getElem?_entries]
    split
    · rfl
    · rename_i hk
      cases hs : page.slots[k]? with
      | none => rfl
      | some s =>
        by_cases hocc : s.occupied = true
        · exact congrArg some (hentry k s hk hs hocc)
        · simp [Slot.entry, hocc]

theorem Valid.place {page : SlottedPage} (h : page.Valid) {id generation : Nat} {record : Bytes}
    (hid : id ≤ page.slots.length) (hne : record ≠ [])
    (hgeneration : 0 < generation ∧ generation ≤ 65535)
    (hroom : page.freeStart + (if id < page.slots.length then 0 else slottedPageSlotSize) +
      record.length ≤ page.freeEnd) :
    let offset := page.freeEnd - record.length
    let placed := { page with area := copyTo page.area offset record, freeEnd := offset }.writeSlot id
      ⟨offset, record.length, record.length, generation⟩
    placed.Valid ∧ placed.entries = put page.entries id (some record, generation) := by
  intro offset placed
  have hoffset : offset + record.length = page.freeEnd := Nat.sub_add_cancel (by omega)
  have hend := h.freeEnd_le
  have hafter : ∀ s ∈ page.slots, s.occupied = true →
      s.block.Apart ⟨offset, offset + record.length⟩ := by
    intro s hs hocc
    have hlow := (h.live s hs hocc).2.1
    exact .inr (by dsimp only [Slot.block]; omega)
  rw [← entry_copyTo_self page.area offset hne]
  apply h.writeSlot hid (by omega) (by omega) hgeneration
  · intro hnot
    have hsize : record.length = 0 := by simpa [Slot.occupied] using hnot
    exact absurd (List.eq_nil_of_length_eq_zero hsize) hne
  · intro _
    exact ⟨Nat.le_refl _, Nat.le_refl _, by dsimp only; omega⟩
  · intro k s _ hs hocc _
    exact hafter s (List.mem_of_getElem? hs) hocc
  · intro k s _ hs hocc
    have hmem := List.mem_of_getElem? hs
    exact entry_copyTo (h.live s hmem hocc).1 (hafter s hmem hocc)

theorem Valid.clear {page : SlottedPage} (h : page.Valid) {id : Nat} {slot : Slot}
    (hslot : page.slots[id]? = some slot) :
    (page.writeSlot id ⟨0, 0, 0, slot.generation⟩).Valid ∧
      (page.writeSlot id ⟨0, 0, 0, slot.generation⟩).entries =
        put page.entries id (none, slot.generation) := by
  have hlt : id < page.slots.length := (List.getElem?_eq_some_iff.1 hslot).1
  have hboundary := h.boundary
  have hnot : ¬ Slot.occupied ⟨0, 0, 0, slot.generation⟩ = true := by simp [Slot.occupied]
  apply h.writeSlot (Nat.le_of_lt hlt) (by rw [if_pos hlt]; omega) (Nat.le_refl _)
  · exact h.generation slot (List.mem_of_getElem? hslot)
  · exact fun _ => ⟨rfl, rfl⟩
  · exact fun hocc => absurd hocc hnot
  · exact fun _ _ _ _ _ hocc => absurd hocc hnot
  · exact fun _ _ _ _ _ => rfl

theorem Valid.overwrite {page : SlottedPage} (h : page.Valid) {id : Nat} {slot : Slot} {record : Bytes}
    (hslot : page.slots[id]? = some slot) (hocc : slot.occupied = true) (hne : record ≠ [])
    (hlen : record.length = slot.capacity) :
    let written := { page with area := copyTo page.area slot.offset record }.writeSlot id
      ⟨slot.offset, record.length, record.length, slot.generation⟩
    written.Valid ∧ written.entries = put page.entries id (some record, slot.generation) := by
  intro written
  have hlt : id < page.slots.length := (List.getElem?_eq_some_iff.1 hslot).1
  have hmem := List.mem_of_getElem? hslot
  have hboundary := h.boundary
  obtain ⟨-, hlow, hhigh⟩ := h.live slot hmem hocc
  have hapart : ∀ k s, k ≠ id → page.slots[k]? = some s → s.occupied = true →
      s.block.Apart ⟨slot.offset, slot.offset + record.length⟩ := by
    intro k s hk hs hsocc
    rw [hlen]
    exact h.apart k id s slot hs hslot hk hsocc hocc
  rw [← entry_copyTo_self page.area slot.offset hne]
  apply h.writeSlot (Nat.le_of_lt hlt) (by rw [if_pos hlt]; omega) (Nat.le_refl _)
  · exact h.generation slot hmem
  · intro hnot
    have hsize : record.length = 0 := by simpa [Slot.occupied] using hnot
    exact absurd (List.eq_nil_of_length_eq_zero hsize) hne
  · intro _
    exact ⟨Nat.le_refl _, hlow, by dsimp only; omega⟩
  · intro k s hk hs hsocc _
    exact hapart k s hk hs hsocc
  · intro k s hk hs hsocc
    exact entry_copyTo (h.live s (List.mem_of_getElem? hs) hsocc).1 (hapart k s hk hs hsocc)

/-! ### The operations on the directory -/

theorem valid_create : create.Valid where
  boundary := Nat.le_of_lt lt_pageSize
  freeEnd_le := Nat.le_refl _
  generation := fun _ h => absurd h List.not_mem_nil
  free := fun _ h => absurd h List.not_mem_nil
  live := fun _ h => absurd h List.not_mem_nil
  apart := fun _ _ _ _ h => by simp [create] at h

omit [PageSize] in
theorem recordCount_eq (page : SlottedPage) :
    page.recordCount = page.entries.countP fun entry => entry.1.isSome := by
  rw [recordCount, entries, List.countP_map]
  apply List.countP_congr
  intro slot _
  by_cases hocc : slot.occupied = true <;> simp [Slot.entry, hocc]

omit [PageSize] in
theorem occupiedSlot_of_some {page : SlottedPage} {id generation : Nat} {record : Bytes}
    (h : page.entries[id]? = some (some record, generation)) :
    ∃ slot, page.slots[id]? = some slot ∧ slot.occupied = true ∧ page.occupiedSlot id = .ok slot ∧
      slot.generation = generation ∧ readArea page.area slot.offset slot.size = record := by
  rw [getElem?_entries] at h
  obtain ⟨slot, hslot, hentry⟩ := Option.map_eq_some_iff.1 h
  have hocc : slot.occupied = true := by
    by_contra hnot
    simp [Slot.entry, hnot] at hentry
  rw [Slot.entry, if_pos hocc] at hentry
  injection hentry with hrecord hgeneration
  exact ⟨slot, hslot, hocc, by rw [occupiedSlot, hslot]; exact if_pos hocc, hgeneration,
    Option.some.inj hrecord⟩

omit [PageSize] in
theorem read_of_some {page : SlottedPage} {id generation : Nat} {record : Bytes}
    (h : page.entries[id]? = some (some record, generation)) : page.read id = .ok record := by
  obtain ⟨slot, -, -, hslot, -, hrecord⟩ := occupiedSlot_of_some h
  rw [read, hslot, ← hrecord]
  rfl

omit [PageSize] in
theorem generation_of_some {page : SlottedPage} {id generation : Nat} {record : Bytes}
    (h : page.entries[id]? = some (some record, generation)) :
    page.generation id = .ok generation := by
  obtain ⟨slot, -, -, hslot, hgeneration, -⟩ := occupiedSlot_of_some h
  rw [SlottedPage.generation, hslot, ← hgeneration]
  rfl

omit [PageSize] in
theorem exists_of_generation {page : SlottedPage} {id generation : Nat}
    (h : page.generation id = .ok generation) :
    ∃ record, page.entries[id]? = some (some record, generation) := by
  unfold SlottedPage.generation occupiedSlot at h
  split at h
  · rename_i slot hslot
    split at h
    · rename_i hocc
      refine ⟨readArea page.area slot.offset slot.size, ?_⟩
      rw [getElem?_entries, hslot, Option.map_some, Slot.entry, if_pos hocc]
      injection h with hgeneration
      rw [hgeneration]
    · injection h
  · injection h

theorem Valid.erase_spec {page : SlottedPage} (h : page.Valid) {id generation : Nat} {record : Bytes}
    (hentry : page.entries[id]? = some (some record, generation)) :
    ∃ erased, page.erase id = .ok erased ∧ erased.Valid ∧ erased.nextPage = page.nextPage ∧
      erased.previousPage = page.previousPage ∧
      erased.entries = put page.entries id (none, generation) := by
  obtain ⟨slot, hslot, -, hfound, hgeneration, -⟩ := occupiedSlot_of_some hentry
  obtain ⟨hvalid, hentries⟩ := h.clear hslot
  refine ⟨_, by rw [erase, hfound]; rfl, hvalid, rfl, rfl, ?_⟩
  rw [hentries, hgeneration]

/-- The generation that a record gets in a slot: one more than the last, or one if the slot is new. -/
def NewGeneration (entries : List Entry) (id generation : Nat) : Prop :=
  (id = entries.length ∧ generation = 1) ∨
    ∃ last, entries[id]? = some (none, last) ∧ last ≠ 65535 ∧ generation = last + 1

omit [PageSize] in
theorem NewGeneration.le_length {entries : List Entry} {id generation : Nat}
    (h : NewGeneration entries id generation) : id ≤ entries.length := by
  rcases h with ⟨hid, -⟩ | ⟨last, hentry, -⟩
  · exact Nat.le_of_eq hid
  · exact Nat.le_of_lt (List.getElem?_eq_some_iff.1 hentry).1

structure Inserted (page : SlottedPage) (record : Bytes) (id generation : Nat) (inserted : SlottedPage) :
    Prop where
  valid : inserted.Valid
  nextPage : inserted.nextPage = page.nextPage
  previousPage : inserted.previousPage = page.previousPage
  isNew : NewGeneration page.entries id generation
  entries : inserted.entries = put page.entries id (some record, generation)

theorem Valid.gather {page : SlottedPage} (h : page.Valid) {required : Nat} (hpos : 0 < required)
    (hfits : ¬ (page.freeSpace < required ∧ page.freeSpace + page.deadBytes < required)) :
    (page.gather required).Valid ∧ (page.gather required).entries = page.entries ∧
      (page.gather required).nextPage = page.nextPage ∧
      (page.gather required).previousPage = page.previousPage ∧
      page.freeStart + required ≤ (page.gather required).freeEnd := by
  have htotal := h.reclaimable_add
  have hspace : page.freeSpace = page.freeEnd - page.freeStart := rfl
  unfold SlottedPage.gather
  split
  · rename_i hsmall
    have hstop := h.freeEnd_compact
    have hbig : ¬ page.freeSpace + page.deadBytes < required := fun hlt => hfits ⟨hsmall, hlt⟩
    exact ⟨h.compact, h.entries_compact, rfl, rfl, by omega⟩
  · exact ⟨h, rfl, rfl, rfl, by omega⟩

theorem Valid.newGeneration {page gathered : SlottedPage} (h : page.Valid)
    (hentries : gathered.entries = page.entries) :
    NewGeneration page.entries (page.reusableSlot.getD gathered.slots.length)
        (gathered.newGeneration page.reusableSlot) ∧
      (0 < gathered.newGeneration page.reusableSlot ∧
        gathered.newGeneration page.reusableSlot ≤ 65535) ∧
      (page.reusableSlot.isSome = true ↔
        page.reusableSlot.getD gathered.slots.length < gathered.slots.length) := by
  have hlen : gathered.slots.length = page.slots.length := by
    rw [← length_entries, ← length_entries, hentries]
  cases hfind : page.reusableSlot with
  | none => exact ⟨.inl ⟨by simp [hlen], rfl⟩, ⟨Nat.one_pos, Nat.le_of_ble_eq_true rfl⟩, by simp⟩
  | some id =>
    obtain ⟨hlt, hreusable, -⟩ := List.findIdx?_eq_some_iff_getElem.1 hfind
    have hlt' : id < gathered.slots.length := by omega
    simp only [Slot.reusable, decide_eq_true_eq] at hreusable
    have hfree : (page.slots[id]).occupied = false := by simp [Slot.occupied, hreusable.1]
    have hentry : page.entries[id]? = some (none, page.slots[id].generation) := by
      rw [getElem?_entries, List.getElem?_eq_getElem hlt]
      simp [Slot.entry, hfree]
    have hsame : gathered.slots[id].generation = page.slots[id].generation := by
      rw [← hentries, getElem?_entries, List.getElem?_eq_getElem hlt'] at hentry
      exact congrArg Prod.snd (Option.some.inj hentry)
    have hgeneration : gathered.newGeneration (some id) = page.slots[id].generation + 1 := by
      simp only [SlottedPage.newGeneration, Option.bind_some, List.getElem?_eq_getElem hlt', hsame]
    have hbound := (h.generation _ (List.getElem_mem hlt)).2
    rw [hgeneration]
    exact ⟨.inr ⟨_, hentry, hreusable.2, rfl⟩, ⟨Nat.succ_pos _, by omega⟩, by simpa using hlt'⟩

theorem Valid.insert_spec {page : SlottedPage} (h : page.Valid) {record : Bytes} {id : Nat}
    {inserted : SlottedPage} (hinsert : page.insert record = .ok (id, inserted)) :
    ∃ generation, Inserted page record id generation inserted := by
  unfold insert at hinsert
  split at hinsert
  · injection hinsert
  · rename_i hne
    split at hinsert
    · injection hinsert
    · dsimp only at hinsert
      split at hinsert
      · injection hinsert
      · rename_i hfits
        have hlen : record.length ≠ 0 := by simpa using hne
        have hpos : 0 < page.requiredSpace record.length := by
          unfold requiredSpace
          omega
        obtain ⟨hvalid, hentries, hnext, hprevious, hroom⟩ := h.gather hpos hfits
        obtain ⟨hgeneration, hbounds, hreused⟩ := h.newGeneration hentries
        injection hinsert with hpair
        injection hpair with hid hpage
        have hlength : (page.gather (page.requiredSpace record.length)).slots.length =
            page.slots.length := by
          rw [← length_entries, ← length_entries, hentries]
        have hstart : (page.gather (page.requiredSpace record.length)).freeStart = page.freeStart := by
          simp only [freeStart, hlength]
        have hle := hgeneration.le_length
        rw [length_entries, ← hlength] at hle
        have hplace := hvalid.place hle hne hbounds (by
          have hrequired : page.requiredSpace record.length =
              record.length + if page.reusableSlot.isSome then 0 else slottedPageSlotSize := rfl
          rw [hstart, if_congr hreused.symm rfl rfl]
          omega)
        rw [← hpage, ← hid]
        exact ⟨_, hplace.1, hnext, hprevious, hgeneration, by rw [← hentries]; exact hplace.2⟩

theorem insert_error {page : SlottedPage} {record : Bytes} {e : Error} (hne : record ≠ [])
    (hfits : record.length ≤ slottedPageMaxRecordSize) (h : page.insert record = .error e) :
    e = ⟨.pageFull, "slotted page is full"⟩ := by
  unfold insert at h
  rw [if_neg hne, if_neg (Nat.not_lt.2 hfits)] at h
  dsimp only at h
  split at h
  · injection h with h
    exact h.symm
  · injection h

omit [PageSize] in
theorem sum_map_set {f : Slot → Nat} {slots : List Slot} {id : Nat} {slot : Slot}
    (h : slots[id]? = some slot) (new : Slot) :
    ((slots.set id new).map f).sum + f slot = (slots.map f).sum + f new := by
  induction slots generalizing id with
  | nil => simp at h
  | cons s slots ih =>
    cases id with
    | zero =>
      have heq : s = slot := by simpa using h
      simp only [List.set_cons_zero, List.map_cons, List.sum_cons, heq]
      omega
    | succ id =>
      have hrest := @ih id (by simpa using h)
      simp only [List.set_cons_succ, List.map_cons, List.sum_cons]
      omega

omit [PageSize] in
theorem liveCapacity_eq_sum (page : SlottedPage) :
    page.liveCapacity =
      (page.slots.map fun slot => if slot.occupied then slot.capacity else 0).sum := by
  unfold liveCapacity
  induction page.slots with
  | nil => rfl
  | cons slot slots ih =>
    by_cases hocc : slot.occupied = true
    · simp [hocc, ih]
    · simp [hocc, ih]

omit [PageSize] in
theorem liveCapacity_clear {page : SlottedPage} {id : Nat} {slot : Slot}
    (hslot : page.slots[id]? = some slot) (hocc : slot.occupied = true) :
    (page.writeSlot id ⟨0, 0, 0, slot.generation⟩).liveCapacity + slot.capacity = page.liveCapacity := by
  have hlt : id < page.slots.length := (List.getElem?_eq_some_iff.1 hslot).1
  have hsum := @sum_map_set (fun slot => if slot.occupied then slot.capacity else 0) _ _ _ hslot
    ⟨0, 0, 0, slot.generation⟩
  rw [liveCapacity_eq_sum, liveCapacity_eq_sum]
  change ((put page.slots id _).map _).sum + _ = _
  rw [put, if_pos hlt]
  simpa [hocc] using hsum

theorem Valid.update_spec {page : SlottedPage} (h : page.Valid) {id generation : Nat}
    {old record : Bytes} {updated : SlottedPage}
    (hentry : page.entries[id]? = some (some old, generation))
    (hupdate : page.update id record = .ok updated) :
    updated.Valid ∧ updated.nextPage = page.nextPage ∧ updated.previousPage = page.previousPage ∧
      updated.entries = put page.entries id (some record, generation) := by
  obtain ⟨slot, hslot, hocc, hfound, hgeneration, -⟩ := occupiedSlot_of_some hentry
  unfold update at hupdate
  rw [hfound] at hupdate
  subst hgeneration
  split at hupdate
  · injection hupdate
  · rename_i hne
    dsimp only at hupdate
    split at hupdate
    · injection hupdate
    · split at hupdate
      · split at hupdate
        · injection hupdate
        · rename_i hfits
          injection hupdate with hupdated
          obtain ⟨hclear, hentries⟩ := h.clear hslot
          have hlt : id < page.slots.length := (List.getElem?_eq_some_iff.1 hslot).1
          have hlive := liveCapacity_clear hslot hocc
          have hstop := hclear.freeEnd_compact
          have htotal := h.reclaimable_add
          have hbound := h.generation slot (List.mem_of_getElem? hslot)
          have hlength : (page.writeSlot id ⟨0, 0, 0, slot.generation⟩).compact.slots.length =
              page.slots.length := by
            rw [length_slots_compact hclear]
            exact (length_put _ _ _).trans (if_pos hlt)
          have hplace := @Valid.place _ _ hclear.compact id slot.generation record (by omega) hne hbound (by
            rw [if_pos (by omega)]
            simp only [freeStart, hlength] at htotal ⊢
            omega)
          rw [← hupdated]
          refine ⟨hplace.1, rfl, rfl, ?_⟩
          rw [hplace.2, hclear.entries_compact, hentries]
          exact put_put (by simpa using Nat.le_of_lt hlt) _ _
      · rename_i hlen
        injection hupdate with hupdated
        rw [← hupdated]
        have hwritten := h.overwrite hslot hocc hne (not_not.1 hlen)
        exact ⟨hwritten.1, rfl, rfl, hwritten.2⟩

theorem update_error {page : SlottedPage} {id generation : Nat} {old record : Bytes} {e : Error}
    (hentry : page.entries[id]? = some (some old, generation)) (hne : record ≠ [])
    (hfits : record.length ≤ slottedPageMaxRecordSize) (h : page.update id record = .error e) :
    e = ⟨.pageFull, "slotted page is full"⟩ := by
  obtain ⟨slot, -, -, hfound, -, -⟩ := occupiedSlot_of_some hentry
  unfold update at h
  rw [if_neg hne, hfound] at h
  dsimp only at h
  rw [if_neg (Nat.not_lt.2 hfits)] at h
  split at h
  · split at h
    · injection h with h
      exact h.symm
    · injection h
  · injection h

end SlottedPage

end MoDb.Storage
