import MoDb.Storage.SlottedRuns

/-!
# The capacity of a slotted page

`insertion_capacity` is what the heap picks a page by, so it has to be the size of the largest record
that the page takes, holes and free slots included.
-/

namespace MoDb.Storage.SlottedPage

variable [PageSize] {page : SlottedPage}

def succeeds (page : SlottedPage) (record : Bytes) : Prop :=
  ∃ id inserted, page.insert record = .ok (id, inserted)

omit [PageSize] in
theorem isSome_reusableSlot (page : SlottedPage) :
    page.reusableSlot.isSome = page.slots.any Slot.reusable := by
  rw [reusableSlot, List.findIdx?_isSome]

theorem requiredSpace_le_iff {size : Nat} (hsize : 1 ≤ size) :
    page.requiredSpace size ≤ page.freeSpace + page.deadBytes ↔ size ≤ page.insertionCapacity := by
  unfold requiredSpace insertionCapacity
  rw [isSome_reusableSlot]
  dsimp only
  split
  · exact Iff.rfl
  · split <;> omega

theorem succeeds_iff (page : SlottedPage) (record : Bytes) :
    page.succeeds record ↔ 1 ≤ record.length ∧ record.length ≤ slottedPageMaxRecordSize ∧
      page.requiredSpace record.length ≤ page.freeSpace + page.deadBytes := by
  unfold succeeds insert
  by_cases hempty : record = []
  · simp [hempty]
  · have hpos : 1 ≤ record.length := List.length_pos_iff.2 hempty
    rw [if_neg hempty]
    by_cases hlarge : slottedPageMaxRecordSize < record.length
    · rw [if_pos hlarge]
      constructor
      · rintro ⟨id, inserted, h⟩
        injection h
      · rintro ⟨-, hle, -⟩
        omega
    · rw [if_neg hlarge]
      dsimp only
      split
      · rename_i hfull
        constructor
        · rintro ⟨id, inserted, h⟩
          injection h
        · rintro ⟨-, -, hle⟩
          omega
      · rename_i hroom
        constructor
        · intro _
          exact ⟨hpos, by omega, by omega⟩
        · intro _
          exact ⟨_, _, rfl⟩

/-- The number is exact, and no subtraction on the way to it or to the place of the record goes below
zero. -/
structure CapacityExact (page : SlottedPage) : Prop where
  freeSpace : page.freeStart ≤ page.freeEnd
  allocated : page.freeEnd ≤ pageSize
  deadBytes : page.liveCapacity ≤ pageSize - page.freeEnd
  insert_iff (record : Bytes) : page.succeeds record ↔
    1 ≤ record.length ∧ record.length ≤ page.insertionCapacity ∧
      record.length ≤ slottedPageMaxRecordSize
  place {record : Bytes} (h : page.succeeds record) :
    page.freeStart + (if page.reusableSlot.isSome then 0 else slottedPageSlotSize) + record.length ≤
      (page.gather (page.requiredSpace record.length)).freeEnd

theorem Valid.place_le (h : page.Valid) {record : Bytes} (hsucceeds : page.succeeds record) :
    page.freeStart + (if page.reusableSlot.isSome then 0 else slottedPageSlotSize) + record.length ≤
      (page.gather (page.requiredSpace record.length)).freeEnd := by
  obtain ⟨hpos, -, hroom⟩ := (succeeds_iff page record).1 hsucceeds
  have hrequired : page.requiredSpace record.length =
      record.length + if page.reusableSlot.isSome then 0 else slottedPageSlotSize := rfl
  have hneeded : 0 < page.requiredSpace record.length := by omega
  obtain ⟨-, -, -, -, hgathered⟩ := h.gather hneeded fun hfull => Nat.not_lt.2 hroom hfull.2
  omega

/-- Of every page that `validate_page` accepts. -/
theorem capacityExact (hstored : page.Stored) (hvalid : page.validate = .ok ()) :
    page.CapacityExact := by
  have h := valid_of_validate hstored hvalid
  exact {
    freeSpace := h.boundary
    allocated := h.freeEnd_le
    deadBytes := h.liveCapacity_le
    insert_iff := fun record => by
      rw [succeeds_iff]
      constructor
      · rintro ⟨hpos, hle, hroom⟩
        exact ⟨hpos, (requiredSpace_le_iff hpos).1 hroom, hle⟩
      · rintro ⟨hpos, hcapacity, hle⟩
        exact ⟨hpos, hle, (requiredSpace_le_iff hpos).2 hcapacity⟩
    place := h.place_le }

end SlottedPage

/-- A page of 64 bytes with a hole and a free slot. -/
theorem capacityExact_hole :
    @SlottedPage.CapacityExact ⟨64, by decide, by decide⟩
      ⟨[⟨62, 2, 2, 1⟩, ⟨0, 0, 0, 4⟩], 50, none, none, fun _ => 0⟩ :=
  @SlottedPage.capacityExact ⟨64, by decide, by decide⟩ _ (by unfold SlottedPage.Stored; decide) (by decide +kernel)

end MoDb.Storage
