import MoDb.Error
import MoDb.Storage.Page
import MoDb.Lib.Blocks

/-!
# Slotted pages

A directory of slots grows from the front of the page and the records from its end; the room between
them is free. A slot that lost its record keeps its generation, so that the next record in it is told
apart from the last one, and the room of the record is only gathered when an insertion needs it.

The fields of the header and of the directory are those of the page; the integers that the page
stores in two bytes are below the page size, or are generations.
-/

namespace MoDb.Storage

def put {α : Type} (l : List α) (id : Nat) (a : α) : List α :=
  if id < l.length then l.set id a else l ++ [a]

theorem getElem?_put {α : Type} {l : List α} {id : Nat} (hid : id ≤ l.length) (a : α) (k : Nat) :
    (put l id a)[k]? = if k = id then some a else l[k]? := by
  unfold put
  split
  · rename_i hlt
    rw [List.getElem?_set]
    by_cases hk : id = k
    · simp [← hk, hlt]
    · simp [hk, Ne.symm hk]
  · have hlen : id = l.length := by omega
    rw [List.getElem?_append]
    by_cases hk : k < l.length
    · simp [hk, show k ≠ id by omega]
    · by_cases hkid : k = id
      · simp [hkid, hlen]
      · rw [if_neg hk, if_neg hkid, List.getElem?_eq_none (by simp; omega),
          List.getElem?_eq_none (by omega)]

theorem map_put {α β : Type} (f : α → β) (l : List α) (id : Nat) (a : α) :
    (put l id a).map f = put (l.map f) id (f a) := by
  unfold put
  split
  · simp [*, List.map_set]
  · simp [*]

theorem length_put {α : Type} (l : List α) (id : Nat) (a : α) :
    (put l id a).length = if id < l.length then l.length else l.length + 1 := by
  unfold put
  split <;> simp

theorem put_put {α : Type} {l : List α} {id : Nat} (hid : id ≤ l.length) (a b : α) :
    put (put l id a) id b = put l id b := by
  have hlen : id ≤ (put l id a).length := by
    rw [length_put]
    split <;> omega
  apply List.ext_getElem?
  intro k
  rw [getElem?_put hlen, getElem?_put hid, getElem?_put hid]
  split <;> rfl

/-- An entry of the directory; a size of zero marks a free slot. -/
structure Slot where
  offset : Nat
  size : Nat
  capacity : Nat
  generation : Nat
  deriving DecidableEq

namespace Slot

def occupied (slot : Slot) : Bool := slot.size ≠ 0

def reusable (slot : Slot) : Bool := slot.size = 0 ∧ slot.generation ≠ 65535

def block (slot : Slot) : Block := ⟨slot.offset, slot.offset + slot.capacity⟩

end Slot

structure SlottedPage where
  slots : List Slot
  freeEnd : Nat
  nextPage : Option Nat
  previousPage : Option Nat
  area : Area

def slottedPageHeaderSize : Nat := 28

def slottedPageSlotSize : Nat := 8

def slottedPageMaxRecordSize [PageSize] : Nat := pageSize - slottedPageHeaderSize - slottedPageSlotSize

namespace SlottedPage

def freeStart (page : SlottedPage) : Nat :=
  slottedPageHeaderSize + page.slots.length * slottedPageSlotSize

def freeSpace (page : SlottedPage) : Nat := page.freeEnd - page.freeStart

def liveCapacity (page : SlottedPage) : Nat :=
  ((page.slots.filter Slot.occupied).map Slot.capacity).sum

def recordCount (page : SlottedPage) : Nat := page.slots.countP Slot.occupied

/-- The loop of `compact` over the slots that are left, which fills the page downwards from
`destination`; the bytes come from the page as it was. -/
def pack (source : Area) : List Slot → Nat → Area → List Slot × Nat × Area
  | [], destination, area => ([], destination, area)
  | slot :: slots, destination, area =>
    if slot.occupied then
      let offset := destination - slot.capacity
      let moved :=
        if slot.offset ≠ offset then copyTo area offset (readArea source slot.offset slot.capacity)
        else area
      let (rest, stop, packed) := pack source slots offset moved
      ({ slot with offset := offset } :: rest, stop, packed)
    else
      let (rest, stop, packed) := pack source slots destination area
      (slot :: rest, stop, packed)

/-- `write_slot`, and the longer directory if the slot is new. -/
def writeSlot (page : SlottedPage) (id : Nat) (slot : Slot) : SlottedPage :=
  { page with slots := put page.slots id slot }

def reusableSlot (page : SlottedPage) : Option Nat := page.slots.findIdx? Slot.reusable

def requiredSpace (page : SlottedPage) (size : Nat) : Nat :=
  size + if page.reusableSlot.isSome then 0 else slottedPageSlotSize

/-- The generation of the record that an insertion puts in the slot it found. -/
def newGeneration (page : SlottedPage) (reusable : Option Nat) : Nat :=
  match reusable.bind fun id => page.slots[id]? with
  | some slot => slot.generation + 1
  | none => 1

/-- The occupied slot with the number, as `read_in` and `generation_in` look it up. -/
def occupiedSlot (page : SlottedPage) (id : Nat) : Except Error Slot :=
  match page.slots[id]? with
  | some slot =>
    if slot.occupied then .ok slot else .error ⟨.slotNotFound, s!"slot does not exist: {id}"⟩
  | none => .error ⟨.slotNotFound, s!"slot does not exist: {id}"⟩

def read (page : SlottedPage) (id : Nat) : Except Error Bytes :=
  (page.occupiedSlot id).map fun slot => readArea page.area slot.offset slot.size

def generation (page : SlottedPage) (id : Nat) : Except Error Nat :=
  (page.occupiedSlot id).map Slot.generation

def erase (page : SlottedPage) (id : Nat) : Except Error SlottedPage :=
  (page.occupiedSlot id).map fun slot => page.writeSlot id ⟨0, 0, 0, slot.generation⟩

variable [PageSize]

/-- `SlottedPage::create`. -/
def create : SlottedPage := ⟨[], pageSize, none, none, fun _ => 0⟩

def deadBytes (page : SlottedPage) : Nat := pageSize - page.freeEnd - page.liveCapacity

def insertionCapacity (page : SlottedPage) : Nat :=
  let reclaimable := page.freeSpace + page.deadBytes
  if page.slots.any Slot.reusable then reclaimable
  else if slottedPageSlotSize ≤ reclaimable then reclaimable - slottedPageSlotSize
  else 0

def compact (page : SlottedPage) : SlottedPage :=
  let (slots, stop, area) := pack page.area page.slots pageSize page.area
  { page with slots := slots, freeEnd := stop, area := area }

/-- The page is compacted only when the free room at hand is too small. -/
def gather (page : SlottedPage) (required : Nat) : SlottedPage :=
  if page.freeSpace < required then page.compact else page

def insert (page : SlottedPage) (record : Bytes) : Except Error (Nat × SlottedPage) :=
  if record = [] then .error ⟨.invalidArgument, "record cannot be empty"⟩
  else if slottedPageMaxRecordSize < record.length then
    .error ⟨.recordTooLarge, "record exceeds the maximum slotted-page payload"⟩
  else
    let required := page.requiredSpace record.length
    if page.freeSpace < required ∧ page.freeSpace + page.deadBytes < required then
      .error ⟨.pageFull, "slotted page is full"⟩
    else
      let gathered := page.gather required
      let id := page.reusableSlot.getD gathered.slots.length
      let offset := gathered.freeEnd - record.length
      let placed := { gathered with area := copyTo gathered.area offset record, freeEnd := offset }
      .ok (id, placed.writeSlot id
        ⟨offset, record.length, record.length, gathered.newGeneration page.reusableSlot⟩)

def update (page : SlottedPage) (id : Nat) (record : Bytes) : Except Error SlottedPage :=
  if record = [] then .error ⟨.invalidArgument, "record cannot be empty"⟩
  else
    match page.occupiedSlot id with
    | .error e => .error e
    | .ok slot =>
      if slottedPageMaxRecordSize < record.length then
        .error ⟨.recordTooLarge, "record exceeds the maximum slotted-page payload"⟩
      else if record.length ≠ slot.capacity then
        if page.freeSpace + page.deadBytes + slot.capacity < record.length then
          .error ⟨.pageFull, "slotted page is full"⟩
        else
          let page := (page.writeSlot id ⟨0, 0, 0, slot.generation⟩).compact
          let offset := page.freeEnd - record.length
          .ok ({ page with freeEnd := offset, area := copyTo page.area offset record }.writeSlot id
            ⟨offset, record.length, record.length, slot.generation⟩)
      else
        .ok ({ page with area := copyTo page.area slot.offset record }.writeSlot id
          ⟨slot.offset, record.length, record.length, slot.generation⟩)

/-- The checks of `validate_page` on the entries of the directory, with the ranges it collects. -/
def checkSlots (freeEnd : Nat) : List Slot → Except Error (List Block)
  | [] => .ok []
  | slot :: slots =>
    if slot.generation = 0 then
      .error ⟨.corruptPage, "slotted page contains generation zero"⟩
    else if slot.size = 0 then
      if slot.offset ≠ 0 ∨ slot.capacity ≠ 0 then
        .error ⟨.corruptPage, "free slot contains a record offset or capacity"⟩
      else checkSlots freeEnd slots
    else if slot.capacity < slot.size then
      .error ⟨.corruptPage, "slotted page contains an invalid record capacity"⟩
    else if slot.offset < freeEnd ∨ pageSize < slot.offset ∨ pageSize - slot.offset < slot.capacity then
      .error ⟨.corruptPage, "slotted page contains an invalid record range"⟩
    else (checkSlots freeEnd slots).map fun blocks => slot.block :: blocks

/-- `validate_page`, past the signature and the version. -/
def validate (page : SlottedPage) : Except Error Unit :=
  if pageSize < page.freeStart then
    .error ⟨.corruptPage, "slotted page has an invalid slot directory"⟩
  else if page.freeEnd < page.freeStart ∨ pageSize < page.freeEnd then
    .error ⟨.corruptPage, "slotted page has invalid free-space boundaries"⟩
  else
    match checkSlots page.freeEnd page.slots with
    | .error e => .error e
    | .ok blocks =>
      if Block.inOrder (blocks.mergeSort Block.le) then .ok ()
      else .error ⟨.corruptPage, "slotted page record ranges overlap"⟩

end SlottedPage

end MoDb.Storage
