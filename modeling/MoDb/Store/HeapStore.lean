import MoDb.Object.DatabaseRoot
import MoDb.Storage.HeapMap
import MoDb.Store.Engine
import MoDb.Store.ObjectCodec

/-!
# The heap of the object store

The store of records under the objects is a heap of pages, where the record of an object is what the codec
makes of it. A record that no reader gives back is not stored here: a field twice, ids wider than the
program's, or more than `overflow_max_total` bytes.
-/

namespace MoDb.Store

open Effect Storage

variable [PageSize]

namespace HeapObjects

def recordOf (object : DecodedObject) : Except Error Bytes := do
  let record ← ObjectCodec.encodeObject object
  let back ← ObjectCodec.decodeObject record
  if back ≠ object ∨ overflowMaxTotal < record.length then
    throw ⟨.valueTooLarge, "object record cannot be read back"⟩
  else pure record

def insert (object : DecodedObject) : HeapM HeapRecordId := do
  let record ← check (recordOf object)
  HeapHandle.insert record

def read (id : HeapRecordId) (handle : HeapHandle) : Except Error DecodedObject := do
  let record ← HeapHandle.read handle id
  ObjectCodec.decodeObject record

def content (handle : HeapHandle) (id : HeapRecordId) : Option DecodedObject := (read id handle).toOption

def idOf (record : HeapRecord) : HeapRecordId := ⟨record.page, record.slot, record.generation⟩

def decodeRecord (record : HeapRecord) : Except Error (HeapRecordId × DecodedObject) := do
  let object ← ObjectCodec.decodeObject record.bytes
  pure (idOf record, object)

def entryOf (record : HeapRecord) : HeapRecordId × DecodedObject :=
  (idOf record, (ObjectCodec.decodeObject record.bytes).toOption.getD default)

/-- `ObjectStore::scan` decodes the records of `scan_records` one by one. -/
def records (handle : HeapHandle) : Except Error (List (HeapRecordId × DecodedObject)) := do
  let records ← handle.heap.scanRecords handle.file
  records.mapM decodeRecord

/-- The heap as `open` has it from the root in the file, where that root is not behind. -/
def reopen (handle : HeapHandle) : HeapHandle :=
  if handle.file.pageCount * pageSize < 2 ^ 64 then
    match HeapHandle.open handle.file handle.heap.root with
    | .ok opened => if opened.heap = handle.heap then opened else handle
    | .error _ => handle
  else handle

def discard (handle saved : HeapHandle) : HeapHandle := { handle with file := saved.file }

/-- A heap on its pages, whose records are objects. -/
structure Keeps (handle : HeapHandle) (layout : HeapLayout) (map : HeapRecordId → Option Bytes) : Prop
    extends Contains handle layout map where
  length_le : ∀ id record, map id = some record → record.length ≤ overflowMaxTotal
  decodes : ∀ id record, map id = some record → ∃ object, ObjectCodec.decodeObject record = .ok object

def Valid (handle : HeapHandle) : Prop := ∃ layout map, Keeps handle layout map

omit [PageSize] in
theorem recordOf_eq_ok {object : DecodedObject} {record : Bytes} (h : recordOf object = .ok record) :
    ObjectCodec.decodeObject record = .ok object ∧ record.length ≤ overflowMaxTotal := by
  obtain ⟨encoded, -, h⟩ := except_bind_eq_ok h
  obtain ⟨back, hback, h⟩ := except_bind_eq_ok h
  split at h
  · cases h
  · rename_i hkept
    rw [not_or, not_not, Nat.not_lt] at hkept
    obtain rfl := Except.ok.inj h
    rw [hback, hkept.1]
    exact ⟨rfl, hkept.2⟩

variable {handle handle' : HeapHandle} {layout : HeapLayout} {map : HeapRecordId → Option Bytes}
  {id : HeapRecordId} {object : DecodedObject} {record : Bytes}

namespace Keeps

/-! ### Reading -/

theorem read_eq (h : Keeps handle layout map) (hmap : map id = some record) :
    read id handle = ObjectCodec.decodeObject record := by
  rw [read, h.toContains.read_some h.length_le hmap]
  rfl

theorem read_none (h : Keeps handle layout map) (hmap : map id = none) :
    ∃ error, read id handle = .error error ∧ NotFound error := by
  obtain ⟨error, hcode, hread⟩ := h.represents.read_none (h.toContains.notHas hmap)
  refine ⟨error, ?_, hcode⟩
  rw [read, hread]
  rfl

theorem content_eq (h : Keeps handle layout map) (id : HeapRecordId) :
    content handle id = (map id).bind fun record => (ObjectCodec.decodeObject record).toOption := by
  unfold content
  cases hmap : map id with
  | none =>
    obtain ⟨error, hread, -⟩ := h.read_none hmap
    rw [hread]
    rfl
  | some record =>
    rw [h.read_eq hmap]
    rfl

theorem content_eq_none (h : Keeps handle layout map) : content handle id = none ↔ map id = none := by
  rw [h.content_eq]
  cases hmap : map id with
  | none => exact iff_of_true rfl rfl
  | some record =>
    obtain ⟨object, hobject⟩ := h.decodes id record hmap
    refine iff_of_false ?_ nofun
    rw [Option.bind_some, hobject]
    exact nofun

theorem content_eq_some (h : Keeps handle layout map) : content handle id = some object ↔
    ∃ record, map id = some record ∧ ObjectCodec.decodeObject record = .ok object := by
  rw [h.content_eq]
  cases hmap : map id with
  | none => simp
  | some record =>
    obtain ⟨found, hfound⟩ := h.decodes id record hmap
    simp [hfound, Except.toOption]

/-! ### Calls -/

theorem failed (h : Keeps handle layout map) {op : HeapOp} {error : Error} (hfits : op.Fits)
    (hrun : op.run handle = .error error handle') : Valid handle' ∧ content handle' = content handle := by
  obtain ⟨layout', hcontains⟩ := h.toContains.failed hfits hrun
  have h' : Keeps handle' layout' map := ⟨hcontains, h.length_le, h.decodes⟩
  refine ⟨⟨_, _, h'⟩, funext fun id => ?_⟩
  rw [h'.content_eq, h.content_eq]

theorem inserted (h : Keeps handle layout map) (hrecord : recordOf object = .ok record)
    (hrun : HeapHandle.insert record handle = .ok id handle') :
    Valid handle' ∧ content handle id = none ∧
      content handle' = Function.update (content handle) id (some object) := by
  obtain ⟨hdecode, hlength⟩ := recordOf_eq_ok hrecord
  have hfits : (HeapOp.insert record).Fits := Nat.lt_of_le_of_lt hlength (by decide)
  have hop : (HeapOp.insert record).run handle = .ok (some id) handle' := bind_of_ok hrun
  obtain ⟨layout', hcontains⟩ := h.toContains.call hfits hop
  have happly : ∀ other, HeapOp.apply map (some id) (.insert record) other =
      if other = id then some record else map other := by
    intro other
    simp only [HeapOp.apply, Option.some.injEq, eq_comm]
  have h' : Keeps handle' layout' (HeapOp.apply map (some id) (.insert record)) := by
    refine ⟨hcontains, fun other found hfound => ?_, fun other found hfound => ?_⟩
    all_goals
      rw [happly] at hfound
      split at hfound
    · cases hfound
      exact hlength
    · exact h.length_le other found hfound
    · cases hfound
      exact ⟨object, hdecode⟩
    · exact h.decodes other found hfound
  refine ⟨⟨_, _, h'⟩, h.content_eq_none.2 (h.toContains.insert hfits hrun), funext fun other => ?_⟩
  rw [h'.content_eq, happly, Function.update_apply]
  split
  · rw [Option.bind_some, hdecode]
    rfl
  · exact (h.content_eq other).symm

theorem erased (h : Keeps handle layout map) (hrun : HeapHandle.erase id handle = .ok () handle') :
    Valid handle' ∧ content handle' = Function.update (content handle) id none := by
  have hop : (HeapOp.erase id).run handle = .ok none handle' := bind_of_ok hrun
  have hfits : (HeapOp.erase id).Fits := trivial
  obtain ⟨layout', hcontains⟩ := h.toContains.call hfits hop
  have hleft : ∀ {other found}, HeapOp.apply map none (.erase id) other = some found →
      map other = some found := by
    intro other found hfound
    simp only [HeapOp.apply] at hfound
    split at hfound
    · cases hfound
    · exact hfound
  have h' : Keeps handle' layout' (HeapOp.apply map none (.erase id)) :=
    ⟨hcontains, fun _ _ hfound => h.length_le _ _ (hleft hfound),
      fun _ _ hfound => h.decodes _ _ (hleft hfound)⟩
  refine ⟨⟨_, _, h'⟩, funext fun other => ?_⟩
  rw [h'.content_eq, Function.update_apply]
  simp only [HeapOp.apply]
  split
  · rfl
  · exact (h.content_eq other).symm

theorem erase_error (h : Keeps handle layout map) {error : Error}
    (hrun : HeapHandle.erase id handle = .error error handle') : handle' = handle ∧ content handle id = none := by
  have hspec := h.represents.erase id
  rw [hrun] at hspec
  obtain ⟨-, hnone, hsame⟩ := hspec
  exact ⟨hsame, h.content_eq_none.2 (h.toContains.eq_none hnone)⟩

/-! ### The whole heap -/

theorem records_eq (h : Keeps handle layout map) : ∃ list, records handle = .ok list ∧
    (list.map Prod.fst).Nodup ∧ ∀ id object, (id, object) ∈ list ↔ content handle id = some object := by
  obtain ⟨scanned, hscan, hnodup, hmem, -⟩ := h.toContains.scan h.length_le
  have hheld : ∀ record ∈ scanned, map (idOf record) = some record.bytes := fun record hrecord =>
    (hmem (idOf record) record.bytes).1 hrecord
  have hdecode : ∀ record ∈ scanned, ∃ object, ObjectCodec.decodeObject record.bytes = .ok object :=
    fun record hrecord => h.decodes _ _ (hheld record hrecord)
  refine ⟨scanned.map entryOf, ?_, ?_, fun id object => ?_⟩
  · rw [records, hscan]
    apply except_mapM_eq_ok
    intro record hrecord
    obtain ⟨object, hobject⟩ := hdecode record hrecord
    rw [decodeRecord, entryOf, hobject]
    rfl
  · rw [List.map_map]
    apply hnodup.map_on
    intro record hrecord other hother hid
    replace hid : idOf record = idOf other := hid
    have hbytes : some record.bytes = some other.bytes := by
      rw [← hheld record hrecord, hid, hheld other hother]
    obtain ⟨page, slot, generation, bytes⟩ := record
    cases hid
    cases hbytes
    rfl
  · rw [h.content_eq_some, List.mem_map]
    constructor
    · rintro ⟨record, hrecord, heq⟩
      obtain ⟨found, hfound⟩ := hdecode record hrecord
      rw [entryOf, hfound] at heq
      cases heq
      exact ⟨record.bytes, hheld record hrecord, hfound⟩
    · rintro ⟨bytes, hbytes, hobject⟩
      refine ⟨⟨id.page, id.slot, id.generation, bytes⟩, (hmem id bytes).2 hbytes, ?_⟩
      rw [entryOf, hobject]
      rfl

theorem reopened (h : Keeps handle layout map) :
    Valid (reopen handle) ∧ content (reopen handle) = content handle := by
  unfold reopen
  split
  · rename_i hbytes
    obtain ⟨head, hhead, hroot⟩ := h.rooted
    have hsize : 48 ≤ pageSize := Nat.le_trans (by decide) PageSize.lower
    obtain ⟨opened, hopen, -, -, hrepresents⟩ := h.represents.opened_but hhead hroot hsize hbytes
    rw [hopen]
    dsimp only
    split
    · rename_i hheap
      have hsame : ({ opened with heap := handle.heap } : HeapHandle) = opened := by rw [← hheap]
      rw [hsame] at hrepresents
      have hrooted : NearlyRooted opened layout := by
        rw [NearlyRooted, hheap]
        exact h.rooted
      have h' : Keeps opened layout map := ⟨⟨hrepresents, hrooted, h.maps⟩, h.length_le, h.decodes⟩
      refine ⟨⟨_, _, h'⟩, funext fun id => ?_⟩
      rw [h'.content_eq, h.content_eq]
    · exact ⟨⟨_, _, h⟩, rfl⟩
  · exact ⟨⟨_, _, h⟩, rfl⟩

end Keeps

theorem keeps_create {file : PageFile Area} (hpos : 0 < file.pageCount) (hfits : file.pageCount < 2 ^ 64)
    (h : HeapHandle.create file = .ok handle) : ∃ layout, Keeps handle layout fun _ => none := by
  obtain ⟨layout, hcontains⟩ :=
    (HeapContents.create hpos hfits h : HeapContents (fun _ => True) handle fun _ => none).contains
  exact ⟨layout, hcontains, nofun, nofun⟩

end HeapObjects

open HeapObjects in
/-- A heap of pages is a store of the records that can be read back. -/
instance : RecordStore HeapHandle HeapRecordId DecodedObject Error NotFound where
  insert := insert
  read := read
  erase := HeapHandle.erase
  records := records
  reopen := reopen
  discard := discard
  Valid := Valid
  content := content
  insert_ok := by
    rintro handle handle' object id ⟨layout, map, h⟩ hrun
    obtain ⟨record, middle, hcheck, hinsert⟩ := bind_eq_ok hrun
    cases hrecord : recordOf object with
    | error error =>
      rw [hrecord] at hcheck
      cases hcheck
    | ok found =>
      rw [hrecord] at hcheck
      cases hcheck
      exact h.inserted hrecord hinsert
  insert_error := by
    rintro handle handle' object error ⟨layout, map, h⟩ hrun
    change (check (recordOf object) >>= fun record => HeapHandle.insert record) handle = _ at hrun
    cases hrecord : recordOf object with
    | error found =>
      rw [hrecord] at hrun
      cases hrun
      exact ⟨⟨layout, map, h⟩, rfl⟩
    | ok record =>
      rw [hrecord] at hrun
      have hfits : (HeapOp.insert record).Fits :=
        Nat.lt_of_le_of_lt (recordOf_eq_ok hrecord).2 (by decide)
      have hop : (HeapOp.insert record).run handle = .error error handle' := bind_of_error hrun
      exact h.failed hfits hop
  read_of_some := by
    rintro handle id object ⟨layout, map, h⟩ hcontent
    obtain ⟨record, hmap, hdecode⟩ := h.content_eq_some.1 hcontent
    exact (h.read_eq hmap).trans hdecode
  read_of_none := by
    rintro handle id ⟨layout, map, h⟩ hcontent
    exact h.read_none (h.content_eq_none.1 hcontent)
  erase_ok := by
    rintro handle handle' id ⟨layout, map, h⟩ hrun
    exact h.erased hrun
  erase_error := by
    rintro handle handle' id error ⟨layout, map, h⟩ hrun
    obtain ⟨rfl, hnone⟩ := h.erase_error hrun
    exact ⟨⟨layout, map, h⟩, rfl, fun _ => hnone⟩
  records_eq := by
    rintro handle ⟨layout, map, h⟩
    exact h.records_eq
  reopen_eq := by
    rintro handle ⟨layout, map, h⟩
    exact h.reopened

/-- So what holds of every run from a new database holds of the runs over a heap of pages. -/
theorem Engine.fresh_on_pages {file : PageFile Area} {handle : HeapHandle} (hpos : 0 < file.pageCount)
    (hfits : file.pageCount < 2 ^ 64) (h : HeapHandle.create file = .ok handle) :
    (Engine.created Object.firstUserObjectId handle).Fresh := by
  obtain ⟨layout, hkeeps⟩ := HeapObjects.keeps_create hpos hfits h
  have hempty : RecordStore.content handle = fun _ => none := funext fun id => hkeeps.content_eq id
  exact Engine.fresh_created ⟨layout, _, hkeeps⟩ hempty

end MoDb.Store
