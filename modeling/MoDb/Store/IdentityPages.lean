import MoDb.Store.IdentityMap
import MoDb.Store.PageActions

/-!
# The pages of the identity map

A chain of directory pages points to pages of entries, which are allocated as ids come to need them.
The entry of an id is at a fixed place of a fixed page of entries. Version 1 of the entries had no
epochs and no previous version.
-/

namespace MoDb.Store

open Storage

/-- `storage::RecordId`. -/
structure RecordId where
  page : UInt64
  slot : UInt16
  generation : UInt16
  deriving DecidableEq, Repr

namespace IdentityPages

def idmdMagic : Bytes := [73, 68, 77, 68]
def idmpMagic : Bytes := [73, 68, 77, 80]
def idmdVersion : Nat := 1
def legacyIdmpVersion : Nat := 1
def idmpVersion : Nat := 2

def idmHeaderSize : Nat := 16
def nextDirOffset : Nat := 8
def idmpEntrySize : Nat := 48
def legacyIdmpEntrySize : Nat := 16
def dirPointerSize : Nat := 8

def flagAllocated : UInt32 := 1
def flagRemoved : UInt32 := 2

/-- `Entry`. -/
structure IdmpEntry where
  page : UInt64 := 0
  slot : UInt16 := 0
  generation : UInt16 := 0
  flags : UInt32 := 0
  currentEpoch : UInt64 := 0
  previousPage : UInt64 := 0
  previousSlot : UInt16 := 0
  previousGeneration : UInt16 := 0
  previousFlags : UInt32 := 0
  previousEpoch : UInt64 := 0
  deriving DecidableEq, Repr

namespace IdmpEntry

def allocated (entry : IdmpEntry) : Bool := entry.flags &&& flagAllocated ≠ 0

def removed (entry : IdmpEntry) : Bool := entry.flags &&& flagRemoved ≠ 0

def hasPrevious (entry : IdmpEntry) : Bool := entry.previousFlags &&& flagAllocated ≠ 0

def record (entry : IdmpEntry) : RecordId := ⟨entry.page, entry.slot, entry.generation⟩

def previousRecord (entry : IdmpEntry) : RecordId :=
  ⟨entry.previousPage, entry.previousSlot, entry.previousGeneration⟩

def moved (entry : IdmpEntry) : IdmpEntry :=
  { previousPage := entry.page
    previousSlot := entry.slot
    previousGeneration := entry.generation
    previousFlags := flagAllocated
    previousEpoch := entry.currentEpoch }

end IdmpEntry

/-- `LegacyEntry`. -/
structure LegacyEntry where
  page : UInt64
  slot : UInt16
  generation : UInt16
  flags : UInt32
  deriving DecidableEq, Repr

def LegacyEntry.allocated (entry : LegacyEntry) : Bool := entry.flags &&& flagAllocated ≠ 0

def entryOffset (index : Nat) : Nat := idmHeaderSize + index * idmpEntrySize

def legacyEntryOffset (index : Nat) : Nat := idmHeaderSize + index * legacyIdmpEntrySize

def pointerOffset (slot : Nat) : Nat := idmHeaderSize + slot * dirPointerSize

def readLegacyEntry (page : Area) (index : Nat) : LegacyEntry :=
  let offset := legacyEntryOffset index
  { page := .ofNat (loadAt page offset 8)
    slot := .ofNat (loadAt page (offset + 8) 2)
    generation := .ofNat (loadAt page (offset + 10) 2)
    flags := .ofNat (loadAt page (offset + 12) 4) }

def readEntry (page : Area) (index : Nat) : IdmpEntry :=
  let offset := entryOffset index
  { page := .ofNat (loadAt page offset 8)
    slot := .ofNat (loadAt page (offset + 8) 2)
    generation := .ofNat (loadAt page (offset + 10) 2)
    flags := .ofNat (loadAt page (offset + 12) 4)
    currentEpoch := .ofNat (loadAt page (offset + 16) 8)
    previousPage := .ofNat (loadAt page (offset + 24) 8)
    previousSlot := .ofNat (loadAt page (offset + 32) 2)
    previousGeneration := .ofNat (loadAt page (offset + 34) 2)
    previousFlags := .ofNat (loadAt page (offset + 36) 4)
    previousEpoch := .ofNat (loadAt page (offset + 40) 8) }

def writeEntry (page : Area) (index : Nat) (entry : IdmpEntry) : Area :=
  let offset := entryOffset index
  let page := storeAt page offset 8 entry.page.toNat
  let page := storeAt page (offset + 8) 2 entry.slot.toNat
  let page := storeAt page (offset + 10) 2 entry.generation.toNat
  let page := storeAt page (offset + 12) 4 entry.flags.toNat
  let page := storeAt page (offset + 16) 8 entry.currentEpoch.toNat
  let page := storeAt page (offset + 24) 8 entry.previousPage.toNat
  let page := storeAt page (offset + 32) 2 entry.previousSlot.toNat
  let page := storeAt page (offset + 34) 2 entry.previousGeneration.toNat
  let page := storeAt page (offset + 36) 4 entry.previousFlags.toNat
  storeAt page (offset + 40) 8 entry.previousEpoch.toNat

def makeHeaderPage (magic : Bytes) (version : Nat) : Area := storeAt (copyTo default 0 magic) 4 2 version

def checkMagic (page : Area) (magic : Bytes) (expectedVersion : Nat) (what : String) :
    Except Error Unit :=
  if readArea page 0 4 ≠ magic then
    .error ⟨.invalidPageFormat, s!"identity map {what} page is missing its signature"⟩
  else if loadAt page 4 2 ≠ expectedVersion then
    .error ⟨.incompatiblePageVersion, "unsupported identity map page version"⟩
  else .ok ()

/-- `IdentityMap::create`. -/
def create : PageM Nat := do
  let pageId ← PageM.allocate
  PageM.write pageId (makeHeaderPage idmdMagic idmdVersion)
  pure pageId

/-- The loop of `resolve_idmp` along the directories; there is nothing past the last one. -/
def walkDirectories : Nat → Nat → PageM (Option Nat)
  | 0, current => pure (some current)
  | steps + 1, current => do
    let page ← PageM.read current
    let next := loadAt page nextDirOffset 8
    if next = 0 then pure none else walkDirectories steps next

/-- The loop of `ensure_idmp`, which extends the chain where it ends. -/
def extendDirectories : Nat → Nat → PageM Nat
  | 0, current => pure current
  | steps + 1, current => do
    let page ← PageM.read current
    let next := loadAt page nextDirOffset 8
    if next = 0 then do
      let newDir ← PageM.allocate
      PageM.write newDir (makeHeaderPage idmdMagic idmdVersion)
      PageM.write current (storeAt page nextDirOffset 8 newDir)
      extendDirectories steps newDir
    else extendDirectories steps next

section Operations

variable [PageSize]

def entriesPerIdmp : Nat := (pageSize - idmHeaderSize) / idmpEntrySize

def legacyEntriesPerIdmp : Nat := (pageSize - idmHeaderSize) / legacyIdmpEntrySize

def pointersPerIdmd : Nat := (pageSize - idmHeaderSize) / dirPointerSize

theorem idmHeaderSize_add_le {size : Nat} (h : size ≤ idmpEntrySize) : idmHeaderSize + size ≤ pageSize :=
  Nat.le_trans (Nat.add_le_add_left h idmHeaderSize) PageSize.lower

theorem entriesPerIdmp_pos : 0 < entriesPerIdmp :=
  Nat.div_pos (Nat.le_sub_of_add_le' (idmHeaderSize_add_le (by decide))) (by decide)

theorem legacyEntriesPerIdmp_pos : 0 < legacyEntriesPerIdmp :=
  Nat.div_pos (Nat.le_sub_of_add_le' (idmHeaderSize_add_le (by decide))) (by decide)

theorem pointersPerIdmd_pos : 0 < pointersPerIdmd :=
  Nat.div_pos (Nat.le_sub_of_add_le' (idmHeaderSize_add_le (by decide))) (by decide)

theorem entryOffset_add_le (id : Nat) : entryOffset (id % entriesPerIdmp) + idmpEntrySize ≤ pageSize :=
  entry_end_le (idmHeaderSize_add_le (Nat.zero_le _)) (Nat.mod_lt id entriesPerIdmp_pos)

theorem legacyEntryOffset_add_le {index : Nat} (h : index < legacyEntriesPerIdmp) :
    legacyEntryOffset index + legacyIdmpEntrySize ≤ pageSize :=
  entry_end_le (idmHeaderSize_add_le (Nat.zero_le _)) h

theorem pointerOffset_add_le (entryPage : Nat) :
    pointerOffset (entryPage % pointersPerIdmd) + dirPointerSize ≤ pageSize :=
  entry_end_le (idmHeaderSize_add_le (Nat.zero_le _)) (Nat.mod_lt entryPage pointersPerIdmd_pos)

def resolveIdmp (directoryRoot entryPage : Nat) : PageM (Option Nat) := do
  match ← walkDirectories (entryPage / pointersPerIdmd) directoryRoot with
  | none => pure none
  | some current => do
    let page ← PageM.read current
    let pointer := loadAt page (pointerOffset (entryPage % pointersPerIdmd)) dirPointerSize
    pure (if pointer = 0 then none else some pointer)

def ensureIdmp (directoryRoot entryPage : Nat) : PageM Nat := do
  let current ← extendDirectories (entryPage / pointersPerIdmd) directoryRoot
  let page ← PageM.read current
  let offset := pointerOffset (entryPage % pointersPerIdmd)
  let pointer := loadAt page offset dirPointerSize
  if pointer = 0 then do
    let newIdmp ← PageM.allocate
    PageM.write newIdmp (makeHeaderPage idmpMagic idmpVersion)
    PageM.write current (storeAt page offset dirPointerSize newIdmp)
    pure newIdmp
  else pure pointer

/-- The page of entries of an id with its entry, as every operation but `bind` begins. -/
def locate (directoryRoot : Nat) (id : UInt64) : PageM (Nat × Area × IdmpEntry) := do
  match ← resolveIdmp directoryRoot (id.toNat / entriesPerIdmp) with
  | none => throw (IdentityMap.missing id.toNat)
  | some idmpId => do
    let page ← PageM.read idmpId
    PageM.check (checkMagic page idmpMagic idmpVersion "entries")
    pure (idmpId, page, readEntry page (id.toNat % entriesPerIdmp))

/-- `IdentityMap::bind`. -/
def bind (directoryRoot : Nat) (id : UInt64) (record : RecordId) (epoch : UInt64) : PageM Unit := do
  if id = 0 then throw ⟨.invalidObjectId, "cannot bind the invalid ObjectId 0"⟩
  else do
    let index := id.toNat % entriesPerIdmp
    let idmpId ← ensureIdmp directoryRoot (id.toNat / entriesPerIdmp)
    let page ← PageM.read idmpId
    PageM.check (checkMagic page idmpMagic idmpVersion "entries")
    if (readEntry page index).allocated then
      throw ⟨.invalidArgument, s!"ObjectId {id.toNat} is already bound"⟩
    else
      PageM.write idmpId (writeEntry page index
        { page := record.page, slot := record.slot, generation := record.generation,
          flags := flagAllocated, currentEpoch := epoch })

/-- `IdentityMap::find`. -/
def find (directoryRoot : Nat) (id : UInt64) : PageM RecordId := do
  let (_, _, entry) ← locate directoryRoot id
  if ¬entry.allocated ∨ entry.removed then throw (IdentityMap.missing id.toNat)
  else pure entry.record

/-- `IdentityMap::find_at`. -/
def findAt (directoryRoot : Nat) (id snapshotEpoch : UInt64) : PageM RecordId := do
  let (_, _, entry) ← locate directoryRoot id
  if ¬entry.allocated then throw (IdentityMap.missing id.toNat)
  else if entry.currentEpoch ≤ snapshotEpoch then
    if entry.removed then
      throw ⟨.recordNotFound, s!"object {id.toNat} was already removed at this epoch"⟩
    else pure entry.record
  else if entry.hasPrevious ∧ entry.previousEpoch ≤ snapshotEpoch then pure entry.previousRecord
  else throw ⟨.recordNotFound, s!"object {id.toNat} did not exist yet at this epoch"⟩

/-- `IdentityMap::rebind`. -/
def rebind (directoryRoot : Nat) (id : UInt64) (record : RecordId) (epoch : UInt64) : PageM Unit := do
  let (idmpId, page, entry) ← locate directoryRoot id
  if ¬entry.allocated ∨ entry.removed then throw (IdentityMap.missing id.toNat)
  else
    PageM.write idmpId (writeEntry page (id.toNat % entriesPerIdmp)
      { entry.moved with
        page := record.page, slot := record.slot, generation := record.generation,
        flags := flagAllocated, currentEpoch := epoch })

/-- `IdentityMap::erase`. -/
def erase (directoryRoot : Nat) (id epoch : UInt64) : PageM Unit := do
  let (idmpId, page, entry) ← locate directoryRoot id
  if ¬entry.allocated ∨ entry.removed then throw (IdentityMap.missing id.toNat)
  else
    PageM.write idmpId (writeEntry page (id.toNat % entriesPerIdmp)
      { entry.moved with flags := flagAllocated ||| flagRemoved, currentEpoch := epoch })

/-- `IdentityMap::clear_previous`. -/
def clearPrevious (directoryRoot : Nat) (id : UInt64) : PageM Unit := do
  let (idmpId, page, entry) ← locate directoryRoot id
  if ¬entry.allocated then throw (IdentityMap.missing id.toNat)
  else
    PageM.write idmpId (writeEntry page (id.toNat % entriesPerIdmp)
      { entry with
        previousPage := 0, previousSlot := 0, previousGeneration := 0, previousFlags := 0,
        previousEpoch := 0 })

end Operations

end IdentityPages

end MoDb.Store
