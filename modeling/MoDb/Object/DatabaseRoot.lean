import MoDb.Storage.PageFile

/-!
# The database root

One page, the DBRT page, holds where each part of the object store starts, the counters, and what
replication and the checkpoint record. `DatabaseRoot` keeps its fields in memory and every setter
writes the whole page again, so a field that is wrong in memory reaches the disk with any other.
-/

namespace MoDb.Object

open Storage

def firstUserObjectId : Nat := 16

/-- The largest `std::uint64_t`. -/
def maxU64 : Nat := 2 ^ 64 - 1

/-- Where the parts of the object store start; 0 is none. -/
structure StoreRoots where
  identityDir : Nat := 0
  catalogHeapRoot : Nat := 0
  dataHeapRoot : Nat := 0
  currentBaseline : Nat := 0
  indexDir : Nat := 0
  deriving DecidableEq, Repr

structure DatabaseRoot extends StoreRoots where
  nextObjectId : Nat := firstUserObjectId
  epoch : Nat := 0
  databaseUuid : Nat := 0
  timelineId : Nat := 1
  nextLsn : Nat := 1
  checkpointLsn : Nat := 0
  followerAckLsn : Nat := 0
  checkpointWalOffset : Nat := 0
  deriving DecidableEq, Repr

/-- A page: blank, the DBRT page, or a page `δ` of one of the other structures. -/
inductive PageContent (δ : Type)
  | blank
  | root (root : DatabaseRoot)
  | data (content : δ)
  deriving DecidableEq

instance (δ : Type) : Inhabited (PageContent δ) := ⟨.blank⟩

@[simp]
theorem PageContent.default_eq (δ : Type) : (default : PageContent δ) = .blank := rfl

def PageContent.data? {δ : Type} : PageContent δ → Option δ
  | .data content => some content
  | _ => none

namespace DatabaseRoot

variable {δ : Type}

/-- `DatabaseRoot::persist`. -/
def persist (root : DatabaseRoot) (page : Nat) (file : PageFile (PageContent δ)) :
    Except Error (PageFile (PageContent δ)) :=
  file.write page (.root root)

/-- `DatabaseRoot::create`, with the uuid it draws. -/
def create (databaseUuid : Nat) (file : PageFile (PageContent δ)) :
    Except Error (Nat × DatabaseRoot × PageFile (PageContent δ)) := do
  let (page, file) ← file.allocatePage
  let root : DatabaseRoot := { databaseUuid := databaseUuid }
  let file ← root.persist page file
  let file ← file.setCatalogRoot page
  return (page, root, file)

def normalized (root : DatabaseRoot) : DatabaseRoot :=
  { root with timelineId := max 1 root.timelineId, nextLsn := max 1 root.nextLsn }

/-- `DatabaseRoot::open`. -/
def «open» (file : PageFile (PageContent δ)) : Except Error (Nat × DatabaseRoot) :=
  match file.catalogRoot with
  | none =>
    .error ⟨.invalidFileFormat, "database has no object store root (not an ODB++ file)"⟩
  | some page =>
    match file.read page with
    | .error error => .error error
    | .ok (.root root) =>
      -- page 0 is the superblock, whose magic is another
      if page = 0 then
        .error ⟨.invalidFileFormat, "database root page is missing the DBRT magic"⟩
      else if root.nextObjectId < firstUserObjectId then
        .error ⟨.corruptPage, "database root has an invalid next object id"⟩
      else .ok (page, root.normalized)
    | .ok _ => .error ⟨.invalidFileFormat, "database root page is missing the DBRT magic"⟩

/-- `DatabaseRoot::oldest_available_lsn`. -/
def oldestAvailableLsn (root : DatabaseRoot) : Nat :=
  if root.checkpointLsn = 0 then 1
  else if root.followerAckLsn = 0 then root.checkpointLsn
  else if root.checkpointLsn < root.followerAckLsn then root.checkpointLsn
  else root.followerAckLsn

theorem open_eq_ok {file : PageFile (PageContent δ)} {page : Nat} {root : DatabaseRoot} :
    DatabaseRoot.open file = .ok (page, root) ↔
      ∃ stored, file.catalogRoot = some page ∧ file.read page = .ok (.root stored) ∧ page ≠ 0 ∧
        firstUserObjectId ≤ stored.nextObjectId ∧ root = stored.normalized := by
  unfold DatabaseRoot.open
  constructor
  · intro h
    split at h
    · simp at h
    · next page' hcatalog =>
      split at h
      · simp at h
      · next stored hread =>
        split_ifs at h with hzero hfloor
        injection h with h
        injection h with hpage hroot
        subst hpage
        exact ⟨stored, hcatalog, hread, hzero, Nat.le_of_not_lt hfloor, hroot.symm⟩
      · simp at h
  · rintro ⟨stored, hcatalog, hread, hzero, hfloor, rfl⟩
    simp [hcatalog, hread, hzero, Nat.not_lt.2 hfloor]

end DatabaseRoot

/-! ### The object store -/

/-- How the parts of the object store are made and loaded: the first page of each, and what loading
them gives (identity map, heaps, types, baselines, indexes). They read data pages only, and the root
only for where they start. -/
class StoreParts (δ κ : Type) where
  identityDir : δ
  dataHeapRoot : δ
  catalogHeapRoot : δ
  created : κ
  load : (Nat → Option δ) → StoreRoots → Except Error κ

/-- An object store with nothing in its parts. -/
@[reducible]
def StoreParts.empty : StoreParts Unit Unit where
  identityDir := ()
  dataHeapRoot := ()
  catalogHeapRoot := ()
  created := ()
  load _ _ := .ok ()

/-- An object store with a value, which the page of its data heap holds. -/
@[reducible]
def StoreParts.single : StoreParts Nat Nat where
  identityDir := 0
  dataHeapRoot := 0
  catalogHeapRoot := 0
  created := 0
  load data roots := (data roots.dataHeapRoot).elim (.error ⟨.corruptPage, "the page is blank"⟩) .ok

/-- `ObjectStore`: the mirror of the root, and the parts in memory. -/
structure ObjectStore (κ : Type) where
  rootPage : Nat
  root : DatabaseRoot
  parts : κ

namespace ObjectStore

variable {δ κ : Type} [StoreParts δ κ]

def createPart (content : δ) (file : PageFile (PageContent δ)) :
    Except Error (Nat × PageFile (PageContent δ)) := do
  let (page, file) ← file.allocatePage
  let file ← file.write page (.data content)
  return (page, file)

/-- `ObjectStore::create`. -/
def create (databaseUuid : Nat) (file : PageFile (PageContent δ)) :
    Except Error (ObjectStore κ × PageFile (PageContent δ)) := do
  let (rootPage, root, file) ← DatabaseRoot.create databaseUuid file
  let (page, file) ← createPart (StoreParts.identityDir κ) file
  let root := { root with identityDir := page }
  let file ← root.persist rootPage file
  let (page, file) ← createPart (StoreParts.dataHeapRoot κ) file
  let root := { root with dataHeapRoot := page }
  let file ← root.persist rootPage file
  let (page, file) ← createPart (StoreParts.catalogHeapRoot κ) file
  let root := { root with catalogHeapRoot := page }
  let file ← root.persist rootPage file
  return (⟨rootPage, root, StoreParts.created δ⟩, file)

/-- `require_root`. -/
def requireRoot (page : Nat) (what : String) : Except Error Unit :=
  if page = 0 then .error ⟨.corruptFile, what⟩ else .ok ()

/-- The parts that `ObjectStore::open` loads. -/
def loadParts (pages : Nat → PageContent δ) (roots : StoreRoots) : Except Error κ := do
  requireRoot roots.identityDir "database root has no identity map"
  requireRoot roots.dataHeapRoot "database root has no data heap"
  requireRoot roots.catalogHeapRoot "database root has no catalog heap"
  StoreParts.load (fun id => (pages id).data?) roots

theorem loadParts_congr {pages pages' : Nat → PageContent δ}
    (h : ∀ id, (pages' id).data? = (pages id).data?) (roots : StoreRoots) :
    (loadParts pages' roots : Except Error κ) = loadParts pages roots := by
  have hdata : (fun id => (pages' id).data?) = fun id => (pages id).data? := funext h
  unfold loadParts
  rw [hdata]

/-- `ObjectStore::open`, outside a transaction. -/
def «open» (file : PageFile (PageContent δ)) : Except Error (ObjectStore κ) := do
  let (rootPage, root) ← DatabaseRoot.open file
  let parts ← loadParts file.data.pages root.toStoreRoots
  return ⟨rootPage, root, parts⟩

theorem open_eq_ok {file : PageFile (PageContent δ)} {store : ObjectStore κ} :
    ObjectStore.open file = .ok store ↔
      DatabaseRoot.open file = .ok (store.rootPage, store.root) ∧
        loadParts file.data.pages store.root.toStoreRoots = .ok store.parts := by
  unfold ObjectStore.open
  constructor
  · intro h
    cases hroot : DatabaseRoot.open file with
    | error error => simp [hroot, bind, Except.bind] at h
    | ok found =>
      obtain ⟨page, root⟩ := found
      cases hparts : (loadParts file.data.pages root.toStoreRoots : Except Error κ) with
      | error error => simp [hroot, hparts, bind, Except.bind] at h
      | ok parts =>
        simp only [hroot, hparts, bind, Except.bind, pure, Except.pure, Except.ok.injEq] at h
        subst h
        exact ⟨rfl, hparts⟩
  · rintro ⟨hroot, hparts⟩
    simp [hroot, hparts, bind, Except.bind, pure, Except.pure]

end ObjectStore

end MoDb.Object
