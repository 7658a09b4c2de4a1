import MoDb.Lib.SortedSearch
import MoDb.Store.BlobPages
import MoDb.Store.Elements

/-!
# Persistent collections

A vector, a set and a map, each in one blob: the number of the elements and then the elements. The elements
of a set and the keys of a map are sorted by their bytes.
-/

namespace MoDb.Store

open Storage Format SortedSearch
open ObjectCodec (BinaryDecoder readU32)

/-- The fields of a `BlobStore` beside its file. -/
structure BlobFacade where
  owner : Nat
  transactionRequired : Bool
  deriving DecidableEq, Repr

/-- `encoded_less`. -/
abbrev encodedLess : Bytes → Bytes → Bool := Index.bytesLess

/-- The checks of `require_collection_transaction`; `database` is the one the transaction belongs to. -/
def checkTransaction (blobs : BlobFacade) (database : Nat) (inTransaction : Bool) : Except Error Unit :=
  if database = 0 then .error ⟨.invalidArgument, "transaction is not attached to a database"⟩
  else if blobs.owner ≠ 0 ∧ database ≠ blobs.owner then
    .error ⟨.invalidArgument, "transaction belongs to a different database"⟩
  else if ¬inTransaction then
    .error ⟨.transactionRequired, "collection writes require an active transaction"⟩
  else .ok ()

/-- `require_collection_transaction`. -/
def requireCollectionTransaction (blobs : BlobFacade) (database : Nat) : PageM Unit := fun file =>
  PageM.check (checkTransaction blobs database file.inTransaction) file

def outOfRange : Error := ⟨.invalidArgument, "vector index is out of range"⟩

/-- A count as `write_u32` stores it. -/
def storeCount (count : Nat) : Bytes := storeLe 4 (count % 2 ^ 32)

/-- `element_ranges`. -/
def elementRanges (raw : Bytes) : Except Error (List Range) :=
  runReader (do let count ← readU32; readMany readRange count) raw

/-- `Entry` of a map. -/
structure EntryRange where
  key : Range
  value : Range
  deriving DecidableEq, Repr

/-- One turn of the loop of `entry_ranges`. -/
def readEntryRange : BinaryDecoder EntryRange := do
  let key ← readRange
  let value ← readRange
  pure ⟨key, value⟩

/-- `entry_ranges`. -/
def entryRanges (raw : Bytes) : Except Error (List EntryRange) :=
  runReader (do let count ← readU32; readMany readEntryRange count) raw

variable [PageSize]

/-! ### What the collections share -/

def createCollection (blobs : BlobFacade) (database : Nat) : PageM Nat := do
  requireCollectionTransaction blobs database
  BlobStore.create blobs.transactionRequired (storeCount 0)

def collectionSize (id : Nat) : PageM Nat := do
  let raw ← BlobStore.read id
  PageM.check (collectionCount raw)

def visitCollection {T σ : Type} (element : Element T) (id : Nat) (visitor : T → σ → Except Error σ)
    (state : σ) : PageM σ := do
  let raw ← BlobStore.read id
  PageM.check (runReader (do let count ← readU32; visitElements element visitor count state) raw)

/-! ### The vector -/

namespace PersistentVector

def create (blobs : BlobFacade) (database : Nat) : PageM Nat := createCollection blobs database

def size (id : Nat) : PageM Nat := collectionSize id

variable {T σ : Type} (element : Element T)

/-- The reader of `at`. -/
def readAt (index : Nat) : BinaryDecoder T := do
  let count ← readU32
  if count ≤ index then throw outOfRange
  else do
    skipValues index
    element.decode

/-- `PersistentVector::at`. -/
def elementAt (id index : Nat) : PageM T := do
  let raw ← BlobStore.read id
  PageM.check (runReader (readAt element index) raw)

def pushBack (blobs : BlobFacade) (id database : Nat) (value : T) : PageM Unit := do
  requireCollectionTransaction blobs database
  let head ← BlobStore.readPrefix id 4
  let count ← PageM.check (collectionCount head)
  let bytes ← PageM.check (element.encode value)
  BlobStore.append blobs.transactionRequired id bytes
  BlobStore.overwritePrefix blobs.transactionRequired id (storeCount (count + 1))

def forEach (id : Nat) (visitor : T → σ → Except Error σ) (state : σ) : PageM σ :=
  visitCollection element id visitor state

end PersistentVector

/-! ### The set -/

namespace PersistentSet

def create (blobs : BlobFacade) (database : Nat) : PageM Nat := createCollection blobs database

def size (id : Nat) : PageM Nat := collectionSize id

/-- The contents that `rebuild_inserting` writes. -/
def rebuilt (raw : Bytes) (ranges : List Range) (position : Nat) (new : Bytes) : Bytes :=
  storeCount (ranges.length + 1) ++ rebuild (subspan raw) ranges position false new

variable {T σ : Type} (element : Element T)

/-- `PersistentSet::insert`, with the id of the set after it. -/
def insert (blobs : BlobFacade) (id database : Nat) (value : T) : PageM Nat := do
  requireCollectionTransaction blobs database
  let raw ← BlobStore.read id
  let new ← PageM.check (element.encode value)
  let ranges ← PageM.check (elementRanges raw)
  let (position, present) := seek (fun range => encodedLess (subspan raw range) new)
    (fun range => encodedLess new (subspan raw range)) ranges 0
  if present then pure id
  else BlobStore.rewrite blobs.transactionRequired id (rebuilt raw ranges position new)

def contains (id : Nat) (value : T) : PageM Bool := do
  let raw ← BlobStore.read id
  let bytes ← PageM.check (element.encode value)
  let ranges ← PageM.check (elementRanges raw)
  pure (search (fun range => encodedLess (subspan raw range) bytes)
    (fun range => encodedLess bytes (subspan raw range)) ranges (ranges.length + 1) 0
    ranges.length).isSome

def forEach (id : Nat) (visitor : T → σ → Except Error σ) (state : σ) : PageM σ :=
  visitCollection element id visitor state

end PersistentSet

/-! ### The map -/

namespace PersistentMap

def create (blobs : BlobFacade) (database : Nat) : PageM Nat := createCollection blobs database

def size (id : Nat) : PageM Nat := collectionSize id

def entrySpan (raw : Bytes) (entry : EntryRange) : Bytes := subspan raw entry.key ++ subspan raw entry.value

/-- The contents that `rebuild` writes. -/
def rebuilt (raw : Bytes) (entries : List EntryRange) (position : Nat) (replace : Bool) (new : Bytes) :
    Bytes :=
  storeCount (if replace then entries.length else entries.length + 1) ++
    rebuild (entrySpan raw) entries position replace new

variable {K V : Type} (key : Element K) (value : Element V)

/-- `PersistentMap::put`, with the id of the map after it. -/
def put (blobs : BlobFacade) (id database : Nat) (k : K) (v : V) : PageM Nat := do
  requireCollectionTransaction blobs database
  let raw ← BlobStore.read id
  let keyBytes ← PageM.check (key.encode k)
  let valueBytes ← PageM.check (value.encode v)
  let entries ← PageM.check (entryRanges raw)
  let (position, replace) := seek (fun entry => encodedLess (subspan raw entry.key) keyBytes)
    (fun entry => encodedLess keyBytes (subspan raw entry.key)) entries 0
  BlobStore.rewrite blobs.transactionRequired id
    (rebuilt raw entries position replace (keyBytes ++ valueBytes))

def get (id : Nat) (k : K) : PageM (Option V) := do
  let raw ← BlobStore.read id
  let keyBytes ← PageM.check (key.encode k)
  let entries ← PageM.check (entryRanges raw)
  let found := search (fun entry => encodedLess (subspan raw entry.key) keyBytes)
    (fun entry => encodedLess keyBytes (subspan raw entry.key)) entries (entries.length + 1) 0
    entries.length
  match found.bind (entries[·]?) with
  | none => pure none
  | some entry => do
    let v ← PageM.check (runReader value.decode (subspan raw entry.value))
    pure (some v)

/-- `PersistentMap::remove`, with the id of the map after it. -/
def remove (blobs : BlobFacade) (id database : Nat) (k : K) : PageM (Nat × Bool) := do
  requireCollectionTransaction blobs database
  let raw ← BlobStore.read id
  let keyBytes ← PageM.check (key.encode k)
  let entries ← PageM.check (entryRanges raw)
  let position := entries.findIdx fun entry => !encodedLess (subspan raw entry.key) keyBytes &&
    !encodedLess keyBytes (subspan raw entry.key)
  if entries.length ≤ position then pure (id, false)
  else do
    let id ← BlobStore.rewrite blobs.transactionRequired id
      (storeCount (entries.length - 1) ++ omitting (entrySpan raw) entries position)
    pure (id, true)

end PersistentMap

end MoDb.Store
