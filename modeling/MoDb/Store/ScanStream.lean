import MoDb.Storage.HeapChain
import MoDb.Store.IdentityPages
import MoDb.Store.ObjectCodec

/-!
# The stream of a scan

A scan reads the data pages of the heap one after another as its consumer asks, and gives the objects that
the identity map has at the epoch. It keeps no page it has been at: the heap has been opened, and that walk
went along the same links.
-/

namespace MoDb.Store

open Storage

variable [PageSize] {file : PageFile Area}

def HeapRecord.recordId (record : HeapRecord) : RecordId :=
  ⟨UInt64.ofNat record.page, UInt16.ofNat record.slot, UInt16.ofNat record.generation⟩

/-- What the records of a page give, and whether the stream goes on behind them. -/
def streamRecords (file : PageFile Area) (directoryRoot : Nat) (epoch : UInt64)
    (type : Option TypeDefinitionId) : List HeapRecord → List (Except Error DecodedObject) × Bool
  | [] => ([], true)
  | record :: records =>
    match ObjectCodec.decodeObject record.bytes with
    | .error error => ([.error error], false)
    | .ok object =>
      let (rest, goesOn) := streamRecords file directoryRoot epoch type records
      if type.any (· ≠ object.type) then (rest, goesOn)
      else
        match IdentityPages.findAt directoryRoot (UInt64.ofNat object.id) epoch file with
        | .error _ _ => (rest, goesOn)
        | .ok resolved _ =>
          if resolved ≠ HeapRecord.recordId record then (rest, goesOn) else (.ok object :: rest, goesOn)

/-- The loop of `scan_stream`, as far as `rounds` pages go: all that it gives. -/
def streamPages (file : PageFile Area) (heap : TableHeap) (directoryRoot : Nat) (epoch : UInt64)
    (type : Option TypeDefinitionId) : Nat → Option Nat → Option (List (Except Error DecodedObject))
  | _, none => some []
  | 0, some _ => none
  | rounds + 1, some page =>
    match heap.readPageRecords file page with
    | .error error => some [.error error]
    | .ok slice =>
      match streamRecords file directoryRoot epoch type slice.records with
      | (objects, false) => some objects
      | (objects, true) =>
        (streamPages file heap directoryRoot epoch type rounds slice.next).map (objects ++ ·)

/-- `ObjectStore::scan_stream` over a heap that is opened. -/
def scanStream (file : PageFile Area) (root directoryRoot : Nat) (epoch : UInt64)
    (type : Option TypeDefinitionId) (rounds : Nat) : Option (List (Except Error DecodedObject)) :=
  match TableHeap.open file root with
  | .error error => some [.error error]
  | .ok (heap, _) => streamPages file heap directoryRoot epoch type rounds heap.first

theorem next_of_readPageRecords {heap : TableHeap} {id : Nat} {slice : HeapPageSlice}
    (h : heap.readPageRecords file id = .ok slice) : slice.next = nextOf file id := by
  unfold TableHeap.readPageRecords at h
  cases hload : loadTrusted file id with
  | error error =>
    rw [hload] at h
    cases h
  | ok page =>
    rw [hload] at h
    change ((TableHeap.occupiedSlots page).mapM (TableHeap.slotRecord file heap.tagged id page) >>= _) = _ at h
    cases hrecords : (TableHeap.occupiedSlots page).mapM (TableHeap.slotRecord file heap.tagged id page) with
    | error error =>
      rw [hrecords] at h
      cases h
    | ok records =>
      rw [hrecords] at h
      cases h
      exact (nextOf_of_loadTrusted hload).symm

theorem streamPages_ne_none {heap : TableHeap} {directoryRoot : Nat} {epoch : UInt64}
    {type : Option TypeDefinitionId} {start : Option Nat} {ids : List Nat}
    (h : Chain.Path (nextOf file) start ids none) :
    streamPages file heap directoryRoot epoch type ids.length start ≠ none := by
  induction ids generalizing start with
  | nil =>
    rw [show start = none from h, streamPages]
    exact nofun
  | cons id ids ih =>
    rw [h.1, List.length_cons, streamPages]
    cases hread : heap.readPageRecords file id with
    | error error => exact nofun
    | ok slice =>
      dsimp only
      split
      · exact nofun
      · rw [next_of_readPageRecords hread, ne_eq, Option.map_eq_none_iff]
        exact ih h.2

theorem exists_path_of_open {root : Nat} {heap : TableHeap} {pages : List TableHeapPageInfo}
    (h : TableHeap.open file root = .ok (heap, pages)) :
    ∃ ids, Chain.Path (nextOf file) heap.first ids none := by
  unfold TableHeap.open at h
  split at h
  · cases h
  · cases hread : file.read root with
    | error error =>
      rw [hread] at h
      cases h
    | ok page =>
      rw [hread] at h
      change (decodeRoot page >>= _) = _ at h
      cases hdecode : decodeRoot page with
      | error error =>
        rw [hdecode] at h
        cases h
      | ok metadata =>
        rw [hdecode] at h
        change (TableHeap.layout file { metadata with root := root } >>= _) = _ at h
        cases hlayout : TableHeap.layout file { metadata with root := root } with
        | error error =>
          rw [hlayout] at h
          cases h
        | ok found =>
          rw [hlayout] at h
          cases h
          dsimp only
          unfold TableHeap.layout at hlayout
          dsimp only at hlayout
          cases hfirst : metadata.first with
          | none => exact ⟨[], rfl⟩
          | some first =>
            rw [hfirst] at hlayout
            dsimp only at hlayout
            cases hvisit : Walk.visit visitCycle (TableHeap.layoutTurn file) (Storage.pageFuel file) [] first
                ⟨none, 0, []⟩ with
            | error error =>
              rw [hvisit] at hlayout
              cases hlayout
            | ok final =>
              obtain ⟨ids, hpath, -⟩ := visit_layoutTurn.1 hvisit
              exact ⟨ids, hpath⟩

theorem scanStream_ends (root directoryRoot : Nat) (epoch : UInt64) (type : Option TypeDefinitionId) :
    ∃ rounds, scanStream file root directoryRoot epoch type rounds ≠ none := by
  cases hopen : TableHeap.open file root with
  | error error =>
    refine ⟨0, ?_⟩
    rw [scanStream, hopen]
    exact nofun
  | ok opened =>
    obtain ⟨heap, pages⟩ := opened
    obtain ⟨ids, hpath⟩ := exists_path_of_open hopen
    refine ⟨ids.length, ?_⟩
    rw [scanStream, hopen]
    exact streamPages_ne_none hpath

end MoDb.Store
