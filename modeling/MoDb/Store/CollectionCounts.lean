import MoDb.Store.MapRefines
import MoDb.Store.PageGrowth
import MoDb.Store.SetRefines

/-!
# The counts of the collections

As long as no call takes a collection to 2^32 elements it refines its value. The count of one with as many
wraps to zero.
-/

namespace MoDb.Store

open Storage Effect

theorem held_created : Held true (PageFile.create.beginTransaction : PageFile Area) 0 :=
  ⟨⟨Multiset.nodup_zero, fun _ h => absurd h (Multiset.notMem_zero _)⟩, Nat.one_pos, by decide, rfl⟩

theorem collections_refine [PageSize] {frame : Multiset (Nat × Area)} {start : PageFile Area}
    (hholds : Holds start frame) (hpos : 0 < start.pageCount) (hfits : start.pageCount < 2 ^ 64)
    (blobs : BlobFacade) {T K V : Type} [DecidableEq T] [DecidableEq K] (element : Element T)
    (key : Element K) (value : Element V) :
    (PersistentVector.kind element).RefinesFrom blobs frame start ∧
      (PersistentSet.kind element).RefinesFrom blobs frame start ∧
      (PersistentMap.kind key value).RefinesFrom blobs frame start := by
  have hheld : Held start.inTransaction start frame := ⟨hholds, hpos, hfits, rfl⟩
  exact ⟨(PersistentVector.sound element).refinesFrom hheld blobs,
    (PersistentSet.sound element).refinesFrom hheld blobs,
    (PersistentMap.sound key value).refinesFrom hheld blobs⟩

theorem collections_refine_created : letI := PageSize.default
    (PersistentVector.kind Element.string).RefinesFrom ⟨1, true⟩ 0 PageFile.create.beginTransaction ∧
      (PersistentSet.kind Element.string).RefinesFrom ⟨1, true⟩ 0 PageFile.create.beginTransaction ∧
        (PersistentMap.kind Element.string Element.ref).RefinesFrom ⟨1, true⟩ 0
          PageFile.create.beginTransaction :=
  letI := PageSize.default
  collections_refine held_created.holds held_created.pos held_created.fits ⟨1, true⟩ Element.string
    Element.string Element.ref

/-! ### A count that wraps -/

namespace Grows

theorem requireCollectionTransaction (blobs : BlobFacade) (database : Nat) :
    Grows 0 (Store.requireCollectionTransaction blobs database) :=
  fun file => check _ file

theorem createCollection [PageSize] (blobs : BlobFacade) (database : Nat) :
    Grows 4 (Store.createCollection blobs database) :=
  (requireCollectionTransaction blobs database).next fun _ => create (List.cons_ne_nil _ _)

theorem pushBack [PageSize] {T : Type} (element : Element T) (blobs : BlobFacade) (id database : Nat) (value : T) :
    Grows (element.bytesOf value).length
      (PersistentVector.pushBack element blobs id database value) := by
  refine (requireCollectionTransaction blobs database).next fun _ => (readPrefix id 4).next fun head =>
    (check _).next fun count => ?_
  cases hencode : element.encode value with
  | error error => exact (throw _).mono (Nat.zero_le _)
  | ok bytes =>
    obtain ⟨rfl, -⟩ := Element.encodes_of_ok hencode
    exact ((append _ _ _).bind fun _ => overwritePrefix _ _ _).mono (Nat.le_refl _)

end Grows

section Wraps

variable [PageSize] {T : Type} {element : Element T} {blobs : BlobFacade} {database : Nat} {value : T}
  {run : CollectionRun (List T)} {count limit : Nat}

/-- A vector with so many times the same element, in a file of so many pages at most. -/
structure Pushed (element : Element T) (value : T) (count limit : Nat) (run : CollectionRun (List T)) :
    Prop where
  value : run.value = List.replicate count value
  stored : ∃ blob : Blob, blob.id = run.id ∧ StoredList element run.value blob.data ∧
    Held true run.file (↑blob.pages + 0)
  pages : run.file.pageCount ≤ limit

theorem Pushed.step (h : Pushed element value count limit run) (hvalue : element.Encodes value)
    (hcheck : checkTransaction blobs database true = .ok ())
    (hlimit : limit + (element.bytesOf value).length < 2 ^ 64 - 1) :
    Pushed element value (count + 1) (limit + (element.bytesOf value).length)
      ((PersistentVector.kind element).step blobs run (database, value)) := by
  obtain ⟨hvalues, ⟨blob, hid, hstored, hheld⟩, hpages⟩ := h
  have hpush := PersistentVector.outcome_pushBack hheld hcheck hstored value
  have hgrows := Grows.pushBack element blobs blob.id database value run.file
  have hanswer : (PersistentVector.kind element).answer blobs run (database, value) =
      .ok (run.value ++ [value], ()) := by
    rw [Kind.answer, hheld.tx, hcheck]
    change (element.encode value).map _ = _
    rw [hvalue]
    rfl
  rw [hid] at hpush hgrows
  have hrun : (PersistentVector.kind element).run blobs run.id database value run.file =
      (PersistentVector.pushBack element blobs run.id database value >>= fun _ => pure (run.id, ()))
        run.file := rfl
  unfold Kind.step
  rw [hanswer, hrun]
  cases hresult : PersistentVector.pushBack element blobs run.id database value run.file with
  | ok _ file' =>
    rw [hresult] at hpush hgrows
    obtain ⟨-, blob', hid', hstored', hheld'⟩ := hpush
    rw [bind_of_ok hresult]
    refine ⟨?_, ⟨blob', hid', hstored', hheld'⟩,
      Nat.le_trans hgrows (Nat.add_le_add_right hpages _)⟩
    change run.value ++ [value] = _
    rw [hvalues, List.replicate_succ']
  | error error file' =>
    rw [hresult] at hpush hgrows
    rcases hpush.1 with herror | ⟨-, hfull⟩
    · rw [hvalue] at herror
      cases herror
    · rw [after_error, hfull] at hgrows
      omega

theorem Pushed.after (h : Pushed element value 0 limit run) (hvalue : element.Encodes value)
    (hcheck : checkTransaction blobs database true = .ok ()) (count : Nat)
    (hlimit : limit + count * (element.bytesOf value).length < 2 ^ 64 - 1) :
    Pushed element value count (limit + count * (element.bytesOf value).length)
      ((PersistentVector.kind element).after blobs run (List.replicate count (database, value))) := by
  induction count with
  | zero => exact ⟨h.value, h.stored, Nat.le_trans h.pages (Nat.le_add_right _ _)⟩
  | succ count ih =>
    rw [Nat.succ_mul, ← Nat.add_assoc] at hlimit ⊢
    rw [List.replicate_succ', Kind.after, List.foldl_append]
    exact (ih (by omega)).step hvalue hcheck hlimit

theorem Pushed.not_refines (h : Pushed element value count limit run) (hcount : 2 ^ 32 ≤ count)
    (frame : Multiset (Nat × Area)) : ¬(PersistentVector.kind element).Refines blobs frame run := by
  intro hrefines
  obtain ⟨hvalues, ⟨blob, hid, hstored, hheld⟩, -⟩ := h
  have hsize : PersistentVector.size run.id run.file = .ok run.value.length run.file :=
    hrefines.reads.size
  rw [← hid, PersistentVector.size, hheld.collectionSize hstored.data] at hsize
  injection hsize with hlength
  rw [hvalues, List.length_replicate] at hlength
  have hlt : count % 2 ^ 32 < 2 ^ 32 := Nat.mod_lt _ (by decide)
  omega

theorem Pushed.create {start : PageFile Area} (hheld : Held true start 0)
    (hcheck : checkTransaction blobs database true = .ok ()) (hlimit : start.pageCount + 4 < 2 ^ 64 - 1) :
    ∃ id file, createCollection blobs database start = .ok id file ∧
      Pushed element value 0 (start.pageCount + 4) ⟨file, id, []⟩ := by
  have hcreate := @Held.createCollection blobs 0 true start _ hheld database
  have hgrows := Grows.createCollection blobs database start
  cases hresult : createCollection blobs database start with
  | ok id file =>
    rw [hresult] at hcreate hgrows
    obtain ⟨blob, hid, hdata, hblob⟩ := hcreate
    exact ⟨id, file, rfl, rfl, ⟨blob, hid, ⟨fun _ h => absurd h List.not_mem_nil, hdata⟩, hblob⟩, hgrows⟩
  | error error file =>
    rw [hresult] at hcreate hgrows
    rcases hcreate.1 with herror | ⟨-, hfull⟩
    · rw [hheld.tx, hcheck] at herror
      cases herror
    · rw [after_error, hfull] at hgrows
      omega

end Wraps

/-- A vector of 2^32 elements says that it has none. -/
theorem vector_not_refines_of_wrapped_count :
    let blobs : BlobFacade := ⟨1, true⟩
    let vector := @PersistentVector.kind Bool PageSize.default Element.boolean
    ∃ id file, @createCollection PageSize.default blobs 1 PageFile.create.beginTransaction = .ok id file ∧
      ¬vector.Refines blobs 0
        (vector.after blobs ⟨file, id, []⟩ (List.replicate (2 ^ 32) (1, true))) := by
  intro blobs vector
  have hcheck : checkTransaction blobs 1 true = .ok () := rfl
  have hvalue : Element.boolean.Encodes true := rfl
  obtain ⟨id, file, hcreate, hpushed⟩ := @Pushed.create PageSize.default Bool Element.boolean blobs 1 true
    _ held_created hcheck (by decide)
  refine ⟨id, file, hcreate, ?_⟩
  have hafter := @Pushed.after PageSize.default Bool Element.boolean blobs 1 true _ _ hpushed hvalue hcheck
    (2 ^ 32) (by decide)
  exact @Pushed.not_refines PageSize.default Bool Element.boolean blobs true _ _ _ hafter (Nat.le_refl _) 0

end MoDb.Store
