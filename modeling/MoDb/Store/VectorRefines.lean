import MoDb.Store.CollectionContents
import MoDb.Store.CollectionRuns

/-!
# The persistent vector

`push_back` adds the bytes of the element at the end and then changes the count at the front. The vector is
the list of what was pushed as long as the count can tell its length.
-/

namespace MoDb.Store

open Storage Effect

variable {T : Type} {element : Element T} {values : List T} {value : T}

/-- The bytes of a list of elements. -/
structure StoredList (element : Element T) (values : List T) (data : Bytes) : Prop where
  encodes : ∀ value ∈ values, element.Encodes value
  data : data = collectionBytes element.bytesOf values

theorem Element.Encodes.ne_nil (h : element.Encodes value) : element.bytesOf value ≠ [] := by
  obtain ⟨content, -, hbytes⟩ := (ObjectCodec.valueFormat_iff _ _).1 h.format
  rw [hbytes]
  exact List.cons_ne_nil _ _

theorem storeCount_succ_mod (count : Nat) : storeCount (count % 2 ^ 32 + 1) = storeCount (count + 1) := by
  rw [storeCount, storeCount, Nat.mod_add_mod]

theorem length_storeCount_append (count : Nat) (rest : Bytes) : 4 ≤ (storeCount count ++ rest).length := by
  rw [List.length_append, length_storeCount]
  exact Nat.le_add_right 4 _

theorem patched_data (count : Nat) (items new : Bytes) :
    storeCount (count % 2 ^ 32 + 1) ++
        (storeCount count ++ items ++ new).drop (storeCount (count % 2 ^ 32 + 1)).length =
      storeCount (count + 1) ++ (items ++ new) := by
  rw [storeCount_succ_mod, length_storeCount, List.append_assoc, List.drop_left' (length_storeCount count)]

theorem check_of_ok {α : Type} {result : Except Error α} {value : α} (h : result = .ok value)
    (file : PageFile Area) : PageM.check result file = .ok value file := by
  rw [h]
  rfl

variable [PageSize] {tx : Bool} {file : PageFile Area} {frame : Multiset (Nat × Area)} {blob : Blob}

theorem le_blobPageCapacity : 4 ≤ blobPageCapacity :=
  Nat.le_sub_of_add_le (Nat.le_trans (by decide) (Nat.le_of_lt lt_pageSize))

/-! ### What all collections show -/

theorem Held.visitCollection (h : Held tx file (↑blob.pages + frame))
    (hstored : StoredList element values blob.data) (hcount : values.length < 2 ^ 32) {σ : Type}
    (visitor : T → σ → Except Error σ) (state : σ) :
    Store.visitCollection element blob.id visitor state file =
      PageM.check (values.foldlM (fun state value => visitor value state) state) file := by
  rw [Store.visitCollection, bind_of_ok h.readBlob, hstored.data,
    visitElements_collection hstored.encodes hcount]

theorem Held.collectionSize (h : Held tx file (↑blob.pages + frame)) {count : Nat} {rest : Bytes}
    (hdata : blob.data = storeCount count ++ rest) :
    Store.collectionSize blob.id file = .ok (count % 2 ^ 32) file := by
  rw [Store.collectionSize, bind_of_ok h.readBlob, hdata]
  exact check_of_ok (collectionCount_storeCount count rest) file

namespace PersistentVector

/-- What the vector shows of its list. -/
structure Reads (element : Element T) (id : Nat) (file : PageFile Area) (values : List T) : Prop where
  size : PersistentVector.size id file = .ok values.length file
  elementAt : ∀ index, PersistentVector.elementAt element id index file =
    match values[index]? with
    | some value => .ok value file
    | none => .error outOfRange file
  forEach : ∀ {σ : Type} (visitor : T → σ → Except Error σ) (state : σ),
    PersistentVector.forEach element id visitor state file =
      PageM.check (values.foldlM (fun state value => visitor value state) state) file

def kind (element : Element T) : Kind T Unit (List T) where
  run blobs id database value := do
    pushBack element blobs id database value
    pure (id, ())
  apply values value := (element.encode value).map fun _ => (values ++ [value], ())
  Reads := Reads element
  size := List.length
  empty := []

theorem reads (h : Held tx file (↑blob.pages + frame)) (hstored : StoredList element values blob.data)
    (hcount : values.length < 2 ^ 32) : Reads element blob.id file values where
  size := by
    rw [size, h.collectionSize hstored.data, Nat.mod_eq_of_lt hcount]
  elementAt index := by
    rw [elementAt, bind_of_ok h.readBlob, hstored.data, readAt_collection hstored.encodes hcount]
    cases values[index]? <;> rfl
  forEach := h.visitCollection hstored hcount

theorem outcome_pushBack {blobs : BlobFacade} {database : Nat} (h : Held true file (↑blob.pages + frame))
    (hcheck : checkTransaction blobs database true = .ok ()) (hstored : StoredList element values blob.data)
    (value : T) : Outcome
      (fun _ file' => element.Encodes value ∧ ∃ blob' : Blob, blob'.id = blob.id ∧
        StoredList element (values ++ [value]) blob'.data ∧ Held true file' (↑blob'.pages + frame))
      (fun error file' => (element.encode value = .error error ∨
        error = pageCountFault ∧ file'.pageCount = 2 ^ 64 - 1) ∧ Held true file' (↑blob.pages + frame))
      (PersistentVector.pushBack element blobs blob.id database value file) := by
  have hcheck' : checkTransaction blobs database file.inTransaction = .ok () := h.tx ▸ hcheck
  have htake : blob.data.take 4 = storeCount values.length := by
    rw [hstored.data]
    exact List.take_left' (length_storeCount _)
  have hhead : 4 ≤ (blob.data.take blobPageCapacity).length := by
    rw [List.length_take, hstored.data]
    exact Nat.le_min.2 ⟨le_blobPageCapacity, length_storeCount_append _ _⟩
  have hcount : collectionCount (blob.data.take 4) = .ok (values.length % 2 ^ 32) := by
    rw [htake, ← List.append_nil (storeCount _)]
    exact collectionCount_storeCount _ []
  rw [PersistentVector.pushBack, bind_of_ok (require_of_ok hcheck'), bind_of_ok (h.readPrefix hhead),
    bind_of_ok (check_of_ok hcount file)]
  cases hencode : element.encode value with
  | error error => exact ⟨.inl rfl, h⟩
  | ok bytes =>
    obtain ⟨rfl, hvalue⟩ := Element.encodes_of_ok hencode
    rw [bind_of_ok (check_of_ok rfl file)]
    apply Outcome.bind ((h.append (fun _ => rfl) hvalue.ne_nil).mono (fun _ _ h => h)
      fun error file' hfull => ⟨.inr ⟨hfull.1, hfull.2.1⟩, hfull.2.2⟩)
    rintro - file₁ ⟨blob₁, hid₁, hdata₁, h₁⟩
    have hfirst : (storeCount (values.length % 2 ^ 32 + 1)).length ≤
        (blob₁.data.take blobPageCapacity).length := by
      rw [length_storeCount, List.length_take, hdata₁, hstored.data, collectionBytes, List.append_assoc]
      exact Nat.le_min.2 ⟨le_blobPageCapacity, length_storeCount_append _ _⟩
    obtain ⟨file₂, hrun, blob₂, hid₂, hdata₂, h₂⟩ := h₁.overwritePrefix (fun _ => rfl) hfirst
    rw [← hid₁, hrun]
    refine ⟨hvalue, blob₂, hid₂, ⟨?_, ?_⟩, h₂⟩
    · intro other hother
      rcases List.mem_append.1 hother with hother | hother
      · exact hstored.encodes other hother
      · rwa [List.mem_singleton.1 hother]
    · rw [hdata₂, hdata₁, hstored.data, collectionBytes, patched_data, collectionBytes,
        List.length_append, List.flatMap_append, List.flatMap_singleton]
      rfl

theorem sound (element : Element T) : (kind element).Sound (StoredList element) where
  empty := ⟨⟨fun _ h => absurd h List.not_mem_nil, rfl⟩, rfl⟩
  unready hcheck := bind_of_error (bind_of_error (require_of_error hcheck))
  reads h hstored hcount := reads h hstored hcount
  call := by
    intro frame file blob values blobs database h hcheck hstored hcount value
    have hpush := outcome_pushBack h hcheck hstored value
    change Outcome _ _ ((PersistentVector.pushBack element blobs blob.id database value >>= _) file)
    apply Outcome.bind (hpush.mono (fun _ _ h => h) ?_)
    · rintro - file' ⟨hvalue, blob', hid, hstored', h'⟩
      refine ⟨rfl, values ++ [value], blob', ?_, hstored', hid, h'⟩
      change (element.encode value).map _ = _
      rw [hvalue]
      rfl
    · rintro error file' ⟨herror, h'⟩
      refine ⟨herror.imp_left fun herror => ?_, h'⟩
      change (element.encode value).map _ = _
      rw [herror]
      rfl

end PersistentVector

end MoDb.Store
