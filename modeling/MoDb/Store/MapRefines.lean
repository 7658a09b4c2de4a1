import MoDb.Store.VectorRefines
import Mathlib.Data.Set.Card

/-!
# The persistent map

The entries are sorted by the bytes of their keys, and each key has one. The map is the function that the
calls of `put` and `remove` describe.
-/

namespace MoDb.Store.PersistentMap

open Storage Effect SortedSearch

variable {K V : Type} {key : Element K} {value : Element V} {rows first middle last : List (K × V)} {k : K}

/-- The bytes of a list of entries. -/
structure StoredRows (key : Element K) (value : Element V) (rows : List (K × V)) (data : Bytes) : Prop where
  encodes : ∀ row ∈ rows, RowEncodes key value row
  data : data = collectionBytes (rowBytes key value) rows
  sorted : Sorted encodedLess (fun row => key.bytesOf row.1) rows

/-- The entries around those of a key. -/
structure Around (k : K) (first middle last : List (K × V)) : Prop where
  middle : middle = [] ∨ ∃ old, middle = [(k, old)]
  first : k ∉ first.map Prod.fst
  last : k ∉ last.map Prod.fst

theorem StoredRows.exists_cut {data : Bytes} (h : StoredRows key value rows data)
    (hcount : rows.length < 2 ^ 32) (hkey : key.Encodes k) :
    ∃ first middle last entries, rows = first ++ middle ++ last ∧
      Cut (fun row : K × V => encodedLess (key.bytesOf row.1) (key.bytesOf k))
        (fun row => encodedLess (key.bytesOf k) (key.bytesOf row.1)) first middle last ∧
      Around k first middle last ∧ entryRanges data = .ok entries ∧
      entries.map (fun entry => (subspan data entry.key, subspan data entry.value)) =
        rows.map fun row => (key.bytesOf row.1, value.bytesOf row.2) := by
  obtain ⟨first, middle, last, rfl, hcut⟩ := h.sorted.cut encodedLess_order (key.bytesOf k)
  obtain ⟨entries, hentries, hspans⟩ := entryRanges_collection h.encodes hcount
  rw [← h.data] at hentries hspans
  have hirrefl : encodedLess (key.bytesOf k) (key.bytesOf k) = false := Index.bytesLess_irrefl _
  refine ⟨first, middle, last, entries, rfl, hcut, ⟨?_, ?_, ?_⟩, hentries, hspans⟩
  · match middle, hcut.middle with
    | [], _ => exact .inl rfl
    | [hit], ⟨hbefore, hbeyond⟩ =>
      have hbytes := encodedLess_order.eq_of_not hbefore hbeyond
      have hhit := (h.encodes hit (by simp)).1
      exact .inr ⟨hit.2, by rw [← hhit.inj hkey hbytes]⟩
  · intro hmem
    obtain ⟨row, hrow, rfl⟩ := List.mem_map.1 hmem
    have hbefore := hcut.first row hrow
    rw [hirrefl] at hbefore
    cases hbefore
  · intro hmem
    obtain ⟨row, hrow, rfl⟩ := List.mem_map.1 hmem
    have hbeyond := (hcut.last row hrow).2
    rw [hirrefl] at hbeyond
    cases hbeyond

theorem StoredRows.nodup {data : Bytes} (h : StoredRows key value rows data) :
    (rows.map Prod.fst).Nodup := by
  have hnodup : ((rows.map Prod.fst).map key.bytesOf).Nodup := by
    rw [List.map_map]
    exact h.sorted.nodup encodedLess_order
  exact hnodup.of_map _

section Spans

variable {data : Bytes} {entries : List EntryRange}
  (hspans : entries.map (fun entry => (subspan data entry.key, subspan data entry.value)) =
    rows.map fun row => (key.bytesOf row.1, value.bytesOf row.2))
include hspans

theorem map_keySpan : entries.map (fun entry => subspan data entry.key) =
    rows.map fun row => key.bytesOf row.1 := by
  have hkeys := congrArg (List.map Prod.fst) hspans
  rwa [List.map_map, List.map_map] at hkeys

theorem map_entrySpan : entries.map (entrySpan data) = rows.map (rowBytes key value) := by
  have hpieces := congrArg (List.map fun spans : Bytes × Bytes => spans.1 ++ spans.2) hspans
  rwa [List.map_map, List.map_map] at hpieces

theorem valueSpan {index : Nat} {row : K × V} (hrow : rows[index]? = some row) :
    ∃ entry, entries[index]? = some entry ∧ subspan data entry.value = value.bytesOf row.2 := by
  have hat := congrArg (fun spans => spans[index]?) hspans
  rw [List.getElem?_map, List.getElem?_map, hrow] at hat
  obtain ⟨entry, hentry, heq⟩ := Option.map_eq_some_iff.1 hat
  exact ⟨entry, hentry, congrArg Prod.snd heq⟩

end Spans

/-! ### The function of the entries -/

variable [DecidableEq K]

def lookup (rows : List (K × V)) (k : K) : Option V := (rows.find? fun row => row.1 = k).map Prod.snd

theorem find?_of_not_mem (h : k ∉ rows.map Prod.fst) : rows.find? (fun row => row.1 = k) = none := by
  rw [List.find?_eq_none]
  intro row hrow hkey
  exact h (of_decide_eq_true hkey ▸ List.mem_map_of_mem hrow)

theorem Around.lookup (h : Around k first middle last) :
    lookup (first ++ middle ++ last) k = middle.head?.map Prod.snd := by
  rw [PersistentMap.lookup, List.find?_append, List.find?_append, find?_of_not_mem h.first,
    find?_of_not_mem h.last, Option.none_or, Option.or_none]
  rcases h.middle with rfl | ⟨old, rfl⟩
  · rfl
  · simp

theorem Around.update (h : Around k first middle last) {middle' : List (K × V)}
    (h' : Around k first middle' last) : PersistentMap.lookup (first ++ middle' ++ last) =
      Function.update (PersistentMap.lookup (first ++ middle ++ last)) k (middle'.head?.map Prod.snd) := by
  funext other
  by_cases hother : other = k
  · rw [hother, Function.update_self, h'.lookup]
  · have hmiddle : ∀ {rows : List (K × V)}, Around k first rows last →
        rows.find? (fun row => row.1 = other) = none := by
      rintro rows hrows
      rcases hrows.middle with rfl | ⟨old, rfl⟩
      · rfl
      · simp [Ne.symm hother]
    rw [Function.update_of_ne hother, PersistentMap.lookup, PersistentMap.lookup, List.find?_append,
      List.find?_append, List.find?_append, List.find?_append, hmiddle h, hmiddle h']

noncomputable def keyCount (map : K → Option V) : Nat := {k | map k ≠ none}.ncard

theorem keyCount_lookup (hnodup : (rows.map Prod.fst).Nodup) : keyCount (lookup rows) = rows.length := by
  have hkeys : {k | lookup rows k ≠ none} = ((rows.map Prod.fst).toFinset : Set K) := by
    ext k
    rw [Set.mem_ofPred_eq, Finset.mem_coe, List.mem_toFinset, lookup, ne_eq, Option.map_eq_none_iff,
      List.find?_eq_none]
    simp
  rw [keyCount, hkeys, Set.ncard_coe_finset, List.toFinset_card_of_nodup hnodup, List.length_map]

def Stored (key : Element K) (value : Element V) (map : K → Option V) (data : Bytes) : Prop :=
  ∃ rows, StoredRows key value rows data ∧ lookup rows = map

/-! ### The calls -/

/-- A call that writes. -/
inductive MapCall (K V : Type) where
  | put (k : K) (v : V)
  | remove (k : K)
  deriving DecidableEq, Repr

variable [PageSize] {tx : Bool} {file : PageFile Area} {frame : Multiset (Nat × Area)} {blob : Blob}
  {map : K → Option V}

/-- What the map shows. -/
structure Reads (key : Element K) (value : Element V) (id : Nat) (file : PageFile Area)
    (map : K → Option V) : Prop where
  size : PersistentMap.size id file = .ok (keyCount map) file
  get : ∀ k, PersistentMap.get key value id k file =
    match key.encode k with
    | .ok _ => .ok (map k) file
    | .error error => .error error file

/-- What a call makes of the function; `remove` answers whether the key had a value. -/
def apply (key : Element K) (value : Element V) (map : K → Option V) :
    MapCall K V → Except Error ((K → Option V) × Option Bool)
  | .put k v => do
    let _ ← key.encode k
    let _ ← value.encode v
    pure (Function.update map k (some v), none)
  | .remove k => do
    let _ ← key.encode k
    pure (Function.update map k none, some (map k).isSome)

noncomputable def kind (key : Element K) (value : Element V) :
    Kind (MapCall K V) (Option Bool) (K → Option V) where
  run blobs id database
    | .put k v => do
      let id ← put key value blobs id database k v
      pure (id, none)
    | .remove k => do
      let (id, removed) ← remove key blobs id database k
      pure (id, some removed)
  apply := apply key value
  Reads := Reads key value
  size := keyCount
  empty := fun _ => none

theorem reads (h : Held tx file (↑blob.pages + frame)) (hstored : Stored key value map blob.data)
    (hcount : keyCount map < 2 ^ 32) : Reads key value blob.id file map := by
  obtain ⟨rows, hrows, rfl⟩ := hstored
  rw [keyCount_lookup hrows.nodup] at hcount
  constructor
  · rw [size, h.collectionSize hrows.data, Nat.mod_eq_of_lt hcount, keyCount_lookup hrows.nodup]
  · intro k
    rw [get, bind_of_ok h.readBlob]
    cases hencode : key.encode k with
    | error error => rfl
    | ok bytes =>
      obtain ⟨rfl, hkey⟩ := Element.encodes_of_ok hencode
      obtain ⟨first, middle, last, entries, rfl, hcut, haround, hentries, hspans⟩ :=
        hrows.exists_cut hcount hkey
      rw [bind_of_ok (check_of_ok rfl file), bind_of_ok (check_of_ok hentries file),
        search_spans (map_keySpan hspans) hcut, haround.lookup]
      rcases haround.middle with rfl | ⟨old, rfl⟩
      · rfl
      · have hrow : (first ++ [(k, old)] ++ last)[first.length]? = some (k, old) := by simp
        have hold : value.Encodes old := (hrows.encodes (k, old) (by simp)).2
        obtain ⟨entry, hentry, hspan⟩ := valueSpan hspans hrow
        have hdecode : runReader value.decode (subspan blob.data entry.value) = .ok old := by
          have hread := @Element.Encodes.decode V value old hold ⟨value.bytesOf old, 0⟩ []
            (List.append_nil _).symm
          rw [hspan, runReader, hread]
        simp only [List.isEmpty_cons, Bool.false_eq_true, if_false, Option.bind_some, hentry]
        rw [bind_of_ok (check_of_ok hdecode file)]
        rfl

section Writes

variable {blobs : BlobFacade} {database : Nat} (h : Held true file (↑blob.pages + frame))
  (hcheck : checkTransaction blobs database true = .ok ()) (hstored : Stored key value map blob.data)
  (hcount : keyCount map < 2 ^ 32)
include h hcheck hstored hcount

theorem outcome_put (k : K) (v : V) : Outcome
    (fun id file' => id = blob.id ∧ key.Encodes k ∧ value.Encodes v ∧ ∃ blob' : Blob,
      blob'.id = blob.id ∧ Stored key value (Function.update map k (some v)) blob'.data ∧
        Held true file' (↑blob'.pages + frame))
    (fun error file' => (key.encode k = .error error ∨ key.Encodes k ∧ value.encode v = .error error ∨
      error = pageCountFault ∧ file'.pageCount = 2 ^ 64 - 1) ∧ Held true file' (↑blob.pages + frame))
    (put key value blobs blob.id database k v file) := by
  have hcheck' : checkTransaction blobs database file.inTransaction = .ok () := h.tx ▸ hcheck
  rw [put, bind_of_ok (require_of_ok hcheck'), bind_of_ok h.readBlob]
  cases hencode : key.encode k with
  | error error => exact ⟨.inl rfl, h⟩
  | ok bytes =>
    obtain ⟨rfl, hkey⟩ := Element.encodes_of_ok hencode
    rw [bind_of_ok (check_of_ok rfl file)]
    cases hencode' : value.encode v with
    | error error => exact ⟨.inr (.inl ⟨hkey, rfl⟩), h⟩
    | ok bytes =>
      obtain ⟨rfl, hvalue⟩ := Element.encodes_of_ok hencode'
      obtain ⟨rows, hrows, rfl⟩ := hstored
      rw [keyCount_lookup hrows.nodup] at hcount
      obtain ⟨first, middle, last, entries, rfl, hcut, haround, hentries, hspans⟩ :=
        hrows.exists_cut hcount hkey
      have hnew : Around k first [(k, v)] last := ⟨.inr ⟨v, rfl⟩, haround.first, haround.last⟩
      have hwritten := rebuilt_collection (map_entrySpan hspans) hcut.middle.length_le (k, v)
      rw [bind_of_ok (check_of_ok rfl file), bind_of_ok (check_of_ok hentries file),
        seek_spans (map_keySpan hspans) hcut]
      apply (h.rewrite (fun _ => rfl) _).mono
      · rintro id file' ⟨rfl, blob', hid, hdata, h'⟩
        refine ⟨rfl, hkey, hvalue, blob', hid, ⟨first ++ (k, v) :: last, ⟨?_, hdata.trans hwritten,
          hrows.sorted.insert encodedLess_order hcut⟩, ?_⟩, h'⟩
        · intro row hrow
          rcases List.mem_append.1 hrow with hrow | hrow
          · exact hrows.encodes row (List.mem_append_left _ (List.mem_append_left _ hrow))
          · rcases List.mem_cons.1 hrow with rfl | hrow
            · exact ⟨hkey, hvalue⟩
            · exact hrows.encodes row (List.mem_append_right _ hrow)
        · rw [List.append_cons]
          exact haround.update hnew
      · rintro error file' hfull
        exact ⟨.inr (.inr ⟨hfull.1, hfull.2.1⟩), hfull.2.2⟩

theorem outcome_remove (k : K) : Outcome
    (fun result file' => result = (blob.id, (map k).isSome) ∧ key.Encodes k ∧ ∃ blob' : Blob,
      blob'.id = blob.id ∧ Stored key value (Function.update map k none) blob'.data ∧
        Held true file' (↑blob'.pages + frame))
    (fun error file' => (key.encode k = .error error ∨
      error = pageCountFault ∧ file'.pageCount = 2 ^ 64 - 1) ∧ Held true file' (↑blob.pages + frame))
    (remove key blobs blob.id database k file) := by
  have hcheck' : checkTransaction blobs database file.inTransaction = .ok () := h.tx ▸ hcheck
  rw [remove, bind_of_ok (require_of_ok hcheck'), bind_of_ok h.readBlob]
  cases hencode : key.encode k with
  | error error => exact ⟨.inl rfl, h⟩
  | ok bytes =>
    obtain ⟨rfl, hkey⟩ := Element.encodes_of_ok hencode
    obtain ⟨rows, hrows, rfl⟩ := hstored
    rw [keyCount_lookup hrows.nodup] at hcount
    obtain ⟨first, middle, last, entries, rfl, hcut, haround, hentries, hspans⟩ :=
      hrows.exists_cut hcount hkey
    have hnone : Around k first [] last := ⟨.inl rfl, haround.first, haround.last⟩
    have hupdate := haround.update hnone
    have hplace := findIdx_spans (map_keySpan hspans) hcut
    rw [bind_of_ok (check_of_ok rfl file), bind_of_ok (check_of_ok hentries file), haround.lookup]
    rcases haround.middle with rfl | ⟨old, rfl⟩
    · rw [List.isEmpty_nil, if_pos rfl] at hplace
      rw [hplace, if_pos (Nat.le_refl _)]
      exact ⟨rfl, hkey, blob, rfl, ⟨_, hrows, hupdate⟩, h⟩
    · have hlt : first.length < entries.length := by
        rw [length_of_spans hspans, List.length_append, List.length_append, List.length_singleton]
        omega
      rw [List.isEmpty_cons, if_neg Bool.false_ne_true] at hplace
      rw [hplace, if_neg (Nat.not_le.2 hlt)]
      apply Outcome.bind ((h.rewrite (fun _ => rfl) _).mono (fun _ _ h => h)
        fun error file' hfull => ⟨.inr ⟨hfull.1, hfull.2.1⟩, hfull.2.2⟩)
      rintro id file' ⟨rfl, blob', hid, hdata, h'⟩
      have hwritten := omitted_collection (map_entrySpan hspans)
      refine ⟨rfl, hkey, blob', hid, ⟨first ++ last, ⟨?_, hdata.trans hwritten, ?_⟩, ?_⟩, h'⟩
      · intro row hrow
        apply hrows.encodes row
        rcases List.mem_append.1 hrow with hrow | hrow
        · exact List.mem_append_left _ (List.mem_append_left _ hrow)
        · exact List.mem_append_right _ hrow
      · exact hrows.sorted.sublist
          ((List.sublist_append_left first [(k, old)]).append (List.Sublist.refl last))
      · rw [List.append_nil] at hupdate
        exact hupdate

end Writes

theorem sound (key : Element K) (value : Element V) : (kind key value).Sound (Stored key value) where
  empty := by
    refine ⟨⟨[], ⟨fun _ h => absurd h List.not_mem_nil, rfl, List.Pairwise.nil⟩, rfl⟩, ?_⟩
    exact @keyCount_lookup K V [] _ List.nodup_nil
  unready := by
    intro blobs id database call file error hcheck
    cases call <;> exact bind_of_error (bind_of_error (require_of_error hcheck))
  reads h hstored hcount := reads h hstored hcount
  call := by
    intro frame file blob map blobs database h hcheck hstored hcount call
    cases call with
    | put k v =>
      apply Outcome.bind ((outcome_put h hcheck hstored hcount k v).mono (fun _ _ h => h) ?_)
      · rintro id file' ⟨rfl, hkey, hvalue, blob', hid, hstored', h'⟩
        refine ⟨rfl, Function.update map k (some v), blob', ?_, hstored', hid, h'⟩
        change (do let _ ← key.encode k; let _ ← value.encode v; pure _) = _
        rw [hkey, hvalue]
        rfl
      · rintro error file' ⟨herror, h'⟩
        refine ⟨?_, h'⟩
        change (do let _ ← key.encode k; let _ ← value.encode v; pure _) = _ ∨ _
        rcases herror with herror | ⟨hkey, herror⟩ | hfull
        · rw [herror]
          exact .inl rfl
        · rw [hkey, herror]
          exact .inl rfl
        · exact .inr hfull
    | remove k =>
      apply Outcome.bind ((outcome_remove h hcheck hstored hcount k).mono (fun _ _ h => h) ?_)
      · rintro _ file' ⟨rfl, hkey, blob', hid, hstored', h'⟩
        refine ⟨rfl, Function.update map k none, blob', ?_, hstored', hid, h'⟩
        change (do let _ ← key.encode k; pure _) = _
        rw [hkey]
        rfl
      · rintro error file' ⟨herror, h'⟩
        refine ⟨herror.imp_left fun herror => ?_, h'⟩
        change (do let _ ← key.encode k; pure _) = _
        rw [herror]
        rfl

end MoDb.Store.PersistentMap
