import MoDb.Store.VectorRefines
import Mathlib.Data.Finset.Card

/-!
# The persistent set

The elements are sorted by their bytes and none is stored twice. The set is the finite set of what was
inserted.
-/

namespace MoDb.Store.PersistentSet

open Storage Effect SortedSearch

variable {T : Type} {element : Element T} {values : List T} {value : T}

theorem middle_eq {middle : List T} (hvalue : element.Encodes value)
    (hencodes : ∀ other ∈ middle, element.Encodes other)
    (h : Middle (fun other => encodedLess (element.bytesOf other) (element.bytesOf value))
      (fun other => encodedLess (element.bytesOf value) (element.bytesOf other)) middle) :
    middle = [] ∨ middle = [value] := by
  match middle, h with
  | [], _ => exact .inl rfl
  | [hit], ⟨hbefore, hbeyond⟩ =>
    have hbytes := encodedLess_order.eq_of_not hbefore hbeyond
    rw [(hencodes hit (List.mem_singleton_self hit)).inj hvalue hbytes]
    exact .inr rfl

theorem nodup (hsorted : Sorted encodedLess element.bytesOf values) : values.Nodup :=
  (hsorted.nodup encodedLess_order).of_map _

theorem exists_cut {data : Bytes} (hstored : StoredList element values data)
    (hsorted : Sorted encodedLess element.bytesOf values) (hcount : values.length < 2 ^ 32)
    (hvalue : element.Encodes value) :
    ∃ first middle last ranges, values = first ++ middle ++ last ∧
      Cut (fun other => encodedLess (element.bytesOf other) (element.bytesOf value))
        (fun other => encodedLess (element.bytesOf value) (element.bytesOf other)) first middle last ∧
      (middle = [] ∨ middle = [value]) ∧ elementRanges data = .ok ranges ∧
      ranges.map (subspan data) = values.map element.bytesOf := by
  obtain ⟨first, middle, last, rfl, hcut⟩ := hsorted.cut encodedLess_order (element.bytesOf value)
  obtain ⟨ranges, hranges, hspans⟩ := elementRanges_collection hstored.encodes hcount
  rw [← hstored.data] at hranges hspans
  refine ⟨first, middle, last, ranges, rfl, hcut, middle_eq hvalue ?_ hcut.middle, hranges, hspans⟩
  intro other hother
  exact hstored.encodes other (List.mem_append_left _ (List.mem_append_right _ hother))

theorem mem_iff_of_cut {first middle last : List T}
    (hcut : Cut (fun other => encodedLess (element.bytesOf other) (element.bytesOf value))
      (fun other => encodedLess (element.bytesOf value) (element.bytesOf other)) first middle last)
    (hmiddle : middle = [] ∨ middle = [value]) :
    value ∈ first ++ middle ++ last ↔ middle.isEmpty = false := by
  have hirrefl : encodedLess (element.bytesOf value) (element.bytesOf value) = false :=
    Index.bytesLess_irrefl _
  have hfirst : value ∉ first := fun hmem => by
    have hbefore := hcut.first value hmem
    rw [hirrefl] at hbefore
    cases hbefore
  have hlast : value ∉ last := fun hmem => by
    have hbeyond := (hcut.last value hmem).2
    rw [hirrefl] at hbeyond
    cases hbeyond
  rcases hmiddle with rfl | rfl
  · simp [hfirst, hlast]
  · simp

variable [DecidableEq T]

theorem card_toFinset (hsorted : Sorted encodedLess element.bytesOf values) :
    values.toFinset.card = values.length :=
  List.toFinset_card_of_nodup (nodup hsorted)

theorem toFinset_cut {first middle last : List T} (hmiddle : middle = [] ∨ middle = [value]) :
    (first ++ value :: last).toFinset = Insert.insert value (first ++ middle ++ last).toFinset := by
  ext other
  rcases hmiddle with rfl | rfl <;> simp only [List.mem_toFinset, List.mem_append, List.mem_cons,
    List.not_mem_nil, Finset.mem_insert] <;> tauto

def Stored (element : Element T) (set : Finset T) (data : Bytes) : Prop :=
  ∃ values : List T, StoredList element values data ∧ Sorted encodedLess element.bytesOf values ∧
    values.toFinset = set

variable [PageSize] {tx : Bool} {file : PageFile Area} {frame : Multiset (Nat × Area)} {blob : Blob}
  {set : Finset T}

/-- What the set shows. -/
structure Reads (element : Element T) (id : Nat) (file : PageFile Area) (set : Finset T) : Prop where
  size : PersistentSet.size id file = .ok set.card file
  contains : ∀ value, PersistentSet.contains element id value file =
    match element.encode value with
    | .ok _ => .ok (value ∈ set) file
    | .error error => .error error file
  forEach : ∃ values : List T, values.Nodup ∧ values.toFinset = set ∧
    Sorted encodedLess element.bytesOf values ∧
    ∀ {σ : Type} (visitor : T → σ → Except Error σ) (state : σ),
      PersistentSet.forEach element id visitor state file =
        PageM.check (values.foldlM (fun state value => visitor value state) state) file

def kind (element : Element T) : Kind T Unit (Finset T) where
  run blobs id database value := do
    let id ← insert element blobs id database value
    pure (id, ())
  apply set value := (element.encode value).map fun _ => (Insert.insert value set, ())
  Reads := Reads element
  size := Finset.card
  empty := ∅

theorem reads (h : Held tx file (↑blob.pages + frame)) (hstored : Stored element set blob.data)
    (hcount : set.card < 2 ^ 32) : Reads element blob.id file set := by
  obtain ⟨values, hlist, hsorted, rfl⟩ := hstored
  rw [card_toFinset hsorted] at hcount
  constructor
  · rw [size, h.collectionSize hlist.data, Nat.mod_eq_of_lt hcount, card_toFinset hsorted]
  · intro value
    rw [contains, bind_of_ok h.readBlob]
    cases hencode : element.encode value with
    | error error => rfl
    | ok bytes =>
      obtain ⟨rfl, hvalue⟩ := Element.encodes_of_ok hencode
      obtain ⟨first, middle, last, ranges, rfl, hcut, hmiddle, hranges, hspans⟩ :=
        exists_cut hlist hsorted hcount hvalue
      rw [bind_of_ok (check_of_ok rfl file), bind_of_ok (check_of_ok hranges file),
        search_spans hspans hcut]
      have hmem := mem_iff_of_cut hcut hmiddle
      rcases hmiddle with rfl | rfl
      · simp_all
      · simp_all
  · exact ⟨values, nodup hsorted, rfl, hsorted, h.visitCollection hlist hcount⟩

theorem outcome_insert {blobs : BlobFacade} {database : Nat} (h : Held true file (↑blob.pages + frame))
    (hcheck : checkTransaction blobs database true = .ok ()) (hstored : Stored element set blob.data)
    (hcount : set.card < 2 ^ 32) (value : T) : Outcome
      (fun id file' => id = blob.id ∧ element.Encodes value ∧ ∃ blob' : Blob, blob'.id = blob.id ∧
        Stored element (Insert.insert value set) blob'.data ∧ Held true file' (↑blob'.pages + frame))
      (fun error file' => (element.encode value = .error error ∨
        error = pageCountFault ∧ file'.pageCount = 2 ^ 64 - 1) ∧ Held true file' (↑blob.pages + frame))
      (insert element blobs blob.id database value file) := by
  have hcheck' : checkTransaction blobs database file.inTransaction = .ok () := h.tx ▸ hcheck
  rw [insert, bind_of_ok (require_of_ok hcheck'), bind_of_ok h.readBlob]
  cases hencode : element.encode value with
  | error error => exact ⟨.inl rfl, h⟩
  | ok bytes =>
    obtain ⟨rfl, hvalue⟩ := Element.encodes_of_ok hencode
    obtain ⟨values, hlist, hsorted, rfl⟩ := hstored
    rw [card_toFinset hsorted] at hcount
    obtain ⟨first, middle, last, ranges, rfl, hcut, hmiddle, hranges, hspans⟩ :=
      exists_cut hlist hsorted hcount hvalue
    rw [bind_of_ok (check_of_ok rfl file), bind_of_ok (check_of_ok hranges file), seek_spans hspans hcut]
    rcases hmiddle with rfl | rfl
    · have hwritten := rebuilt_collection hspans (Nat.zero_le 1) value
      apply ((h.rewrite (fun _ => rfl) _).mono ?_ ?_)
      · rintro id file' ⟨rfl, blob', hid, hdata, h'⟩
        refine ⟨rfl, hvalue, blob', hid, ⟨first ++ value :: last, ⟨?_, hdata.trans hwritten⟩,
          hsorted.insert encodedLess_order hcut, toFinset_cut (.inl rfl)⟩, h'⟩
        intro other hother
        rcases List.mem_append.1 hother with hother | hother
        · exact hlist.encodes other (List.mem_append_left _ (List.mem_append_left _ hother))
        · rcases List.mem_cons.1 hother with rfl | hother
          · exact hvalue
          · exact hlist.encodes other (List.mem_append_right _ hother)
      · rintro error file' hfull
        exact ⟨.inr ⟨hfull.1, hfull.2.1⟩, hfull.2.2⟩
    · have hmem : value ∈ (first ++ [value] ++ last).toFinset :=
        List.mem_toFinset.2 ((mem_iff_of_cut hcut (.inr rfl)).2 rfl)
      rw [Finset.insert_eq_of_mem hmem]
      exact ⟨rfl, hvalue, blob, rfl, ⟨_, hlist, hsorted, rfl⟩, h⟩

theorem sound (element : Element T) : (kind element).Sound (Stored element) where
  empty := ⟨⟨[], ⟨fun _ h => absurd h List.not_mem_nil, rfl⟩, List.Pairwise.nil, rfl⟩, rfl⟩
  unready hcheck := bind_of_error (bind_of_error (require_of_error hcheck))
  reads h hstored hcount := reads h hstored hcount
  call := by
    intro frame file blob set blobs database h hcheck hstored hcount value
    apply Outcome.bind ((outcome_insert h hcheck hstored hcount value).mono (fun _ _ h => h) ?_)
    · rintro id file' ⟨rfl, hvalue, blob', hid, hstored', h'⟩
      refine ⟨rfl, Insert.insert value set, blob', ?_, hstored', hid, h'⟩
      change (element.encode value).map _ = _
      rw [hvalue]
      rfl
    · rintro error file' ⟨herror, h'⟩
      refine ⟨herror.imp_left fun herror => ?_, h'⟩
      change (element.encode value).map _ = _
      rw [herror]
      rfl

end MoDb.Store.PersistentSet
