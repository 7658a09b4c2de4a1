import MoDb.Store.PersistentCollections
import Mathlib.Data.List.Forall2

/-!
# The contents of a collection

What the reader of a collection finds in its bytes, and which bytes an insertion or a removal leaves.
-/

namespace MoDb.Store

open Storage Format SortedSearch Effect
open ObjectCodec (readU32)

theorem encodedLess_order : StrictOrder encodedLess where
  trans := Index.bytesLess_trans
  asymm := Index.bytesLess_asymm
  eq_of_not := Index.eq_of_not_bytesLess

/-! ### The count -/

theorem length_storeCount (count : Nat) : (storeCount count).length = 4 := length_storeLe 4 _

/-- The bytes of a collection: its count, and its items one after another. -/
def collectionBytes {α : Type} (piece : α → Bytes) (items : List α) : Bytes :=
  storeCount items.length ++ items.flatMap piece

theorem readU32_storeCount (count : Nat) (rest : Bytes) :
    readU32 ⟨storeCount count ++ rest, 0⟩ = .ok (count % 2 ^ 32) ⟨storeCount count ++ rest, 4⟩ :=
  (ObjectCodec.decodes_readLe 4).reads rfl ⟨Nat.mod_lt _ (by decide), rfl⟩

theorem collectionCount_storeCount (count : Nat) (rest : Bytes) :
    collectionCount (storeCount count ++ rest) = .ok (count % 2 ^ 32) := by
  rw [collectionCount, runReader, readU32_storeCount]

section Items

variable {α β : Type} {piece : α → Bytes} {items : List α}

def itemsCursor (piece : α → Bytes) (items : List α) : Cursor UInt8 := ⟨collectionBytes piece items, 4⟩

theorem rest_itemsCursor : (itemsCursor piece items).rest = items.flatMap piece ++ [] := by
  rw [List.append_nil]
  exact List.drop_left' (length_storeCount _)

theorem within_itemsCursor : (itemsCursor piece items).Within := by
  change 4 ≤ (collectionBytes piece items).length
  rw [collectionBytes, List.length_append, length_storeCount]
  exact Nat.le_add_right _ _

theorem runReader_count (h : items.length < 2 ^ 32) (next : Nat → ObjectCodec.BinaryDecoder β) :
    runReader (do let count ← readU32; next count) (collectionBytes piece items) =
      match next items.length (itemsCursor piece items) with
      | .ok value _ => .ok value
      | .error error _ => .error error := by
  rw [runReader, collectionBytes, bind_of_ok (readU32_storeCount _ _), Nat.mod_eq_of_lt h]
  rfl

theorem map_eq_of_forall₂ {γ : Type} {f : α → γ} {g : β → γ} {as : List α} {bs : List β}
    (h : List.Forall₂ (fun a b => g b = f a) as bs) : bs.map g = as.map f := by
  induction h with
  | nil => rfl
  | cons hab _ ih => rw [List.map_cons, List.map_cons, hab, ih]

end Items

/-! ### Elements -/

section Elements

variable {T : Type} {element : Element T} {values : List T}

theorem elementRanges_collection (h : ∀ value ∈ values, element.Encodes value)
    (hcount : values.length < 2 ^ 32) :
    let raw := collectionBytes element.bytesOf values
    ∃ ranges, elementRanges raw = .ok ranges ∧ ranges.map (subspan raw) = values.map element.bytesOf := by
  intro raw
  have hitems : ∀ value ∈ values, ∀ (c : Cursor UInt8) more, c.bytes = raw → c.Within →
      c.rest = element.bytesOf value ++ more → ∃ range,
        readRange c = .ok range (c.skip (element.bytesOf value).length) ∧
          subspan raw range = element.bytesOf value := by
    intro value hvalue c more hbytes hc hrest
    obtain ⟨hread, hspan⟩ := readRange_run hc hrest (h value hvalue).format
    exact ⟨_, hread, hbytes ▸ hspan⟩
  obtain ⟨ranges, hread, hspans⟩ := readMany_run hitems within_itemsCursor rest_itemsCursor
  refine ⟨ranges, ?_, map_eq_of_forall₂ hspans⟩
  rw [elementRanges, runReader_count hcount, hread]

theorem visitElements_collection (h : ∀ value ∈ values, element.Encodes value)
    (hcount : values.length < 2 ^ 32) {σ : Type} (visitor : T → σ → Except Error σ) (state : σ) :
    runReader (do let count ← readU32; visitElements element visitor count state)
      (collectionBytes element.bytesOf values) =
        values.foldlM (fun state value => visitor value state) state := by
  obtain ⟨c, hvisit⟩ := visitElements_run h rest_itemsCursor state
  rw [runReader_count hcount, hvisit]
  cases values.foldlM (fun state value => visitor value state) state <;> rfl

theorem readAt_collection (h : ∀ value ∈ values, element.Encodes value) (hcount : values.length < 2 ^ 32)
    (index : Nat) : runReader (PersistentVector.readAt element index)
      (collectionBytes element.bytesOf values) =
        match values[index]? with
        | some value => .ok value
        | none => .error outOfRange := by
  rw [PersistentVector.readAt, runReader_count hcount]
  rcases Nat.lt_or_ge index values.length with hlt | hge
  · have hsplit : values = values.take index ++ values[index] :: values.drop (index + 1) := by
      rw [List.cons_getElem_drop_succ, List.take_append_drop]
    have htake : ∀ value ∈ values.take index, element.Encodes value :=
      fun value hvalue => h value (List.mem_of_mem_take hvalue)
    have hbytes : values.flatMap element.bytesOf = (values.take index).flatMap element.bytesOf ++
        (element.bytesOf values[index] ++ (values.drop (index + 1)).flatMap element.bytesOf) := by
      nth_rewrite 1 [hsplit]
      rw [List.flatMap_append, List.flatMap_cons]
    have hrest := @rest_itemsCursor T element.bytesOf values
    rw [List.append_nil, hbytes] at hrest
    have hskip := skipValues_run htake hrest
    rw [List.length_take, Nat.min_eq_left (Nat.le_of_lt hlt)] at hskip
    have hread := (h _ (List.getElem_mem hlt)).decode (Cursor.rest_skip_append hrest)
    rw [if_neg (Nat.not_le.2 hlt), bind_of_ok hskip, hread, List.getElem?_eq_getElem hlt]
  · rw [if_pos hge, List.getElem?_eq_none hge]
    rfl

end Elements

/-! ### Places among the spans -/

section Spans

variable {α γ : Type} {span : γ → Bytes} {ranges : List γ} {key : α → Bytes} {first middle last : List α}
  {target : Bytes}

variable (hspans : ranges.map span = (first ++ middle ++ last).map key)
  (hcut : Cut (fun a => encodedLess (key a) target) (fun a => encodedLess target (key a)) first middle last)
include hspans hcut

theorem seek_spans : seek (fun range => encodedLess (span range) target)
    (fun range => encodedLess target (span range)) ranges 0 = (first.length, !middle.isEmpty) := by
  calc seek (fun range => encodedLess (span range) target) (fun range => encodedLess target (span range))
        ranges 0 = seek (encodedLess · target) (encodedLess target ·) (ranges.map span) 0 :=
        seek_map (encodedLess · target) (encodedLess target ·) span ranges 0
    _ = seek (fun a => encodedLess (key a) target) (fun a => encodedLess target (key a))
        (first ++ middle ++ last) 0 := by
        rw [hspans, ← seek_map (encodedLess · target) (encodedLess target ·) key]
    _ = (first.length, !middle.isEmpty) := by rw [seek_cut hcut, Nat.zero_add]

theorem search_spans : search (fun range => encodedLess (span range) target)
    (fun range => encodedLess target (span range)) ranges (ranges.length + 1) 0 ranges.length =
      if middle.isEmpty then none else some first.length := by
  have hlength : ranges.length = (first ++ middle ++ last).length := by
    rw [← List.length_map span, hspans, List.length_map]
  have hfirst : first.length + middle.length ≤ (first ++ middle ++ last).length := by
    rw [List.length_append, List.length_append]
    exact Nat.le_add_right _ _
  calc search (fun range => encodedLess (span range) target) (fun range => encodedLess target (span range))
        ranges (ranges.length + 1) 0 ranges.length
      = search (encodedLess · target) (encodedLess target ·) (ranges.map span) (ranges.length + 1) 0
          ranges.length := search_map (encodedLess · target) (encodedLess target ·) span ranges _ _ _
    _ = search (fun a => encodedLess (key a) target) (fun a => encodedLess target (key a))
        (first ++ middle ++ last) (ranges.length + 1) 0 ranges.length := by
        rw [hspans, ← search_map (encodedLess · target) (encodedLess target ·) key]
    _ = if middle.isEmpty then none else some first.length := by
        rw [hlength]
        exact search_cut hcut (Nat.zero_le _) hfirst (Nat.le_refl _) (by omega)

theorem findIdx_spans : ranges.findIdx (fun range => !encodedLess (span range) target &&
    !encodedLess target (span range)) = if middle.isEmpty then ranges.length else first.length := by
  have hlength : ranges.length = (first ++ middle ++ last).length := by
    rw [← List.length_map span, hspans, List.length_map]
  calc ranges.findIdx (fun range => !encodedLess (span range) target && !encodedLess target (span range))
      = (ranges.map span).findIdx fun bytes => !encodedLess bytes target && !encodedLess target bytes :=
        findIdx_map span (fun bytes => !encodedLess bytes target && !encodedLess target bytes) ranges
    _ = (first ++ middle ++ last).findIdx fun a => !encodedLess (key a) target &&
        !encodedLess target (key a) := by
        rw [hspans, ← findIdx_map key (fun bytes => !encodedLess bytes target && !encodedLess target bytes)]
    _ = if middle.isEmpty then ranges.length else first.length := by rw [findIdx_cut hcut, hlength]

end Spans

/-! ### What is written -/

section Written

variable {α γ : Type} {span : γ → Bytes} {ranges : List γ} {piece : α → Bytes} {first middle last : List α}

theorem rebuild_spans {items : List α} (h : ranges.map span = items.map piece) (place : Nat)
    (replace : Bool) (new : Bytes) :
    rebuild span ranges place replace new = rebuild piece items place replace new := by
  calc rebuild span ranges place replace new = rebuild id (ranges.map span) place replace new :=
        rebuild_map id span ranges place replace new
    _ = rebuild piece items place replace new := by
        rw [h]
        exact (rebuild_map id piece items place replace new).symm

theorem omitting_spans {items : List α} (h : ranges.map span = items.map piece) (place : Nat) :
    omitting span ranges place = omitting piece items place := by
  calc omitting span ranges place = omitting id (ranges.map span) place := omitting_map id span ranges place
    _ = omitting piece items place := by
        rw [h]
        exact (omitting_map id piece items place).symm

theorem length_of_spans {β : Type} {f : γ → β} {g : α → β} {items : List α}
    (h : ranges.map f = items.map g) : ranges.length = items.length := by
  rw [← List.length_map f, h, List.length_map]

theorem rebuilt_collection (h : ranges.map span = (first ++ middle ++ last).map piece)
    (hmiddle : middle.length ≤ 1) (item : α) :
    storeCount (if !middle.isEmpty then ranges.length else ranges.length + 1) ++
        rebuild span ranges first.length (!middle.isEmpty) (piece item) =
      collectionBytes piece (first ++ item :: last) := by
  rw [rebuild_spans h, length_of_spans h, collectionBytes, List.flatMap_append, List.flatMap_cons]
  match middle, hmiddle with
  | [], _ =>
    have hcount : (first ++ [] ++ last).length + 1 = (first ++ item :: last).length := by
      simp only [List.length_append, List.length_cons, List.length_nil]
      omega
    simp only [List.isEmpty_nil, Bool.not_true, Bool.false_eq_true, if_false, hcount]
    rw [List.append_nil, rebuild_insert]
  | [hit], _ =>
    have hcount : (first ++ [hit] ++ last).length = (first ++ item :: last).length := by
      simp only [List.length_append, List.length_cons, List.length_nil]
      omega
    simp only [List.isEmpty_cons, Bool.not_false, if_true, hcount]
    rw [List.append_assoc, List.singleton_append, rebuild_replace]

theorem omitted_collection {hit : α} (h : ranges.map span = (first ++ [hit] ++ last).map piece) :
    storeCount (ranges.length - 1) ++ omitting span ranges first.length =
      collectionBytes piece (first ++ last) := by
  have hcount : (first ++ [hit] ++ last).length - 1 = (first ++ last).length := by
    simp only [List.length_append, List.length_cons, List.length_nil]
    omega
  rw [omitting_spans h, length_of_spans h, hcount, List.append_assoc, List.singleton_append,
    omitting_append, collectionBytes, List.flatMap_append]

end Written

/-! ### Entries -/

section Entries

variable {K V : Type} {key : Element K} {value : Element V} {rows : List (K × V)}

def rowBytes (key : Element K) (value : Element V) (row : K × V) : Bytes :=
  key.bytesOf row.1 ++ value.bytesOf row.2

def RowEncodes (key : Element K) (value : Element V) (row : K × V) : Prop :=
  key.Encodes row.1 ∧ value.Encodes row.2

theorem readEntryRange_run {c : Cursor UInt8} {row : K × V} {more : Bytes} (hc : c.Within)
    (hrow : RowEncodes key value row) (hrest : c.rest = rowBytes key value row ++ more) :
    ∃ entry, readEntryRange c = .ok entry (c.skip (rowBytes key value row).length) ∧
      (subspan c.bytes entry.key, subspan c.bytes entry.value) =
        (key.bytesOf row.1, value.bytesOf row.2) := by
  rw [rowBytes, List.append_assoc] at hrest
  obtain ⟨hkey, hkeySpan⟩ := readRange_run hc hrest hrow.1.format
  obtain ⟨hvalue, hvalueSpan⟩ :=
    readRange_run (hc.skip hrest) (Cursor.rest_skip_append hrest) hrow.2.format
  rw [Cursor.skip_skip] at hvalue
  rw [Cursor.bytes_skip] at hvalueSpan
  refine ⟨⟨_, _⟩, ?_, Prod.ext hkeySpan hvalueSpan⟩
  rw [readEntryRange, bind_of_ok hkey, bind_of_ok hvalue, rowBytes, List.length_append]
  rfl

theorem entryRanges_collection (h : ∀ row ∈ rows, RowEncodes key value row)
    (hcount : rows.length < 2 ^ 32) :
    let raw := collectionBytes (rowBytes key value) rows
    ∃ entries, entryRanges raw = .ok entries ∧
      entries.map (fun entry => (subspan raw entry.key, subspan raw entry.value)) =
        rows.map fun row => (key.bytesOf row.1, value.bytesOf row.2) := by
  intro raw
  have hitems : ∀ row ∈ rows, ∀ (c : Cursor UInt8) more, c.bytes = raw → c.Within →
      c.rest = rowBytes key value row ++ more → ∃ entry,
        readEntryRange c = .ok entry (c.skip (rowBytes key value row).length) ∧
          (subspan raw entry.key, subspan raw entry.value) =
            (key.bytesOf row.1, value.bytesOf row.2) := by
    intro row hrow c more hbytes hc hrest
    exact hbytes ▸ readEntryRange_run hc (h row hrow) hrest
  obtain ⟨entries, hread, hspans⟩ := readMany_run hitems within_itemsCursor rest_itemsCursor
  refine ⟨entries, ?_, map_eq_of_forall₂ hspans⟩
  rw [entryRanges, runReader_count hcount, hread]

end Entries

end MoDb.Store
