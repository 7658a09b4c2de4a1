import MoDb.Index.Key
import MoDb.Lib.SortedEntries

/-!
# Values of operations

A value is a scalar, a list of values, or a map from texts to values, which holds its keys in order.
-/

namespace MoDb.Ops

open Storage SortedSearch
open Index (bytesLess)

/-- The data of a value; a real is its bits. -/
inductive Data
  | null
  | boolean (flag : Bool)
  | integer (number : BitVec 64)
  | real (bits : BitVec 64)
  | text (text : Bytes)
  | id (id : BitVec 64)
  | list (items : List Data)
  | map (entries : List (Bytes × Data))

/-- `ValueMap`, whatever its order. -/
abbrev Entries := List (Bytes × Data)

theorem bytesLess_order : StrictOrder bytesLess where
  trans := Index.bytesLess_trans
  asymm := Index.bytesLess_asymm
  eq_of_not := Index.eq_of_not_bytesLess

namespace Data

theorem inside {P : Data → Prop} (null : P .null) (boolean : ∀ flag, P (.boolean flag))
    (integer : ∀ number, P (.integer number)) (real : ∀ bits, P (.real bits))
    (text : ∀ text, P (.text text)) (id : ∀ id, P (.id id))
    (list : ∀ items, (∀ item ∈ items, P item) → P (.list items))
    (map : ∀ entries : Entries, (∀ entry ∈ entries, P entry.2) → P (.map entries)) :
    ∀ data, P data := by
  intro data
  refine @Data.rec P (fun items => ∀ item ∈ items, P item) (fun entries => ∀ entry ∈ entries, P entry.2)
    (fun entry => P entry.2) null boolean integer real text id list map ?_ ?_ ?_ ?_ ?_ data
  · exact fun _ h => absurd h List.not_mem_nil
  · exact fun item items hitem hitems => List.forall_mem_cons.2 ⟨hitem, hitems⟩
  · exact fun _ h => absurd h List.not_mem_nil
  · exact fun entry entries hentry hentries => List.forall_mem_cons.2 ⟨hentry, hentries⟩
  · exact fun _ _ hitem => hitem

mutual

def nesting : Data → Nat
  | .list items => nestingOfItems items
  | .map entries => nestingOfEntries entries
  | _ => 0

def nestingOfItems : List Data → Nat
  | [] => 0
  | item :: items => max (nesting item + 1) (nestingOfItems items)

def nestingOfEntries : List (Bytes × Data) → Nat
  | [] => 0
  | (_, item) :: entries => max (nesting item + 1) (nestingOfEntries entries)

end

mutual

def Throughout (P : Data → Prop) : Data → Prop
  | .list items => P (.list items) ∧ throughoutItems P items
  | .map entries => P (.map entries) ∧ throughoutEntries P entries
  | data => P data

def throughoutItems (P : Data → Prop) : List Data → Prop
  | [] => True
  | item :: items => Throughout P item ∧ throughoutItems P items

def throughoutEntries (P : Data → Prop) : List (Bytes × Data) → Prop
  | [] => True
  | (_, item) :: entries => Throughout P item ∧ throughoutEntries P entries

end

section

variable {P Q : Data → Prop} {items : List Data} {entries : Entries} {levels : Nat}

theorem nesting_list_le : (list items).nesting ≤ levels ↔ ∀ item ∈ items, item.nesting < levels := by
  rw [nesting]
  induction items with
  | nil => simp [nestingOfItems]
  | cons item items ih => rw [nestingOfItems, Nat.max_le, ih, List.forall_mem_cons, Nat.lt_iff_add_one_le]

theorem nesting_map_le :
    (map entries).nesting ≤ levels ↔ ∀ entry ∈ entries, entry.2.nesting < levels := by
  rw [nesting]
  induction entries with
  | nil => simp [nestingOfEntries]
  | cons entry entries ih =>
    rw [nestingOfEntries, Nat.max_le, ih, List.forall_mem_cons, Nat.lt_iff_add_one_le]

theorem throughout_list :
    (list items).Throughout P ↔ P (list items) ∧ ∀ item ∈ items, item.Throughout P := by
  rw [Throughout]
  refine and_congr_right fun _ => ?_
  clear * -
  induction items with
  | nil => simp [throughoutItems]
  | cons item items ih => rw [throughoutItems, ih, List.forall_mem_cons]

theorem throughout_map :
    (map entries).Throughout P ↔ P (map entries) ∧ ∀ entry ∈ entries, entry.2.Throughout P := by
  rw [Throughout]
  refine and_congr_right fun _ => ?_
  clear * -
  induction entries with
  | nil => simp [throughoutEntries]
  | cons entry entries ih => rw [throughoutEntries, ih, List.forall_mem_cons]

end

def InOrder : Data → Prop
  | .map entries => Sorted bytesLess Prod.fst entries
  | _ => True

def Counted : Data → Prop
  | .text bytes => bytes.length < 2 ^ 32
  | .list items => items.length < 2 ^ 32
  | .map entries => entries.length < 2 ^ 32 ∧ ∀ entry ∈ entries, entry.1.length < 2 ^ 32
  | _ => True

end Data

/-- `ops::Value`. -/
structure Value where
  data : Data
  ordered : data.Throughout Data.InOrder

/-- `value_max_depth`. -/
def valueMaxDepth : Nat := 64

end MoDb.Ops
