import MoDb.Error
import Mathlib.Algebra.Group.Int.Defs
import Mathlib.Algebra.GroupWithZero.Nat
import Mathlib.Data.List.Basic

/-!
# Pages

The page size is a constant of the build (`MODB_PAGE_SIZE`), so it is a class with one field and
the two bounds that the source asserts when it is compiled. Everything above this module is proved
for every build.
-/

namespace MoDb.Storage

abbrev Bytes := List UInt8

/-- The size of a page in a build. Below 64 bytes an identity page has no entry, and the source divides by
the number of its entries. -/
class PageSize where
  value : Nat
  lower : 64 ≤ value
  upper : value ≤ 65535

/-- `page_size`. -/
abbrev pageSize [PageSize] : Nat := PageSize.value

theorem lt_pageSize [PageSize] : 28 < pageSize := Nat.lt_of_lt_of_le (by decide) PageSize.lower

theorem entry_end_le [PageSize] {header size index : Nat} (hheader : header ≤ pageSize)
    (h : index < (pageSize - header) / size) : header + index * size + size ≤ pageSize := by
  have hend : (index + 1) * size ≤ pageSize - header :=
    Nat.mul_le_of_le_div size (index + 1) (pageSize - header) h
  rw [Nat.succ_mul] at hend
  omega

structure Page [PageSize] where
  bytes : Bytes
  length_bytes : bytes.length = pageSize
  deriving DecidableEq

def Page.fill [PageSize] (byte : UInt8) : Page :=
  ⟨List.replicate pageSize byte, List.length_replicate⟩

/-- `Page{}`: a page filled with zeros. -/
instance [PageSize] : Inhabited Page := ⟨Page.fill 0⟩

theorem Page.default_eq [PageSize] : (default : Page) = Page.fill 0 := rfl

theorem Page.fill_injective [PageSize] : Function.Injective Page.fill := by
  intro byte byte' h
  have hreplicate : List.replicate pageSize byte = List.replicate pageSize byte' :=
    congrArg Page.bytes h
  have hpos : pageSize ≠ 0 := Nat.ne_of_gt (Nat.lt_trans (Nat.succ_pos _) lt_pageSize)
  exact ((List.replicate_inj.1 hreplicate).2).resolve_left hpos

/-- The default of the build. -/
@[reducible]
def PageSize.default : PageSize := ⟨8192, by decide, by decide⟩

/-- `store_le` of an integer of `width` bytes. -/
def storeLe : Nat → Nat → Bytes
  | 0, _ => []
  | width + 1, value => UInt8.ofNat value :: storeLe width (value / 256)

/-- `load_le`. -/
def loadLe : Bytes → Nat
  | [] => 0
  | byte :: bytes => byte.toNat + 256 * loadLe bytes

@[simp]
theorem length_storeLe (width value : Nat) : (storeLe width value).length = width := by
  induction width generalizing value with
  | zero => rfl
  | succ width ih => simp [storeLe, ih]

theorem loadLe_storeLe (width value : Nat) :
    loadLe (storeLe width value) = value % 256 ^ width := by
  induction width generalizing value with
  | zero => simp [storeLe, loadLe, Nat.mod_one]
  | succ width ih =>
    have hbyte : (UInt8.ofNat value).toNat = value % 256 := UInt8.toNat_ofNat'
    rw [storeLe, loadLe, ih, hbyte, Nat.pow_succ', Nat.mod_mul]

theorem loadLe_storeLe_of_lt {width value : Nat} (h : value < 256 ^ width) :
    loadLe (storeLe width value) = value := by
  rw [loadLe_storeLe, Nat.mod_eq_of_lt h]

theorem loadLe_lt (bytes : Bytes) : loadLe bytes < 256 ^ bytes.length := by
  induction bytes with
  | nil => simp [loadLe]
  | cons byte bytes ih =>
    have hbyte : byte.toNat < 256 := byte.toNat_lt
    simp only [loadLe, List.length_cons, Nat.pow_succ']
    omega

theorem loadLe_replicate_zero (width : Nat) : loadLe (List.replicate width 0) = 0 := by
  induction width with
  | zero => rfl
  | succ width ih =>
    rw [List.replicate_succ, loadLe, ih]
    rfl

/-! ### Areas -/

/-- Bytes by offset. -/
abbrev Area := Nat → UInt8

def readArea (area : Area) (offset size : Nat) : Bytes :=
  (List.range size).map fun i => area (offset + i)

/-- `std::copy` of a record to an offset. -/
def copyTo (area : Area) (offset : Nat) (record : Bytes) : Area := fun i =>
  if offset ≤ i then (record[i - offset]?).getD (area i) else area i

@[simp]
theorem length_readArea (area : Area) (offset size : Nat) : (readArea area offset size).length = size := by
  simp [readArea]

theorem readArea_copyTo_self (area : Area) (offset : Nat) (record : Bytes) :
    readArea (copyTo area offset record) offset record.length = record := by
  apply List.ext_getElem
  · simp
  · intro i hi hi'
    simp [readArea, copyTo, hi']

theorem copyTo_of_outside {area : Area} {offset : Nat} {record : Bytes} {i : Nat}
    (h : i < offset ∨ offset + record.length ≤ i) : copyTo area offset record i = area i := by
  unfold copyTo
  split
  · rw [List.getElem?_eq_none (by omega)]
    rfl
  · rfl

theorem readArea_congr {area area' : Area} {offset size : Nat}
    (h : ∀ i, offset ≤ i → i < offset + size → area i = area' i) :
    readArea area offset size = readArea area' offset size := by
  apply List.map_congr_left
  intro i hi
  exact h _ (Nat.le_add_right _ _) (Nat.add_lt_add_left (List.mem_range.1 hi) _)

theorem readArea_take {area : Area} {offset size capacity : Nat} (h : size ≤ capacity) :
    readArea area offset size = (readArea area offset capacity).take size := by
  rw [readArea, readArea, ← List.map_take, List.take_range, Nat.min_eq_left h]

theorem readArea_copyTo_of_disjoint {area : Area} {offset offset' size : Nat} {record : Bytes}
    (h : offset + size ≤ offset' ∨ offset' + record.length ≤ offset) :
    readArea (copyTo area offset' record) offset size = readArea area offset size := by
  apply readArea_congr
  intro i hlower hupper
  apply copyTo_of_outside
  omega

theorem readArea_copyTo_inside {area : Area} {offset k size : Nat} {record : Bytes}
    (h : k + size ≤ record.length) :
    readArea (copyTo area offset record) (offset + k) size = (record.drop k).take size := by
  apply List.ext_getElem
  · simp
    omega
  · intro i hi hi'
    have hin : k + i < record.length := by
      rw [length_readArea] at hi
      omega
    simp [readArea, copyTo, Nat.add_assoc, hin]

theorem copyTo_copyTo {area : Area} {offset : Nat} {record front : Bytes} :
    copyTo (copyTo area offset record) offset front =
      copyTo area offset (front ++ record.drop front.length) := by
  funext i
  unfold copyTo
  split
  · by_cases hfront : i - offset < front.length
    · rw [List.getElem?_append_left hfront, List.getElem?_eq_getElem hfront]
      rfl
    · rw [List.getElem?_eq_none (Nat.le_of_not_lt hfront),
        List.getElem?_append_right (Nat.le_of_not_lt hfront), List.getElem?_drop,
        Nat.add_sub_cancel' (Nat.le_of_not_lt hfront)]
      rfl
  · rfl

/-- `load_le` of a part of a page. -/
def loadAt (area : Area) (offset width : Nat) : Nat := loadLe (readArea area offset width)

/-- `store_le` to a part of a page. -/
def storeAt (area : Area) (offset width value : Nat) : Area := copyTo area offset (storeLe width value)

theorem loadAt_storeAt {area : Area} {offset width value : Nat} (h : value < 256 ^ width) :
    loadAt (storeAt area offset width value) offset width = value := by
  have hread := readArea_copyTo_self area offset (storeLe width value)
  rw [length_storeLe] at hread
  rw [loadAt, storeAt, hread, loadLe_storeLe_of_lt h]

theorem loadAt_storeAt_of_disjoint {area : Area} {offset offset' width width' value : Nat}
    (h : offset + width ≤ offset' ∨ offset' + width' ≤ offset) :
    loadAt (storeAt area offset' width' value) offset width = loadAt area offset width := by
  rw [loadAt, storeAt, readArea_copyTo_of_disjoint (by rwa [length_storeLe]), loadAt]

end MoDb.Storage
