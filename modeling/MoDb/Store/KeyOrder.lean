import MoDb.Store.Value
import MoDb.Index.Key

/-!
# The order of keys

Keys are compared by their bytes, and entries by key and id. Within one type the keys stand in the order
of the values.
-/

namespace MoDb.Index

open Storage

/-- `cmp_keybytes`. -/
def cmpKeybytes : Bytes → Bytes → Int
  | [], [] => 0
  | [], _ :: _ => -1
  | _ :: _, [] => 1
  | a :: as, b :: bs => if a ≠ b then (if a < b then -1 else 1) else cmpKeybytes as bs

/-- `cmp_composite`. -/
def cmpComposite (key : Bytes) (id : Nat) (key' : Bytes) (id' : Nat) : Int :=
  let byKey := cmpKeybytes key key'
  if byKey ≠ 0 then byKey else if id ≠ id' then (if id < id' then -1 else 1) else 0

theorem cmpKeybytes_eq (key key' : Bytes) : cmpKeybytes key key' =
    if bytesLess key key' then -1 else if bytesLess key' key then 1 else 0 := by
  fun_induction cmpKeybytes key key' with
  | case1 => simp
  | case2 => rfl
  | case3 => rfl
  | case4 a as b bs hne hlt => simp [bytesLess, hne, hlt]
  | case5 a as b bs hne hlt =>
    have hgt : b < a := UInt8.lt_of_le_of_ne (UInt8.not_lt.1 hlt) (Ne.symm hne)
    simp [bytesLess, hne, Ne.symm hne, hlt, hgt]
  | case6 a as b bs heq ih =>
    obtain rfl : a = b := not_not.1 heq
    simpa [bytesLess] using ih

theorem cmpKeybytes_neg_iff {key key' : Bytes} : cmpKeybytes key key' < 0 ↔ bytesLess key key' := by
  rw [cmpKeybytes_eq]
  split_ifs <;> simp_all

theorem cmpKeybytes_pos_iff {key key' : Bytes} : 0 < cmpKeybytes key key' ↔ bytesLess key' key := by
  rw [cmpKeybytes_eq]
  split_ifs with h h'
  · simp [bytesLess_asymm h]
  · simp [h']
  · simp [h']

theorem cmpKeybytes_eq_zero_iff {key key' : Bytes} : cmpKeybytes key key' = 0 ↔ key = key' := by
  rw [cmpKeybytes_eq]
  split_ifs with h h'
  · refine iff_of_false (by decide) ?_
    rintro rfl
    exact absurd h (by simp)
  · refine iff_of_false (by decide) ?_
    rintro rfl
    exact absurd h' (by simp)
  · simp [eq_of_not_bytesLess (Bool.not_eq_true _ ▸ h) (Bool.not_eq_true _ ▸ h')]

theorem cmpComposite_neg_iff {key key' : Bytes} {id id' : Nat} :
    cmpComposite key id key' id' < 0 ↔ entryLess (key, id) (key', id') := by
  rw [entryLess_iff, cmpComposite]
  by_cases hkey : key = key'
  · subst hkey
    have hzero : cmpKeybytes key key = 0 := cmpKeybytes_eq_zero_iff.2 rfl
    rw [hzero]
    split_ifs <;> simp_all
  · have hne : cmpKeybytes key key' ≠ 0 := fun hzero => hkey (cmpKeybytes_eq_zero_iff.1 hzero)
    rw [if_pos hne, cmpKeybytes_neg_iff, or_iff_left fun h => hkey h.1]

/-! ### Numbers, the most significant byte first -/

theorem bytesLess_append_of_length {as bs : Bytes} (h : as.length = bs.length) (cs ds : Bytes) :
    bytesLess (as ++ cs) (bs ++ ds) ↔ bytesLess as bs ∨ as = bs ∧ bytesLess cs ds := by
  induction as generalizing bs with
  | nil =>
    obtain rfl : bs = [] := List.length_eq_zero_iff.1 h.symm
    simp
  | cons a as ih =>
    obtain ⟨b, bs, rfl⟩ := List.exists_cons_of_length_eq_add_one h.symm
    rw [List.cons_append, List.cons_append, bytesLess_cons, bytesLess_cons, ih (by simpa using h),
      List.cons_eq_cons]
    tauto

theorem bytesLess_reverse_storeLe {width a b : Nat} (ha : a < 256 ^ width) (hb : b < 256 ^ width) :
    bytesLess (storeLe width a).reverse (storeLe width b).reverse ↔ a < b := by
  induction width generalizing a b with
  | zero =>
    have hzero : a = 0 ∧ b = 0 := by simp at ha hb; exact ⟨ha, hb⟩
    simp [storeLe, hzero]
  | succ width ih =>
    have hdiv : ∀ n < 256 ^ (width + 1), n / 256 < 256 ^ width := by
      intro n hn
      exact Nat.div_lt_of_lt_mul (Nat.pow_succ' ▸ hn)
    have hbyte : ∀ n, (UInt8.ofNat n).toNat = n % 256 := fun n => UInt8.toNat_ofNat'
    have heq : (storeLe width (a / 256)).reverse = (storeLe width (b / 256)).reverse ↔
        a / 256 = b / 256 := by
      rw [List.reverse_inj]
      constructor
      · intro h
        rw [← loadLe_storeLe_of_lt (hdiv a ha), h, loadLe_storeLe_of_lt (hdiv b hb)]
      · exact fun h => by rw [h]
    have hlast : bytesLess [UInt8.ofNat a] [UInt8.ofNat b] ↔ a % 256 < b % 256 := by
      rw [bytesLess_cons, UInt8.lt_iff_toNat_lt, hbyte, hbyte]
      simp
    rw [storeLe, storeLe, List.reverse_cons, List.reverse_cons,
      bytesLess_append_of_length (by simp), ih (hdiv a ha) (hdiv b hb), heq, hlast]
    omega

end MoDb.Index

namespace MoDb.Store

open Storage Index

/-! ### The values of one type, in order -/

def AttributeValue.InRange : AttributeValue → Prop
  | .ref id => id < 2 ^ 64
  | .blob id => id < 2 ^ 64
  | _ => True

/-- The first is less than the second: truth values, integers, reals by sign and magnitude, strings by
their bytes, ids. -/
def AttributeValue.Less : AttributeValue → AttributeValue → Prop
  | .boolean a, .boolean b => a = false ∧ b = true
  | .int64 a, .int64 b => a.toInt < b.toInt
  | .float64 a, .float64 b =>
    if a.msb then (if b.msb then b.toNat < a.toNat else True)
    else if b.msb then False else a.toNat < b.toNat
  | .string a, .string b => a < b
  | .ref a, .ref b => a < b
  | .blob a, .blob b => a < b
  | _, _ => False

theorem storeBe64_lt_iff {a b : Nat} (ha : a < 2 ^ 64) (hb : b < 2 ^ 64) :
    bytesLess (storeBe64 a) (storeBe64 b) ↔ a < b :=
  bytesLess_reverse_storeLe ha hb

theorem bytesLess_iff_lt {a b : Bytes} : bytesLess a b ↔ a < b := by
  induction a generalizing b with
  | nil => cases b <;> simp [bytesLess]
  | cons x a ih =>
    cases b with
    | nil => simp [bytesLess]
    | cons y b => rw [bytesLess_cons, List.cons_lt_cons_iff, ih]

theorem toNat_eq_sign (bits : BitVec 64) :
    bits.toNat = bits.msb.toNat * 2 ^ 63 + (bits.setWidth 63).toNat := by
  conv_lhs => rw [← BitVec.cons_msb_setWidth bits]
  rw [BitVec.toNat_cons', Nat.shiftLeft_eq]

theorem signBit_eq : signBit = BitVec.cons true 0#63 := by decide

theorem toNat_xor_signBit (bits : BitVec 64) :
    (bits ^^^ signBit).toNat = (!bits.msb).toNat * 2 ^ 63 + (bits.setWidth 63).toNat := by
  have hflip : bits ^^^ signBit = BitVec.cons (!bits.msb) (bits.setWidth 63) := by
    conv_lhs => rw [← BitVec.cons_msb_setWidth bits]
    rw [signBit_eq, BitVec.cons_xor_cons, Bool.xor_true, BitVec.xor_zero]
  rw [hflip, BitVec.toNat_cons', Nat.shiftLeft_eq]

theorem toNat_or_signBit {bits : BitVec 64} (h : bits.msb = false) :
    (bits ||| signBit).toNat = 2 ^ 63 + bits.toNat := by
  have hset : bits ||| signBit = BitVec.cons true (bits.setWidth 63) := by
    conv_lhs => rw [← BitVec.cons_msb_setWidth bits]
    rw [signBit_eq, BitVec.cons_or_cons, Bool.or_true, BitVec.or_zero]
  rw [hset, BitVec.toNat_cons', Nat.shiftLeft_eq, toNat_eq_sign bits, h]
  simp

theorem toInt_add_eq (bits : BitVec 64) : bits.toInt + 2 ^ 63 = (bits ^^^ signBit).toNat := by
  have hnat := toNat_eq_sign bits
  rw [toNat_xor_signBit, BitVec.toInt_eq_msb_cond]
  cases hmsb : bits.msb <;> simp [hmsb] at hnat ⊢ <;> omega

theorem and_signBit_ne_zero_iff (bits : BitVec 64) : bits &&& signBit ≠ 0 ↔ bits.msb = true := by
  have hsign : bits &&& signBit = BitVec.cons bits.msb 0#63 := by
    conv_lhs => rw [← BitVec.cons_msb_setWidth bits]
    rw [signBit_eq, BitVec.cons_and_cons, Bool.and_true, BitVec.and_zero]
  rw [hsign]
  cases bits.msb <;> decide

theorem toNat_floatBits (bits : BitVec 64) :
    (if bits &&& signBit ≠ 0 then ~~~bits else bits ||| signBit).toNat =
      if bits.msb then 2 ^ 64 - 1 - bits.toNat else 2 ^ 63 + bits.toNat := by
  simp only [and_signBit_ne_zero_iff]
  cases hmsb : bits.msb
  · exact toNat_or_signBit hmsb
  · exact BitVec.toNat_not

theorem bytesLess_encodeKey {value value' : AttributeValue} (htype : value.type = value'.type)
    (h : value.InRange) (h' : value'.InRange) {key key' : Bytes} (hkey : encodeKey value = .ok key)
    (hkey' : encodeKey value' = .ok key') : bytesLess key key' ↔ value.Less value' := by
  cases value with
  | null | bytes | embedded => cases hkey
  | boolean a =>
    cases value' <;> cases htype
    rename_i b
    cases hkey
    cases hkey'
    cases a <;> cases b <;> simp [AttributeValue.Less, bytesLess]
  | int64 a =>
    cases value' <;> cases htype
    rename_i b
    cases hkey
    cases hkey'
    rw [storeBe64_lt_iff (BitVec.isLt _) (BitVec.isLt _)]
    have ha := toInt_add_eq a
    have hb := toInt_add_eq b
    simp only [AttributeValue.Less]
    omega
  | float64 a =>
    cases value' <;> cases htype
    rename_i b
    cases hkey
    cases hkey'
    rw [storeBe64_lt_iff (BitVec.isLt _) (BitVec.isLt _)]
    have ha := toNat_eq_sign a
    have hb := toNat_eq_sign b
    rw [toNat_floatBits, toNat_floatBits, AttributeValue.Less]
    cases hmsb : a.msb <;> cases hmsb' : b.msb <;> simp [hmsb, hmsb'] at ha hb ⊢ <;> omega
  | string a =>
    cases value' <;> cases htype
    rename_i b
    cases hkey
    cases hkey'
    exact bytesLess_iff_lt
  | ref a =>
    cases value' <;> cases htype
    rename_i b
    cases hkey
    cases hkey'
    exact storeBe64_lt_iff h h'
  | blob a =>
    cases value' <;> cases htype
    rename_i b
    cases hkey
    cases hkey'
    exact storeBe64_lt_iff h h'

theorem AttributeValue.eq_of_not_less {value value' : AttributeValue}
    (htype : value.type = value'.type) {key : Bytes} (hkey : encodeKey value = .ok key)
    (hless : ¬value.Less value') (hless' : ¬value'.Less value) : value = value' := by
  cases value with
  | null | bytes | embedded => cases hkey
  | boolean a =>
    cases value' <;> cases htype
    rename_i b
    cases a <;> cases b <;> simp_all [AttributeValue.Less]
  | int64 a =>
    cases value' <;> cases htype
    rename_i b
    have heq : a.toInt = b.toInt := by
      simp only [AttributeValue.Less] at hless hless'
      omega
    rw [BitVec.eq_of_toInt_eq heq]
  | float64 a =>
    cases value' <;> cases htype
    rename_i b
    have heq : a.toNat = b.toNat := by
      simp only [AttributeValue.Less] at hless hless'
      cases hmsb : a.msb <;> cases hmsb' : b.msb <;> simp [hmsb, hmsb'] at hless hless' <;> omega
    rw [BitVec.eq_of_toNat_eq heq]
  | string a =>
    cases value' <;> cases htype
    rename_i b
    simp only [AttributeValue.Less, ← bytesLess_iff_lt, Bool.not_eq_true] at hless hless'
    rw [eq_of_not_bytesLess hless hless']
  | ref a =>
    cases value' <;> cases htype
    rename_i b
    rw [Nat.le_antisymm (Nat.not_lt.1 hless') (Nat.not_lt.1 hless)]
  | blob a =>
    cases value' <;> cases htype
    rename_i b
    rw [Nat.le_antisymm (Nat.not_lt.1 hless') (Nat.not_lt.1 hless)]

theorem encodeKey_eq_iff {value value' : AttributeValue} (htype : value.type = value'.type)
    (h : value.InRange) (h' : value'.InRange) {key key' : Bytes} (hkey : encodeKey value = .ok key)
    (hkey' : encodeKey value' = .ok key') : key = key' ↔ value = value' := by
  constructor
  · rintro rfl
    have hirrefl : ¬(bytesLess key key = true) := by simp
    exact AttributeValue.eq_of_not_less htype hkey
      (fun hless => hirrefl ((bytesLess_encodeKey htype h h' hkey hkey').2 hless))
      (fun hless => hirrefl ((bytesLess_encodeKey htype.symm h' h hkey' hkey).2 hless))
  · rintro rfl
    rw [hkey] at hkey'
    exact Except.ok.inj hkey'

def AttributeType.Indexable (type : AttributeType) : Prop :=
  type ≠ .null ∧ type ≠ .bytes ∧ type ≠ .embedded

instance (type : AttributeType) : Decidable type.Indexable := by
  unfold AttributeType.Indexable
  infer_instance

theorem exists_encodeKey {value : AttributeValue} (h : value.type.Indexable) :
    ∃ key, encodeKey value = .ok key := by
  obtain ⟨hnull, hbytes, hembedded⟩ := h
  cases value <;> simp_all [encodeKey, AttributeValue.type]

theorem encodeKey_of_not_indexable {value : AttributeValue} (h : ¬value.type.Indexable) :
    encodeKey value = .error ⟨.invalidArgument, "attribute type is not indexable"⟩ := by
  cases value <;> first | rfl | simp [AttributeType.Indexable, AttributeValue.type] at h

/-- The comparison of two keys, and of two entries under them, is that of the values. -/
structure ComparesAs (value value' : AttributeValue) (key key' : Bytes) : Prop where
  less : cmpKeybytes key key' < 0 ↔ value.Less value'
  equal : cmpKeybytes key key' = 0 ↔ value = value'
  greater : 0 < cmpKeybytes key key' ↔ value'.Less value
  distinct : key = key' ↔ value = value'
  entry : ∀ id id', cmpComposite key id key' id' < 0 ↔ value.Less value' ∨ value = value' ∧ id < id'

/-- Two values of one type have keys that compare as they do, or the type has no keys. -/
theorem key_order {value value' : AttributeValue} (htype : value.type = value'.type)
    (h : value.InRange) (h' : value'.InRange) :
    (value.type.Indexable → ∃ key key', encodeKey value = .ok key ∧ encodeKey value' = .ok key' ∧
      ComparesAs value value' key key') ∧
    (¬value.type.Indexable →
      encodeKey value = .error ⟨.invalidArgument, "attribute type is not indexable"⟩) := by
  refine ⟨fun hindexable => ?_, encodeKey_of_not_indexable⟩
  obtain ⟨key, hkey⟩ := exists_encodeKey hindexable
  obtain ⟨key', hkey'⟩ := exists_encodeKey (htype ▸ hindexable)
  have hless := bytesLess_encodeKey htype h h' hkey hkey'
  have hgreater := bytesLess_encodeKey htype.symm h' h hkey' hkey
  have heq := encodeKey_eq_iff htype h h' hkey hkey'
  refine ⟨key, key', hkey, hkey', cmpKeybytes_neg_iff.trans hless, cmpKeybytes_eq_zero_iff.trans heq,
    cmpKeybytes_pos_iff.trans hgreater, heq, fun id id' => ?_⟩
  rw [cmpComposite_neg_iff, entryLess_iff, hless, heq]

/-- The least integer against zero. -/
theorem key_order_least :
    ((AttributeValue.int64 (BitVec.intMin 64)).type.Indexable →
      ∃ key key', encodeKey (.int64 (BitVec.intMin 64)) = .ok key ∧ encodeKey (.int64 0) = .ok key' ∧
        ComparesAs (.int64 (BitVec.intMin 64)) (.int64 0) key key') ∧
    (¬(AttributeValue.int64 (BitVec.intMin 64)).type.Indexable →
      encodeKey (.int64 (BitVec.intMin 64)) =
        .error ⟨.invalidArgument, "attribute type is not indexable"⟩) :=
  @key_order (.int64 (BitVec.intMin 64)) (.int64 0) rfl trivial trivial

/-- A byte string has no key, so its keys do not keep an order and give no value back. -/
theorem not_key_order_bytes : ¬∀ value : AttributeValue, value.type ≠ .null → value.type ≠ .embedded →
    ∃ key, encodeKey value = .ok key := by
  intro h
  obtain ⟨key, hkey⟩ := h (.bytes [1, 2]) (by decide) (by decide)
  cases hkey

end MoDb.Store
