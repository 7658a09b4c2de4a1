import Mathlib.Data.BitVec
import Mathlib.Data.List.Basic
import Mathlib.Logic.Function.Iterate

/-!
# Cyclic redundancy checks

The remainder of a message of bits by a polynomial, both written with the lowest place first. A shift
of the remainder is linear in exclusive or, and a remainder whose low places are clear only moves down.
So many bits of the message go into the remainder at once, and what many shifts make of a word is the
exclusive or of what they make of its parts: this is what lets tables take the place of the shifts.
-/

namespace Crc

variable {w : Nat} (poly : BitVec w)

def shift (crc : BitVec w) : BitVec w :=
  if crc.getLsbD 0 then poly ^^^ (crc >>> 1) else crc >>> 1

def shifts (n : Nat) (crc : BitVec w) : BitVec w := (shift poly)^[n] crc

def bit (crc : BitVec w) (next : Bool) : BitVec w :=
  if crc.getLsbD 0 != next then poly ^^^ (crc >>> 1) else crc >>> 1

def remainder (crc : BitVec w) (message : List Bool) : BitVec w := message.foldl (bit poly) crc

def bits {m : Nat} (word : BitVec m) : List Bool := (List.range m).map word.getLsbD

/-! ### Shifts -/

@[simp] theorem shifts_zero (crc : BitVec w) : shifts poly 0 crc = crc := rfl

theorem shifts_succ (n : Nat) (crc : BitVec w) :
    shifts poly (n + 1) crc = shift poly (shifts poly n crc) :=
  Function.iterate_succ_apply' (shift poly) n crc

theorem shifts_add (m n : Nat) (crc : BitVec w) :
    shifts poly (m + n) crc = shifts poly m (shifts poly n crc) :=
  Function.iterate_add_apply (shift poly) m n crc

theorem shift_xor (x y : BitVec w) : shift poly (x ^^^ y) = shift poly x ^^^ shift poly y := by
  have hcancel : ∀ a b : BitVec w, (poly ^^^ a) ^^^ (poly ^^^ b) = a ^^^ b := by
    intro a b
    rw [BitVec.xor_comm poly a, BitVec.xor_assoc, ← BitVec.xor_assoc poly, BitVec.xor_self,
      BitVec.zero_xor]
  unfold shift
  rw [BitVec.getLsbD_xor, BitVec.ushiftRight_xor_distrib]
  cases x.getLsbD 0 <;> cases y.getLsbD 0
  · simp
  · simp only [Bool.false_xor, if_true, Bool.false_eq_true, if_false]
    ac_rfl
  · simp only [Bool.true_xor, Bool.not_false, if_true, Bool.false_eq_true, if_false]
    ac_rfl
  · simp [hcancel]

theorem shifts_xor (n : Nat) (x y : BitVec w) :
    shifts poly n (x ^^^ y) = shifts poly n x ^^^ shifts poly n y := by
  induction n with
  | zero => rfl
  | succ n ih => rw [shifts_succ, shifts_succ, shifts_succ, ih, shift_xor]

theorem shifts_clear {n : Nat} {x : BitVec w} (h : ∀ i, i < n → x.getLsbD i = false) :
    shifts poly n x = x >>> n := by
  induction n with
  | zero => simp
  | succ n ih =>
    have hlow : (x >>> n).getLsbD 0 = false := by
      rw [BitVec.getLsbD_ushiftRight]
      exact h n (by omega)
    rw [shifts_succ, ih fun i hi => h i (by omega), shift, hlow, BitVec.shiftRight_add]
    rfl

theorem shifts_shiftLeft {n : Nat} {x : BitVec w} (h : x <<< n >>> n = x) (m : Nat) :
    shifts poly (m + n) (x <<< n) = shifts poly m x := by
  have hclear : ∀ i, i < n → (x <<< n).getLsbD i = false := by
    intro i hi
    simp [BitVec.getLsbD_shiftLeft, hi]
  rw [shifts_add, shifts_clear poly hclear, h]

theorem shifts_low (n : Nat) (x : BitVec w) :
    shifts poly n x = shifts poly n ((x.setWidth n).setWidth w) ^^^ (x >>> n) := by
  have hsplit : x = (x.setWidth n).setWidth w ^^^ (x >>> n <<< n) := by
    ext i hi
    by_cases h : i < n
    · simp [h, hi]
    · simp [h, hi, Nat.add_sub_cancel' (Nat.le_of_not_lt h)]
  have hkept : x >>> n <<< n >>> n = x >>> n := by
    ext i hi
    by_cases h : n + i < w
    · simp [h]
    · simp [h, BitVec.getLsbD_of_ge x (n + i) (by omega)]
  conv_lhs => rw [hsplit, shifts_xor]
  have hback := shifts_shiftLeft poly hkept 0
  rw [Nat.zero_add, shifts_zero] at hback
  rw [hback]

/-! ### The message -/

theorem shifts_xor_shiftLeft {n : Nat} {y : BitVec w} (h : y <<< n >>> n = y) (x : BitVec w) :
    shifts poly n x ^^^ y = shifts poly n (x ^^^ (y <<< n)) := by
  have hback := shifts_shiftLeft poly h 0
  rw [Nat.zero_add, shifts_zero] at hback
  rw [shifts_xor, hback]

theorem bit_eq (hw : 0 < w) (crc : BitVec w) (next : Bool) :
    bit poly crc next = shift poly (crc ^^^ (BitVec.ofBool next).setWidth w) := by
  have hrest : (crc ^^^ (BitVec.ofBool next).setWidth w) >>> 1 = crc >>> 1 := by
    rw [BitVec.ushiftRight_xor_distrib]
    ext i hi
    simp
  have hlow : (crc ^^^ (BitVec.ofBool next).setWidth w).getLsbD 0 = (crc.getLsbD 0 != next) := by
    simp [hw]
  rw [shift, hrest, hlow]
  rfl

theorem remainder_bits {m : Nat} (hm : m ≤ w) (crc : BitVec w) (word : BitVec m) :
    remainder poly crc (bits word) = shifts poly m (crc ^^^ word.setWidth w) := by
  have hpart : ∀ k ≤ m, remainder poly crc ((List.range k).map word.getLsbD) =
      shifts poly k (crc ^^^ (word.setWidth k).setWidth w) := by
    intro k
    induction k with
    | zero =>
      intro _
      simp [remainder, BitVec.eq_nil (word.setWidth 0)]
    | succ k ih =>
      intro hk
      set next := (BitVec.ofBool (word.getLsbD k)).setWidth w with hnext
      have hkept : next <<< k >>> k = next := by
        ext i hi
        by_cases h : i = 0
        · simp [hnext, h, show k < w by omega]
        · simp [hnext, h]
      have hgrow : (word.setWidth k).setWidth w ^^^ (next <<< k) =
          (word.setWidth (k + 1)).setWidth w := by
        ext i hi
        rcases Nat.lt_trichotomy i k with hlt | rfl | hgt
        · simp [hnext, hlt, Nat.lt_succ_of_lt hlt]
        · simp [hnext]
        · simp [hnext, show ¬ i < k by omega, show ¬ i < k + 1 by omega, show i - k ≠ 0 by omega]
      rw [List.range_succ, List.map_append, remainder, List.foldl_append]
      change bit poly (remainder poly crc _) _ = _
      rw [ih (by omega), bit_eq poly (by omega), ← hnext, shifts_xor_shiftLeft poly hkept,
        BitVec.xor_assoc, hgrow, ← shifts_succ]
  rw [bits, hpart m le_rfl, BitVec.setWidth_eq]

theorem remainder_append (crc : BitVec w) (message rest : List Bool) :
    remainder poly crc (message ++ rest) = remainder poly (remainder poly crc message) rest :=
  List.foldl_append

end Crc
