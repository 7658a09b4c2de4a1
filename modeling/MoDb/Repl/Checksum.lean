import MoDb.Lib.Crc
import MoDb.Tx.WalBytes
import Mathlib.Tactic.Set

/-!
# The three checksums

The log, the bootstrap and the replication protocol each compute a CRC-32 of their own: the log eight
bytes at a time from eight tables, the other two a byte at a time from one. All three are the remainder
of the message's bits, taken one by one.
-/

namespace MoDb

open Storage Tx

/-- `0xEDB88320`. -/
def crcPolynomial : BitVec 32 := 0xEDB88320

def referenceCrc32 (bytes : Bytes) : UInt32 :=
  ⟨Crc.remainder crcPolynomial 0xFFFFFFFF (bytes.flatMap fun byte => Crc.bits byte.toBitVec)⟩ ^^^
    0xFFFFFFFF

/-- The loop of the checksums that take a byte at a time, over their table. -/
def crcBytes (table : UInt32 → UInt32) (crc : UInt32) (bytes : Bytes) : UInt32 :=
  bytes.foldl (fun crc byte => table ((crc ^^^ byte.toUInt32) &&& 0xFF) ^^^ (crc >>> 8)) crc

/-- `crc32` of the bootstrap. -/
def Repl.crc32 (bytes : Bytes) : UInt32 := crcBytes crcTableEntry 0xFFFFFFFF bytes ^^^ 0xFFFFFFFF

/-- `crc32` of the replication protocol. -/
def Net.crc32 (bytes : Bytes) : UInt32 := crcBytes crcTableEntry 0xFFFFFFFF bytes ^^^ 0xFFFFFFFF

/-! ### The tables -/

/-- What `n` shifts make of a word. -/
def crcShifts (n : Nat) (x : UInt32) : UInt32 := ⟨Crc.shifts crcPolynomial n x.toBitVec⟩

@[simp] theorem toBitVec_crcShifts (n : Nat) (x : UInt32) :
    (crcShifts n x).toBitVec = Crc.shifts crcPolynomial n x.toBitVec := rfl

theorem crcShifts_xor (n : Nat) (x y : UInt32) :
    crcShifts n (x ^^^ y) = crcShifts n x ^^^ crcShifts n y := by
  apply UInt32.toBitVec_inj.mp
  simp [Crc.shifts_xor]

theorem crcShifts_add (m n : Nat) (x : UInt32) :
    crcShifts (m + n) x = crcShifts m (crcShifts n x) := by
  apply UInt32.toBitVec_inj.mp
  simp [Crc.shifts_add]

theorem and_one_ne_zero_iff (x : UInt32) : x &&& 1 ≠ 0 ↔ x.toBitVec.getLsbD 0 = true := by
  have hbit : (x &&& 1).toBitVec = (BitVec.ofBool (x.toBitVec.getLsbD 0)).setWidth 32 := by
    rw [UInt32.toBitVec_and]
    exact BitVec.and_one_eq_setWidth_ofBool_getLsbD
  rw [Ne, ← UInt32.toBitVec_inj, hbit]
  cases x.toBitVec.getLsbD 0 <;> simp

theorem crcTableEntry_eq (index : UInt32) : crcTableEntry index = crcShifts 8 index := by
  have hstep : ∀ x : UInt32, (if x &&& 1 ≠ 0 then (0xEDB88320 : UInt32) ^^^ (x >>> 1) else x >>> 1) =
      crcShifts 1 x := by
    intro x
    apply UInt32.toBitVec_inj.mp
    simp only [and_one_ne_zero_iff]
    change _ = Crc.shift crcPolynomial x.toBitVec
    unfold Crc.shift
    split <;> simp [crcPolynomial]
  unfold crcTableEntry
  simp only [hstep]
  change crcShifts 1 (crcShifts 1 (crcShifts 1 (crcShifts 1 (crcShifts 1 (crcShifts 1
    (crcShifts 1 (crcShifts 1 index))))))) = _
  simp only [← crcShifts_add]

theorem crcShifts_low (m : Nat) (x : UInt32) :
    crcShifts (m + 8) x = crcShifts (m + 8) (x &&& 0xFF) ^^^ crcShifts m (x >>> 8) := by
  have hmask : (x &&& 0xFF).toBitVec = (x.toBitVec.setWidth 8).setWidth 32 := by
    apply BitVec.eq_of_toNat_eq
    rw [UInt32.toBitVec_and, BitVec.toNat_and, BitVec.toNat_setWidth, BitVec.toNat_setWidth]
    change x.toBitVec.toNat &&& (2 ^ 8 - 1) = _
    rw [Nat.and_two_pow_sub_one_eq_mod]
    omega
  have hshift : (x >>> 8).toBitVec = x.toBitVec >>> 8 := by simp
  apply UInt32.toBitVec_inj.mp
  rw [UInt32.toBitVec_xor, toBitVec_crcShifts, toBitVec_crcShifts, toBitVec_crcShifts, hmask, hshift,
    Crc.shifts_add, Crc.shifts_low crcPolynomial 8 x.toBitVec, Crc.shifts_xor, Crc.shifts_add]

theorem crcTable_eq (slice : Nat) (index : UInt32) :
    crcTable slice index = crcShifts (8 * slice + 8) index := by
  induction slice with
  | zero => exact crcTableEntry_eq index
  | succ slice ih =>
    set previous := crcShifts (8 * slice + 8) index with hprevious
    have hlow : crcShifts 8 previous = crcShifts 8 (previous &&& 0xFF) ^^^ (previous >>> 8) :=
      crcShifts_low 0 previous
    rw [crcTable, ih, crcTableEntry_eq, UInt32.xor_comm, ← hlow, hprevious, ← crcShifts_add]
    congr 1
    omega

/-! ### Bytes and words -/

theorem remainder_byte (crc : UInt32) (byte : UInt8) :
    Crc.remainder crcPolynomial crc.toBitVec (Crc.bits byte.toBitVec) =
      (crcShifts 8 (crc ^^^ byte.toUInt32)).toBitVec := by
  rw [Crc.remainder_bits crcPolynomial (by decide)]
  simp

theorem crcShifts_xor_byte {n : Nat} (hn : n ≤ 24) (x : UInt32) (byte : UInt8) :
    crcShifts n x ^^^ byte.toUInt32 = crcShifts n (x ^^^ ⟨byte.toUInt32.toBitVec <<< n⟩) := by
  have hkept : byte.toUInt32.toBitVec <<< n >>> n = byte.toUInt32.toBitVec := by
    ext i hi
    by_cases h : i < 8
    · simp [show n + i < 32 by omega]
    · simp [BitVec.getLsbD_of_ge byte.toBitVec i (by omega)]
  apply UInt32.toBitVec_inj.mp
  rw [UInt32.toBitVec_xor, toBitVec_crcShifts, toBitVec_crcShifts, UInt32.toBitVec_xor]
  exact Crc.shifts_xor_shiftLeft crcPolynomial hkept x.toBitVec

theorem crcWord_eq (b0 b1 b2 b3 : UInt8) :
    b0.toUInt32 ^^^ ⟨b1.toUInt32.toBitVec <<< 8⟩ ^^^ ⟨b2.toUInt32.toBitVec <<< 16⟩ ^^^
      ⟨b3.toUInt32.toBitVec <<< 24⟩ = crcWord b0 b1 b2 b3 := by
  have h8 : b1.toUInt32 <<< 8 = ⟨b1.toUInt32.toBitVec <<< 8⟩ := rfl
  have h16 : b2.toUInt32 <<< 16 = ⟨b2.toUInt32.toBitVec <<< 16⟩ := rfl
  have h24 : b3.toUInt32 <<< 24 = ⟨b3.toUInt32.toBitVec <<< 24⟩ := rfl
  rw [crcWord, h8, h16, h24]
  apply UInt32.toBitVec_inj.mp
  simp only [UInt32.toBitVec_xor, UInt32.toBitVec_or, UInt8.toBitVec_toUInt32]
  apply BitVec.eq_of_getLsbD_eq
  intro i hi
  simp only [BitVec.getLsbD_xor, BitVec.getLsbD_or, BitVec.getLsbD_shiftLeft, BitVec.getLsbD_setWidth]
  by_cases h8 : i < 8
  · simp [h8, show i < 16 by omega, show i < 24 by omega]
  · rw [BitVec.getLsbD_of_ge b0.toBitVec i (by omega)]
    by_cases h16 : i < 16
    · simp [h16, show i < 24 by omega]
    · rw [BitVec.getLsbD_of_ge b1.toBitVec (i - 8) (by omega)]
      by_cases h24 : i < 24
      · simp [h24]
      · simp [BitVec.getLsbD_of_ge b2.toBitVec (i - 16) (by omega)]

theorem crcShifts_word (crc : UInt32) (b0 b1 b2 b3 : UInt8) :
    crcShifts 8 (crcShifts 8 (crcShifts 8 (crcShifts 8 (crc ^^^ b0.toUInt32) ^^^ b1.toUInt32) ^^^
      b2.toUInt32) ^^^ b3.toUInt32) = crcShifts 32 (crc ^^^ crcWord b0 b1 b2 b3) := by
  have hstep : ∀ (n : Nat) (x : UInt32) (byte : UInt8), n ≤ 24 →
      crcShifts 8 (crcShifts n x ^^^ byte.toUInt32) =
        crcShifts (8 + n) (x ^^^ ⟨byte.toUInt32.toBitVec <<< n⟩) := by
    intro n x byte hn
    rw [crcShifts_xor_byte hn, ← crcShifts_add]
  rw [hstep 8 (crc ^^^ b0.toUInt32) b1 (by decide), hstep (8 + 8) _ b2 (by decide),
    hstep (8 + (8 + 8)) _ b3 (by decide), ← crcWord_eq]
  simp only [UInt32.xor_assoc]

theorem crcShifts_slices (slice : Nat) (x : UInt32) :
    crcTable (slice + 3) (x &&& 0xFF) ^^^ crcTable (slice + 2) ((x >>> 8) &&& 0xFF) ^^^
      crcTable (slice + 1) ((x >>> 16) &&& 0xFF) ^^^ crcTable slice (x >>> 24) =
        crcShifts (8 * slice + 32) x := by
  have h8 := crcShifts_low (8 * slice + 24) x
  have h16 := crcShifts_low (8 * slice + 16) (x >>> 8)
  have h24 := crcShifts_low (8 * slice + 8) (x >>> 16)
  have hshift16 : x >>> 8 >>> 8 = x >>> 16 := by
    apply UInt32.toBitVec_inj.mp
    exact (BitVec.shiftRight_add x.toBitVec 8 8).symm
  have hshift24 : x >>> 16 >>> 8 = x >>> 24 := by
    apply UInt32.toBitVec_inj.mp
    exact (BitVec.shiftRight_add x.toBitVec 16 8).symm
  rw [hshift16] at h16
  rw [hshift24] at h24
  simp only [crcTable_eq]
  rw [h8, h16, h24]
  simp only [UInt32.xor_assoc]
  rfl

/-! ### The loops -/

theorem crcByte_eq (crc : UInt32) (byte : UInt8) :
    crcTableEntry ((crc ^^^ byte.toUInt32) &&& 0xFF) ^^^ (crc >>> 8) =
      crcShifts 8 (crc ^^^ byte.toUInt32) := by
  have hhigh : (crc ^^^ byte.toUInt32) >>> 8 = crc >>> 8 := by
    apply UInt32.toBitVec_inj.mp
    change (crc ^^^ byte.toUInt32).toBitVec >>> 8 = crc.toBitVec >>> 8
    rw [UInt32.toBitVec_xor, BitVec.ushiftRight_xor_distrib, UInt8.toBitVec_toUInt32]
    ext i hi
    simp
  have hlow := crcShifts_low 0 (crc ^^^ byte.toUInt32)
  rw [hhigh] at hlow
  rw [crcTableEntry_eq]
  exact hlow.symm

theorem crcBytes_eq (crc : UInt32) (bytes : Bytes) :
    crcBytes crcTableEntry crc bytes =
      bytes.foldl (fun crc byte => crcShifts 8 (crc ^^^ byte.toUInt32)) crc := by
  simp only [crcBytes, crcByte_eq]

theorem remainder_bytes (crc : UInt32) (bytes : Bytes) :
    Crc.remainder crcPolynomial crc.toBitVec (bytes.flatMap fun byte => Crc.bits byte.toBitVec) =
      (crcBytes crcTableEntry crc bytes).toBitVec := by
  rw [crcBytes_eq]
  induction bytes generalizing crc with
  | nil => rfl
  | cons byte bytes ih =>
    rw [List.flatMap_cons, Crc.remainder_append, remainder_byte, ih, List.foldl_cons]

theorem crcLoop_eq (crc : UInt32) (bytes : Bytes) :
    crcLoop crc bytes = crcBytes crcTableEntry crc bytes := by
  fun_induction crcLoop crc bytes with
  | case1 crc b0 b1 b2 b3 b4 b5 b6 b7 rest low high ih =>
    -- the first word has passed through the second by the time the eight bytes are in
    have hblock : crcShifts 32 (crcShifts 32 low ^^^ high) =
        crcShifts (8 * 4 + 32) low ^^^ crcShifts (8 * 0 + 32) high := by
      rw [crcShifts_xor, ← crcShifts_add]
    rw [← crcShifts_slices, ← crcShifts_slices] at hblock
    rw [ih, crcBytes_eq, crcBytes_eq]
    simp only [List.foldl_cons]
    rw [crcShifts_word crc b0 b1 b2 b3, crcShifts_word (crcShifts 32 low) b4 b5 b6 b7, hblock]
    simp only [UInt32.xor_assoc]
  | case2 crc byte rest _ ih =>
    rw [ih]
    rfl
  | case3 => rfl

/-- The three checksums are the remainder of the message's bits. -/
theorem crc32_agree (bytes : Bytes) :
    Tx.crc32 bytes = referenceCrc32 bytes ∧ Repl.crc32 bytes = referenceCrc32 bytes ∧
      Net.crc32 bytes = referenceCrc32 bytes := by
  have hreference : referenceCrc32 bytes = crcBytes crcTableEntry 0xFFFFFFFF bytes ^^^ 0xFFFFFFFF := by
    have hbytes : Crc.remainder crcPolynomial 0xFFFFFFFF
        (bytes.flatMap fun byte => Crc.bits byte.toBitVec) = _ := remainder_bytes 0xFFFFFFFF bytes
    rw [referenceCrc32, hbytes]
  refine ⟨?_, hreference.symm, hreference.symm⟩
  rw [Tx.crc32, crcLoop_eq, hreference]

end MoDb
