import MoDb.Error
import MoDb.Storage.Page
import Mathlib.Data.List.TakeWhile

/-!
# Run-length encoding

A block is a literal (its length in one byte, and the bytes) or a run of at least four equal bytes (its
length in two bytes, and the byte).
-/

namespace MoDb.Net

open Storage

def runLength : Bytes → Nat
  | [] => 0
  | byte :: rest => min 65535 (1 + (rest.takeWhile (· = byte)).length)

/-- How many bytes, up to `limit`, come before the next run of four. -/
def literalLength : Nat → Bytes → Nat
  | 0, _ => 0
  | _ + 1, [] => 0
  | limit + 1, byte :: rest =>
    if 4 ≤ runLength (byte :: rest) then 0 else 1 + literalLength limit rest

/-- The loop of `compress_rle`; each round takes at least one byte. -/
def compressLoop : Nat → Bytes → Bytes
  | 0, _ => []
  | _ + 1, [] => []
  | rounds + 1, byte :: rest =>
    let run := runLength (byte :: rest)
    if 4 ≤ run then
      1 :: UInt8.ofNat (run % 256) :: UInt8.ofNat (run / 256) :: byte ::
        compressLoop rounds ((byte :: rest).drop run)
    else
      let literal := max 1 (literalLength 255 (byte :: rest))
      0 :: UInt8.ofNat literal ::
        ((byte :: rest).take literal ++ compressLoop rounds ((byte :: rest).drop literal))

def compressRle (input : Bytes) : Bytes := compressLoop input.length input

/-- The loop of `decompress_rle`; each round takes at least one byte. -/
def decompressLoop (size : Nat) : Nat → Bytes → Bytes → Except Error Bytes
  | _, [], out => .ok out
  | 0, _ :: _, out => .ok out
  | rounds + 1, tag :: input, out =>
    if size < out.length then .error ⟨.protocolError, "RLE output exceeds uncompressed_size"⟩
    else if tag = 0 then
      match input with
      | [] => .error ⟨.unexpectedEndOfInput, "RLE literal length truncated"⟩
      | length :: input =>
        if length = 0 then .error ⟨.protocolError, "RLE literal length is zero"⟩
        else if input.length < length.toNat then
          .error ⟨.unexpectedEndOfInput, "RLE literal data truncated"⟩
        else if size < out.length + length.toNat then
          .error ⟨.protocolError, "RLE literal overflows uncompressed_size"⟩
        else
          decompressLoop size rounds (input.drop length.toNat) (out ++ input.take length.toNat)
    else if tag = 1 then
      match input with
      | low :: high :: value :: input =>
        let count := low.toNat + 256 * high.toNat
        if count < 4 then .error ⟨.protocolError, "RLE repeat count must be >= 4"⟩
        else if size < out.length + count then
          .error ⟨.protocolError, "RLE repeat overflows uncompressed_size"⟩
        else decompressLoop size rounds input (out ++ List.replicate count value)
      | _ => .error ⟨.unexpectedEndOfInput, "RLE repeat truncated"⟩
    else .error ⟨.protocolError, "RLE unknown block tag"⟩

def decompressRle (input : Bytes) (uncompressedSize : UInt32) : Except Error Bytes := do
  let out ← decompressLoop uncompressedSize.toNat input.length input []
  if out.length ≠ uncompressedSize.toNat then .error ⟨.protocolError, "RLE decompress size mismatch"⟩
  else .ok out

/-! ### What was compressed -/

theorem runLength_le (input : Bytes) : runLength input ≤ input.length := by
  cases input with
  | nil => exact Nat.le_refl _
  | cons byte rest =>
    have hle := (@List.takeWhile_sublist _ rest fun x => decide (x = byte)).length_le
    simp only [runLength, List.length_cons]
    omega

theorem take_runLength (byte : UInt8) (rest : Bytes) :
    (byte :: rest).take (runLength (byte :: rest)) =
      List.replicate (runLength (byte :: rest)) byte := by
  rw [List.eq_replicate_iff]
  refine ⟨by rw [List.length_take, Nat.min_eq_left (runLength_le _)], fun x hx => ?_⟩
  have hwhile : (byte :: rest).takeWhile (fun x => decide (x = byte)) =
      byte :: rest.takeWhile fun x => decide (x = byte) := by
    rw [List.takeWhile_cons, if_pos (decide_eq_true rfl)]
  have hrun : (byte :: rest).take (runLength (byte :: rest)) <+:
      (byte :: rest).takeWhile fun x => decide (x = byte) := by
    apply List.prefix_of_prefix_length_le (List.take_prefix _ _) (List.takeWhile_prefix _)
    rw [hwhile, List.length_take, List.length_cons, List.length_cons]
    simp only [runLength]
    omega
  have hequal := List.mem_takeWhile_imp (hrun.subset hx)
  simpa using hequal

theorem runLength_lt (input : Bytes) : runLength input < 65536 := by
  cases input with
  | nil => exact Nat.succ_pos _
  | cons byte rest =>
    simp only [runLength]
    omega

theorem literalLength_le (limit : Nat) (input : Bytes) :
    literalLength limit input ≤ limit ∧ literalLength limit input ≤ input.length := by
  induction limit generalizing input with
  | zero => exact ⟨Nat.le_refl _, Nat.zero_le _⟩
  | succ limit ih =>
    cases input with
    | nil => exact ⟨Nat.zero_le _, Nat.le_refl _⟩
    | cons byte rest =>
      obtain ⟨hlimit, hlength⟩ := ih rest
      simp only [literalLength, List.length_cons]
      split
      · omega
      · omega

theorem toNat_ofNat_of_lt {n : Nat} (h : n < 256) : (UInt8.ofNat n).toNat = n := by
  rw [UInt8.toNat_ofNat', Nat.mod_eq_of_lt h]

theorem decompressLoop_compressLoop {size : Nat} {rounds rounds' : Nat} {input out : Bytes}
    (hrounds : input.length ≤ rounds) (hrounds' : (compressLoop rounds input).length ≤ rounds')
    (hsize : out.length + input.length ≤ size) :
    decompressLoop size rounds' (compressLoop rounds input) out = .ok (out ++ input) := by
  induction rounds generalizing rounds' input out with
  | zero =>
    have hnil : input = [] := List.length_eq_zero_iff.1 (Nat.le_zero.1 hrounds)
    subst hnil
    rw [List.append_nil]
    cases rounds' with
    | zero => rfl
    | succ rounds' => rfl
  | succ rounds ih =>
    cases input with
    | nil =>
      rw [List.append_nil]
      cases rounds' with
      | zero => rfl
      | succ rounds' => rfl
    | cons byte rest =>
      have hrun := runLength_le (byte :: rest)
      have hlt := runLength_lt (byte :: rest)
      simp only [compressLoop] at hrounds' ⊢
      by_cases hlong : 4 ≤ runLength (byte :: rest)
      · simp only [if_pos hlong, List.length_cons] at hrounds' ⊢
        cases rounds' with
        | zero => omega
        | succ rounds' =>
          have hlow : (UInt8.ofNat (runLength (byte :: rest) % 256)).toNat +
              256 * (UInt8.ofNat (runLength (byte :: rest) / 256)).toNat =
                runLength (byte :: rest) := by
            rw [toNat_ofNat_of_lt (Nat.mod_lt _ (by omega)), toNat_ofNat_of_lt (by omega)]
            omega
          have hsplit : List.replicate (runLength (byte :: rest)) byte ++
              (byte :: rest).drop (runLength (byte :: rest)) = byte :: rest := by
            rw [← take_runLength, List.take_append_drop]
          have hdrop : ((byte :: rest).drop (runLength (byte :: rest))).length =
              (byte :: rest).length - runLength (byte :: rest) := List.length_drop
          rw [List.length_cons] at hrun hdrop hsize hrounds
          simp only [decompressLoop]
          rw [if_neg (by omega), if_neg (by decide), if_pos trivial, hlow, if_neg (by omega),
            if_neg (by omega), ih (by omega) (by omega) (by
              rw [List.length_append, List.length_replicate]
              omega), List.append_assoc, hsplit]
      · simp only [if_neg hlong, List.length_cons, List.length_append] at hrounds' ⊢
        obtain ⟨hlimit, hlength⟩ := literalLength_le 255 (byte :: rest)
        have hpos : 1 ≤ max 1 (literalLength 255 (byte :: rest)) := Nat.le_max_left _ _
        have hle : max 1 (literalLength 255 (byte :: rest)) ≤ (byte :: rest).length := by
          rw [List.length_cons] at hlength ⊢
          omega
        have hbyte : (UInt8.ofNat (max 1 (literalLength 255 (byte :: rest)))).toNat =
            max 1 (literalLength 255 (byte :: rest)) := toNat_ofNat_of_lt (by omega)
        generalize max 1 (literalLength 255 (byte :: rest)) = literal at *
        have htake : ((byte :: rest).take literal).length = literal := by
          rw [List.length_take, Nat.min_eq_left hle]
        have hdrop : ((byte :: rest).drop literal).length = (byte :: rest).length - literal :=
          List.length_drop
        cases rounds' with
        | zero => omega
        | succ rounds' =>
          rw [List.length_cons] at hle hdrop hsize hrounds
          have hnonzero : UInt8.ofNat literal ≠ 0 := by
            intro hzero
            rw [hzero] at hbyte
            change 0 = literal at hbyte
            omega
          simp only [decompressLoop]
          rw [if_neg (by omega), if_pos trivial, if_neg hnonzero, hbyte, if_neg (by
              rw [List.length_append, htake]
              omega), if_neg (by omega), List.drop_left' htake, List.take_left' htake,
            ih (by omega) (by omega) (by
              rw [List.length_append, htake]
              omega), List.append_assoc, List.take_append_drop]

theorem decompressLoop_compressRle (input : Bytes) :
    decompressLoop input.length (compressRle input).length (compressRle input) [] = .ok input :=
  decompressLoop_compressLoop (Nat.le_refl _) (Nat.le_refl _) (Nat.le_of_eq (Nat.zero_add _))

theorem decompressRle_compressRle {input : Bytes} {size : UInt32} (hsize : size.toNat = input.length) :
    decompressRle (compressRle input) size = .ok input := by
  unfold decompressRle
  rw [hsize, decompressLoop_compressRle]
  exact if_neg (not_not.2 rfl)

end MoDb.Net
