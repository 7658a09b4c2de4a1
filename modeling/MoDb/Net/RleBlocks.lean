import MoDb.Net.Rle

/-!
# The blocks of run-length encoding

What `compress_rle` writes is made of blocks, and `decompress_rle` takes them block by block: each turn
of its loop reads at least one byte and keeps the output within the size it was told.
-/

namespace MoDb.Net

open Storage

/-- The bytes are blocks one after another. -/
inductive Blocks : Bytes → Prop
  | nil : Blocks []
  | literal {data rest : Bytes} (hpos : 1 ≤ data.length) (hle : data.length ≤ 255)
      (hrest : Blocks rest) : Blocks (0 :: UInt8.ofNat data.length :: (data ++ rest))
  | run {count : Nat} {rest : Bytes} (value : UInt8) (hlong : 4 ≤ count) (hle : count ≤ 65535)
      (hrest : Blocks rest) :
      Blocks (1 :: UInt8.ofNat (count % 256) :: UInt8.ofNat (count / 256) :: value :: rest)

theorem literal_bounds (byte : UInt8) (rest : Bytes) :
    1 ≤ max 1 (literalLength 255 (byte :: rest)) ∧
      max 1 (literalLength 255 (byte :: rest)) ≤ 255 ∧
      max 1 (literalLength 255 (byte :: rest)) ≤ (byte :: rest).length := by
  obtain ⟨hlimit, hlength⟩ := literalLength_le 255 (byte :: rest)
  rw [List.length_cons] at hlength ⊢
  omega

theorem blocks_compressLoop (rounds : Nat) (input : Bytes) : Blocks (compressLoop rounds input) := by
  induction rounds generalizing input with
  | zero => exact Blocks.nil
  | succ rounds ih =>
    cases input with
    | nil => exact Blocks.nil
    | cons byte rest =>
      simp only [compressLoop]
      by_cases hlong : 4 ≤ runLength (byte :: rest)
      · rw [if_pos hlong]
        have hlt := runLength_lt (byte :: rest)
        exact Blocks.run byte hlong (by omega) (ih _)
      · rw [if_neg hlong]
        obtain ⟨hpos, hle, hlength⟩ := literal_bounds byte rest
        have htake : ((byte :: rest).take (max 1 (literalLength 255 (byte :: rest)))).length =
            max 1 (literalLength 255 (byte :: rest)) := by
          rw [List.length_take, Nat.min_eq_left hlength]
        have hblock := Blocks.literal (by rw [htake]; exact hpos) (by rw [htake]; exact hle)
          (ih ((byte :: rest).drop (max 1 (literalLength 255 (byte :: rest)))))
        rwa [htake] at hblock

theorem compressLoop_of_length_le {rounds : Nat} {input : Bytes} (h : input.length ≤ rounds) :
    compressLoop rounds input = compressRle input := by
  have hsame : ∀ rounds rounds' : Nat, ∀ input : Bytes, input.length ≤ rounds →
      input.length ≤ rounds' → compressLoop rounds input = compressLoop rounds' input := by
    intro rounds
    induction rounds with
    | zero =>
      intro rounds' input hle _
      have hnil : input = [] := List.length_eq_zero_iff.1 (Nat.le_zero.1 hle)
      subst hnil
      cases rounds' <;> rfl
    | succ rounds ih =>
      intro rounds' input hle hle'
      cases input with
      | nil => cases rounds' <;> rfl
      | cons byte rest =>
        cases rounds' with
        | zero => exact absurd hle' (Nat.not_succ_le_zero _)
        | succ rounds' =>
          have hdrop : ∀ n, 1 ≤ n → ((byte :: rest).drop n).length ≤ rounds ∧
              ((byte :: rest).drop n).length ≤ rounds' := by
            intro n hn
            rw [List.length_drop]
            omega
          simp only [compressLoop]
          by_cases hlong : 4 ≤ runLength (byte :: rest)
          · obtain ⟨hleft, hright⟩ := hdrop (runLength (byte :: rest)) (by omega)
            rw [if_pos hlong, if_pos hlong, ih rounds' _ hleft hright]
          · obtain ⟨hleft, hright⟩ := hdrop _ (literal_bounds byte rest).1
            rw [if_neg hlong, if_neg hlong, ih rounds' _ hleft hright]
  exact hsame rounds input.length input h (Nat.le_refl _)

/-! ### One turn of the reader -/

/-- One turn of the loop of `decompress_rle`: the input left over and the output so far. -/
def decompressBlock (size : Nat) : Bytes → Bytes → Except Error (Bytes × Bytes)
  | [], out => .ok ([], out)
  | tag :: input, out =>
    if size < out.length then .error ⟨.protocolError, "RLE output exceeds uncompressed_size"⟩
    else if tag = 0 then
      match input with
      | [] => .error ⟨.unexpectedEndOfInput, "RLE literal length truncated"⟩
      | length :: input =>
        if length = 0 then .error ⟨.protocolError, "RLE literal length is zero"⟩
        else if input.length < length.toNat then
          .error ⟨.unexpectedEndOfInput, "RLE literal data truncated"⟩
        else if size < out.length + length.toNat then
          .error ⟨.protocolError, "RLE literal overflows uncompressed_size"⟩
        else .ok (input.drop length.toNat, out ++ input.take length.toNat)
    else if tag = 1 then
      match input with
      | low :: high :: value :: input =>
        let count := low.toNat + 256 * high.toNat
        if count < 4 then .error ⟨.protocolError, "RLE repeat count must be >= 4"⟩
        else if size < out.length + count then
          .error ⟨.protocolError, "RLE repeat overflows uncompressed_size"⟩
        else .ok (input, out ++ List.replicate count value)
      | _ => .error ⟨.unexpectedEndOfInput, "RLE repeat truncated"⟩
    else .error ⟨.protocolError, "RLE unknown block tag"⟩

theorem decompressLoop_succ (size rounds : Nat) (tag : UInt8) (input out : Bytes) :
    decompressLoop size (rounds + 1) (tag :: input) out =
      (decompressBlock size (tag :: input) out).bind fun turn =>
        decompressLoop size rounds turn.1 turn.2 := by
  simp only [decompressLoop, decompressBlock]
  by_cases hfull : size < out.length
  · rw [if_pos hfull, if_pos hfull]
    rfl
  · rw [if_neg hfull, if_neg hfull]
    by_cases hliteral : tag = 0
    · rw [if_pos hliteral, if_pos hliteral]
      cases input with
      | nil => rfl
      | cons length input =>
        simp only
        split
        · rfl
        · split
          · rfl
          · split <;> rfl
    · rw [if_neg hliteral, if_neg hliteral]
      by_cases hrun : tag = 1
      · rw [if_pos hrun, if_pos hrun]
        rcases input with _ | ⟨low, _ | ⟨high, _ | ⟨value, input⟩⟩⟩
        · rfl
        · rfl
        · rfl
        · simp only
          split
          · rfl
          · split <;> rfl
      · rw [if_neg hrun, if_neg hrun]
        rfl

theorem decompressBlock_ok {size : Nat} {tag : UInt8} {input out left out' : Bytes}
    (h : decompressBlock size (tag :: input) out = .ok (left, out')) :
    left.length ≤ input.length ∧ out'.length ≤ size := by
  simp only [decompressBlock] at h
  split at h
  · contradiction
  · split at h
    · cases input with
      | nil => contradiction
      | cons length input =>
        simp only at h
        split at h
        · contradiction
        · split at h
          · contradiction
          · split at h
            · contradiction
            · rename_i hroom
              cases h
              rw [List.length_drop, List.length_append, List.length_take, List.length_cons]
              omega
    · split at h
      · match input, h with
        | low :: high :: value :: input, h =>
          simp only at h
          split at h
          · contradiction
          · split at h
            · contradiction
            · rename_i hroom
              cases h
              rw [List.length_append, List.length_replicate, List.length_cons, List.length_cons,
                List.length_cons]
              omega
      · contradiction

/-- The states the loop of `decompress_rle` goes through: what is left of the input, and the output. -/
inductive Unpacking (size : Nat) (input : Bytes) : Bytes → Bytes → Prop
  | start : Unpacking size input input []
  | block {tag : UInt8} {left out left' out' : Bytes} (h : Unpacking size input (tag :: left) out)
      (hblock : decompressBlock size (tag :: left) out = .ok (left', out')) :
      Unpacking size input left' out'

theorem Unpacking.length_le {size : Nat} {input left out : Bytes} (h : Unpacking size input left out) :
    out.length ≤ size := by
  cases h with
  | start => exact Nat.zero_le _
  | block _ hblock => exact (decompressBlock_ok hblock).2

theorem decompressLoop_congr {size rounds rounds' : Nat} {left out : Bytes}
    (hrounds : left.length ≤ rounds) (hrounds' : left.length ≤ rounds') :
    decompressLoop size rounds left out = decompressLoop size rounds' left out := by
  induction rounds generalizing rounds' left out with
  | zero =>
    have hnil : left = [] := List.length_eq_zero_iff.1 (Nat.le_zero.1 hrounds)
    subst hnil
    cases rounds' <;> rfl
  | succ rounds ih =>
    cases left with
    | nil => cases rounds' <;> rfl
    | cons tag left =>
      cases rounds' with
      | zero => exact absurd hrounds' (Nat.not_succ_le_zero _)
      | succ rounds' =>
        rw [decompressLoop_succ, decompressLoop_succ]
        cases hblock : decompressBlock size (tag :: left) out with
        | error error => rfl
        | ok turn =>
          have hle := (decompressBlock_ok hblock).1
          exact ih (Nat.le_trans hle (Nat.le_of_succ_le_succ hrounds))
            (Nat.le_trans hle (Nat.le_of_succ_le_succ hrounds'))

theorem Unpacking.decompressLoop_eq {size : Nat} {input left out : Bytes}
    (h : Unpacking size input left out) :
    decompressLoop size left.length left out = decompressLoop size input.length input [] := by
  induction h with
  | start => rfl
  | @block tag left out left' out' _ hblock ih =>
    have hle := (decompressBlock_ok hblock).1
    rw [← ih, List.length_cons, decompressLoop_succ, hblock]
    exact decompressLoop_congr (Nat.le_refl _) hle

theorem Unpacking.of_decompressLoop {size rounds : Nat} {input left out result : Bytes}
    (h : Unpacking size input left out) (hrounds : left.length ≤ rounds)
    (hloop : decompressLoop size rounds left out = .ok result) : Unpacking size input [] result := by
  induction rounds generalizing left out with
  | zero =>
    have hnil : left = [] := List.length_eq_zero_iff.1 (Nat.le_zero.1 hrounds)
    subst hnil
    cases hloop
    exact h
  | succ rounds ih =>
    cases left with
    | nil =>
      cases hloop
      exact h
    | cons tag left =>
      rw [decompressLoop_succ] at hloop
      cases hblock : decompressBlock size (tag :: left) out with
      | error error =>
        rw [hblock] at hloop
        contradiction
      | ok turn =>
        rw [hblock] at hloop
        have hle := (decompressBlock_ok hblock).1
        exact ih (h.block hblock) (Nat.le_trans hle (Nat.le_of_succ_le_succ hrounds)) hloop

theorem decompressRle_eq_ok_iff {size : UInt32} {input out : Bytes} :
    decompressRle input size = .ok out ↔
      Unpacking size.toNat input [] out ∧ out.length = size.toNat := by
  constructor
  · intro h
    unfold decompressRle at h
    cases hloop : decompressLoop size.toNat input.length input [] with
    | error error =>
      rw [hloop] at h
      contradiction
    | ok result =>
      rw [hloop] at h
      change (if result.length ≠ size.toNat then _ else _) = _ at h
      split at h
      · contradiction
      · rename_i hlength
        cases h
        exact ⟨Unpacking.start.of_decompressLoop (Nat.le_refl _) hloop, not_not.1 hlength⟩
  · rintro ⟨h, hlength⟩
    have hloop : decompressLoop size.toNat input.length input [] = .ok out := h.decompressLoop_eq.symm
    unfold decompressRle
    rw [hloop]
    exact if_neg (not_not.2 hlength)

/-- What was compressed is made of blocks and comes out again, and what comes out has the size it was
told. The loops do this for every length; the size that `decompress_rle` is told is below 2^32. -/
theorem rle_round_trip :
    (∀ input : Bytes, Blocks (compressRle input) ∧
      (∀ rounds, input.length ≤ rounds → compressLoop rounds input = compressRle input) ∧
      decompressLoop input.length (compressRle input).length (compressRle input) [] = .ok input ∧
      ∀ size : UInt32, size.toNat = input.length → decompressRle (compressRle input) size = .ok input) ∧
    (∀ (size : UInt32) (input out : Bytes), decompressRle input size = .ok out ↔
      Unpacking size.toNat input [] out ∧ out.length = size.toNat) ∧
    ∀ (size : Nat) (input : Bytes),
      (∀ left out, Unpacking size input left out → out.length ≤ size) ∧
      (∀ tag left out left' out', Unpacking size input (tag :: left) out →
        decompressBlock size (tag :: left) out = .ok (left', out') → left'.length ≤ left.length) ∧
      ∀ rounds, input.length ≤ rounds →
        decompressLoop size rounds input [] = decompressLoop size input.length input [] := by
  refine ⟨fun input => ?_, fun size input out => decompressRle_eq_ok_iff, fun size input => ?_⟩
  · exact ⟨blocks_compressLoop _ _, fun rounds h => compressLoop_of_length_le h,
      decompressLoop_compressRle input, fun size hsize => decompressRle_compressRle hsize⟩
  · refine ⟨fun left out h => h.length_le, fun tag left out left' out' _ hblock => ?_, fun rounds h => ?_⟩
    · exact (decompressBlock_ok hblock).1
    · exact decompressLoop_congr h (Nat.le_refl _)

/-- A run of five and a literal come out again, and the output stays within seven bytes. -/
theorem rle_round_trip_seven :
    decompressRle (compressRle [9, 9, 9, 9, 9, 1, 2]) 7 = .ok [9, 9, 9, 9, 9, 1, 2] ∧
      compressLoop 9 [9, 9, 9, 9, 9, 1, 2] = compressRle [9, 9, 9, 9, 9, 1, 2] ∧
      ∀ left out, Unpacking 7 [1, 5, 0, 9] left out → out.length ≤ 7 :=
  ⟨(rle_round_trip.1 _).2.2.2 7 rfl, (rle_round_trip.1 _).2.1 9 (by decide), (rle_round_trip.2.2 7 _).1⟩

end MoDb.Net
