import MoDb.Lib.Sha256
import MoDb.Storage.Page

/-!
# The hash of tokens

Bearer tokens are kept as their SHA-256, and compared by it. The hash compresses the blocks of the data where
they lie, and what is left over from a tail of its own, of one block or of two.
-/

namespace MoDb.Proxy.TokenHash

open Storage (Bytes)

def kRound : List UInt32 :=
  [0x428a2f98, 0x71374491, 0xb5c0fbcf, 0xe9b5dba5, 0x3956c25b, 0x59f111f1, 0x923f82a4, 0xab1c5ed5,
   0xd807aa98, 0x12835b01, 0x243185be, 0x550c7dc3, 0x72be5d74, 0x80deb1fe, 0x9bdc06a7, 0xc19bf174,
   0xe49b69c1, 0xefbe4786, 0x0fc19dc6, 0x240ca1cc, 0x2de92c6f, 0x4a7484aa, 0x5cb0a9dc, 0x76f988da,
   0x983e5152, 0xa831c66d, 0xb00327c8, 0xbf597fc7, 0xc6e00bf3, 0xd5a79147, 0x06ca6351, 0x14292967,
   0x27b70a85, 0x2e1b2138, 0x4d2c6dfc, 0x53380d13, 0x650a7354, 0x766a0abb, 0x81c2c92e, 0x92722c85,
   0xa2bfe8a1, 0xa81a664b, 0xc24b8b70, 0xc76c51a3, 0xd192e819, 0xd6990624, 0xf40e3585, 0x106aa070,
   0x19a4c116, 0x1e376c08, 0x2748774c, 0x34b0bcb5, 0x391c0cb3, 0x4ed8aa4a, 0x5b9cca4f, 0x682e6ff3,
   0x748f82ee, 0x78a5636f, 0x84c87814, 0x8cc70208, 0x90befffa, 0xa4506ceb, 0xbef9a3f7, 0xc67178f2]

def rotr (x : UInt32) (n : Nat) : UInt32 := (x >>> UInt32.ofNat n) ||| (x <<< UInt32.ofNat (32 - n))

structure State where
  a : UInt32
  b : UInt32
  c : UInt32
  d : UInt32
  e : UInt32
  f : UInt32
  g : UInt32
  h : UInt32

/-! ### A block -/

def byteAt (block : Bytes) (i : Nat) : UInt32 := (block.getD i 0).toUInt32

def loadWord (block : Bytes) (i : Nat) : UInt32 :=
  (byteAt block (i * 4) <<< 24) ||| (byteAt block (i * 4 + 1) <<< 16) ||| (byteAt block (i * 4 + 2) <<< 8) |||
    byteAt block (i * 4 + 3)

/-- The first `n` words of the schedule are loaded. -/
def load (block : Bytes) (w : List UInt32) : Nat → List UInt32
  | 0 => w
  | i + 1 => (load block w i).set i (loadWord block i)

def nextWord (w : List UInt32) (i : Nat) : UInt32 :=
  let back (n : Nat) : UInt32 := w.getD (i - n) 0
  let s0 := rotr (back 15) 7 ^^^ rotr (back 15) 18 ^^^ (back 15 >>> 3)
  let s1 := rotr (back 2) 17 ^^^ rotr (back 2) 19 ^^^ (back 2 >>> 10)
  back 16 + s0 + back 7 + s1

/-- `n` words follow the first sixteen. -/
def extend (w : List UInt32) : Nat → List UInt32
  | 0 => w
  | n + 1 => (extend w n).set (16 + n) (nextWord (extend w n) (16 + n))

def turn (w : List UInt32) (v : State) (i : Nat) : State :=
  let s1 := rotr v.e 6 ^^^ rotr v.e 11 ^^^ rotr v.e 25
  let ch := (v.e &&& v.f) ^^^ (~~~v.e &&& v.g)
  let t1 := v.h + s1 + ch + kRound.getD i 0 + w.getD i 0
  let s0 := rotr v.a 2 ^^^ rotr v.a 13 ^^^ rotr v.a 22
  let maj := (v.a &&& v.b) ^^^ (v.a &&& v.c) ^^^ (v.b &&& v.c)
  let t2 := s0 + maj
  ⟨t1 + t2, v.a, v.b, v.c, v.d + t1, v.e, v.f, v.g⟩

def turns (w : List UInt32) (v : State) : Nat → State
  | 0 => v
  | i + 1 => turn w (turns w v i) i

/-- `compress` reads the first sixty-four bytes from where `block` points. -/
def compress (state : State) (block : Bytes) : State :=
  let w := extend (load block (List.replicate 64 0) 16) 48
  let v := turns w state 64
  ⟨state.a + v.a, state.b + v.b, state.c + v.c, state.d + v.d, state.e + v.e, state.f + v.f, state.g + v.g,
    state.h + v.h⟩

/-! ### The data -/

def compressAll (data : Bytes) (state : State) (offset : Nat) : State × Nat :=
  if offset + 64 ≤ data.length then compressAll data (compress state (data.drop offset)) (offset + 64)
  else (state, offset)
  termination_by data.length - offset

/-- The low `n` bytes of the length are written at the end of the tail. -/
def writeLength (bits : UInt64) (last : Nat) (tail : Bytes) : Nat → Bytes
  | 0 => tail
  | i + 1 => (writeLength bits last tail i).set (last - i) (bits >>> UInt64.ofNat (8 * i)).toUInt8

def tailBlocks (rest : Nat) : Nat := if rest + 1 + 8 ≤ 64 then 1 else 2

def tailOf (rest : Bytes) (bits : UInt64) : Bytes :=
  let tail := rest ++ (List.replicate 128 0).drop rest.length
  writeLength bits (tailBlocks rest.length * 64 - 1) (tail.set rest.length 0x80) 8

def compressTail (state : State) (tail : Bytes) : Nat → State
  | 0 => state
  | block + 1 => compress (compressTail state tail block) (tail.drop (block * 64))

def wordBytes (word : UInt32) : Bytes :=
  [(word >>> 24).toUInt8, (word >>> 16).toUInt8, (word >>> 8).toUInt8, word.toUInt8]

def initial : State :=
  ⟨0x6a09e667, 0xbb67ae85, 0x3c6ef372, 0xa54ff53a, 0x510e527f, 0x9b05688c, 0x1f83d9ab, 0x5be0cd19⟩

def sha256 (data : Bytes) : Bytes :=
  let (state, offset) := compressAll data initial 0
  let rest := data.drop offset
  let bits := UInt64.ofNat data.length * 8
  let state := compressTail state (tailOf rest bits) (tailBlocks rest.length)
  wordBytes state.a ++ wordBytes state.b ++ wordBytes state.c ++ wordBytes state.d ++ wordBytes state.e ++
    wordBytes state.f ++ wordBytes state.g ++ wordBytes state.h

/-! ### Words -/

def toWords (state : State) : Sha256.Words :=
  ⟨state.a.toBitVec, state.b.toBitVec, state.c.toBitVec, state.d.toBitVec, state.e.toBitVec, state.f.toBitVec,
    state.g.toBitVec, state.h.toBitVec⟩

theorem toBitVec_rotr (x : UInt32) {n : Nat} (hpos : 0 < n) (hlt : n < 32) :
    (rotr x n).toBitVec = x.toBitVec.rotateRight n := by
  have hshift {m : Nat} (hm : m < 32) : ((UInt32.ofNat m).toBitVec % 32#32).toNat = m := by
    change (BitVec.ofNat 32 m % 32#32).toNat = m
    rw [BitVec.toNat_umod, BitVec.toNat_ofNat, Nat.mod_eq_of_lt (hm.trans (by decide))]
    exact Nat.mod_eq_of_lt hm
  rw [rotr, UInt32.toBitVec_or, UInt32.toBitVec_shiftRight, UInt32.toBitVec_shiftLeft, BitVec.rotateRight_def,
    Nat.mod_eq_of_lt hlt, BitVec.ushiftRight_eq', BitVec.shiftLeft_eq']
  have hright : ((UInt32.ofNat n).toBitVec % 32).toNat = n := hshift hlt
  have hleft : ((UInt32.ofNat (32 - n)).toBitVec % 32).toNat = 32 - n := hshift (by omega)
  rw [hright, hleft]

theorem kRound_eq (t : Nat) (ht : t < 64) : (kRound.getD t 0).toBitVec = Sha256.roundConstant t := by
  have hall : ∀ t : Fin 64, (kRound.getD t 0).toBitVec = Sha256.roundConstant t := by decide +kernel
  exact hall ⟨t, ht⟩

theorem toWords_initial : toWords initial = Sha256.initial := by
  have hwords : initial.a.toBitVec = Sha256.initialWord 0 ∧ initial.b.toBitVec = Sha256.initialWord 1 ∧
      initial.c.toBitVec = Sha256.initialWord 2 ∧ initial.d.toBitVec = Sha256.initialWord 3 ∧
      initial.e.toBitVec = Sha256.initialWord 4 ∧ initial.f.toBitVec = Sha256.initialWord 5 ∧
      initial.g.toBitVec = Sha256.initialWord 6 ∧ initial.h.toBitVec = Sha256.initialWord 7 := by
    decide +kernel
  obtain ⟨ha, hb, hc, hd, he, hf, hg, hh⟩ := hwords
  rw [toWords, Sha256.initial, ha, hb, hc, hd, he, hf, hg, hh]

/-! ### Bytes and bits -/

def bits (bytes : Bytes) : List Bool := bytes.flatMap fun byte => Sha256.bitsOf 8 byte.toNat

theorem bits_append (bytes more : Bytes) : bits (bytes ++ more) = bits bytes ++ bits more :=
  List.flatMap_append

theorem length_bits (bytes : Bytes) : (bits bytes).length = 8 * bytes.length := by
  induction bytes with
  | nil => rfl
  | cons byte rest ih =>
    rw [bits, List.flatMap_cons, List.length_append, Sha256.length_bitsOf, List.length_cons]
    change 8 + (bits rest).length = _
    rw [ih]
    omega

theorem take_bits (bytes : Bytes) (n : Nat) : (bits bytes).take (8 * n) = bits (bytes.take n) := by
  induction bytes generalizing n with
  | nil => simp [bits]
  | cons byte rest ih =>
    cases n with
    | zero => rfl
    | succ n =>
      have hlength : 8 * (n + 1) = (Sha256.bitsOf 8 byte.toNat).length + 8 * n := by
        rw [Sha256.length_bitsOf]
        omega
      rw [List.take_succ_cons, bits, bits, List.flatMap_cons, List.flatMap_cons, hlength, List.take_length_add_append]
      exact congrArg _ (ih n)

theorem drop_bits (bytes : Bytes) (n : Nat) : (bits bytes).drop (8 * n) = bits (bytes.drop n) := by
  have hsplit : (bits bytes).take (8 * n) ++ bits (bytes.drop n) = bits bytes := by
    rw [take_bits, ← bits_append, List.take_append_drop]
  exact List.append_cancel_left ((List.take_append_drop (8 * n) (bits bytes)).trans hsplit.symm)

theorem bits_cons (x k : Nat) (byte : UInt8) (rest : Bytes) (hbyte : byte.toNat = x / 2 ^ (8 * k) % 256)
    (hrest : bits rest = Sha256.bitsOf (8 * k) x) : bits (byte :: rest) = Sha256.bitsOf (8 * (k + 1)) x := by
  have hsplit : 8 * (k + 1) = 8 + 8 * k := by omega
  rw [hsplit, Sha256.bitsOf_append, ← hrest, bits, List.flatMap_cons, hbyte]
  congr 1
  exact Sha256.bitsOf_congr (Nat.mod_mod _ _)

theorem value_bits_cons (byte : UInt8) (rest : Bytes) :
    Sha256.value (bits (byte :: rest)) = byte.toNat * 2 ^ (8 * rest.length) + Sha256.value (bits rest) := by
  have hcons : bits (byte :: rest) = Sha256.bitsOf 8 byte.toNat ++ bits rest := rfl
  rw [hcons, Sha256.value_append, Sha256.value_bitsOf, length_bits, Nat.mod_eq_of_lt byte.toNat_lt]

/-! ### The schedule -/

theorem toNat_byteAt (block : Bytes) (i : Nat) : (byteAt block i).toNat = (block.getD i 0).toNat :=
  UInt8.toNat_toUInt32 _

theorem toNat_byteAt_lt (block : Bytes) (i : Nat) : (byteAt block i).toNat < 2 ^ 8 := by
  rw [toNat_byteAt]
  exact UInt8.toNat_lt _

theorem toNat_loadWord (block : Bytes) (i : Nat) : (loadWord block i).toNat =
    (byteAt block (i * 4)).toNat * 2 ^ 24 + ((byteAt block (i * 4 + 1)).toNat * 2 ^ 16 +
      ((byteAt block (i * 4 + 2)).toNat * 2 ^ 8 + (byteAt block (i * 4 + 3)).toNat)) := by
  have h0 := toNat_byteAt_lt block (i * 4)
  have h1 := toNat_byteAt_lt block (i * 4 + 1)
  have h2 := toNat_byteAt_lt block (i * 4 + 2)
  have h3 := toNat_byteAt_lt block (i * 4 + 3)
  have hshift (word : UInt32) (k : Nat) (hword : word.toNat < 2 ^ 8) (hk : k ≤ 24) :
      word.toNat <<< (k % 32) % 2 ^ 32 = word.toNat * 2 ^ k := by
    rw [Nat.mod_eq_of_lt (by omega : k < 32), Nat.shiftLeft_eq]
    apply Nat.mod_eq_of_lt
    calc word.toNat * 2 ^ k < 2 ^ 8 * 2 ^ k := Nat.mul_lt_mul_of_pos_right hword (Nat.two_pow_pos k)
      _ ≤ 2 ^ 8 * 2 ^ 24 := Nat.mul_le_mul_left _ (Nat.pow_le_pow_right Nat.two_pos hk)
      _ = 2 ^ 32 := by decide
  have hshift0 : (byteAt block (i * 4) <<< 24).toNat = (byteAt block (i * 4)).toNat * 2 ^ 24 :=
    (UInt32.toNat_shiftLeft _ _).trans (hshift _ 24 h0 (by decide))
  have hshift1 : (byteAt block (i * 4 + 1) <<< 16).toNat = (byteAt block (i * 4 + 1)).toNat * 2 ^ 16 :=
    (UInt32.toNat_shiftLeft _ _).trans (hshift _ 16 h1 (by decide))
  have hshift2 : (byteAt block (i * 4 + 2) <<< 8).toNat = (byteAt block (i * 4 + 2)).toNat * 2 ^ 8 :=
    (UInt32.toNat_shiftLeft _ _).trans (hshift _ 8 h2 (by decide))
  rw [loadWord, UInt32.toNat_or, UInt32.toNat_or, UInt32.toNat_or, hshift0, hshift1, hshift2]
  revert h0 h1 h2 h3
  generalize (byteAt block (i * 4)).toNat = a
  generalize (byteAt block (i * 4 + 1)).toNat = b
  generalize (byteAt block (i * 4 + 2)).toNat = c
  generalize (byteAt block (i * 4 + 3)).toNat = d
  intro h0 h1 h2 h3
  have hab : a * 2 ^ 24 ||| b * 2 ^ 16 = 2 ^ 16 * (a * 2 ^ 8 + b) := by
    rw [Nat.mul_comm a, ← Nat.two_pow_add_eq_or_of_lt (by omega)]
    omega
  have habc : 2 ^ 16 * (a * 2 ^ 8 + b) ||| c * 2 ^ 8 = 2 ^ 8 * (a * 2 ^ 16 + b * 2 ^ 8 + c) := by
    rw [← Nat.two_pow_add_eq_or_of_lt (by omega)]
    omega
  rw [hab, habc, ← Nat.two_pow_add_eq_or_of_lt h3]
  omega

theorem drop_take_four {block : Bytes} {k : Nat} (h : k + 4 ≤ block.length) :
    (block.drop k).take 4 = [block.getD k 0, block.getD (k + 1) 0, block.getD (k + 2) 0, block.getD (k + 3) 0] := by
  have hdrop (j : Nat) (hj : j < block.length) : block.drop j = block.getD j 0 :: block.drop (j + 1) := by
    rw [List.drop_eq_getElem_cons hj, List.getD_eq_getElem?_getD, List.getElem?_eq_getElem hj, Option.getD_some]
  rw [hdrop k (by omega), hdrop (k + 1) (by omega), hdrop (k + 2) (by omega), hdrop (k + 3) (by omega)]
  rfl

theorem toBitVec_loadWord {block : Bytes} {i : Nat} (hi : i < 16) (hblock : 64 ≤ block.length) :
    (loadWord block i).toBitVec = Sha256.wordAt (bits (block.take 64)) i := by
  have hword : ((bits (block.take 64)).drop (32 * i)).take 32 = bits ((block.drop (i * 4)).take 4) := by
    have hstart : 32 * i = 8 * (i * 4) := by omega
    have hmin : min 4 (64 - i * 4) = 4 := by omega
    rw [hstart, drop_bits, List.drop_take]
    change List.take (8 * 4) _ = _
    rw [take_bits, List.take_take, hmin]
  apply BitVec.eq_of_toNat_eq
  rw [UInt32.toNat_toBitVec, toNat_loadWord, Sha256.wordAt, hword, drop_take_four (by omega), value_bits_cons,
    value_bits_cons, value_bits_cons, value_bits_cons, BitVec.toNat_ofNat, toNat_byteAt, toNat_byteAt, toNat_byteAt,
    toNat_byteAt]
  have hlt (j : Nat) : (block.getD j 0).toNat < 2 ^ 8 := UInt8.toNat_lt _
  have h0 := hlt (i * 4)
  have h1 := hlt (i * 4 + 1)
  have h2 := hlt (i * 4 + 2)
  have h3 := hlt (i * 4 + 3)
  have hnil : Sha256.value (bits []) = 0 := rfl
  rw [hnil]
  simp only [List.length_cons, List.length_nil]
  omega

theorem getD_set (w : List UInt32) (i j : Nat) (word : UInt32) (hi : i < w.length) :
    (w.set i word).getD j 0 = if j = i then word else w.getD j 0 := by
  rw [List.getD_eq_getElem?_getD, List.getD_eq_getElem?_getD, List.getElem?_set]
  by_cases hij : i = j
  · rw [if_pos hij, if_pos hi, if_pos hij.symm]
    rfl
  · rw [if_neg hij, if_neg (Ne.symm hij)]

theorem load_spec (block : Bytes) {w : List UInt32} (hw : w.length = 64) {n : Nat} (hn : n ≤ 16) :
    (load block w n).length = 64 ∧ ∀ j < n, (load block w n).getD j 0 = loadWord block j := by
  induction n with
  | zero => exact ⟨hw, fun j hj => absurd hj (Nat.not_lt_zero j)⟩
  | succ n ih =>
    obtain ⟨hlength, hwords⟩ := ih (Nat.le_of_succ_le hn)
    refine ⟨(List.length_set ..).trans hlength, fun j hj => ?_⟩
    rw [load, getD_set _ _ _ _ (by omega)]
    by_cases hlast : j = n
    · rw [if_pos hlast, hlast]
    · rw [if_neg hlast]
      exact hwords j (by omega)

def Scheduled (block : Bytes) (w : List UInt32) (n : Nat) : Prop :=
  w.length = 64 ∧ ∀ j < n, (w.getD j 0).toBitVec = Sha256.schedule (bits (block.take 64)) j

theorem toBitVec_nextWord {block : Bytes} {w : List UInt32} {i : Nat} (hi : 16 ≤ i) (h : Scheduled block w i) :
    (nextWord w i).toBitVec = Sha256.schedule (bits (block.take 64)) i := by
  rw [Sha256.schedule, if_neg (by omega), ← h.2 (i - 2) (by omega), ← h.2 (i - 7) (by omega),
    ← h.2 (i - 15) (by omega), ← h.2 (i - 16) (by omega), Sha256.smallSigma0, Sha256.smallSigma1,
    ← toBitVec_rotr _ (by decide) (by decide), ← toBitVec_rotr _ (by decide) (by decide),
    ← toBitVec_rotr _ (by decide) (by decide), ← toBitVec_rotr _ (by decide) (by decide)]
  have hshift3 (x : UInt32) : (x >>> 3).toBitVec = x.toBitVec >>> 3 := rfl
  have hshift10 (x : UInt32) : (x >>> 10).toBitVec = x.toBitVec >>> 10 := rfl
  rw [nextWord]
  simp only [UInt32.toBitVec_add, UInt32.toBitVec_xor, hshift3, hshift10]
  ac_rfl

theorem scheduled_extend {block : Bytes} {w : List UInt32} (h : Scheduled block w 16) {n : Nat} (hn : n ≤ 48) :
    Scheduled block (extend w n) (16 + n) := by
  induction n with
  | zero => exact h
  | succ n ih =>
    have hprev := ih (Nat.le_of_succ_le hn)
    refine ⟨(List.length_set ..).trans hprev.1, fun j hj => ?_⟩
    rw [extend, getD_set _ _ _ _ (by rw [hprev.1]; omega)]
    by_cases hlast : j = 16 + n
    · rw [if_pos hlast, hlast]
      exact toBitVec_nextWord (Nat.le_add_right 16 n) hprev
    · rw [if_neg hlast]
      exact hprev.2 j (by omega)

theorem scheduled_words {block : Bytes} (hblock : 64 ≤ block.length) :
    Scheduled block (extend (load block (List.replicate 64 0) 16) 48) 64 := by
  obtain ⟨hlength, hwords⟩ := load_spec block (List.length_replicate) (Nat.le_refl 16)
  refine scheduled_extend ⟨hlength, fun j hj => ?_⟩ (Nat.le_refl 48)
  rw [hwords j hj, toBitVec_loadWord hj hblock, Sha256.schedule, if_pos hj]

/-! ### Rounds -/

theorem toWords_turn {w : List UInt32} {v : State} {i : Nat} (hi : i < 64) :
    toWords (turn w v i) = Sha256.round (toWords v) i (w.getD i 0).toBitVec := by
  rw [Sha256.round, ← kRound_eq i hi, Sha256.bigSigma0, Sha256.bigSigma1]
  simp only [toWords, ← toBitVec_rotr _ (by decide : 0 < 2) (by decide), ← toBitVec_rotr _ (by decide : 0 < 13) (by decide),
    ← toBitVec_rotr _ (by decide : 0 < 22) (by decide), ← toBitVec_rotr _ (by decide : 0 < 6) (by decide),
    ← toBitVec_rotr _ (by decide : 0 < 11) (by decide), ← toBitVec_rotr _ (by decide : 0 < 25) (by decide)]
  rfl

theorem toWords_turns {w : List UInt32} {schedule : Nat → Sha256.Word} {v : State} {n : Nat} (hn : n ≤ 64)
    (h : ∀ j < n, (w.getD j 0).toBitVec = schedule j) :
    toWords (turns w v n) = Sha256.rounds schedule (toWords v) n := by
  induction n with
  | zero => rfl
  | succ n ih =>
    rw [turns, Sha256.rounds, toWords_turn hn, ih (Nat.le_of_succ_le hn) fun j hj => h j (Nat.lt_succ_of_lt hj),
      h n (Nat.lt_succ_self n)]

theorem toWords_compress {state : State} {block : Bytes} (hblock : 64 ≤ block.length) :
    toWords (compress state block) = Sha256.compress (toWords state) (bits (block.take 64)) := by
  have hrounds := toWords_turns (Nat.le_refl 64) (scheduled_words hblock).2 (v := state)
  have hsum (x y : UInt32) : (x + y).toBitVec = y.toBitVec + x.toBitVec := BitVec.add_comm _ _
  rw [Sha256.compress, ← hrounds, compress]
  simp only [toWords, hsum]

/-! ### Padding -/

theorem length_bits_take {bytes : Bytes} (h : 64 ≤ bytes.length) : (bits (bytes.take 64)).length = 512 := by
  rw [length_bits, List.length_take, Nat.min_eq_left h]

theorem compressAll_spec (data : Bytes) (state : State) (offset : Nat) (hoffset : offset ≤ data.length) :
    (compressAll data state offset).2 ≤ data.length ∧ data.length < (compressAll data state offset).2 + 64 ∧
      (compressAll data state offset).2 % 64 = offset % 64 ∧
      ∀ more, (Sha256.blocks (bits (data.drop offset) ++ more)).foldl Sha256.compress (toWords state) =
        (Sha256.blocks (bits (data.drop (compressAll data state offset).2) ++ more)).foldl Sha256.compress
          (toWords (compressAll data state offset).1) := by
  induction state, offset using compressAll.induct data with
  | case1 state offset hmore ih =>
    obtain ⟨hle, hlt, hmod, hfold⟩ := ih hmore
    rw [compressAll, if_pos hmore]
    refine ⟨hle, hlt, hmod.trans (Nat.add_mod_right offset 64), fun more => ?_⟩
    have hblock : 64 ≤ (data.drop offset).length := by
      rw [List.length_drop]
      omega
    have hsplit : bits (data.drop offset) ++ more =
        bits ((data.drop offset).take 64) ++ (bits (data.drop (offset + 64)) ++ more) := by
      rw [← List.append_assoc, ← bits_append, ← List.drop_drop, List.take_append_drop]
    rw [hsplit, Sha256.blocks_append (length_bits_take hblock), List.foldl_cons, ← toWords_compress hblock]
    exact hfold more
  | case2 state offset hdone =>
    rw [compressAll, if_neg hdone]
    exact ⟨hoffset, by omega, rfl, fun more => rfl⟩

/-- The low `n` bytes of a number, the highest first. -/
def lengthBytes (x : UInt64) : Nat → Bytes
  | 0 => []
  | n + 1 => (x >>> UInt64.ofNat (8 * n)).toUInt8 :: lengthBytes x n

theorem length_lengthBytes (x : UInt64) (n : Nat) : (lengthBytes x n).length = n := by
  induction n with
  | zero => rfl
  | succ n ih => rw [lengthBytes, List.length_cons, ih]

theorem bits_lengthBytes (x : UInt64) {n : Nat} (hn : n ≤ 8) :
    bits (lengthBytes x n) = Sha256.bitsOf (8 * n) x.toNat := by
  induction n with
  | zero => rfl
  | succ n ih =>
    rw [lengthBytes]
    apply bits_cons
    · have hshift : (UInt64.ofNat (8 * n)).toNat % 64 = 8 * n := by
        rw [UInt64.toNat_ofNat', Nat.mod_eq_of_lt (by omega : 8 * n < 2 ^ 64)]
        omega
      rw [UInt64.toNat_toUInt8, UInt64.toNat_shiftRight, hshift, Nat.shiftRight_eq_div_pow]
    · exact ih (Nat.le_of_succ_le hn)

theorem writeLength_eq (x : UInt64) (before after : Bytes) {n : Nat} (hn : n ≤ 8) :
    writeLength x (before.length + 7) (before ++ (List.replicate 8 0 ++ after)) n =
      before ++ (List.replicate (8 - n) 0 ++ (lengthBytes x n ++ after)) := by
  induction n with
  | zero => rfl
  | succ n ih =>
    have hzeros : (List.replicate (8 - n) 0 : Bytes) = List.replicate (8 - (n + 1)) 0 ++ [0] := by
      rw [← List.replicate_succ', show 8 - n = 8 - (n + 1) + 1 by omega]
    have hindex : before.length + 7 - n = before.length + (List.replicate (8 - (n + 1)) (0 : UInt8)).length := by
      rw [List.length_replicate]
      omega
    rw [writeLength, ih (Nat.le_of_succ_le hn), hzeros, hindex, List.append_assoc, List.set_append_right _ _ (by omega),
      Nat.add_sub_cancel_left, List.set_append_right _ _ (Nat.le_refl _), Nat.sub_self]
    rfl

theorem tailBlocks_spec {rest : Nat} (hrest : rest < 64) :
    rest + 9 ≤ tailBlocks rest * 64 ∧ tailBlocks rest * 64 < rest + 9 + 64 ∧
      (tailBlocks rest = 1 ∨ tailBlocks rest = 2) := by
  rw [tailBlocks]
  split <;> omega

theorem tailOf_eq {rest : Bytes} (hrest : rest.length < 64) (x : UInt64) : ∃ after,
    tailOf rest x = rest ++ (0x80 :: (List.replicate (tailBlocks rest.length * 64 - rest.length - 9) 0 ++
      (lengthBytes x 8 ++ after))) ∧ after.length = 128 - tailBlocks rest.length * 64 := by
  obtain ⟨hroom, _, hcount⟩ := tailBlocks_spec hrest
  rw [tailOf]
  generalize tailBlocks rest.length = count at hroom hcount ⊢
  have hzeros : (List.replicate 128 (0 : UInt8)).drop rest.length = 0 :: (List.replicate (count * 64 - rest.length - 9) 0 ++
      (List.replicate 8 0 ++ List.replicate (128 - count * 64) 0)) := by
    rw [List.replicate_append_replicate, List.replicate_append_replicate, ← List.replicate_succ, List.drop_replicate]
    congr 1
    omega
  have hset : (rest ++ (List.replicate 128 (0 : UInt8)).drop rest.length).set rest.length 0x80 =
      (rest ++ 0x80 :: List.replicate (count * 64 - rest.length - 9) 0) ++
        (List.replicate 8 0 ++ List.replicate (128 - count * 64) 0) := by
    rw [hzeros, List.set_append_right _ _ (Nat.le_refl _), Nat.sub_self, List.set_cons_zero, List.append_assoc,
      List.cons_append]
  have hlast : count * 64 - 1 =
      (rest ++ (0x80 : UInt8) :: List.replicate (count * 64 - rest.length - 9) 0).length + 7 := by
    rw [List.length_append, List.length_cons, List.length_replicate]
    omega
  refine ⟨List.replicate (128 - count * 64) 0, ?_, List.length_replicate⟩
  rw [hset, hlast, writeLength_eq _ _ _ (Nat.le_refl 8), Nat.sub_self, List.replicate_zero, List.nil_append,
    List.append_assoc, List.cons_append]

theorem bits_zeros (n : Nat) : bits (List.replicate n 0) = List.replicate (8 * n) false := by
  induction n with
  | zero => rfl
  | succ n ih =>
    have hzero : Sha256.bitsOf 8 (0 : UInt8).toNat = List.replicate 8 false := by decide
    have hcons : bits (List.replicate (n + 1) 0) = Sha256.bitsOf 8 (0 : UInt8).toNat ++ bits (List.replicate n 0) := rfl
    have hlength : 8 * (n + 1) = 8 + 8 * n := by omega
    rw [hcons, ih, hzero, List.replicate_append_replicate, hlength]

theorem bits_tailOf {rest : Bytes} {length : Nat} (hrest : rest.length = length % 64) (hlength : length < 2 ^ 61) :
    bits ((tailOf rest (UInt64.ofNat length * 8)).take (64 * tailBlocks rest.length)) =
      bits rest ++ true :: (List.replicate (Sha256.zeros (8 * length)) false ++ Sha256.bitsOf 64 (8 * length)) := by
  have hlt : rest.length < 64 := by omega
  obtain ⟨after, htail, hafter⟩ := tailOf_eq hlt (UInt64.ofNat length * 8)
  have hx : (UInt64.ofNat length * 8).toNat = 8 * length := by
    rw [UInt64.toNat_mul, UInt64.toNat_ofNat', Nat.mod_eq_of_lt (by omega : length < 2 ^ 64)]
    change length * 8 % 2 ^ 64 = _
    omega
  obtain ⟨hroom, hfit, _⟩ := tailBlocks_spec hlt
  have hzeros : Sha256.zeros (8 * length) = 7 + 8 * (tailBlocks rest.length * 64 - rest.length - 9) := by
    apply Sha256.zeros_eq <;> omega
  have hone : Sha256.bitsOf 8 (0x80 : UInt8).toNat = true :: List.replicate 7 false := by decide
  have hcut : 64 * tailBlocks rest.length =
      (rest ++ ((0x80 : UInt8) :: (List.replicate (tailBlocks rest.length * 64 - rest.length - 9) 0 ++
        lengthBytes (UInt64.ofNat length * 8) 8))).length := by
    rw [List.length_append, List.length_cons, List.length_append, List.length_replicate, length_lengthBytes]
    omega
  have hcons (bytes : Bytes) : bits (0x80 :: bytes) = Sha256.bitsOf 8 (0x80 : UInt8).toNat ++ bits bytes := rfl
  have hassoc : rest ++ (0x80 :: (List.replicate (tailBlocks rest.length * 64 - rest.length - 9) 0 ++
        (lengthBytes (UInt64.ofNat length * 8) 8 ++ after))) =
      (rest ++ ((0x80 : UInt8) :: (List.replicate (tailBlocks rest.length * 64 - rest.length - 9) 0 ++
        lengthBytes (UInt64.ofNat length * 8) 8))) ++ after := by
    rw [List.append_assoc, List.cons_append, List.append_assoc]
  rw [htail, hassoc, hcut, List.take_left, bits_append, hcons, bits_append, bits_zeros, hone,
    bits_lengthBytes _ (Nat.le_refl 8), hx, hzeros, ← List.replicate_append_replicate, List.cons_append,
    List.append_assoc]

theorem toWords_compressTail {tail : Bytes} (htail : tail.length = 128) (state : State) {count : Nat}
    (hcount : count = 1 ∨ count = 2) :
    (Sha256.blocks (bits (tail.take (64 * count)))).foldl Sha256.compress (toWords state) =
      toWords (compressTail state tail count) := by
  have hfirst : 64 ≤ tail.length := by omega
  have hsecond : 64 ≤ (tail.drop 64).length := by
    rw [List.length_drop]
    omega
  have hone (block : Bytes) (hblock : 64 ≤ block.length) :
      Sha256.blocks (bits (block.take 64)) = [bits (block.take 64)] := by
    have happend : Sha256.blocks (bits (block.take 64) ++ []) = _ := Sha256.blocks_append (length_bits_take hblock)
    rw [List.append_nil, Sha256.blocks_nil] at happend
    exact happend
  rcases hcount with rfl | rfl
  · rw [hone tail hfirst, List.foldl_cons, List.foldl_nil]
    exact (toWords_compress hfirst).symm
  · have hsplit : tail.take (64 * 2) = tail.take 64 ++ (tail.drop 64).take 64 := by
      rw [← List.take_add]
    rw [hsplit, bits_append, Sha256.blocks_append (length_bits_take hfirst), hone _ hsecond, List.foldl_cons,
      List.foldl_cons, List.foldl_nil, ← toWords_compress hfirst, ← toWords_compress hsecond]
    rfl

theorem bits_wordBytes (word : UInt32) : bits (wordBytes word) = Sha256.bitsOfWord word.toBitVec := by
  have hbyte (k : Nat) (shift : UInt32) (hshift : shift.toNat % 32 = 8 * k) :
      (word >>> shift).toUInt8.toNat = word.toNat / 2 ^ (8 * k) % 256 := by
    rw [UInt32.toNat_toUInt8, UInt32.toNat_shiftRight, hshift, Nat.shiftRight_eq_div_pow]
  apply bits_cons word.toNat 3 _ _ (hbyte 3 24 rfl)
  apply bits_cons word.toNat 2 _ _ (hbyte 2 16 rfl)
  apply bits_cons word.toNat 1 _ _ (hbyte 1 8 rfl)
  apply bits_cons word.toNat 0 _ _
  · rw [UInt32.toNat_toUInt8, Nat.mul_zero, Nat.pow_zero, Nat.div_one]
  · rfl

/-- The code hashes as the standard does. -/
theorem sha256_eq_digest (data : Bytes) (hlength : data.length < 2 ^ 61) :
    bits (sha256 data) = Sha256.digest (bits data) := by
  obtain ⟨hle, hlt, hmod, hfold⟩ := compressAll_spec data initial 0 (Nat.zero_le _)
  rw [List.drop_zero] at hfold
  rw [sha256]
  revert hle hlt hmod hfold
  rcases compressAll data initial 0 with ⟨state, offset⟩
  intro hle hlt hmod hfold
  dsimp only at hle hlt hmod hfold ⊢
  have hrest : (data.drop offset).length = data.length % 64 := by
    rw [List.length_drop]
    omega
  have hlt' : (data.drop offset).length < 64 := by omega
  obtain ⟨hroom, _, hcount⟩ := tailBlocks_spec hlt'
  have htail : (tailOf (data.drop offset) (UInt64.ofNat data.length * 8)).length = 128 := by
    obtain ⟨after, htail, hafter⟩ := tailOf_eq hlt' (UInt64.ofNat data.length * 8)
    rw [htail, List.length_append, List.length_cons, List.length_append, List.length_append, List.length_replicate,
      length_lengthBytes, hafter]
    omega
  have hhash : (Sha256.blocks (Sha256.pad (bits data))).foldl Sha256.compress Sha256.initial =
      toWords (compressTail state (tailOf (data.drop offset) (UInt64.ofNat data.length * 8))
        (tailBlocks (data.drop offset).length)) := by
    rw [← toWords_initial, Sha256.pad, length_bits, hfold, ← bits_tailOf hrest hlength,
      toWords_compressTail htail state hcount]
  rw [Sha256.digest, hhash]
  simp only [bits_append, bits_wordBytes, toWords]

/-- After 56 bytes there is no room for the length, and the padding needs a further block. -/
theorem sha256_eq_digest_further : tailBlocks 56 = 2 ∧
    bits (sha256 (List.replicate 56 97)) = Sha256.digest (bits (List.replicate 56 97)) :=
  ⟨rfl, sha256_eq_digest _ (by decide)⟩

example : sha256 [97, 98, 99] =
    [0xba, 0x78, 0x16, 0xbf, 0x8f, 0x01, 0xcf, 0xea, 0x41, 0x41, 0x40, 0xde, 0x5d, 0xae, 0x22, 0x23,
     0xb0, 0x03, 0x61, 0xa3, 0x96, 0x17, 0x7a, 0x9c, 0xb4, 0x10, 0xff, 0x61, 0xf2, 0x00, 0x15, 0xad] := by
  decide +kernel

end MoDb.Proxy.TokenHash
