import Mathlib.Data.Nat.Prime.Defs
import Mathlib.Data.Nat.Bitwise
import Mathlib.Data.Nat.Find
import Mathlib.Tactic.Ring

/-!
# SHA-256

The hash of FIPS 180-4, of a message of bits. The constants are what the standard says they are, the first
bits of the fractional parts of roots of primes.
-/

namespace Sha256

abbrev Word := BitVec 32

/-! ### Bits, the highest first -/

/-- The low `k` bits of a number. -/
def bitsOf : Nat → Nat → List Bool
  | 0, _ => []
  | k + 1, n => n.testBit k :: bitsOf k n

def value (bits : List Bool) : Nat := bits.foldl (fun acc bit => 2 * acc + bit.toNat) 0

theorem length_bitsOf (k n : Nat) : (bitsOf k n).length = k := by
  induction k with
  | zero => rfl
  | succ k ih => rw [bitsOf, List.length_cons, ih]

theorem bitsOf_append (k m n : Nat) : bitsOf (k + m) n = bitsOf k (n / 2 ^ m) ++ bitsOf m n := by
  induction k with
  | zero => rw [Nat.zero_add, bitsOf, List.nil_append]
  | succ k ih =>
    rw [Nat.succ_add, bitsOf, bitsOf, ih, Nat.testBit_div_two_pow, List.cons_append, Nat.add_comm k m]

theorem bitsOf_congr {k n m : Nat} (h : n % 2 ^ k = m % 2 ^ k) : bitsOf k n = bitsOf k m := by
  induction k with
  | zero => rfl
  | succ k ih =>
    have hbit (x : Nat) : (x % 2 ^ (k + 1)).testBit k = x.testBit k := by
      rw [Nat.testBit_mod_two_pow, decide_eq_true (Nat.lt_succ_self k), Bool.true_and]
    have hlow : n % 2 ^ k = m % 2 ^ k := by
      have hdvd : 2 ^ k ∣ 2 ^ (k + 1) := Nat.pow_dvd_pow 2 (Nat.le_succ k)
      rw [← Nat.mod_mod_of_dvd n hdvd, h, Nat.mod_mod_of_dvd m hdvd]
    rw [bitsOf, bitsOf, ih hlow, ← hbit n, h, hbit m]

theorem value_append (bits more : List Bool) : value (bits ++ more) = value bits * 2 ^ more.length + value more := by
  have hfold (acc : Nat) : more.foldl (fun acc bit => 2 * acc + bit.toNat) acc =
      acc * 2 ^ more.length + value more := by
    induction more generalizing acc with
    | nil => simp [value]
    | cons bit more ih =>
      rw [value, List.foldl_cons, List.foldl_cons, ih, ih (2 * 0 + bit.toNat), List.length_cons, pow_succ]
      ring
  rw [value, List.foldl_append, hfold]
  rfl

theorem value_bitsOf (k n : Nat) : value (bitsOf k n) = n % 2 ^ k := by
  induction k with
  | zero => rw [pow_zero, Nat.mod_one]; rfl
  | succ k ih =>
    have hcons : bitsOf (k + 1) n = [n.testBit k] ++ bitsOf k n := rfl
    rw [hcons, value_append, ih, length_bitsOf, Nat.mod_pow_succ, ← Nat.toNat_testBit]
    change (2 * 0 + (n.testBit k).toNat) * 2 ^ k + n % 2 ^ k = _
    ring

/-! ### Constants -/

def rootFrom (k n : Nat) : Nat → Nat → Nat
  | 0, root => root
  | i + 1, root => rootFrom k n i (if (root + 2 ^ i) ^ k ≤ n then root + 2 ^ i else root)

theorem rootFrom_spec (k n i root : Nat) (hle : root ^ k ≤ n) (hlt : n < (root + 2 ^ i) ^ k) :
    rootFrom k n i root ^ k ≤ n ∧ n < (rootFrom k n i root + 1) ^ k := by
  induction i generalizing root with
  | zero => exact ⟨hle, hlt⟩
  | succ i ih =>
    rw [rootFrom]
    by_cases hbit : (root + 2 ^ i) ^ k ≤ n
    · rw [if_pos hbit]
      apply ih _ hbit
      rw [Nat.add_assoc, ← Nat.two_mul, ← Nat.pow_succ']
      exact hlt
    · rw [if_neg hbit]
      exact ih _ hle (Nat.lt_of_not_le hbit)

/-- The first thirty-two bits of the fractional part of the `k`th root of `p`. -/
def rootFraction (k p : Nat) : Word := BitVec.ofNat 32 (rootFrom k (p * 2 ^ (32 * k)) 40 0)

def primes : List Nat := (List.range 312).filter Nat.Prime

theorem rootFraction_spec (k p : Nat) (hk : 0 < k) (hp : p < 256) :
    ∃ root, root ^ k ≤ p * 2 ^ (32 * k) ∧ p * 2 ^ (32 * k) < (root + 1) ^ k ∧
      rootFraction k p = BitVec.ofNat 32 root := by
  have hlow : 0 ^ k ≤ p * 2 ^ (32 * k) := by
    rw [Nat.zero_pow hk]
    exact Nat.zero_le _
  have hhigh : p * 2 ^ (32 * k) < (0 + 2 ^ 40) ^ k := by
    calc p * 2 ^ (32 * k) < 2 ^ 8 * 2 ^ (32 * k) := Nat.mul_lt_mul_of_pos_right hp (Nat.two_pow_pos _)
      _ ≤ 2 ^ (8 * k) * 2 ^ (32 * k) :=
        Nat.mul_le_mul_right _ (Nat.pow_le_pow_right Nat.two_pos (Nat.le_mul_of_pos_right 8 hk))
      _ = (0 + 2 ^ 40) ^ k := by
        rw [← Nat.pow_add, ← Nat.add_mul, Nat.zero_add, ← Nat.pow_mul]
  obtain ⟨hle, hlt⟩ := rootFrom_spec k (p * 2 ^ (32 * k)) 40 0 hlow hhigh
  exact ⟨_, hle, hlt, rfl⟩

def roundConstant (t : Nat) : Word := rootFraction 3 (primes.getD t 0)

def initialWord (i : Nat) : Word := rootFraction 2 (primes.getD i 0)

/-! ### Functions of words -/

/-- `Ch`. -/
def ch (x y z : Word) : Word := (x &&& y) ^^^ (~~~x &&& z)

/-- `Maj`. -/
def maj (x y z : Word) : Word := (x &&& y) ^^^ (x &&& z) ^^^ (y &&& z)

def bigSigma0 (x : Word) : Word := x.rotateRight 2 ^^^ x.rotateRight 13 ^^^ x.rotateRight 22

def bigSigma1 (x : Word) : Word := x.rotateRight 6 ^^^ x.rotateRight 11 ^^^ x.rotateRight 25

def smallSigma0 (x : Word) : Word := x.rotateRight 7 ^^^ x.rotateRight 18 ^^^ (x >>> 3)

def smallSigma1 (x : Word) : Word := x.rotateRight 17 ^^^ x.rotateRight 19 ^^^ (x >>> 10)

/-! ### The hash -/

/-- The eight words of a hash value, or of the working variables. -/
structure Words where
  a : Word
  b : Word
  c : Word
  d : Word
  e : Word
  f : Word
  g : Word
  h : Word

def wordAt (block : List Bool) (t : Nat) : Word := BitVec.ofNat 32 (value ((block.drop (32 * t)).take 32))

def schedule (block : List Bool) (t : Nat) : Word :=
  if t < 16 then wordAt block t
  else
    smallSigma1 (schedule block (t - 2)) + schedule block (t - 7) + smallSigma0 (schedule block (t - 15)) +
      schedule block (t - 16)
  termination_by t

def round (v : Words) (t : Nat) (w : Word) : Words :=
  let t1 := v.h + bigSigma1 v.e + ch v.e v.f v.g + roundConstant t + w
  let t2 := bigSigma0 v.a + maj v.a v.b v.c
  ⟨t1 + t2, v.a, v.b, v.c, v.d + t1, v.e, v.f, v.g⟩

def rounds (w : Nat → Word) (v : Words) : Nat → Words
  | 0 => v
  | t + 1 => round (rounds w v t) t (w t)

def compress (hash : Words) (block : List Bool) : Words :=
  let v := rounds (schedule block) hash 64
  ⟨v.a + hash.a, v.b + hash.b, v.c + hash.c, v.d + hash.d, v.e + hash.e, v.f + hash.f, v.g + hash.g,
    v.h + hash.h⟩

def initial : Words :=
  ⟨initialWord 0, initialWord 1, initialWord 2, initialWord 3, initialWord 4, initialWord 5, initialWord 6,
    initialWord 7⟩

theorem exists_zeros (length : Nat) : ∃ zeros, (length + 1 + zeros) % 512 = 448 % 512 :=
  ⟨448 + 511 * (length + 1), by omega⟩

/-- The least number of zeros after which there is just room for the length. -/
def zeros (length : Nat) : Nat := Nat.find (exists_zeros length)

def pad (message : List Bool) : List Bool :=
  message ++ true :: (List.replicate (zeros message.length) false ++ bitsOf 64 message.length)

def blocks (bits : List Bool) : List (List Bool) :=
  (List.range (bits.length / 512)).map fun i => (bits.drop (512 * i)).take 512

def bitsOfWord (word : Word) : List Bool := bitsOf 32 word.toNat

def digest (message : List Bool) : List Bool :=
  let hash := (blocks (pad message)).foldl compress initial
  bitsOfWord hash.a ++ bitsOfWord hash.b ++ bitsOfWord hash.c ++ bitsOfWord hash.d ++ bitsOfWord hash.e ++
    bitsOfWord hash.f ++ bitsOfWord hash.g ++ bitsOfWord hash.h

/-! ### Blocks -/

theorem blocks_append {block rest : List Bool} (h : block.length = 512) :
    blocks (block ++ rest) = block :: blocks rest := by
  have hcount : (block ++ rest).length / 512 = rest.length / 512 + 1 := by
    rw [List.length_append, h]
    omega
  rw [blocks, blocks, hcount, List.range_succ_eq_map, List.map_cons, List.map_map, Nat.mul_zero, List.drop_zero,
    ← h, List.take_left]
  congr 1
  apply List.map_congr_left
  intro i _
  have hdrop : block.length * (i + 1) = block.length + block.length * i := by ring
  rw [Function.comp_apply, hdrop, ← List.drop_drop, List.drop_left]

theorem blocks_nil : blocks [] = [] := rfl

theorem zeros_eq {length zeros' : Nat} (hroom : (length + 1 + zeros') % 512 = 448) (hlt : zeros' < 512) :
    zeros length = zeros' := by
  rw [zeros, Nat.find_eq_iff]
  refine ⟨hroom, fun m hm hsame => ?_⟩
  omega

end Sha256
