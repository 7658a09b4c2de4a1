import MoDb.Store.Value

/-!
# Conversions of values

A real is a binary64 word. What the projection needs of it is the conversion from and to 64-bit
integers, and what a filter needs is the equality of values.
-/

namespace MoDb.Store

namespace Double

def exponent (bits : BitVec 64) : Nat := bits.toNat / 2 ^ 52 % 2 ^ 11

def fraction (bits : BitVec 64) : Nat := bits.toNat % 2 ^ 52

def isFinite (bits : BitVec 64) : Bool := exponent bits ≠ 2047

def isNaN (bits : BitVec 64) : Bool := exponent bits = 2047 ∧ fraction bits ≠ 0

def isZero (bits : BitVec 64) : Bool := exponent bits = 0 ∧ fraction bits = 0

/-- `==`: a NaN equals nothing, and the two zeros are equal. -/
def eq (a b : BitVec 64) : Bool :=
  !isNaN a && !isNaN b && (a = b || (isZero a && isZero b))

def truncate (bits : BitVec 64) : Int :=
  let significand := if exponent bits = 0 then fraction bits else 2 ^ 52 + fraction bits
  let scale := max 1 (exponent bits)
  let magnitude : Nat :=
    if 1075 ≤ scale then significand * 2 ^ (scale - 1075) else significand / 2 ^ (1075 - scale)
  if bits.msb then -magnitude else magnitude

/-- The word of the nearest real, ties to even. A carry goes on into the exponent. -/
def ofNat (n : Nat) : Nat :=
  if n = 0 then 0
  else
    let top := Nat.log2 n
    let significand :=
      if top ≤ 52 then n * 2 ^ (52 - top)
      else
        let shift := top - 52
        let quotient := n / 2 ^ shift
        let rest := n % 2 ^ shift
        if 2 ^ shift < 2 * rest ∨ 2 * rest = 2 ^ shift ∧ quotient % 2 = 1 then quotient + 1
        else quotient
    (top + 1023) * 2 ^ 52 + (significand - 2 ^ 52)

def ofInt (value : Int) : BitVec 64 :=
  BitVec.ofNat 64 (ofNat value.natAbs + if value < 0 then 2 ^ 63 else 0)

example : ofInt 3 = 0x4008000000000000#64 ∧ truncate 0xC008000000000000#64 = -3 ∧
    ofInt (2 ^ 53 + 1) = ofInt (2 ^ 53) := by decide

end Double

/-- `can_convert`. -/
def canConvert : AttributeType → AttributeType → Bool
  | .int64, .float64 => true
  | .float64, .int64 => true
  | .boolean, .int64 => true
  | _, _ => false

/-- `convert_value`. -/
def convertValue (value : AttributeValue) (target : AttributeType) : Except Error AttributeValue :=
  match value, target with
  | .int64 integer, .float64 =>
    let converted := Double.ofInt integer.toInt
    if Double.truncate converted < -2 ^ 63 ∨ 2 ^ 63 ≤ Double.truncate converted ∨
        Double.truncate converted ≠ integer.toInt then
      .error ⟨.incompatibleProjection, "int64 to float64 conversion loses precision"⟩
    else .ok (.float64 converted)
  | .float64 real, .int64 =>
    if ¬Double.isFinite real ∨ Double.truncate real < -2 ^ 63 ∨ 2 ^ 63 ≤ Double.truncate real then
      .error ⟨.incompatibleProjection, "float64 to int64 conversion overflow"⟩
    else .ok (.int64 (BitVec.ofInt 64 (Double.truncate real)))
  | .boolean boolean, .int64 => .ok (.int64 (if boolean then 1 else 0))
  | _, _ => .error ⟨.incompatibleProjection, "unsupported automatic field conversion"⟩

/-- `operator==` of values. -/
def AttributeValue.equals : AttributeValue → AttributeValue → Bool
  | .float64 a, .float64 b => Double.eq a b
  | a, b => a = b

end MoDb.Store
