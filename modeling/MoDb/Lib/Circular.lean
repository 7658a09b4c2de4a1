import Mathlib.Data.Nat.ModEq
import Mathlib.Data.List.Basic

/-!
# Items in a circular buffer

Positions only grow, and a position is stored in the cell of its remainder. An item takes some room
from its position on and lies in one piece; where there is not enough room before the end, the rest
is skipped and the item begins in the first cell.
-/

namespace Circular

theorem mod_ne_of_lt {capacity p q : Nat} (hpq : p < q) (hq : q < p + capacity) :
    p % capacity ≠ q % capacity := by
  intro heq
  have hdvd : capacity ∣ q - p := (Nat.modEq_iff_dvd' (Nat.le_of_lt hpq)).1 heq
  have hle := Nat.le_of_dvd (by omega) hdvd
  omega

theorem mod_add_of_fits {capacity p i room : Nat} (hfits : p % capacity + room ≤ capacity)
    (hi : i < room) : (p + i) % capacity = p % capacity + i := by
  rw [Nat.add_mod, Nat.mod_eq_of_lt (show i < capacity by omega), Nat.mod_eq_of_lt (by omega)]

theorem mod_skip {capacity : Nat} (h : 0 < capacity) (p : Nat) :
    (p + (capacity - p % capacity)) % capacity = 0 := by
  have hlt := Nat.mod_lt p h
  have hsum : p + (capacity - p % capacity) = capacity * (p / capacity + 1) := by
    have hdiv := Nat.div_add_mod p capacity
    rw [Nat.mul_add, Nat.mul_one]
    omega
  rw [hsum, Nat.mul_mod_right]

theorem outside_of_fits {capacity first p room q : Nat} (hfirst : first ≤ p)
    (hfits : p % capacity + room ≤ capacity) (hq : p + room ≤ q) (hround : q < first + capacity) :
    q % capacity < p % capacity ∨ p % capacity + room ≤ q % capacity := by
  by_contra hin
  obtain ⟨hlow, hhigh⟩ := not_or.1 hin
  have hi : q % capacity - p % capacity < room := by omega
  have hsame := mod_add_of_fits hfits hi
  have hbefore : p + (q % capacity - p % capacity) < q := by omega
  have hwithin : q < p + (q % capacity - p % capacity) + capacity := by omega
  apply mod_ne_of_lt hbefore hwithin
  rw [hsame]
  omega

variable {α : Type} {capacity : Nat} {room : α → Nat} {holds holds' : Nat → α → Prop}
  {skips skips' : Nat → Prop}

/-- The items lie one after the other from one position to another. -/
inductive Laid (capacity : Nat) (room : α → Nat) (holds : Nat → α → Prop) (skips : Nat → Prop) :
    Nat → List (Nat × α) → Nat → Prop
  | nil (p : Nat) : Laid capacity room holds skips p [] p
  | item {p stop : Nat} {a : α} {rest : List (Nat × α)} (hfits : p % capacity + room a ≤ capacity)
      (hholds : holds p a) (hrest : Laid capacity room holds skips (p + room a) rest stop) :
      Laid capacity room holds skips p ((p, a) :: rest) stop
  | skip {p stop : Nat} {item : Nat × α} {rest : List (Nat × α)} (hskips : skips p)
      (hrest : Laid capacity room holds skips (p + (capacity - p % capacity)) (item :: rest) stop) :
      Laid capacity room holds skips p (item :: rest) stop

namespace Laid

variable {p q r : Nat} {items items' : List (Nat × α)}

theorem le (h : Laid capacity room holds skips p items q) : p ≤ q := by
  induction h with
  | nil => exact Nat.le_refl _
  | item _ _ _ ih => omega
  | skip _ _ ih => omega

theorem append (h : Laid capacity room holds skips p items q)
    (h' : Laid capacity room holds skips q items' r) :
    Laid capacity room holds skips p (items ++ items') r := by
  induction h with
  | nil => exact h'
  | item hfits hholds _ ih => exact .item hfits hholds (ih h')
  | skip hskips _ ih => exact .skip hskips (ih h')

theorem bounds (h : Laid capacity room holds skips p items q) {position : Nat} {a : α}
    (hmem : (position, a) ∈ items) : p ≤ position ∧ position + room a ≤ q ∧
      position % capacity + room a ≤ capacity ∧ holds position a := by
  induction h with
  | nil => exact absurd hmem List.not_mem_nil
  | item hfits hholds hrest ih =>
    rcases List.mem_cons.1 hmem with heq | hmem
    · injection heq with hposition ha
      subst hposition ha
      exact ⟨Nat.le_refl _, hrest.le, hfits, hholds⟩
    · obtain ⟨hle, hrest⟩ := ih hmem
      exact ⟨by omega, hrest⟩
  | skip _ _ ih =>
    obtain ⟨hle, hrest⟩ := ih hmem
    exact ⟨by omega, hrest⟩

theorem congr (h : Laid capacity room holds skips p items q)
    (hholds : ∀ position a, p ≤ position → position + room a ≤ q →
      position % capacity + room a ≤ capacity → holds position a → holds' position a)
    (hskips : ∀ position, p ≤ position → position + (capacity - position % capacity) ≤ q →
      skips position → skips' position) : Laid capacity room holds' skips' p items q := by
  induction h with
  | nil => exact .nil _
  | item hfits hheld hrest ih =>
    refine .item hfits (hholds _ _ (Nat.le_refl _) hrest.le hfits hheld) (ih ?_ ?_)
    · exact fun position a hle => hholds position a (by omega)
    · exact fun position hle => hskips position (by omega)
  | skip hskipped hrest ih =>
    refine .skip (hskips _ (Nat.le_refl _) hrest.le hskipped) (ih ?_ ?_)
    · exact fun position a hle => hholds position a (by omega)
    · exact fun position hle => hskips position (by omega)

end Laid

end Circular
