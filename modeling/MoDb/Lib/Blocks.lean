import Mathlib.Algebra.GroupWithZero.Nat
import Mathlib.Order.Interval.Finset.Nat
import Mathlib.Data.List.Sort

/-!
# Blocks of a region

A block is a range of addresses. Blocks that do not overlap and lie in a region take no more room
than the region has, and looking at neighbours in sorted order is enough to see that none overlap.
-/

structure Block where
  start : Nat
  stop : Nat
  deriving DecidableEq

namespace Block

def Apart (b c : Block) : Prop := b.stop ≤ c.start ∨ c.stop ≤ b.start

theorem Apart.symm {b c : Block} (h : Apart b c) : Apart c b := Or.symm h

def Within (low high : Nat) (b : Block) : Prop := low ≤ b.start ∧ b.start < b.stop ∧ b.stop ≤ high

def size (b : Block) : Nat := b.stop - b.start

def covered : List Block → Finset Nat
  | [] => ∅
  | b :: blocks => Finset.Ico b.start b.stop ∪ covered blocks

theorem mem_covered {blocks : List Block} {i : Nat} :
    i ∈ covered blocks ↔ ∃ b ∈ blocks, b.start ≤ i ∧ i < b.stop := by
  induction blocks with
  | nil => simp [covered]
  | cons b blocks ih => simp [covered, ih]

theorem card_covered {blocks : List Block} (h : blocks.Pairwise Apart) :
    (covered blocks).card = (blocks.map size).sum := by
  induction blocks with
  | nil => rfl
  | cons b blocks ih =>
    have hdisjoint : Disjoint (Finset.Ico b.start b.stop) (covered blocks) := by
      apply Finset.disjoint_left.2
      intro i hi hcovered
      obtain ⟨c, hc, hlow, hhigh⟩ := mem_covered.1 hcovered
      have hapart := (List.pairwise_cons.1 h).1 c hc
      rw [Finset.mem_Ico] at hi
      rcases hapart with hafter | hbefore <;> omega
    rw [covered, Finset.card_union_of_disjoint hdisjoint, Nat.card_Ico, ih (List.pairwise_cons.1 h).2]
    rfl

theorem sum_size_le {blocks : List Block} {low high : Nat} (h : blocks.Pairwise Apart)
    (hwithin : ∀ b ∈ blocks, Within low high b) : (blocks.map size).sum ≤ high - low := by
  rw [← card_covered h, ← Nat.card_Ico]
  apply Finset.card_le_card
  intro i hi
  obtain ⟨b, hb, hlow, hhigh⟩ := mem_covered.1 hi
  have hin := hwithin b hb
  rw [Finset.mem_Ico]
  exact ⟨Nat.le_trans hin.1 hlow, Nat.lt_of_lt_of_le hhigh hin.2.2⟩

def le (b c : Block) : Bool := decide (b.start < c.start) || (b.start == c.start && b.stop ≤ c.stop)

theorem le_trans (a b c : Block) (hab : le a b) (hbc : le b c) : le a c := by
  simp only [le, Bool.or_eq_true, Bool.and_eq_true, decide_eq_true_eq, beq_iff_eq] at *
  omega

theorem le_total (a b : Block) : le a b || le b a := by
  simp only [le, Bool.or_eq_true, Bool.and_eq_true, decide_eq_true_eq, beq_iff_eq]
  omega

def inOrder : List Block → Bool
  | b :: c :: blocks => decide (b.stop ≤ c.start) && inOrder (c :: blocks)
  | _ => true

theorem inOrder_of_sorted {blocks : List Block} (hsorted : blocks.Pairwise fun b c => le b c)
    (hapart : blocks.Pairwise Apart) (hpos : ∀ b ∈ blocks, b.start < b.stop) :
    inOrder blocks = true := by
  induction blocks with
  | nil => rfl
  | cons b blocks ih =>
    have htail := ih (List.pairwise_cons.1 hsorted).2 (List.pairwise_cons.1 hapart).2
      fun c hc => hpos c (List.mem_cons_of_mem b hc)
    cases blocks with
    | nil => rfl
    | cons c blocks =>
      have hle := (List.pairwise_cons.1 hsorted).1 c List.mem_cons_self
      have hne := (List.pairwise_cons.1 hapart).1 c List.mem_cons_self
      have hc := hpos c (List.mem_cons_of_mem b List.mem_cons_self)
      simp only [le, Bool.or_eq_true, Bool.and_eq_true, decide_eq_true_eq, beq_iff_eq] at hle
      simp only [inOrder, Bool.and_eq_true, decide_eq_true_eq]
      refine ⟨?_, htail⟩
      rcases hne with hafter | hbefore <;> omega

theorem pairwise_of_inOrder {blocks : List Block} (h : inOrder blocks = true)
    (hpos : ∀ b ∈ blocks, b.start < b.stop) : blocks.Pairwise fun b c => b.stop ≤ c.start := by
  induction blocks with
  | nil => exact List.Pairwise.nil
  | cons b blocks ih =>
    have hrest : ∀ c ∈ blocks, c.start < c.stop := fun c hc => hpos c (List.mem_cons_of_mem b hc)
    cases blocks with
    | nil => exact List.pairwise_singleton _ b
    | cons c blocks =>
      rw [inOrder, Bool.and_eq_true, decide_eq_true_eq] at h
      have htail := ih h.2 hrest
      refine List.pairwise_cons.2 ⟨?_, htail⟩
      intro d hd
      rcases List.mem_cons.1 hd with rfl | hd
      · exact h.1
      · have hcd := (List.pairwise_cons.1 htail).1 d hd
        have hc := hrest c List.mem_cons_self
        omega

theorem pairwise_of_mergeSort {blocks : List Block} (h : inOrder (blocks.mergeSort le) = true)
    (hpos : ∀ b ∈ blocks, b.start < b.stop) : blocks.Pairwise Apart := by
  have hperm := List.mergeSort_perm blocks le
  have hsorted := pairwise_of_inOrder h fun b hb => hpos b (hperm.mem_iff.1 hb)
  exact hperm.pairwise (hsorted.imp Or.inl) Apart.symm

theorem inOrder_mergeSort {blocks : List Block} (hapart : blocks.Pairwise Apart)
    (hpos : ∀ b ∈ blocks, b.start < b.stop) : inOrder (blocks.mergeSort le) = true := by
  have hperm := List.mergeSort_perm blocks le
  apply inOrder_of_sorted (List.pairwise_mergeSort le_trans le_total blocks)
  · exact hperm.symm.pairwise hapart Apart.symm
  · exact fun b hb => hpos b (hperm.mem_iff.1 hb)

end Block
