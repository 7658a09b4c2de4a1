import MoDb.Lib.Loop
import MoDb.Net.RingFifo

/-!
# A peer that does not keep to the ring

The other process maps the whole region. Here `peek` finds any bytes in it and any two positions, and is asked
to end, to read inside the ring, and to return a frame only where one was published.
-/

namespace MoDb.Net

open Storage

/-- What `peek` returns. -/
inductive Peeked where
  | empty
  | corrupt
  | frame (offset size : Nat)

/-- One turn of the loop of `peek`: it returns, with the head that it stored, or it stores a new head. -/
def peekTurn (ringBytes : Nat) (data : Area) (tail head : Nat) : Peeked × Nat ⊕ Nat :=
  if head = tail then .inl (.empty, head)
  else
    let offset := head % ringBytes
    let length := loadLe (readArea data offset 4)
    if length = k_padding_marker then .inr (addPos head (ringBytes - offset))
    else
      let frameBytes := 4 + length
      if length = 0 ∨ length > maxFrameBytes ∨ frameBytes > ringBytes - offset ∨
          addPos head (align8 frameBytes) > tail then .inl (.corrupt, head)
      else .inl (.frame offset frameBytes, head)

theorem Ring.round_eq_peekTurn (ring : Ring) (tail : Nat) :
    ring.round tail =
      match peekTurn ring.ringBytes ring.data tail ring.head with
      | .inr head => { ring with head := head }
      | .inl (.frame offset size, _) =>
        { ring with seen := none, pending := align8 size, span := some (offset, size) }
      | .inl _ => { ring with seen := none, span := none } := by
  rw [round, peekTurn]
  by_cases hempty : ring.head = tail
  · rw [if_pos hempty, if_pos hempty]
  · rw [if_neg hempty, if_neg hempty]
    dsimp only
    by_cases hmarker : loadLe (readArea ring.data (ring.head % ring.ringBytes) 4) = k_padding_marker
    · rw [if_pos hmarker, if_pos hmarker]
    · rw [if_neg hmarker, if_neg hmarker]
      split
      · rfl
      · rfl

/-- What is in the region when `peek` is called. The area goes on where the ring ends. -/
structure Region where
  ringBytes : Nat
  normalized : ∃ requested, normalizeRingBytes requested = some ringBytes
  data : Area
  head : Nat
  tail : Nat
  head_lt : head < 2 ^ 64
  tail_lt : tail < 2 ^ 64

namespace Region

def turn (region : Region) (head : Nat) : Peeked × Nat ⊕ Nat :=
  peekTurn region.ringBytes region.data region.tail head

def peek (region : Region) (turns : Nat) : Option (Peeked × Nat) := Loop.run region.turn turns region.head

/-- A position between the head and the tail that `peek` found. -/
def Published (region : Region) (position : Nat) : Prop :=
  subPos position region.head < subPos region.tail region.head

def Looks (region : Region) : Nat → Prop := Loop.Steps region.turn region.head

/-- `peek` ends, reads lengths inside the ring, and returns a frame in the ring that was published. -/
structure Robust (region : Region) : Prop where
  ends : ∃ turns result, region.peek turns = some result
  reads : ∀ head, region.Looks head → head ≠ region.tail → head % region.ringBytes + 4 ≤ region.ringBytes
  frame : ∀ turns offset size head, region.peek turns = some (.frame offset size, head) →
    offset = head % region.ringBytes ∧ offset + size ≤ region.ringBytes ∧
      ∀ i < size, region.Published (addPos head i)

/-! ### When it is so -/

def length (region : Region) (head : Nat) : Nat := loadLe (readArea region.data (head % region.ringBytes) 4)

def Marked (region : Region) (head : Nat) : Prop := region.length head = k_padding_marker

instance (region : Region) (head : Nat) : Decidable (region.Marked head) :=
  inferInstanceAs (Decidable (_ = _))

/-- The check of `peek` on a frame. -/
def Accepted (region : Region) (head : Nat) : Prop :=
  ¬(region.length head = 0 ∨ region.length head > maxFrameBytes ∨
    4 + region.length head > region.ringBytes - head % region.ringBytes ∨
    addPos head (align8 (4 + region.length head)) > region.tail)

def next (region : Region) (head : Nat) : Nat := addPos head (region.ringBytes - head % region.ringBytes)

/-- Where the last round goes over to, whose end is past the greatest position. -/
def wrapped (region : Region) : Nat := region.next (2 ^ 64 - 1)

/-- Where markers lead from the head. With the tail after the head, they have led there before they are
done with the positions of a word once. -/
inductive Lands (region : Region) : Nat → Prop
  | head : ¬region.Marked region.head → region.Lands region.head
  | next : region.Marked region.head → region.next region.head ≠ region.tail →
      ¬region.Marked (region.next region.head) → region.Lands (region.next region.head)
  | wrapped : region.Marked region.head → region.Marked 0 → ¬region.ringBytes ∣ region.tail →
      region.wrapped ≠ region.tail → ¬region.Marked region.wrapped → region.Lands region.wrapped
  | second : region.Marked region.head → region.next region.head = region.wrapped →
      region.wrapped ≠ region.tail → region.Marked region.wrapped → region.ringBytes ≠ region.tail →
      ¬region.Marked 0 → region.Lands region.ringBytes

/-- The length at the head is in the ring. Markers do not lead round and round past the tail. The frame that
they lead to, if it passes the check, starts after the head and ends before the tail. -/
structure Sane (region : Region) : Prop where
  readable : region.head % region.ringBytes + 4 ≤ region.ringBytes
  ends : ¬(region.Marked region.head ∧ region.Marked 0 ∧ region.Marked region.wrapped) ∨
    (region.ringBytes ∣ region.tail ∧ region.tail ≠ 0) ∨ region.wrapped = region.tail
  ordered : region.head ≤ region.tail → ∀ head, region.Lands head → region.Accepted head →
    region.head ≤ head ∧ head + 4 + region.length head ≤ region.tail

/-! ### Rounds -/

variable {region : Region}

theorem ringBytes_spec (region : Region) :
    8 ∣ region.ringBytes ∧ 4096 ≤ region.ringBytes ∧ region.ringBytes ≤ 2 ^ 26 := by
  obtain ⟨requested, h⟩ := region.normalized
  rw [normalizeRingBytes] at h
  split at h
  · rw [← Option.some.inj h]
    decide
  · split at h
    · cases h
    · rename_i hrange
      rw [← Option.some.inj h]
      rw [not_or, k_min_ring_bytes, k_max_ring_bytes] at hrange
      refine ⟨dvd_align8 requested, ?_, ?_⟩
      · exact Nat.le_trans (Nat.le_of_not_lt hrange.1) (le_align8 requested)
      · rw [align8]
        omega

def lastRound (region : Region) : Nat := (2 ^ 64 - 1) / region.ringBytes

theorem next_eq_mod (region : Region) (head : Nat) :
    region.next head = (head / region.ringBytes + 1) * region.ringBytes % 2 ^ 64 := by
  have hpos : 0 < region.ringBytes := by
    have := region.ringBytes_spec.2.1
    omega
  have hlt := Nat.mod_lt head hpos
  have hsplit := Nat.div_add_mod head region.ringBytes
  have hsum : head + (region.ringBytes - head % region.ringBytes) =
      (head / region.ringBytes + 1) * region.ringBytes := by
    rw [Nat.add_mul, Nat.one_mul, Nat.mul_comm]
    omega
  rw [next, addPos, hsum]

theorem next_eq (region : Region) {head : Nat} (hhead : head < 2 ^ 64) :
    (head / region.ringBytes < region.lastRound ∧
      region.next head = (head / region.ringBytes + 1) * region.ringBytes) ∨
    (head / region.ringBytes = region.lastRound ∧ region.next head = region.wrapped) := by
  have hpos : 0 < region.ringBytes := by
    have := region.ringBytes_spec.2.1
    omega
  have hle : head / region.ringBytes ≤ region.lastRound := Nat.div_le_div_right (Nat.le_pred_of_lt hhead)
  rcases Nat.lt_or_eq_of_le hle with hlt | heq
  · left
    refine ⟨hlt, ?_⟩
    rw [next_eq_mod]
    apply Nat.mod_eq_of_lt
    have hfits := (Nat.le_div_iff_mul_le hpos).1 (Nat.succ_le_of_lt hlt)
    exact Nat.lt_of_le_of_lt hfits (by decide)
  · right
    refine ⟨heq, ?_⟩
    rw [wrapped, next_eq_mod, next_eq_mod, heq]
    rfl

theorem wrapped_spec (region : Region) :
    region.wrapped < region.ringBytes ∧ 8 ∣ region.wrapped ∧
      region.wrapped + 2 ^ 64 = (region.lastRound + 1) * region.ringBytes := by
  obtain ⟨hdvd, hmin, hmax⟩ := region.ringBytes_spec
  have hpos : 0 < region.ringBytes := by omega
  have hlt := Nat.mod_lt (2 ^ 64 - 1) hpos
  have hsplit := Nat.div_add_mod (2 ^ 64 - 1) region.ringBytes
  have hend : (region.lastRound + 1) * region.ringBytes = region.ringBytes * ((2 ^ 64 - 1) / region.ringBytes) +
      region.ringBytes := by
    rw [lastRound, Nat.add_mul, Nat.one_mul, Nat.mul_comm]
  have hwrapped : region.wrapped = (region.lastRound + 1) * region.ringBytes % 2 ^ 64 := next_eq_mod _ _
  have hsub : region.wrapped + 2 ^ 64 = (region.lastRound + 1) * region.ringBytes := by
    rw [hwrapped]
    omega
  refine ⟨by omega, ?_, hsub⟩
  have hdvd' : 8 ∣ region.wrapped + 2 ^ 64 := hsub ▸ Dvd.dvd.mul_left hdvd _
  omega

theorem ringBytes_pos (region : Region) : 0 < region.ringBytes :=
  Nat.lt_of_lt_of_le (by decide) region.ringBytes_spec.2.1

theorem lastRound_pos (region : Region) : 0 < region.lastRound := by
  apply Nat.div_pos _ region.ringBytes_pos
  exact Nat.le_trans region.ringBytes_spec.2.2 (by decide)

theorem round_lt {region : Region} {round : Nat} (h : round ≤ region.lastRound) :
    round * region.ringBytes < 2 ^ 64 := by
  have hle := (Nat.le_div_iff_mul_le region.ringBytes_pos).1 h
  exact Nat.lt_of_le_of_lt hle (by decide)

theorem next_round (region : Region) {round : Nat} (h : round < region.lastRound) :
    region.next (round * region.ringBytes) = (round + 1) * region.ringBytes := by
  have hdiv : round * region.ringBytes / region.ringBytes = round := Nat.mul_div_cancel _ region.ringBytes_pos
  rcases region.next_eq (round_lt (Nat.le_of_lt h)) with ⟨_, hnext⟩ | ⟨heq, _⟩
  · rw [hnext, hdiv]
  · rw [hdiv] at heq
    exact absurd heq (Nat.ne_of_lt h)

theorem next_lastRound (region : Region) :
    region.next (region.lastRound * region.ringBytes) = region.wrapped := by
  rw [wrapped, next_eq_mod, next_eq_mod, Nat.mul_div_cancel _ region.ringBytes_pos]
  rfl

theorem next_cases (region : Region) {head : Nat} (hhead : head < 2 ^ 64) :
    region.next head = region.wrapped ∨
      ∃ round, 0 < round ∧ round ≤ region.lastRound ∧ region.next head = round * region.ringBytes ∧
        head < round * region.ringBytes := by
  rcases region.next_eq hhead with ⟨hlt, hnext⟩ | ⟨_, hnext⟩
  · exact .inr ⟨_, Nat.succ_pos _, Nat.succ_le_of_lt hlt, hnext, Nat.lt_mul_of_div_lt (Nat.lt_succ_self _) region.ringBytes_pos⟩
  · exact .inl hnext

theorem next_wrapped (region : Region) : region.next region.wrapped = region.ringBytes := by
  have hlt := region.wrapped_spec.1
  have hdiv : region.wrapped / region.ringBytes = 0 := Nat.div_eq_of_lt hlt
  have hmax := region.ringBytes_spec.2.2
  rw [next_eq_mod, hdiv, Nat.zero_add, Nat.one_mul]
  exact Nat.mod_eq_of_lt (by omega)

theorem marked_round (region : Region) (round : Nat) : region.Marked (round * region.ringBytes) ↔ region.Marked 0 := by
  rw [Marked, Marked, length, length, Nat.mul_mod_left, Nat.zero_mod]

/-! ### Turns -/

theorem turn_tail (region : Region) : region.turn region.tail = .inl (.empty, region.tail) := if_pos rfl

theorem turn_marked {head : Nat} (hne : head ≠ region.tail) (hmarked : region.Marked head) :
    region.turn head = .inr (region.next head) :=
  (if_neg hne).trans (if_pos hmarked)

theorem turn_corrupt {head : Nat} (hne : head ≠ region.tail) (hmarked : ¬region.Marked head)
    (haccepted : ¬region.Accepted head) : region.turn head = .inl (.corrupt, head) :=
  (if_neg hne).trans ((if_neg hmarked).trans (if_pos (not_not.1 haccepted)))

theorem turn_frame {head : Nat} (hne : head ≠ region.tail) (hmarked : ¬region.Marked head)
    (haccepted : region.Accepted head) :
    region.turn head = .inl (.frame (head % region.ringBytes) (4 + region.length head), head) :=
  (if_neg hne).trans ((if_neg hmarked).trans (if_neg haccepted))

theorem of_turn_inr {head next : Nat} (h : region.turn head = .inr next) :
    head ≠ region.tail ∧ region.Marked head ∧ next = region.next head := by
  by_cases hne : head = region.tail
  · rw [hne, turn_tail] at h
    cases h
  · by_cases hmarked : region.Marked head
    · rw [turn_marked hne hmarked] at h
      exact ⟨hne, hmarked, (Sum.inr.inj h).symm⟩
    · by_cases haccepted : region.Accepted head
      · rw [turn_frame hne hmarked haccepted] at h
        cases h
      · rw [turn_corrupt hne hmarked haccepted] at h
        cases h

theorem of_turn_frame {head offset size head' : Nat} (h : region.turn head = .inl (.frame offset size, head')) :
    head ≠ region.tail ∧ ¬region.Marked head ∧ region.Accepted head ∧ head' = head ∧
      offset = head % region.ringBytes ∧ size = 4 + region.length head := by
  by_cases hne : head = region.tail
  · rw [hne, turn_tail] at h
    cases h
  · by_cases hmarked : region.Marked head
    · rw [turn_marked hne hmarked] at h
      cases h
    · by_cases haccepted : region.Accepted head
      · rw [turn_frame hne hmarked haccepted] at h
        cases h
        exact ⟨hne, hmarked, haccepted, rfl, rfl, rfl⟩
      · rw [turn_corrupt hne hmarked haccepted] at h
        cases h

/-! ### The end of the loop -/

def Ends (region : Region) (head : Nat) : Prop := ∃ turns result, Loop.run region.turn turns head = some result

theorem ends_tail (region : Region) : region.Ends region.tail := ⟨1, _, Loop.run_of_inl region.turn_tail 0⟩

theorem ends_of_not_marked {head : Nat} (hmarked : ¬region.Marked head) : region.Ends head := by
  by_cases hne : head = region.tail
  · rw [hne]
    exact region.ends_tail
  · by_cases haccepted : region.Accepted head
    · exact ⟨1, _, Loop.run_of_inl (turn_frame hne hmarked haccepted) 0⟩
    · exact ⟨1, _, Loop.run_of_inl (turn_corrupt hne hmarked haccepted) 0⟩

theorem ends_of_next {head : Nat} (h : region.Ends (region.next head)) : region.Ends head := by
  by_cases hmarked : region.Marked head
  · by_cases hne : head = region.tail
    · rw [hne]
      exact region.ends_tail
    · obtain ⟨turns, result, hrun⟩ := h
      exact ⟨turns + 1, result, (Loop.run_of_inr (turn_marked hne hmarked) turns).trans hrun⟩
  · exact ends_of_not_marked hmarked

theorem ends_round {round last : Nat} (hle : round ≤ last) (hlast : last ≤ region.lastRound)
    (h : region.Ends (last * region.ringBytes)) : region.Ends (round * region.ringBytes) := by
  induction last, hle using Nat.le_induction with
  | base => exact h
  | succ last hle ih =>
    apply ih (Nat.le_of_succ_le hlast)
    apply ends_of_next
    rw [next_round region hlast]
    exact h

theorem ends_next_of_wrapped (h : region.Ends region.wrapped) {head : Nat} (hhead : head < 2 ^ 64) :
    region.Ends (region.next head) := by
  rcases region.next_eq hhead with ⟨hlt, hnext⟩ | ⟨_, hnext⟩
  · rw [hnext]
    apply ends_round (Nat.succ_le_of_lt hlt) (Nat.le_refl _)
    apply ends_of_next
    rw [next_lastRound]
    exact h
  · rw [hnext]
    exact h

theorem ends_iff (region : Region) : region.Ends region.head ↔ region.head = region.tail ∨
    ¬(region.Marked region.head ∧ region.Marked 0 ∧ region.Marked region.wrapped) ∨
      (region.ringBytes ∣ region.tail ∧ region.tail ≠ 0) ∨ region.wrapped = region.tail := by
  constructor
  · rintro ⟨turns, result, hrun⟩
    by_contra hnot
    push Not at hnot
    obtain ⟨hne, ⟨hmarked, hzero, hwrapped⟩, hround, htail⟩ := hnot
    have hnone : Loop.run region.turn turns region.head = none := by
      apply Loop.run_eq_none (I := fun head => head < 2 ^ 64 ∧ head ≠ region.tail ∧ region.Marked head)
      · rintro head ⟨hlt, hne, hmarked⟩
        refine ⟨region.next head, turn_marked hne hmarked, ?_⟩
        rcases region.next_cases hlt with hnext | ⟨round, hpos, hle, hnext, _⟩
        · rw [hnext]
          exact ⟨Nat.mod_lt _ (Nat.two_pow_pos 64), htail, hwrapped⟩
        · rw [hnext]
          refine ⟨round_lt hle, fun heq => ?_, (region.marked_round round).2 hzero⟩
          have hzero' := hround (heq ▸ Nat.dvd_mul_left region.ringBytes round)
          rw [← heq] at hzero'
          exact Nat.ne_of_gt (Nat.mul_pos hpos region.ringBytes_pos) hzero'
      · exact ⟨region.head_lt, hne, hmarked⟩
    rw [hnone] at hrun
    cases hrun
  · have hone : region.ringBytes = 1 * region.ringBytes := (Nat.one_mul _).symm
    rintro (heq | hmarked | ⟨⟨round, hround⟩, hne⟩ | heq)
    · rw [heq]
      exact region.ends_tail
    · by_cases hhead : region.Marked region.head
      · apply ends_of_next
        by_cases hzero : region.Marked 0
        · -- the wrapped round is not marked
          have hwrapped : ¬region.Marked region.wrapped := fun hwrapped => hmarked ⟨hhead, hzero, hwrapped⟩
          exact ends_next_of_wrapped (ends_of_not_marked hwrapped) region.head_lt
        · have hrounds (round : Nat) : region.Ends (round * region.ringBytes) :=
            ends_of_not_marked fun hmarked => hzero ((region.marked_round round).1 hmarked)
          apply ends_next_of_wrapped _ region.head_lt
          apply ends_of_next
          rw [next_wrapped, hone]
          exact hrounds 1
      · exact ends_of_not_marked hhead
    · apply ends_of_next
      apply ends_next_of_wrapped _ region.head_lt
      apply ends_of_next
      rw [next_wrapped, hone]
      have htail : region.tail = round * region.ringBytes := hround.trans (Nat.mul_comm _ _)
      have hpos : 0 < round := by
        rcases Nat.eq_zero_or_pos round with hzero | hpos
        · rw [hzero, Nat.zero_mul] at htail
          exact absurd htail hne
        · exact hpos
      have hle : round ≤ region.lastRound := by
        apply (Nat.le_div_iff_mul_le region.ringBytes_pos).2
        rw [← htail]
        exact Nat.le_pred_of_lt region.tail_lt
      apply ends_round hpos hle
      rw [← htail]
      exact region.ends_tail
    · apply ends_of_next
      apply ends_next_of_wrapped _ region.head_lt
      rw [heq]
      exact region.ends_tail

/-! ### The heads at which it looks -/

theorem looks_head (region : Region) : region.Looks region.head := .refl

theorem steps_of_marked {head last : Nat} (hne : head ≠ region.tail) (hmarked : region.Marked head)
    (h : Loop.Steps region.turn (region.next head) last) : Loop.Steps region.turn head last :=
  .head (turn_marked hne hmarked) h

theorem Looks.cases {head : Nat} (h : region.Looks head) : head < 2 ^ 64 ∧ (head = region.head ∨
    head = region.wrapped ∨ ∃ round, head = round * region.ringBytes) := by
  induction h with
  | refl => exact ⟨region.head_lt, .inl rfl⟩
  | tail _ hturn ih =>
    obtain ⟨_, _, rfl⟩ := of_turn_inr hturn
    refine ⟨Nat.mod_lt _ (Nat.two_pow_pos 64), .inr ?_⟩
    rcases region.next_cases ih.1 with hnext | ⟨round, _, _, hnext, _⟩
    · exact .inl hnext
    · exact .inr ⟨round, hnext⟩

theorem reads_iff (region : Region) :
    (∀ head, region.Looks head → head ≠ region.tail → head % region.ringBytes + 4 ≤ region.ringBytes) ↔
      region.head = region.tail ∨ region.head % region.ringBytes + 4 ≤ region.ringBytes := by
  constructor
  · intro h
    by_cases heq : region.head = region.tail
    · exact .inl heq
    · exact .inr (h _ region.looks_head heq)
  · intro hfirst head hlooks hne
    obtain ⟨hdvd, hmin, _⟩ := region.ringBytes_spec
    rcases hlooks.cases.2 with rfl | rfl | ⟨round, rfl⟩
    · exact hfirst.resolve_left hne
    · obtain ⟨hlt, hdvd', _⟩ := region.wrapped_spec
      rw [Nat.mod_eq_of_lt hlt]
      omega
    · rw [Nat.mul_mod_left]
      omega

theorem steps_cases {head last : Nat} (h : Loop.Steps region.turn head last) : last = head ∨
    (head ≠ region.tail ∧ region.Marked head ∧ Loop.Steps region.turn (region.next head) last) := by
  rcases Relation.ReflTransGen.cases_head h with rfl | ⟨next, hturn, hrest⟩
  · exact .inl rfl
  · obtain ⟨hne, hmarked, rfl⟩ := of_turn_inr hturn
    exact .inr ⟨hne, hmarked, hrest⟩

theorem marked_of_steps (hzero : region.Marked 0) (hwrapped : region.Marked region.wrapped) {head last : Nat}
    (hlt : head < 2 ^ 64) (hmarked : region.Marked head) (h : Loop.Steps region.turn head last) :
    last < 2 ^ 64 ∧ region.Marked last := by
  induction h with
  | refl => exact ⟨hlt, hmarked⟩
  | tail _ hturn ih =>
    obtain ⟨_, _, rfl⟩ := of_turn_inr hturn
    refine ⟨Nat.mod_lt _ (Nat.two_pow_pos 64), ?_⟩
    rcases region.next_cases ih.1 with hnext | ⟨round, _, _, hnext, _⟩
    · rw [hnext]
      exact hwrapped
    · rw [hnext]
      exact (region.marked_round round).2 hzero

theorem steps_round (hzero : region.Marked 0) {round : Nat} (hround : round ≤ region.lastRound) {last : Nat}
    (h : Loop.Steps region.turn (round * region.ringBytes) last) (hlast : ¬region.Marked last) :
    last = region.wrapped ∧ ∀ later, round ≤ later → later ≤ region.lastRound →
      later * region.ringBytes ≠ region.tail := by
  induction hleft : region.lastRound - round generalizing round with
  | zero =>
    obtain rfl : round = region.lastRound := by omega
    rcases steps_cases h with rfl | ⟨hne, _, hrest⟩
    · exact absurd ((region.marked_round _).2 hzero) hlast
    · refine ⟨?_, fun later hle hle' => Nat.le_antisymm hle hle' ▸ hne⟩
      rw [next_lastRound] at hrest
      rcases steps_cases hrest with hdone | ⟨_, hwrapped, _⟩
      · exact hdone
      · have hlt := region.wrapped_spec.1
        have hmax := region.ringBytes_spec.2.2
        exact absurd (marked_of_steps hzero hwrapped (by omega) hwrapped hrest).2 hlast
  | succ left ih =>
    rcases steps_cases h with rfl | ⟨hne, _, hrest⟩
    · exact absurd ((region.marked_round _).2 hzero) hlast
    · rw [next_round region (by omega)] at hrest
      obtain ⟨hdone, hafter⟩ := ih (by omega) hrest (by omega)
      refine ⟨hdone, fun later hle hle' => ?_⟩
      rcases Nat.eq_or_lt_of_le hle with rfl | hlt
      · exact hne
      · exact hafter later hlt hle'

theorem looks_cases {last : Nat} (h : region.Looks last) (hlast : ¬region.Marked last) :
    last = region.head ∨ (region.Marked region.head ∧ (last = region.next region.head ∨
      (last = region.wrapped ∧ region.Marked 0 ∧ ∀ later, region.head / region.ringBytes < later →
        later ≤ region.lastRound → later * region.ringBytes ≠ region.tail) ∨
      (last = region.ringBytes ∧ region.next region.head = region.wrapped ∧ region.wrapped ≠ region.tail ∧
        region.Marked region.wrapped ∧ ¬region.Marked 0))) := by
  rcases steps_cases h with rfl | ⟨_, hmarked, hrest⟩
  · exact .inl rfl
  refine .inr ⟨hmarked, ?_⟩
  rcases steps_cases hrest with hdone | ⟨hne, hmarked', hrest'⟩
  · exact .inl hdone
  right
  rcases region.next_eq region.head_lt with ⟨hlt, hnext⟩ | ⟨_, hnext⟩
  · rw [hnext, marked_round] at hmarked'
    rw [hnext] at hrest
    obtain ⟨hdone, hafter⟩ := steps_round hmarked' (Nat.succ_le_of_lt hlt) hrest hlast
    exact .inl ⟨hdone, hmarked', hafter⟩
  · rw [hnext] at hne hmarked' hrest'
    rw [next_wrapped] at hrest'
    have hone : region.ringBytes = 1 * region.ringBytes := (Nat.one_mul _).symm
    by_cases hzero : region.Marked 0
    · rw [hone] at hrest'
      obtain ⟨hdone, _⟩ := steps_round hzero region.lastRound_pos hrest' hlast
      rw [hdone] at hlast
      exact absurd hmarked' hlast
    · right
      refine ⟨?_, hnext, hne, hmarked', hzero⟩
      rcases steps_cases hrest' with hdone | ⟨_, hfirst, _⟩
      · exact hdone
      · rw [hone, marked_round] at hfirst
        exact absurd hfirst hzero

theorem steps_wrapped (hzero : region.Marked 0) {round : Nat} (hround : round ≤ region.lastRound)
    (htail : ¬region.ringBytes ∣ region.tail) :
    Loop.Steps region.turn (round * region.ringBytes) region.wrapped := by
  have hne (round : Nat) : round * region.ringBytes ≠ region.tail :=
    fun heq => htail (heq ▸ Nat.dvd_mul_left _ _)
  induction hleft : region.lastRound - round generalizing round with
  | zero =>
    obtain rfl : round = region.lastRound := by omega
    apply steps_of_marked (hne _) ((region.marked_round _).2 hzero)
    rw [next_lastRound]
    exact .refl
  | succ left ih =>
    apply steps_of_marked (hne _) ((region.marked_round _).2 hzero)
    rw [next_round region (by omega)]
    exact ih (by omega) (by omega)

theorem Lands.looks {last : Nat} (hne : region.head ≠ region.tail) (h : region.Lands last) :
    region.Looks last ∧ last ≠ region.tail ∧ ¬region.Marked last := by
  cases h with
  | head hmarked => exact ⟨region.looks_head, hne, hmarked⟩
  | next hmarked hne' hmarked' => exact ⟨steps_of_marked hne hmarked .refl, hne', hmarked'⟩
  | wrapped hmarked hzero htail hne' hmarked' =>
    refine ⟨steps_of_marked hne hmarked ?_, hne', hmarked'⟩
    rcases region.next_cases region.head_lt with hnext | ⟨round, _, hle, hnext, _⟩
    · rw [hnext]
      exact .refl
    · rw [hnext]
      exact steps_wrapped hzero hle htail
  | second hmarked hnext hne' hmarked' hne'' hzero =>
    have hone : region.ringBytes = 1 * region.ringBytes := (Nat.one_mul _).symm
    refine ⟨steps_of_marked hne hmarked ?_, hne'', ?_⟩
    · rw [hnext]
      apply steps_of_marked hne' hmarked'
      rw [next_wrapped]
      exact .refl
    · rw [hone, marked_round]
      exact hzero

theorem lands_of_looks (hlt : region.head < region.tail) {last : Nat} (h : region.Looks last)
    (hne : last ≠ region.tail) (hlast : ¬region.Marked last) : region.Lands last := by
  rcases looks_cases h hlast with rfl | ⟨hmarked, rfl | ⟨rfl, hzero, hafter⟩ |
    ⟨rfl, hnext, hne', hmarked', hzero⟩⟩
  · exact .head hlast
  · exact .next hmarked hne hlast
  · refine .wrapped hmarked hzero ?_ hne hlast
    rintro ⟨later, htail⟩
    apply hafter later
    · apply Nat.div_lt_of_lt_mul
      rw [← htail]
      exact hlt
    · apply (Nat.le_div_iff_mul_le region.ringBytes_pos).2
      rw [Nat.mul_comm, ← htail]
      exact Nat.le_pred_of_lt region.tail_lt
    · rw [Nat.mul_comm]
      exact htail.symm
  · exact .second hmarked hnext hne' hmarked' hne hzero

/-! ### The frame -/

theorem Accepted.size_le {head : Nat} (h : region.Accepted head) :
    head % region.ringBytes + (4 + region.length head) ≤ region.ringBytes ∧
      addPos head (align8 (4 + region.length head)) ≤ region.tail := by
  rw [Accepted, not_or, not_or, not_or] at h
  have hlt := Nat.mod_lt head region.ringBytes_pos
  omega

theorem align8_le {n bound : Nat} (hle : n ≤ bound) (hdvd : 8 ∣ bound) : align8 n ≤ bound := by
  rw [align8]
  omega

theorem Looks.ahead {head : Nat} (hlooks : region.Looks head) (hmarked : ¬region.Marked head) :
    head < 2 ^ 64 ∧ (region.head ≤ head ∨ head ≤ region.ringBytes) := by
  refine ⟨hlooks.cases.1, ?_⟩
  have hwrapped := region.wrapped_spec.1
  rcases looks_cases hlooks hmarked with rfl | ⟨_, rfl | ⟨rfl, _⟩ | ⟨rfl, _⟩⟩
  · exact .inl (Nat.le_refl _)
  · rcases region.next_cases region.head_lt with hnext | ⟨round, _, _, hnext, hlt⟩
    · rw [hnext]
      exact .inr (Nat.le_of_lt hwrapped)
    · rw [hnext]
      exact .inl (Nat.le_of_lt hlt)
  · exact .inr (Nat.le_of_lt hwrapped)
  · exact .inr (Nat.le_refl _)

theorem published_iff {head : Nat} (hlooks : region.Looks head) (hmarked : ¬region.Marked head)
    (haccepted : region.Accepted head) :
    (∀ i < 4 + region.length head, region.Published (addPos head i)) ↔
      (region.head ≤ region.tail → region.head ≤ head ∧ head + 4 + region.length head ≤ region.tail) := by
  obtain ⟨hsize, hfits⟩ := haccepted.size_le
  obtain ⟨hlt, hahead⟩ := hlooks.ahead hmarked
  obtain ⟨hdvd, _, hmax⟩ := region.ringBytes_spec
  have halign := le_align8 (4 + region.length head)
  have halign' : align8 (4 + region.length head) ≤ region.ringBytes := align8_le (by omega) hdvd
  have hhead := region.head_lt
  have htail := region.tail_lt
  simp only [Published, addPos, subPos] at hfits ⊢
  constructor
  · intro hall hle
    have hfirst := hall 0 (by omega)
    have hbefore : region.head ≤ head := by omega
    refine ⟨hbefore, ?_⟩
    -- the last byte, or the last one before the positions of a word are used up
    by_cases hwraps : head + (3 + region.length head) < 2 ^ 64
    · have hlast := hall (3 + region.length head) (by omega)
      omega
    · have hlast := hall (2 ^ 64 - 1 - head) (by omega)
      omega
  · intro hbetween i hi
    by_cases hle : region.head ≤ region.tail
    · obtain ⟨hbefore, hafter⟩ := hbetween hle
      omega
    · rcases hahead with hahead | hahead <;> omega

/-- `peek` is robust against what its peer left in the region if and only if that is sane, or the ring looks
empty. -/
theorem robust_iff (region : Region) : region.Robust ↔ region.head = region.tail ∨ region.Sane := by
  constructor
  · rintro ⟨hends, hreads, hframe⟩
    by_cases hne : region.head = region.tail
    · exact .inl hne
    · refine .inr ⟨(region.reads_iff.1 hreads).resolve_left hne, (region.ends_iff.1 hends).resolve_left hne,
        fun hle head hlands haccepted => ?_⟩
      obtain ⟨hlooks, hne', hmarked⟩ := hlands.looks hne
      obtain ⟨turns, hrun⟩ := Loop.run_of_steps hlooks (turn_frame hne' hmarked haccepted)
      exact (published_iff hlooks hmarked haccepted).1 (hframe turns _ _ _ hrun).2.2 hle
  · intro hsane
    have hends := region.ends_iff.2 (hsane.imp_right fun hsane => hsane.ends)
    have hreads := region.reads_iff.2 (hsane.imp_right fun hsane => hsane.readable)
    refine ⟨hends, hreads, fun turns offset size head hrun => ?_⟩
    obtain ⟨last, hlooks, hlast⟩ := Loop.steps_of_run hrun
    obtain ⟨hne, hmarked, haccepted, rfl, rfl, rfl⟩ := of_turn_frame hlast
    refine ⟨rfl, haccepted.size_le.1, ?_⟩
    rcases hsane with heq | hsane
    · rcases steps_cases hlooks with rfl | ⟨hne', _, _⟩
      · exact absurd heq hne
      · exact absurd heq hne'
    · have hne' : region.head ≠ region.tail := by
        rintro heq
        rcases steps_cases hlooks with rfl | ⟨hne', _, _⟩
        · exact hne heq
        · exact hne' heq
      apply (published_iff hlooks hmarked haccepted).2
      intro hle
      exact hsane.ordered hle _ (lands_of_looks (Nat.lt_of_le_of_ne hle hne') hlooks hne hmarked) haccepted

/-- A marker eight bytes before the end of a ring, and a frame of five bytes at its first one. -/
def padded : Region where
  ringBytes := 4096
  normalized := ⟨4096, by decide⟩
  data := fun i => if i = 0 then 1 else if i < 4088 then 0 else 0xFF
  head := 4088
  tail := 4104
  head_lt := by decide
  tail_lt := by decide

theorem robust_iff_padded :
    padded.Robust ∧ padded.peek 2 = some (.frame 0 5, 4096) := by
  have hmarked : padded.Marked padded.head := by
    change loadLe [0xFF, 0xFF, 0xFF, 0xFF] = k_padding_marker
    decide
  have hlength : padded.length 0 = 1 := rfl
  have hmarked' : ¬padded.Marked 0 := fun h => absurd (hlength.symm.trans h) (by decide)
  refine ⟨(robust_iff padded).2 (.inr ⟨by decide, .inl fun h => hmarked' h.2.1, fun _ head hlands _ => ?_⟩), rfl⟩
  cases hlands with
  | head hnot => exact absurd hmarked hnot
  | next =>
    have hnext : padded.length (padded.next padded.head) = 1 := rfl
    rw [hnext]
    decide
  | wrapped _ hzero => exact absurd hzero hmarked'
  | second _ hwrapped => exact absurd hwrapped (by decide)

def flooded : Region where
  ringBytes := 4096
  normalized := ⟨4096, by decide⟩
  data := fun _ => 0xFF
  head := 0
  tail := 8
  head_lt := by decide
  tail_lt := by decide

theorem not_robust_flooded : ¬flooded.Robust := by
  intro h
  have hmarked (head : Nat) : flooded.Marked head := by
    change loadLe [0xFF, 0xFF, 0xFF, 0xFF] = k_padding_marker
    decide
  rcases flooded.ends_iff.1 h.ends with heq | hnot | ⟨hdvd, _⟩ | hwrapped
  · exact absurd heq (by decide)
  · exact hnot ⟨hmarked _, hmarked _, hmarked _⟩
  · exact absurd hdvd (by decide)
  · exact absurd hwrapped (by decide)

end Region

end MoDb.Net
