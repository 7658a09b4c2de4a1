import Mathlib.Algebra.Order.Ring.Cast
import Mathlib.Algebra.Order.Field.Basic
import Mathlib.Tactic.Linarith
import Mathlib.Tactic.Ring

/-!
# Token buckets, and what a bucket bounds

A bucket holds at most `burst` tokens and gains `rate` of them in a unit of time. It is refilled when a token
is asked for. A system that pays for each event it counts with a token of one bucket counts at most
`burst + rate * d` events in a window of length `d`, whatever else it does.
-/

namespace Meter

variable {K : Type} [Field K] [LinearOrder K]

/-! ### Buckets -/

structure Bucket (K : Type) where
  tokens : K
  /-- When the bucket was refilled last; a new bucket is full. -/
  filled : Option K

namespace Bucket

def level (rate burst : K) (bucket : Bucket K) (now : K) : K :=
  match bucket.filled with
  | none => burst
  | some last => min burst (bucket.tokens + (now - last) * rate)

def take (rate burst : K) (bucket : Bucket K) (now : K) : Bool × Bucket K :=
  if bucket.level rate burst now < 1 then (false, ⟨bucket.level rate burst now, some now⟩)
  else (true, ⟨bucket.level rate burst now - 1, some now⟩)

/-- No debt, and no refill in the future. -/
structure Valid (bucket : Bucket K) (now : K) : Prop where
  tokens : 0 ≤ bucket.tokens
  filled : ∀ last ∈ bucket.filled, last ≤ now

variable {rate burst now later : K} {bucket : Bucket K}

theorem level_le_burst : bucket.level rate burst now ≤ burst := by
  rw [level]
  cases bucket.filled with
  | none => exact le_refl burst
  | some last => exact min_le_left _ _

theorem level_filled (tokens : K) (h : tokens ≤ burst) :
    (⟨tokens, some now⟩ : Bucket K).level rate burst now = tokens := by
  rw [level]
  dsimp only
  rw [sub_self, zero_mul, add_zero, min_eq_right h]

theorem Valid.mono (h : bucket.Valid now) (hle : now ≤ later) : bucket.Valid later :=
  ⟨h.tokens, fun last hlast => (h.filled last hlast).trans hle⟩

variable [IsStrictOrderedRing K]

theorem level_mono (hrate : 0 ≤ rate) (hle : now ≤ later) :
    bucket.level rate burst later ≤ bucket.level rate burst now + rate * (later - now) := by
  have hgain : 0 ≤ rate * (later - now) := mul_nonneg hrate (sub_nonneg.2 hle)
  rw [level, level]
  cases bucket.filled with
  | none => exact le_add_of_nonneg_right hgain
  | some last =>
    have hsplit : bucket.tokens + (later - last) * rate =
        bucket.tokens + (now - last) * rate + rate * (later - now) := by ring
    dsimp only
    rw [hsplit, ← min_add_add_right]
    exact min_le_min_right _ (le_add_of_nonneg_right hgain)

theorem Valid.level_nonneg (h : bucket.Valid now) (hrate : 0 ≤ rate) (hburst : 0 ≤ burst) :
    0 ≤ bucket.level rate burst now := by
  rw [level]
  cases hfilled : bucket.filled with
  | none => exact hburst
  | some last =>
    have hlast := h.filled last hfilled
    exact le_min hburst (add_nonneg h.tokens (mul_nonneg (sub_nonneg.2 hlast) hrate))

theorem Valid.take (h : bucket.Valid now) (hrate : 0 ≤ rate) (hburst : 0 ≤ burst) :
    (bucket.take rate burst now).2.Valid now := by
  have hlevel := h.level_nonneg hrate hburst
  rw [Bucket.take]
  split
  · exact ⟨hlevel, fun last hlast => (Option.some.inj hlast).ge⟩
  · rename_i hone
    exact ⟨sub_nonneg.2 (not_lt.1 hone), fun last hlast => (Option.some.inj hlast).ge⟩

theorem level_take :
    (bucket.take rate burst now).2.level rate burst now + (if (bucket.take rate burst now).1 then 1 else 0) =
      bucket.level rate burst now := by
  have hburst : bucket.level rate burst now ≤ burst := level_le_burst
  rw [take]
  split
  · rw [level_filled _ hburst, if_neg Bool.false_ne_true, add_zero]
  · rw [level_filled _ ((sub_le_self _ zero_le_one).trans hburst), if_pos rfl, sub_add_cancel]

end Bucket

/-! ### Counting -/

section Tally

variable {σ ε : Type} (step : σ → ε → σ) (counts : σ → ε → Bool)

def tally : σ → List ε → Nat
  | _, [] => 0
  | state, event :: rest => (if counts state event then 1 else 0) + tally (step state event) rest

theorem tally_eq_zero {events : List ε} (h : ∀ event ∈ events, ∀ state, counts state event = false) (state : σ) :
    tally step counts state events = 0 := by
  induction events generalizing state with
  | nil => rfl
  | cons event rest ih =>
    rw [tally, h event List.mem_cons_self, ih fun other hother => h other (List.mem_cons_of_mem _ hother)]
    rfl

omit [Field K] in
theorem tally_eq_zero_of_lt {time : ε → K} {finish : K} {event : ε} {rest : List ε}
    (hfirst : ∀ next ∈ rest, time event ≤ time next)
    (hends : ∀ state, ∀ next ∈ event :: rest, counts state next → time next ≤ finish)
    (hlate : finish < time event) (state : σ) : tally step counts state (event :: rest) = 0 := by
  apply tally_eq_zero
  intro next hnext state
  rw [Bool.eq_false_iff]
  intro hcounts
  have hle := hends state next hnext hcounts
  rcases List.mem_cons.1 hnext with rfl | hmem
  · exact not_le.2 hlate hle
  · exact not_le.2 hlate ((hfirst next hmem).trans hle)

/-- A level that no event raises, from which each event that counts takes one, and that time raises by at most
`rate`, and never above `burst`. -/
structure Metered (time : ε → K) (rate burst : K) (valid : σ → K → Prop) (level : σ → K → K) : Prop where
  cap : ∀ state now, level state now ≤ burst
  gain : ∀ state now later, now ≤ later → level state later ≤ level state now + rate * (later - now)
  nonneg : ∀ state now, valid state now → 0 ≤ level state now
  later : ∀ state now later, valid state now → now ≤ later → valid state later
  keep : ∀ state event, valid state (time event) → valid (step state event) (time event)
  charge : ∀ state event, valid state (time event) →
    level (step state event) (time event) + (if counts state event then 1 else 0) ≤ level state (time event)

variable {step counts} [IsStrictOrderedRing K] {time : ε → K} {rate burst : K} {valid : σ → K → Prop}
  {level : σ → K → K}

theorem Metered.tally_le_level (h : Metered step counts time rate burst valid level) (hrate : 0 ≤ rate) {finish : K}
    {events : List ε} (hsorted : events.Pairwise fun event next => time event ≤ time next)
    (hends : ∀ state, ∀ event ∈ events, counts state event → time event ≤ finish) {state : σ} {now : K}
    (hvalid : valid state now) (hnow : ∀ event ∈ events, now ≤ time event) (hle : now ≤ finish) :
    (tally step counts state events : K) ≤ level state now + rate * (finish - now) := by
  induction events generalizing state now with
  | nil =>
    rw [tally, Nat.cast_zero]
    exact add_nonneg (h.nonneg _ _ hvalid) (mul_nonneg hrate (sub_nonneg.2 hle))
  | cons event rest ih =>
    obtain ⟨hfirst, hrest⟩ := List.pairwise_cons.1 hsorted
    have hnow' := hnow event List.mem_cons_self
    by_cases hin : time event ≤ finish
    · have hlater := h.later state now (time event) hvalid hnow'
      have hih := ih hrest (fun state other hother => hends state other (List.mem_cons_of_mem _ hother))
        (h.keep state event hlater) hfirst hin
      have hcharge := h.charge state event hlater
      have hgain := h.gain state now (time event) hnow'
      have hcast : ((if counts state event then 1 else 0 : Nat) : K) = if counts state event then 1 else 0 :=
        Nat.cast_ite _ _ _ |>.trans (by rw [Nat.cast_one, Nat.cast_zero])
      rw [tally, Nat.cast_add, hcast]
      linarith
    · rw [tally_eq_zero_of_lt step counts hfirst hends (not_le.1 hin), Nat.cast_zero]
      exact add_nonneg (h.nonneg _ _ hvalid) (mul_nonneg hrate (sub_nonneg.2 hle))

theorem Metered.tally_le (h : Metered step counts time rate burst valid level) (hrate : 0 ≤ rate) {start d : K}
    (hd : 0 ≤ d) {events : List ε} (hsorted : events.Pairwise fun event next => time event ≤ time next)
    (hwindow : ∀ state, ∀ event ∈ events, counts state event → start ≤ time event ∧ time event ≤ start + d)
    {state : σ} (hvalid : ∀ event ∈ events, valid state (time event)) (hburst : 0 ≤ burst) :
    (tally step counts state events : K) ≤ rate * d + burst := by
  have hnone : 0 ≤ rate * d + burst := add_nonneg (mul_nonneg hrate hd) hburst
  induction events generalizing state with
  | nil =>
    rw [tally, Nat.cast_zero]
    exact hnone
  | cons event rest ih =>
    obtain ⟨hfirst, hrest⟩ := List.pairwise_cons.1 hsorted
    have hevent := hvalid event List.mem_cons_self
    by_cases hbefore : time event < start
    · have hcounts : counts state event = false := by
        rw [Bool.eq_false_iff]
        exact fun hcounts => not_le.2 hbefore (hwindow state event List.mem_cons_self hcounts).1
      rw [tally, hcounts, if_neg Bool.false_ne_true, Nat.zero_add]
      exact ih hrest (fun state other hother => hwindow state other (List.mem_cons_of_mem _ hother))
        fun other hother => h.later _ _ _ (h.keep state event hevent) (hfirst other hother)
    · have hstart := not_lt.1 hbefore
      by_cases hin : time event ≤ start + d
      · have hle := h.tally_le_level hrate hsorted (fun state other hother hcounts =>
            (hwindow state other hother hcounts).2) hevent (fun other hother => by
              rcases List.mem_cons.1 hother with rfl | hmem
              · exact le_refl _
              · exact hfirst other hmem) hin
        have hcap := h.cap state (time event)
        have hlength : rate * (start + d - time event) ≤ rate * d := by
          apply mul_le_mul_of_nonneg_left _ hrate
          linarith
        linarith
      · rw [tally_eq_zero_of_lt step counts hfirst (fun state other hother hcounts =>
          (hwindow state other hother hcounts).2) (not_le.1 hin), Nat.cast_zero]
        exact hnone

end Tally

end Meter
