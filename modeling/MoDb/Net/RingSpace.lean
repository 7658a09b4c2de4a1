import MoDb.Net.RingWrap

/-!
# Space for a frame

A ring from which all was consumed is not free for every frame. A frame is not split, so it has to fit
before the end of the ring or, with the rest of the ring lost to padding, before the position where the
ring stands. A long frame fits neither way, and it never will: the position moves only with a frame.
-/

namespace MoDb.Net.Ring

open Storage

variable {ring : Ring} {ringBytes : Nat}

/-- `try_write` goes through to `true`. -/
def accepts (ring : Ring) (frame : Frame) : Bool :=
  match (ring.tryWrite frame).producer with
  | .idle => false
  | .writing .. => true

/-- There is space up to the end of the ring, or up to the offset of the tail. -/
def Fits (ring : Ring) (frame : Frame) : Prop :=
  ring.tail % ring.ringBytes + room frame ≤ ring.ringBytes ∨ room frame ≤ ring.tail % ring.ringBytes

theorem subPos_addPos_self {p n : Nat} (hp : p < 2 ^ 64) (hn : n < 2 ^ 64) :
    subPos (addPos p n) p = n := by
  unfold subPos addPos
  omega

theorem accepts_iff {frame : Frame} (hbytes : ring.ringBytes < 2 ^ 32) (hpos : 0 < ring.ringBytes)
    (htail : ring.tail < 2 ^ 64) (hidle : ring.producer = .idle) (hdrained : ring.head = ring.tail)
    (hroom : room frame ≤ ring.ringBytes) : ring.accepts frame = true ↔ ring.Fits frame := by
  have hoffset : ring.tail % ring.ringBytes < ring.ringBytes := Nat.mod_lt _ hpos
  have hlength := frame.length_bytes
  have hneed : room frame = align8 frame.bytes.length := rfl
  have hsmall : ¬(frame.bytes.length < 5 ∨ align8 frame.bytes.length > ring.ringBytes) := by omega
  unfold accepts Ring.tryWrite Fits
  dsimp only
  rw [if_neg hsmall, hdrained, ← hneed]
  by_cases hend : room frame > ring.ringBytes - ring.tail % ring.ringBytes
  · rw [if_pos hend, subPos_addPos_self htail (by omega)]
    by_cases hfree : ring.ringBytes - ring.tail % ring.ringBytes + room frame > ring.ringBytes
    · rw [if_pos hfree, hidle]
      exact iff_of_false nofun (by omega)
    · rw [if_neg hfree, if_pos hend]
      exact iff_of_true rfl (by omega)
  · rw [if_neg hend, subPos_addPos_self htail (by omega), if_neg (by omega), if_neg hend]
    exact iff_of_true rfl (by omega)

/-! ### The positions of a run -/

/-- The positions are words, and the size of the ring does not change. -/
structure Bounded (ringBytes : Nat) (ring : Ring) : Prop where
  bytes : ring.ringBytes = ringBytes
  tail : ring.tail < 2 ^ 64
  stop : ∀ {frame position stores stop}, ring.producer = .writing frame position stores stop →
    stop < 2 ^ 64

theorem addPos_lt (p n : Nat) : addPos p n < 2 ^ 64 := Nat.mod_lt _ (Nat.two_pow_pos 64)

theorem Bounded.tryWrite (h : ring.Bounded ringBytes) (frame : Frame) :
    (ring.tryWrite frame).Bounded ringBytes := by
  unfold Ring.tryWrite
  dsimp only
  split
  · exact h
  · split
    · split
      · exact h
      · refine ⟨h.bytes, h.tail, ?_⟩
        intro frame position stores stop hproducer
        cases hproducer
        exact addPos_lt _ _
    · split
      · exact h
      · refine ⟨h.bytes, h.tail, ?_⟩
        intro frame position stores stop hproducer
        cases hproducer
        exact addPos_lt _ _

theorem Bounded.round (h : ring.Bounded ringBytes) (seen : Nat) : (ring.round seen).Bounded ringBytes := by
  unfold Ring.round
  dsimp only
  split
  · exact ⟨h.bytes, h.tail, h.stop⟩
  · split
    · exact ⟨h.bytes, h.tail, h.stop⟩
    · split
      · exact ⟨h.bytes, h.tail, h.stop⟩
      · exact ⟨h.bytes, h.tail, h.stop⟩

theorem Bounded.pop (h : ring.Bounded ringBytes) : ring.pop.Bounded ringBytes := by
  unfold Ring.pop
  split
  · exact h
  · exact ⟨h.bytes, h.tail, h.stop⟩

theorem Bounded.step (h : ring.Bounded ringBytes) (action : RingAction) :
    (ring.step action).Bounded ringBytes := by
  cases action with
  | tryWrite frame =>
    unfold Ring.step
    cases hproducer : ring.producer with
    | idle => exact h.tryWrite frame
    | writing frame position stores stop => exact h
  | store index =>
    unfold Ring.step
    cases hproducer : ring.producer with
    | idle => exact h
    | writing frame position stores stop =>
      cases hstore : stores[index]? with
      | none => simpa only [hstore] using h
      | some store =>
        simp only [hstore]
        refine ⟨h.bytes, h.tail, ?_⟩
        intro frame' position' stores' stop' hwriting
        cases hwriting
        exact h.stop hproducer
  | publish =>
    unfold Ring.step
    cases hproducer : ring.producer with
    | idle => exact h
    | writing frame position stores stop =>
      cases stores with
      | nil => exact ⟨h.bytes, h.stop hproducer, nofun⟩
      | cons store rest => exact h
  | peek =>
    change (if ring.seen = none then { ring with seen := some ring.tail, span := none } else ring).Bounded _
    split
    · exact ⟨h.bytes, h.tail, h.stop⟩
    · exact h
  | round =>
    unfold Ring.step
    cases hseen : ring.seen with
    | none => exact h
    | some seen => exact h.round seen
  | pop =>
    change (if ring.seen = none then ring.pop else ring).Bounded _
    split
    · exact h.pop
    · exact h

theorem bounded_run (h : ring.Bounded ringBytes) (actions : List RingAction) :
    (ring.run actions).Bounded ringBytes := by
  induction actions generalizing ring with
  | nil => exact h
  | cons action actions ih => exact ih (h.step action)

theorem bounded_fresh (ringBytes : Nat) (data : Area) : (fresh ringBytes data).Bounded ringBytes :=
  ⟨rfl, Nat.two_pow_pos 64, nofun⟩

theorem normalizeRingBytes_lt {requested : Nat} (h : normalizeRingBytes requested = some ringBytes) :
    0 < ringBytes ∧ ringBytes < 2 ^ 32 := by
  unfold normalizeRingBytes at h
  split at h
  · cases h
    decide
  · split at h
    · cases h
    · rename_i hsize
      cases h
      unfold k_min_ring_bytes k_max_ring_bytes at hsize
      unfold align8
      omega

/-! ### A producer that tries again -/

def Retries (frame : Frame) : RingAction → Prop
  | .tryWrite frame' => frame' = frame
  | .store _ | .publish => False
  | .peek | .round | .pop => True

/-- Nobody is at work, and nothing is in the ring. -/
structure Rests (position : Nat) (ring : Ring) : Prop where
  idle : ring.producer = .idle
  head : ring.head = position
  tail : ring.tail = position
  seen : ring.seen = none ∨ ring.seen = some position
  pending : ring.pending = 0

theorem tryWrite_cases (ring : Ring) (frame : Frame) : ring.tryWrite frame = ring ∨
    ∃ position stores stop, (ring.tryWrite frame).producer = .writing frame position stores stop := by
  unfold Ring.tryWrite
  dsimp only
  split
  · exact .inl rfl
  · split
    · split
      · exact .inl rfl
      · exact .inr ⟨_, _, _, rfl⟩
    · split
      · exact .inl rfl
      · exact .inr ⟨_, _, _, rfl⟩

theorem tryWrite_of_not_accepts {frame : Frame} (h : ring.accepts frame = false) :
    ring.tryWrite frame = ring := by
  rcases ring.tryWrite_cases frame with hsame | ⟨position, stores, stop, hwriting⟩
  · exact hsame
  · unfold accepts at h
    rw [hwriting] at h
    cases h

theorem Rests.retry {frame : Frame} {position : Nat} (h : ring.Rests position)
    (hrejected : ring.accepts frame = false) {action : RingAction}
    (hretries : Retries frame action) : (ring.step action).Rests position := by
  cases action with
  | tryWrite frame' =>
    cases hretries
    have hstep : ring.step (.tryWrite frame) = ring := by
      unfold Ring.step
      simp only [h.idle]
      exact tryWrite_of_not_accepts hrejected
    rw [hstep]
    exact h
  | store index => cases hretries
  | publish => cases hretries
  | peek =>
    change (if ring.seen = none then { ring with seen := some ring.tail, span := none } else ring).Rests _
    split
    · exact ⟨h.idle, h.head, h.tail, .inr (congrArg some h.tail), h.pending⟩
    · exact h
  | round =>
    unfold Ring.step
    rcases h.seen with hseen | hseen
    · rw [hseen]
      exact h
    · rw [hseen]
      dsimp only
      unfold Ring.round
      rw [if_pos h.head]
      exact ⟨h.idle, h.head, h.tail, .inl rfl, h.pending⟩
  | pop =>
    change (if ring.seen = none then ring.pop else ring).Rests _
    split
    · unfold Ring.pop
      rw [if_pos h.pending]
      exact h
    · exact h

theorem rejected_run {frame : Frame} {position : Nat} (hlt : 0 < ringBytes ∧ ringBytes < 2 ^ 32)
    (h : ring.Rests position) (hbounded : ring.Bounded ringBytes) (hroom : room frame ≤ ringBytes)
    (hnot : ¬ring.Fits frame) {more : List RingAction} (hmore : ∀ action ∈ more, Retries frame action) :
    (ring.run more).accepts frame = false := by
  have hiff : ∀ {ring : Ring}, ring.Rests position → ring.Bounded ringBytes →
      (ring.accepts frame = true ↔ ring.Fits frame) := by
    intro ring h hbounded
    apply accepts_iff
    · rw [hbounded.bytes]
      exact hlt.2
    · rw [hbounded.bytes]
      exact hlt.1
    · exact hbounded.tail
    · exact h.idle
    · rw [h.head, h.tail]
    · rw [hbounded.bytes]
      exact hroom
  have hfits : ∀ {ring' : Ring}, ring'.Rests position → ring'.Bounded ringBytes → ¬ring'.Fits frame := by
    intro ring' h' hbounded'
    unfold Fits at hnot ⊢
    rw [h'.tail, hbounded'.bytes]
    rwa [h.tail, hbounded.bytes] at hnot
  induction more generalizing ring with
  | nil => exact eq_false_of_ne_true fun haccepts => hnot ((hiff h hbounded).1 haccepts)
  | cons action more ih =>
    have hrejected := eq_false_of_ne_true fun haccepts => hnot ((hiff h hbounded).1 haccepts)
    have hrests := h.retry hrejected (hmore action List.mem_cons_self)
    have hstill := hbounded.step action
    exact ih hrests hstill (hfits hrests hstill) fun other hmem => hmore other (List.mem_cons_of_mem _ hmem)

/-- In every reachable state in which all was consumed, a frame that is no longer than the ring is
accepted if and only if it fits; one that does not fit is rejected as long as its producer tries. -/
theorem accepts_drained_iff {requested : Nat} (hsize : normalizeRingBytes requested = some ringBytes)
    (data : Area) (actions : List RingAction)
    (hidle : ((fresh ringBytes data).run actions).producer = .idle)
    (hdrained : ((fresh ringBytes data).run actions).head = ((fresh ringBytes data).run actions).tail)
    (frame : Frame) (hroom : room frame ≤ ringBytes) :
    (((fresh ringBytes data).run actions).accepts frame = true ↔
      ((fresh ringBytes data).run actions).Fits frame) ∧
    (((fresh ringBytes data).run actions).seen = none →
      ((fresh ringBytes data).run actions).pending = 0 →
      ¬((fresh ringBytes data).run actions).Fits frame →
      ∀ more : List RingAction, (∀ action ∈ more, Retries frame action) →
        (((fresh ringBytes data).run actions).run more).accepts frame = false) := by
  have hlt := normalizeRingBytes_lt hsize
  have hbounded := bounded_run (bounded_fresh ringBytes data) actions
  constructor
  · apply accepts_iff
    · rw [hbounded.bytes]
      exact hlt.2
    · rw [hbounded.bytes]
      exact hlt.1
    · exact hbounded.tail
    · exact hidle
    · exact hdrained
    · rw [hbounded.bytes]
      exact hroom
  · intro hseen hpending hnot more hmore
    exact rejected_run hlt ⟨hidle, hdrained, rfl, .inl hseen, hpending⟩ hbounded hroom hnot hmore

/-- A ring that has carried a frame of five bytes takes another one. -/
theorem accepts_second : ((fresh 4096 fun _ => 0).run
    (writing (filled 5 (by decide) 7) ++ reading)).accepts (filled 5 (by decide) 8) = true :=
  (accepts_drained_iff (show normalizeRingBytes 4096 = some 4096 by decide) _ _ rfl (by decide) _
    (by decide)).1.2 (by unfold Fits; decide)

/-- It never takes one as long as the ring again. -/
theorem not_accepts_whole : ∃ actions, ((fresh 4096 fun _ => 0).run actions).producer = .idle ∧
    ((fresh 4096 fun _ => 0).run actions).head = ((fresh 4096 fun _ => 0).run actions).tail ∧
    room (filled 4096 (by decide) 0) ≤ 4096 ∧
    ∀ retries : List RingAction, (∀ action ∈ retries, Retries (filled 4096 (by decide) 0) action) →
      (((fresh 4096 fun _ => 0).run actions).run retries).accepts (filled 4096 (by decide) 0) = false := by
  have hroom : room (filled 4096 (by decide) 0) = 4096 := room_filled 4096 (by decide) 0
  refine ⟨writing (filled 5 (by decide) 7) ++ reading, rfl, by decide, Nat.le_of_eq hroom, ?_⟩
  intro retries hretries
  have hbounded := bounded_run (bounded_fresh 4096 fun _ => 0) (writing (filled 5 (by decide) 7) ++ reading)
  have hrests : ((fresh 4096 fun _ => 0).run (writing (filled 5 (by decide) 7) ++ reading)).Rests 8 :=
    ⟨rfl, by decide, by decide, .inl (by decide), by decide⟩
  apply rejected_run (by decide) hrests hbounded (Nat.le_of_eq hroom) _ hretries
  unfold Fits
  rw [hrests.tail, hbounded.bytes, hroom]
  decide

end MoDb.Net.Ring
