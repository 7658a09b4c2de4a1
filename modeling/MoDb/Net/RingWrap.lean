import MoDb.Net.RingFifo

/-!
# A position that comes round

A word of 64 bits is no multiple of most rings. Where a position passes the end of its word the next
frame is not stored after the one before it, and may be stored over it.
-/

namespace MoDb.Net.Ring

open Storage

variable {ring : Ring}

/-- All that was written was freed, and nobody is at work. -/
structure Drained (ring : Ring) (position : Nat) : Prop where
  ringBytes_eq : ring.ringBytes = 4104
  head_eq : ring.head = position
  tail_eq : ring.tail = position
  idle : ring.producer = .idle
  seen : ring.seen = none
  popped_eq : ring.popped = ring.written.map fun item => item.2.bytes

def wholeRing : Frame := filled 4104 (by decide) 0

theorem Drained.cycle {position : Nat} (h : ring.Drained position) (hstart : position % 4104 = 0)
    (hend : position + 4104 < 2 ^ 64) :
    (ring.run (writing wholeRing ++ reading)).Drained (position + 4104) := by
  have hlength : wholeRing.bytes.length = 4104 := length_filled _ _ _
  have hroom : room wholeRing = 4104 := room_filled _ _ _
  have hlong : align8 wholeRing.bytes.length = 4104 := hroom
  have hnext : addPos position 4104 = position + 4104 := addPos_of_lt hend
  have hfits : ring.tail % ring.ringBytes + room wholeRing ≤ ring.ringBytes := by
    rw [h.tail_eq, h.ringBytes_eq, hroom, hstart]
  have hfree : subPos (addPos ring.tail (room wholeRing)) ring.head ≤ ring.ringBytes := by
    rw [h.tail_eq, h.head_eq, h.ringBytes_eq, hroom, hnext, subPos_of_le (by omega) hend]
    omega
  rw [run_append, run_writing h.idle hfits hfree, hroom, h.tail_eq, hnext]
  have hread := @run_reading { ring with
    data := copyTo ring.data (position % ring.ringBytes) wholeRing.bytes
    tail := position + 4104
    written := ring.written ++ [(position, wholeRing)]
    reserved := ring.reserved + 4104 } wholeRing.bytes h.seen (by dsimp only; rw [h.head_eq]; omega)
    (by dsimp only; rw [h.head_eq]; exact readArea_copyTo_self _ _ _)
    (by rw [hlength]; decide) wholeRing.length_prefix
    (by dsimp only; rw [h.head_eq, h.ringBytes_eq, hlength, hstart])
    (by dsimp only; rw [h.head_eq, hlong, hnext])
  rw [hread, hlong]
  refine ⟨h.ringBytes_eq, ?_, rfl, h.idle, h.seen, ?_⟩
  · dsimp only
    rw [h.head_eq, hnext]
  · dsimp only
    rw [List.map_append, ← h.popped_eq]
    rfl

theorem exists_drained (data : Area) (rounds : Nat) (hrounds : rounds ≤ 4494820680728448) :
    ∃ actions, ((fresh 4104 data).run actions).Drained (rounds * 4104) := by
  induction rounds with
  | zero => exact ⟨[], rfl, rfl, rfl, rfl, rfl, rfl⟩
  | succ rounds ih =>
    obtain ⟨actions, hdrained⟩ := ih (by omega)
    refine ⟨actions ++ (writing wholeRing ++ reading), ?_⟩
    rw [run_append, Nat.succ_mul]
    exact hdrained.cycle (Nat.mul_mod_left _ _) (by omega)

/-- Two frames are written where the tail comes round, and the second is read as the first. -/
theorem not_fifo_of_round : ¬∀ requested ringBytes, normalizeRingBytes requested = some ringBytes →
    ∀ data actions, ((fresh ringBytes data).run actions).Fifo := by
  intro hall
  obtain ⟨actions, h⟩ := exists_drained (fun _ => 0) 4494820680728448 (Nat.le_refl _)
  have hposition : 4494820680728448 * 4104 = 2 ^ 64 - 1024 := by decide
  rw [hposition] at h
  have hfifo := hall 4104 4104 (by decide) (fun _ => 0)
    (actions ++ writing (filled 1024 (by decide) 1) ++ writing (filled 1024 (by decide) 2) ++ reading)
  generalize hring : (fresh 4104 fun _ => 0).run actions = ring at h
  rw [run_append, run_append, run_append, hring] at hfifo
  generalize hfirst : filled 1024 (by decide) 1 = first at hfifo
  generalize hsecond : filled 1024 (by decide) 2 = second at hfifo
  have hlength : second.bytes.length = 1024 := hsecond ▸ length_filled 1024 _ 2
  have hroom : room first = 1024 := hfirst ▸ room_filled 1024 _ 1
  have hroom' : room second = 1024 := hsecond ▸ room_filled 1024 _ 2
  have hlong : align8 second.bytes.length = 1024 := hroom'
  -- The first frame ends with the word, so the tail is the first position again.
  have hround : addPos (2 ^ 64 - 1024) 1024 = 0 := by decide
  rw [run_writing h.idle
    (by rw [h.tail_eq, h.ringBytes_eq, hroom]; decide)
    (by rw [h.tail_eq, h.head_eq, h.ringBytes_eq, hroom]; decide), h.tail_eq, hroom, hround] at hfifo
  rw [@run_writing { ring with
      data := copyTo ring.data ((2 ^ 64 - 1024) % ring.ringBytes) first.bytes
      tail := 0
      written := ring.written ++ [(2 ^ 64 - 1024, first)]
      reserved := ring.reserved + 1024 } second h.idle
    (by dsimp only; rw [h.ringBytes_eq, hroom']; decide)
    (by dsimp only; rw [h.head_eq, h.ringBytes_eq, hroom']; decide), hroom'] at hfifo
  dsimp only at hfifo
  rw [h.ringBytes_eq] at hfifo
  rw [@run_reading { ring with
      ringBytes := 4104
      data := copyTo (copyTo ring.data ((2 ^ 64 - 1024) % 4104) first.bytes) (0 % 4104) second.bytes
      tail := addPos 0 1024
      written := ring.written ++ [(2 ^ 64 - 1024, first)] ++ [(0, second)]
      reserved := ring.reserved + 1024 + 1024 } second.bytes h.seen
    (by dsimp only; rw [h.head_eq]; decide)
    (by dsimp only; rw [h.head_eq]; exact readArea_copyTo_self _ _ _)
    (by rw [hlength]; decide) second.length_prefix
    (by dsimp only; rw [h.head_eq, hlength]; decide)
    (by dsimp only; rw [h.head_eq, hlong]; decide)] at hfifo
  have hpopped := hfifo.popped
  dsimp only at hpopped
  rw [List.append_assoc, List.map_append, ← h.popped_eq, List.prefix_append_right_inj] at hpopped
  have hsame : second.bytes = first.bytes := (List.cons_prefix_cons.1 hpopped).1
  rw [← hfirst, ← hsecond] at hsame
  have hbyte : ∀ size hsize byte, 4 < size →
      (filled size hsize byte).bytes[4]? = some byte := by
    intro size hsize byte hlt
    unfold filled
    rw [List.getElem?_append_right (by rw [length_storeLe]), length_storeLe, Nat.sub_self,
      List.getElem?_replicate, if_pos (by omega)]
  have hlast := congrArg (fun bytes : Bytes => bytes[4]?) hsame
  rw [hbyte _ _ _ (by decide), hbyte _ _ _ (by decide)] at hlast
  exact absurd (Option.some.inj hlast) (by decide)

end MoDb.Net.Ring
