import MoDb.Lib.Circular
import MoDb.Net.ShmRing

/-!
# The ring is a channel

Between head and tail lie the frames that were published and not freed, one after the other. What
the producer stores is after the tail and less than a round after the head, so it is in none of them.
-/

namespace MoDb.Net

open Storage Circular

/-! ### Words and copies -/

theorem le_align8 (n : Nat) : n ≤ align8 n := by
  unfold align8
  omega

theorem dvd_align8 (n : Nat) : 8 ∣ align8 n := Nat.dvd_mul_left 8 _

theorem align8_pos {n : Nat} (h : 0 < n) : 0 < align8 n := Nat.lt_of_lt_of_le h (le_align8 n)

theorem addPos_of_lt {p n : Nat} (h : p + n < 2 ^ 64) : addPos p n = p + n := Nat.mod_eq_of_lt h

theorem subPos_of_le {p q : Nat} (hle : q ≤ p) (hp : p < 2 ^ 64) : subPos p q = p - q := by
  unfold subPos
  omega

namespace Ring

theorem mem_copies {offset : Nat} {bytes : Bytes} {o : Nat} {byte : UInt8} :
    (o, byte) ∈ copies offset bytes ↔ ∃ i, bytes[i]? = some byte ∧ o = offset + i := by
  induction bytes generalizing offset with
  | nil => simp [copies]
  | cons first rest ih =>
    rw [copies, List.mem_cons, ih]
    constructor
    · rintro (heq | ⟨i, hbyte, ho⟩)
      · injection heq with ho hbyte
        exact ⟨0, congrArg some hbyte.symm, ho⟩
      · exact ⟨i + 1, hbyte, by omega⟩
    · rintro ⟨i, hbyte, ho⟩
      cases i with
      | zero => exact .inl (by rw [Option.some.inj hbyte, ho]; rfl)
      | succ i => exact .inr ⟨i, hbyte, by omega⟩

theorem readArea_of_copies {data : Area} {offset : Nat} {bytes : Bytes}
    (h : ∀ store ∈ copies offset bytes, data store.1 = store.2) :
    readArea data offset bytes.length = bytes := by
  apply List.ext_getElem
  · simp
  · intro i hi hi'
    have hbyte : data (offset + i) = bytes[i] :=
      h (offset + i, bytes[i]) (mem_copies.2 ⟨i, List.getElem?_eq_getElem hi', rfl⟩)
    rw [← hbyte]
    simp [readArea]

/-! ### What lies in the ring -/

def room (frame : Frame) : Nat := align8 frame.bytes.length

def Holds (ringBytes : Nat) (data : Area) (position : Nat) (frame : Frame) : Prop :=
  readArea data (position % ringBytes) frame.bytes.length = frame.bytes

def Skips (ringBytes : Nat) (data : Area) (position : Nat) : Prop :=
  position % ringBytes + 4 ≤ ringBytes ∧
    loadLe (readArea data (position % ringBytes) 4) = k_padding_marker

abbrev LaidOut (ringBytes : Nat) (data : Area) (first : Nat) (frames : List (Nat × Frame))
    (stop : Nat) : Prop :=
  Laid ringBytes room (Holds ringBytes data) (Skips ringBytes data) first frames stop

variable {ringBytes : Nat} {data : Area} {first stop : Nat} {frames : List (Nat × Frame)}

theorem room_pos (frame : Frame) : 0 < room frame :=
  align8_pos (Nat.lt_of_lt_of_le (by decide) frame.length_bytes)

theorem LaidOut.update (h : LaidOut ringBytes data first frames stop) {position : Nat}
    (hafter : stop ≤ position) (hround : position < first + ringBytes) (byte : UInt8) :
    LaidOut ringBytes (Function.update data (position % ringBytes) byte) first frames stop := by
  have hread : ∀ p size room, first ≤ p → p + room ≤ stop → p % ringBytes + room ≤ ringBytes →
      size ≤ room → readArea (Function.update data (position % ringBytes) byte) (p % ringBytes) size =
        readArea data (p % ringBytes) size := by
    intro p size room hfirst hstop hfits hsize
    have houtside := outside_of_fits hfirst hfits (Nat.le_trans hstop hafter) hround
    apply readArea_congr
    intro i hlow hhigh
    apply Function.update_of_ne
    omega
  apply h.congr
  · intro p frame hfirst hstop hfits hholds
    exact (hread p _ _ hfirst hstop hfits (le_align8 _)).trans hholds
  · intro p hfirst hstop hskips
    obtain ⟨hroom, hmarker⟩ := hskips
    refine ⟨hroom, ?_⟩
    rw [hread p 4 (ringBytes - p % ringBytes) hfirst hstop (by omega) (by omega)]
    exact hmarker

/-! ### What the producer is about to store -/

/-- All the stores of a call of `try_write`. -/
def planned (ringBytes tail position : Nat) (frame : Frame) : List (Nat × UInt8) :=
  if position = tail then copies (position % ringBytes) frame.bytes
  else copies (tail % ringBytes) (storeLe 4 k_padding_marker) ++ copies 0 frame.bytes

/-- The frame will be at `position`, either the tail or the beginning of the next round, and end at
`stop`. -/
structure Writing (ring : Ring) (frame : Frame) (position : Nat) (stores : List (Nat × UInt8))
    (stop : Nat) : Prop where
  reserved_eq : ring.reserved = stop
  stop_eq : stop = position + room frame
  fits : position % ring.ringBytes + room frame ≤ ring.ringBytes
  place : position = ring.tail ∨ position = ring.tail + (ring.ringBytes - ring.tail % ring.ringBytes)
  dvd : 8 ∣ position
  round : stop ≤ ring.head + ring.ringBytes
  /-- What is not stored yet is planned, and what is planned is stored or will be. -/
  planned : ∀ store ∈ stores, store ∈ planned ring.ringBytes ring.tail position frame
  stored : ∀ store ∈ Ring.planned ring.ringBytes ring.tail position frame,
    ring.data store.1 = store.2 ∨ store ∈ stores

def Producing (ring : Ring) : Prop :=
  match ring.producer with
  | .idle => ring.reserved = ring.tail
  | .writing frame position stores stop => ring.Writing frame position stores stop

def flight (ring : Ring) : List (Nat × Frame) := ring.written.drop ring.popped.length

/-- The frame that the last `peek` returned. -/
def Peeked (ring : Ring) : Prop :=
  ∃ frame rest, ring.flight = (ring.head, frame) :: rest ∧ ring.pending = room frame ∧
    frame.bytes.length ≤ maxFrameBytes + 4 ∧
    (ring.seen = none → ring.span = some (ring.head % ring.ringBytes, frame.bytes.length))

/-- The invariant, as long as no position has come round. -/
structure Inv (ring : Ring) : Prop where
  dvd : 8 ∣ ring.ringBytes
  pos : 0 < ring.ringBytes
  le_max : ring.ringBytes ≤ k_max_ring_bytes
  head_dvd : 8 ∣ ring.head
  tail_dvd : 8 ∣ ring.tail
  tail_le : ring.tail ≤ ring.head + ring.ringBytes
  tail_lt : ring.tail < 2 ^ 64
  popped_le : ring.popped.length ≤ ring.written.length
  popped_eq : ring.popped = (ring.written.take ring.popped.length).map fun item => item.2.bytes
  laid : LaidOut ring.ringBytes ring.data ring.head ring.flight ring.tail
  producing : ring.Producing
  seen : ∀ seen, ring.seen = some seen → ∃ front back, ring.flight = front ++ back ∧
    LaidOut ring.ringBytes ring.data ring.head front seen ∧
    LaidOut ring.ringBytes ring.data seen back ring.tail ∧ (ring.pending ≠ 0 → front ≠ [])
  peeked : ring.pending ≠ 0 → ring.Peeked
  span : ∀ span, ring.span = some span → ring.seen = none ∧ ring.pending ≠ 0

variable {ring : Ring}

theorem Inv.head_le (h : ring.Inv) : ring.head ≤ ring.tail := h.laid.le

theorem room_before_end {p : Nat} (hdvd : 8 ∣ ringBytes) (hpos : 0 < ringBytes) (hp : 8 ∣ p) :
    8 ∣ p % ringBytes ∧ 8 ∣ ringBytes - p % ringBytes ∧ p % ringBytes + 8 ≤ ringBytes := by
  have hlt := Nat.mod_lt p hpos
  have hmod : 8 ∣ p % ringBytes := (Nat.dvd_mod_iff hdvd).2 hp
  refine ⟨hmod, Nat.dvd_sub hdvd hmod, ?_⟩
  omega

theorem Writing.position_of_planned {frame : Frame} {position stop : Nat}
    {stores : List (Nat × UInt8)} (h : ring.Writing frame position stores stop) (hinv : ring.Inv)
    {store : Nat × UInt8} (hstore : store ∈ Ring.planned ring.ringBytes ring.tail position frame) :
    ∃ p, ring.tail ≤ p ∧ p < stop ∧ store.1 = p % ring.ringBytes := by
  have hstop := h.stop_eq
  have hlength := le_align8 frame.bytes.length
  have hfits := h.fits
  unfold room at hstop hfits
  obtain ⟨offset, byte⟩ := store
  have hframe : ∀ i, frame.bytes[i]? = some byte → offset = position % ring.ringBytes + i →
      ring.tail ≤ position → ∃ p, ring.tail ≤ p ∧ p < stop ∧ offset = p % ring.ringBytes := by
    intro i hbyte ho hle
    obtain ⟨hi, -⟩ := List.getElem?_eq_some_iff.1 hbyte
    refine ⟨position + i, by omega, by omega, ?_⟩
    rw [mod_add_of_fits hfits (by omega)]
    exact ho
  unfold Ring.planned at hstore
  split at hstore
  · rename_i heq
    obtain ⟨i, hbyte, ho⟩ := mem_copies.1 hstore
    exact hframe i hbyte ho (by omega)
  · rename_i hne
    have hposition := h.place.resolve_left hne
    obtain ⟨-, -, hroom⟩ := room_before_end hinv.dvd hinv.pos hinv.tail_dvd
    rcases List.mem_append.1 hstore with hmarker | hstore
    · obtain ⟨i, hbyte, ho⟩ := mem_copies.1 hmarker
      obtain ⟨hi, -⟩ := List.getElem?_eq_some_iff.1 hbyte
      rw [length_storeLe] at hi
      refine ⟨ring.tail + i, by omega, by omega, ?_⟩
      rw [@mod_add_of_fits ring.ringBytes ring.tail i 8 hroom (by omega)]
      exact ho
    · obtain ⟨i, hbyte, ho⟩ := mem_copies.1 hstore
      refine hframe i hbyte ?_ (by omega)
      rw [hposition, mod_skip hinv.pos]
      exact ho

theorem Writing.functional {frame : Frame} {position stop : Nat} {stores : List (Nat × UInt8)}
    (h : ring.Writing frame position stores stop) (hinv : ring.Inv) {offset : Nat}
    {byte byte' : UInt8}
    (hbyte : (offset, byte) ∈ Ring.planned ring.ringBytes ring.tail position frame)
    (hbyte' : (offset, byte') ∈ Ring.planned ring.ringBytes ring.tail position frame) :
    byte = byte' := by
  have hcopies : ∀ {first : Nat} {bytes : Bytes}, (offset, byte) ∈ copies first bytes →
      (offset, byte') ∈ copies first bytes → byte = byte' := by
    intro first bytes hin hin'
    obtain ⟨i, hi, ho⟩ := mem_copies.1 hin
    obtain ⟨i', hi', ho'⟩ := mem_copies.1 hin'
    rw [show i' = i by omega, hi] at hi'
    exact Option.some.inj hi'
  unfold Ring.planned at hbyte hbyte'
  by_cases heq : position = ring.tail
  · rw [if_pos heq] at hbyte hbyte'
    exact hcopies hbyte hbyte'
  · rw [if_neg heq] at hbyte hbyte'
    have hposition := h.place.resolve_left heq
    have hstop := h.stop_eq
    have hround := h.round
    have hhead := hinv.head_le
    -- The frame ends before the marker, since both are within one round.
    have hapart : ∀ {b b' : UInt8}, (offset, b) ∈ copies (ring.tail % ring.ringBytes)
        (storeLe 4 k_padding_marker) → (offset, b') ∈ copies 0 frame.bytes → False := by
      intro b b' hmarker hframe
      obtain ⟨i, hi, ho⟩ := mem_copies.1 hmarker
      obtain ⟨i', hi', ho'⟩ := mem_copies.1 hframe
      obtain ⟨hlt, -⟩ := List.getElem?_eq_some_iff.1 hi'
      have hlength := le_align8 frame.bytes.length
      unfold room at hstop
      omega
    rcases List.mem_append.1 hbyte with hmarker | hframe
    · rcases List.mem_append.1 hbyte' with hmarker' | hframe'
      · exact hcopies hmarker hmarker'
      · exact (hapart hmarker hframe').elim
    · rcases List.mem_append.1 hbyte' with hmarker' | hframe'
      · exact (hapart hmarker' hframe).elim
      · exact hcopies hframe hframe'

/-! ### The steps of the producer -/

theorem Inv.congr_producer (h : ring.Inv) {producer : Producer} {reserved : Nat}
    (hproducing : Producing { ring with producer := producer, reserved := reserved }) :
    Inv { ring with producer := producer, reserved := reserved } :=
  ⟨h.dvd, h.pos, h.le_max, h.head_dvd, h.tail_dvd, h.tail_le, h.tail_lt, h.popped_le, h.popped_eq,
    h.laid, hproducing, h.seen, h.peeked, h.span⟩

theorem Inv.tryWrite (h : ring.Inv) (hidle : ring.producer = .idle) (frame : Frame)
    (hreserved : (ring.tryWrite frame).reserved < 2 ^ 64) : (ring.tryWrite frame).Inv := by
  have hproducing := h.producing
  unfold Producing at hproducing
  rw [hidle] at hproducing
  have hsame : ring.reserved = ring.tail := hproducing
  have hhead := h.head_le
  have hroom : room frame = align8 frame.bytes.length := rfl
  obtain ⟨hmod, hend, hlast⟩ := room_before_end h.dvd h.pos h.tail_dvd
  unfold Ring.tryWrite at hreserved ⊢
  dsimp only at hreserved ⊢
  by_cases hsize : frame.bytes.length < 5 ∨ align8 frame.bytes.length > ring.ringBytes
  · rw [if_pos hsize]
    exact h
  rw [if_neg hsize] at hreserved ⊢
  by_cases hwraps : align8 frame.bytes.length > ring.ringBytes - ring.tail % ring.ringBytes
  · simp only [if_pos hwraps] at hreserved ⊢
    split at hreserved
    · rename_i hfull
      rw [if_pos hfull]
      exact h
    · rename_i hfull
      rw [if_neg hfull]
      dsimp only at hreserved
      rw [addPos_of_lt (by omega), subPos_of_le (by omega) (by omega)] at hfull
      rw [addPos_of_lt (by omega), addPos_of_lt (by omega)]
      apply h.congr_producer
      refine ⟨by dsimp only; omega, rfl, ?_, .inr rfl, Nat.dvd_add h.tail_dvd hend, ?_, ?_, ?_⟩
      · dsimp only
        rw [mod_skip h.pos, Nat.zero_add]
        omega
      · dsimp only
        omega
      · intro store hstore
        unfold planned
        rw [if_neg (by dsimp only; omega)]
        exact hstore
      · intro store hstore
        unfold planned at hstore
        rw [if_neg (by dsimp only; omega)] at hstore
        exact .inr hstore
  · simp only [if_neg hwraps] at hreserved ⊢
    split at hreserved
    · rename_i hfull
      rw [if_pos hfull]
      exact h
    · rename_i hfull
      rw [if_neg hfull]
      dsimp only at hreserved
      rw [addPos_of_lt (by omega), subPos_of_le (by omega) (by omega)] at hfull
      rw [addPos_of_lt (by omega)]
      apply h.congr_producer
      refine ⟨by dsimp only; omega, rfl, ?_, .inl rfl, h.tail_dvd, ?_, ?_, ?_⟩
      · dsimp only
        omega
      · dsimp only
        omega
      · intro store hstore
        unfold planned
        rw [if_pos rfl]
        exact hstore
      · intro store hstore
        unfold planned at hstore
        rw [if_pos rfl] at hstore
        exact .inr hstore

theorem eq_or_mem_eraseIdx {α : Type} {l : List α} {index : Nat} {a b : α}
    (ha : l[index]? = some a) (hb : b ∈ l) : b = a ∨ b ∈ l.eraseIdx index := by
  induction l generalizing index with
  | nil => exact absurd hb List.not_mem_nil
  | cons first rest ih =>
    cases index with
    | zero =>
      rcases List.mem_cons.1 hb with rfl | hb
      · exact .inl (Option.some.inj ha)
      · exact .inr hb
    | succ index =>
      rcases List.mem_cons.1 hb with rfl | hb
      · exact .inr List.mem_cons_self
      · exact (ih ha hb).imp_right (List.mem_cons_of_mem _)

theorem Inv.store (h : ring.Inv) {frame : Frame} {position stop : Nat}
    {stores : List (Nat × UInt8)} (hproducer : ring.producer = .writing frame position stores stop)
    {index offset : Nat} {byte : UInt8} (hstore : stores[index]? = some (offset, byte)) :
    Inv { ring with
      data := Function.update ring.data offset byte
      producer := .writing frame position (stores.eraseIdx index) stop } := by
  have hwriting : ring.Writing frame position stores stop := by
    have hproducing := h.producing
    unfold Producing at hproducing
    rw [hproducer] at hproducing
    exact hproducing
  have hplanned := hwriting.planned _ (List.mem_of_getElem? hstore)
  obtain ⟨p, hafter, hbefore, hoffset⟩ := hwriting.position_of_planned h hplanned
  have hround := hwriting.round
  have hupdate : ∀ {first stop : Nat} {frames : List (Nat × Frame)},
      LaidOut ring.ringBytes ring.data first frames stop → ring.head ≤ first → stop ≤ ring.tail →
        LaidOut ring.ringBytes (Function.update ring.data offset byte) first frames stop := by
    intro first stop frames hlaid hfirst hstop
    have heq : offset = p % ring.ringBytes := hoffset
    rw [heq]
    exact hlaid.update (Nat.le_trans hstop hafter) (by omega) byte
  refine ⟨h.dvd, h.pos, h.le_max, h.head_dvd, h.tail_dvd, h.tail_le, h.tail_lt, h.popped_le,
    h.popped_eq, hupdate h.laid (Nat.le_refl _) (Nat.le_refl _), ?_, ?_, h.peeked, h.span⟩
  · refine ⟨hwriting.reserved_eq, hwriting.stop_eq, hwriting.fits, hwriting.place, hwriting.dvd,
      hwriting.round, ?_, ?_⟩
    · exact fun other hother => hwriting.planned other (List.mem_of_mem_eraseIdx hother)
    · rintro ⟨o, b⟩ hother
      by_cases ho : o = offset
      · subst ho
        rw [hwriting.functional h hother hplanned]
        exact .inl (Function.update_self _ _ _)
      · rcases hwriting.stored _ hother with hdone | hleft
        · exact .inl ((Function.update_of_ne ho _ _).trans hdone)
        · rcases eq_or_mem_eraseIdx hstore hleft with heq | hleft
          · injection heq with heq
            exact absurd heq ho
          · exact .inr hleft
  · intro seen hseen
    obtain ⟨front, back, hflight, hfront, hback, hne⟩ := h.seen seen hseen
    exact ⟨front, back, hflight, hupdate hfront (Nat.le_refl _) hback.le,
      hupdate hback hfront.le (Nat.le_refl _), hne⟩

theorem Inv.publish (h : ring.Inv) {frame : Frame} {position stop : Nat}
    (hproducer : ring.producer = .writing frame position [] stop) (hreserved : ring.reserved < 2 ^ 64) :
    Inv { ring with
      tail := stop, producer := .idle, written := ring.written ++ [(position, frame)] } := by
  have hwriting : ring.Writing frame position [] stop := by
    have hproducing := h.producing
    unfold Producing at hproducing
    rw [hproducer] at hproducing
    exact hproducing
  have hdone : ∀ store ∈ Ring.planned ring.ringBytes ring.tail position frame,
      ring.data store.1 = store.2 :=
    fun store hstore => (hwriting.stored store hstore).resolve_right List.not_mem_nil
  have hroom : 8 ∣ room frame := dvd_align8 _
  have hstop := hwriting.stop_eq
  have hlaid : LaidOut ring.ringBytes ring.data ring.tail [(position, frame)] stop := by
    have hlast : LaidOut ring.ringBytes ring.data position [(position, frame)] stop ↔
        Holds ring.ringBytes ring.data position frame := by
      constructor
      · exact fun hlaid => (hlaid.bounds List.mem_cons_self).2.2.2
      · intro hholds
        exact .item hwriting.fits hholds (hstop ▸ .nil _)
    unfold planned at hdone
    by_cases heq : position = ring.tail
    · rw [if_pos heq] at hdone
      rw [← heq, hlast]
      exact readArea_of_copies hdone
    · rw [if_neg heq] at hdone
      have hposition := hwriting.place.resolve_left heq
      obtain ⟨-, -, hmarker⟩ := room_before_end h.dvd h.pos h.tail_dvd
      refine .skip ⟨by omega, ?_⟩ ?_
      · have hread := @readArea_of_copies ring.data (ring.tail % ring.ringBytes)
          (storeLe 4 k_padding_marker) fun store hstore => hdone store (List.mem_append_left _ hstore)
        rw [length_storeLe] at hread
        rw [hread]
        exact loadLe_storeLe_of_lt (by decide)
      · rw [← hposition]
        apply hlast.2
        unfold Holds
        rw [hposition, mod_skip h.pos]
        exact readArea_of_copies fun store hstore => hdone store (List.mem_append_right _ hstore)
  have hflight : (ring.written ++ [(position, frame)]).drop ring.popped.length =
      ring.flight ++ [(position, frame)] := List.drop_append_of_le_length h.popped_le
  refine ⟨h.dvd, h.pos, h.le_max, h.head_dvd, ?_, hwriting.round, ?_, ?_, ?_, ?_, ?_, ?_, ?_, h.span⟩
  · exact hstop ▸ Nat.dvd_add hwriting.dvd hroom
  · exact hwriting.reserved_eq ▸ hreserved
  · simp only [List.length_append]
    exact Nat.le_add_right_of_le h.popped_le
  · rw [List.take_append_of_le_length h.popped_le]
    exact h.popped_eq
  · unfold flight
    rw [hflight]
    exact h.laid.append hlaid
  · exact hwriting.reserved_eq
  · intro seen hseen
    obtain ⟨front, back, heq, hfront, hback, hne⟩ := h.seen seen hseen
    refine ⟨front, back ++ [(position, frame)], ?_, hfront, hback.append hlaid, hne⟩
    unfold flight
    rw [hflight, heq, List.append_assoc]
  · intro hpending
    obtain ⟨first, rest, heq, hpeeked⟩ := h.peeked hpending
    refine ⟨first, rest ++ [(position, frame)], ?_, hpeeked⟩
    unfold flight
    rw [hflight, heq, List.cons_append]

/-! ### The steps of the consumer -/

theorem loadLe_of_holds {position : Nat} {frame : Frame} (h : Holds ringBytes data position frame) :
    loadLe (readArea data (position % ringBytes) 4) = frame.bytes.length - 4 := by
  have hlength := frame.length_bytes
  rw [readArea_take (show 4 ≤ frame.bytes.length by omega), h]
  exact frame.length_prefix

theorem round_frame (h : ring.Inv) {frame : Frame} {seen : Nat} (hseen : seen < 2 ^ 64)
    (hholds : Holds ring.ringBytes ring.data ring.head frame)
    (hfits : ring.head % ring.ringBytes + room frame ≤ ring.ringBytes)
    (hstop : ring.head + room frame ≤ seen) :
    ring.round seen = if frame.bytes.length ≤ maxFrameBytes + 4 then
      { ring with
        seen := none
        pending := room frame
        span := some (ring.head % ring.ringBytes, frame.bytes.length) }
      else { ring with seen := none, span := none } := by
  have hlength := frame.length_bytes
  have hle := le_align8 frame.bytes.length
  have hmax := h.le_max
  have hroom : room frame = align8 frame.bytes.length := rfl
  have hword := loadLe_of_holds hholds
  have hsize : 4 + (frame.bytes.length - 4) = frame.bytes.length := by omega
  have hmarker : frame.bytes.length - 4 ≠ k_padding_marker := by
    unfold k_padding_marker k_max_ring_bytes at *
    omega
  unfold Ring.round
  rw [if_neg (by omega)]
  simp only [hword, hsize, if_neg hmarker]
  rw [← hroom, addPos_of_lt (by omega)]
  by_cases hlong : frame.bytes.length ≤ maxFrameBytes + 4
  · rw [if_pos hlong, if_neg (by omega)]
  · rw [if_neg hlong, if_pos (by omega)]

theorem round_skip (h : ring.Inv) {seen : Nat} (hseen : seen < 2 ^ 64)
    (hskips : Skips ring.ringBytes ring.data ring.head)
    (hstop : ring.head + (ring.ringBytes - ring.head % ring.ringBytes) ≤ seen) :
    ring.round seen =
      { ring with head := ring.head + (ring.ringBytes - ring.head % ring.ringBytes) } := by
  have hlt := Nat.mod_lt ring.head h.pos
  unfold Ring.round
  rw [if_neg (by omega)]
  simp only [hskips.2, if_true]
  rw [addPos_of_lt (by omega)]

theorem Inv.producing_head (h : ring.Inv) {head : Nat} (hle : ring.head ≤ head) {pending : Nat}
    {seen : Option Nat} {span : Option (Nat × Nat)} {popped : List Bytes} :
    Producing { ring with
      head := head, pending := pending, seen := seen, span := span, popped := popped } := by
  have hproducing := h.producing
  unfold Producing at hproducing ⊢
  cases hproducer : ring.producer with
  | idle =>
    rw [hproducer] at hproducing
    exact hproducing
  | writing frame position stores stop =>
    simp only [hproducer] at hproducing ⊢
    obtain ⟨hreserved, hstop, hfits, hplace, hdvd, hround, hplanned, hstored⟩ := hproducing
    exact ⟨hreserved, hstop, hfits, hplace, hdvd,
      Nat.le_trans hround (Nat.add_le_add_right hle _), hplanned, hstored⟩

theorem Inv.peek (h : ring.Inv) : Inv { ring with seen := some ring.tail, span := none } := by
  refine ⟨h.dvd, h.pos, h.le_max, h.head_dvd, h.tail_dvd, h.tail_le, h.tail_lt, h.popped_le,
    h.popped_eq, h.laid, h.producing_head (Nat.le_refl _), ?_, ?_, nofun⟩
  · intro seen hseen
    rw [← Option.some.inj hseen]
    refine ⟨ring.flight, [], (List.append_nil _).symm, h.laid, .nil _, fun hpending => ?_⟩
    obtain ⟨frame, rest, hflight, -⟩ := h.peeked hpending
    rw [hflight]
    exact List.cons_ne_nil _ _
  · intro hpending
    obtain ⟨frame, rest, hflight, hroom, hlong, -⟩ := h.peeked hpending
    exact ⟨frame, rest, hflight, hroom, hlong, nofun⟩

theorem Inv.ended (h : ring.Inv) (hpending : ring.pending = 0) :
    Inv { ring with seen := none, span := none } :=
  ⟨h.dvd, h.pos, h.le_max, h.head_dvd, h.tail_dvd, h.tail_le, h.tail_lt, h.popped_le, h.popped_eq,
    h.laid, h.producing_head (Nat.le_refl _), nofun, fun hne => absurd hpending hne, nofun⟩

theorem Inv.round (h : ring.Inv) {seen : Nat} (hseen : ring.seen = some seen) :
    (ring.round seen).Inv := by
  obtain ⟨front, back, hflight, hfront, hback, hne⟩ := h.seen seen hseen
  have hlt : seen < 2 ^ 64 := Nat.lt_of_le_of_lt hback.le h.tail_lt
  have hpeeked : ring.pending ≠ 0 → ∃ frame rest, ring.flight = (ring.head, frame) :: rest ∧
      frame.bytes.length ≤ maxFrameBytes + 4 := by
    intro hpending
    obtain ⟨frame, rest, hhead, -, hlong, -⟩ := h.peeked hpending
    exact ⟨frame, rest, hhead, hlong⟩
  cases hfront with
  | nil =>
    have hround : ring.round ring.head = { ring with seen := none, span := none } := if_pos rfl
    rw [hround]
    apply h.ended
    by_contra hpending
    exact hne hpending rfl
  | @item _ _ frame rest hfits hholds hrest =>
    have hstop := hrest.le
    rw [round_frame h hlt hholds hfits hstop]
    by_cases hlong : frame.bytes.length ≤ maxFrameBytes + 4
    · rw [if_pos hlong]
      refine ⟨h.dvd, h.pos, h.le_max, h.head_dvd, h.tail_dvd, h.tail_le, h.tail_lt, h.popped_le,
        h.popped_eq, h.laid, h.producing_head (Nat.le_refl _), nofun, fun _ => ?_, fun _ _ => ?_⟩
      · exact ⟨frame, rest ++ back, hflight, rfl, hlong, fun _ => rfl⟩
      · exact ⟨rfl, Nat.ne_of_gt (room_pos frame)⟩
    · rw [if_neg hlong]
      apply h.ended
      by_contra hpending
      obtain ⟨frame', rest', hflight', hshort⟩ := hpeeked hpending
      rw [hflight] at hflight'
      injection hflight' with hitem
      injection hitem with _ hframe
      exact hlong (hframe ▸ hshort)
  | @skip _ _ item rest hskips hrest =>
    have hstop := hrest.le
    rw [round_skip h hlt hskips hstop]
    obtain ⟨-, hend, hroom⟩ := room_before_end h.dvd h.pos h.head_dvd
    have hhead := h.head_le
    have htail := h.tail_le
    have hback' := hback.le
    refine ⟨h.dvd, h.pos, h.le_max, Nat.dvd_add h.head_dvd hend, h.tail_dvd, by dsimp only; omega,
      h.tail_lt, h.popped_le, h.popped_eq, ?_, h.producing_head (Nat.le_add_right _ _), ?_, ?_, h.span⟩
    · change LaidOut ring.ringBytes ring.data _ ring.flight ring.tail
      rw [hflight]
      exact hrest.append hback
    · intro seen' hseen'
      have heq : seen' = seen := Option.some.inj (hseen'.symm.trans hseen)
      subst heq
      exact ⟨item :: rest, back, hflight, hrest, hback, hne⟩
    · intro hpending
      -- A frame that was peeked before would lie where the marker is.
      obtain ⟨frame, rest', hflight', -⟩ := hpeeked hpending
      rw [hflight, List.cons_append] at hflight'
      injection hflight' with hitem
      have hmem : (ring.head, frame) ∈ item :: rest := hitem ▸ List.mem_cons_self
      have hle := (hrest.bounds hmem).1
      omega

theorem Inv.pop (h : ring.Inv) (hseen : ring.seen = none) : ring.pop.Inv := by
  unfold Ring.pop
  by_cases hpending : ring.pending = 0
  · rw [if_pos hpending]
    exact h
  rw [if_neg hpending]
  obtain ⟨frame, rest, hflight, hroom, -, hspan⟩ := h.peeked hpending
  have hlaid := h.laid
  rw [hflight] at hlaid
  cases hlaid with
  | skip hskips hrest =>
    obtain ⟨-, -, hlast⟩ := room_before_end h.dvd h.pos h.head_dvd
    have hle := (hrest.bounds List.mem_cons_self).1
    omega
  | item hfits hholds hrest =>
    have hstop := hrest.le
    have hlt := h.tail_lt
    have htail := h.tail_le
    have hbytes : ring.spanBytes = frame.bytes := by
      unfold spanBytes
      rw [hspan hseen]
      exact hholds
    have hwritten : ring.written.take ring.popped.length ++ [(ring.head, frame)] =
        ring.written.take (ring.popped.length + 1) := by
      rw [List.take_add_one]
      unfold flight at hflight
      have hget : ring.written[ring.popped.length]? = some (ring.head, frame) := by
        rw [← List.head?_drop, hflight]
        rfl
      rw [hget]
      rfl
    have hpopped : (ring.popped ++ [ring.spanBytes]).length = ring.popped.length + 1 := by simp
    have hflight' : ring.written.drop (ring.popped.length + 1) = rest := by
      rw [← List.tail_drop]
      exact congrArg List.tail hflight
    rw [hroom, addPos_of_lt (by omega)]
    refine ⟨h.dvd, h.pos, h.le_max, Nat.dvd_add h.head_dvd (dvd_align8 _), h.tail_dvd,
      by dsimp only; omega, hlt, ?_, ?_, ?_, h.producing_head (Nat.le_add_right _ _), ?_,
      fun hne => absurd rfl hne, nofun⟩
    · dsimp only
      rw [hpopped]
      have hlength := congrArg List.length hflight
      unfold flight at hlength
      rw [List.length_drop, List.length_cons] at hlength
      omega
    · dsimp only
      rw [hpopped, ← hwritten, List.map_append, ← h.popped_eq, hbytes]
      rfl
    · unfold flight
      rw [hpopped, hflight']
      exact hrest
    · intro seen hsome
      rw [hseen] at hsome
      cases hsome

/-! ### Runs -/

theorem Inv.fresh {requested : Nat} (hsize : normalizeRingBytes requested = some ringBytes)
    (data : Area) : (fresh ringBytes data).Inv := by
  have hbounds : 8 ∣ ringBytes ∧ 0 < ringBytes ∧ ringBytes ≤ k_max_ring_bytes := by
    unfold normalizeRingBytes at hsize
    split at hsize
    · rw [← Option.some.inj hsize]
      decide
    · split at hsize
      · cases hsize
      · rename_i hrequested hlimits
        rw [← Option.some.inj hsize]
        refine ⟨dvd_align8 _, align8_pos (Nat.pos_of_ne_zero hrequested), ?_⟩
        unfold align8 k_max_ring_bytes at *
        omega
  obtain ⟨hdvd, hpos, hle⟩ := hbounds
  exact ⟨hdvd, hpos, hle, Nat.dvd_zero 8, Nat.dvd_zero 8, Nat.zero_le _, Nat.two_pow_pos 64,
    Nat.le_refl _, rfl, .nil 0, rfl, nofun, fun hne => absurd rfl hne, nofun⟩

theorem reserved_tryWrite (ring : Ring) (frame : Frame) :
    ring.reserved ≤ (ring.tryWrite frame).reserved := by
  unfold Ring.tryWrite
  dsimp only
  split
  · exact Nat.le_refl _
  · split
    · split
      · exact Nat.le_refl _
      · exact Nat.le_add_right _ _
    · split
      · exact Nat.le_refl _
      · exact Nat.le_add_right _ _

theorem reserved_round (ring : Ring) (seen : Nat) : (ring.round seen).reserved = ring.reserved := by
  unfold Ring.round
  dsimp only
  split
  · rfl
  · split
    · rfl
    · split
      · rfl
      · rfl

theorem reserved_pop (ring : Ring) : ring.pop.reserved = ring.reserved := by
  unfold Ring.pop
  split
  · rfl
  · rfl

theorem reserved_step (ring : Ring) (action : RingAction) :
    ring.reserved ≤ (ring.step action).reserved := by
  unfold step
  cases action with
  | tryWrite frame =>
    dsimp only
    split
    · exact reserved_tryWrite ring frame
    · exact Nat.le_refl _
  | store index =>
    dsimp only
    split
    · exact Nat.le_refl _
    · split
      · exact Nat.le_refl _
      · exact Nat.le_refl _
  | publish =>
    dsimp only
    split
    · exact Nat.le_refl _
    · exact Nat.le_refl _
  | peek =>
    dsimp only
    split
    · exact Nat.le_refl _
    · exact Nat.le_refl _
  | round =>
    dsimp only
    split
    · exact Nat.le_refl _
    · exact Nat.le_of_eq (reserved_round ring _).symm
  | pop =>
    dsimp only
    split
    · exact Nat.le_of_eq (reserved_pop ring).symm
    · exact Nat.le_refl _

theorem Inv.step (h : ring.Inv) (action : RingAction)
    (hreserved : (ring.step action).reserved < 2 ^ 64) : (ring.step action).Inv := by
  have hbefore : ring.reserved < 2 ^ 64 := Nat.lt_of_le_of_lt (reserved_step ring action) hreserved
  unfold Ring.step at hreserved ⊢
  cases action with
  | tryWrite frame =>
    cases hproducer : ring.producer with
    | idle =>
      simp only [hproducer] at hreserved ⊢
      exact h.tryWrite hproducer frame hreserved
    | writing _ _ _ _ => exact h
  | store index =>
    cases hproducer : ring.producer with
    | idle => exact h
    | writing frame position stores stop =>
      cases hstore : stores[index]? with
      | none => simpa only [hstore] using h
      | some store =>
        simp only [hstore]
        exact h.store hproducer hstore
  | publish =>
    cases hproducer : ring.producer with
    | idle => exact h
    | writing frame position stores stop =>
      cases stores with
      | nil => exact h.publish hproducer hbefore
      | cons store rest => exact h
  | peek =>
    by_cases hseen : ring.seen = none
    · simp only [if_pos hseen]
      exact h.peek
    · simp only [if_neg hseen]
      exact h
  | round =>
    cases hseen : ring.seen with
    | none => exact h
    | some seen => exact h.round hseen
  | pop =>
    by_cases hseen : ring.seen = none
    · simp only [if_pos hseen]
      exact h.pop hseen
    · simp only [if_neg hseen]
      exact h

theorem inv_run (h : ring.Inv) {actions : List RingAction}
    (hreserved : (ring.run actions).reserved < 2 ^ 64) : (ring.run actions).Inv := by
  have hle : ∀ (actions : List RingAction) (ring : Ring), ring.reserved ≤ (ring.run actions).reserved := by
    intro actions
    induction actions with
    | nil => exact fun _ => Nat.le_refl _
    | cons action rest ih =>
      exact fun ring => Nat.le_trans (reserved_step ring action) (ih (ring.step action))
  induction actions generalizing ring with
  | nil => exact h
  | cons action rest ih =>
    exact ih (h.step action (Nat.lt_of_le_of_lt (hle rest _) hreserved)) hreserved

/-- What was freed is what was written first; the frame that `peek` has returned is the next one; and
the bytes of a frame that was not freed are as they were written, in no cell of what the producer has
still to store. -/
structure Fifo (ring : Ring) : Prop where
  popped : ring.popped <+: ring.written.map fun item => item.2.bytes
  next : ring.span ≠ none → ∃ rest,
    ring.written.map (fun item => item.2.bytes) = ring.popped ++ ring.spanBytes :: rest
  intact : ∀ item ∈ ring.written.drop ring.popped.length,
    readArea ring.data (item.1 % ring.ringBytes) item.2.bytes.length = item.2.bytes
  spared : ∀ item ∈ ring.written.drop ring.popped.length, ∀ frame position stores stop,
    ring.producer = .writing frame position stores stop → ∀ store ∈ stores,
      store.1 < item.1 % ring.ringBytes ∨
        item.1 % ring.ringBytes + item.2.bytes.length ≤ store.1

theorem Inv.fifo (h : ring.Inv) : ring.Fifo := by
  have hsplit : ring.written.map (fun item => item.2.bytes) =
      ring.popped ++ ring.flight.map fun item => item.2.bytes := by
    have happend := List.take_append_drop ring.popped.length ring.written
    calc
      ring.written.map (fun item => item.2.bytes) =
          (ring.written.take ring.popped.length ++ ring.flight).map fun item => item.2.bytes :=
            congrArg _ happend.symm
      _ = _ := by rw [List.map_append, ← h.popped_eq]
  refine ⟨⟨_, hsplit.symm⟩, fun hspan => ?_, ?_, ?_⟩
  · obtain ⟨span, hsome⟩ := Option.ne_none_iff_exists'.1 hspan
    obtain ⟨hseen, hpending⟩ := h.span span hsome
    obtain ⟨frame, rest, hflight, -, -, hframe⟩ := h.peeked hpending
    have hlaid := h.laid
    rw [hflight] at hlaid
    obtain ⟨-, -, -, hholds⟩ := hlaid.bounds List.mem_cons_self
    refine ⟨rest.map fun item => item.2.bytes, ?_⟩
    rw [hsplit, hflight, List.map_cons]
    unfold spanBytes
    rw [hframe hseen]
    exact congrArg (fun bytes => ring.popped ++ bytes :: _) hholds.symm
  · rintro ⟨position, frame⟩ hmem
    exact (h.laid.bounds hmem).2.2.2
  · rintro ⟨position, frame⟩ hmem frame' position' stores stop hproducer store hstore
    obtain ⟨hfirst, hlast, hfits, -⟩ := h.laid.bounds hmem
    have hproducing := h.producing
    unfold Producing at hproducing
    rw [hproducer] at hproducing
    obtain ⟨p, hafter, hbefore, hcell⟩ :=
      Writing.position_of_planned hproducing h (hproducing.planned store hstore)
    have hround := hproducing.round
    have hsize : frame.bytes.length ≤ room frame := le_align8 _
    rw [hcell]
    have hfree := outside_of_fits hfirst hfits (Nat.le_trans hlast hafter) (by omega)
    dsimp only at hfree ⊢
    omega

/-- The ring is a first-in first-out channel in every state of every run of both sides in which the
bytes taken by frames and padding are less than two to the sixty-fourth. -/
theorem fifo_run {requested : Nat} (hsize : normalizeRingBytes requested = some ringBytes)
    (data : Area) (actions : List RingAction)
    (hreserved : ((fresh ringBytes data).run actions).reserved < 2 ^ 64) :
    ((fresh ringBytes data).run actions).Fifo :=
  (inv_run (Inv.fresh hsize data) hreserved).fifo

def filled (size : Nat) (hsize : 5 ≤ size ∧ size < 2 ^ 32) (byte : UInt8) : Frame where
  bytes := storeLe 4 (size - 4) ++ List.replicate (size - 4) byte
  length_bytes := by
    simp only [List.length_append, length_storeLe, List.length_replicate]
    omega
  length_prefix := by
    have htake : (storeLe 4 (size - 4) ++ List.replicate (size - 4) byte).take 4 =
        storeLe 4 (size - 4) := List.take_left' (length_storeLe 4 _)
    rw [htake, loadLe_storeLe_of_lt (by omega)]
    simp only [List.length_append, length_storeLe, List.length_replicate]
    omega

theorem length_filled (size : Nat) (hsize : 5 ≤ size ∧ size < 2 ^ 32) (byte : UInt8) :
    (filled size hsize byte).bytes.length = size := by
  unfold filled
  simp only [List.length_append, length_storeLe, List.length_replicate]
  omega

/-- A call of `try_write`, from its beginning to its end. -/
def writing (frame : Frame) : List RingAction :=
  .tryWrite frame :: List.replicate frame.bytes.length (.store 0) ++ [.publish]

/-- A call of `peek` that finds a frame, and `pop`. -/
def reading : List RingAction := [.peek, .round, .pop]

/-- A call of `try_write` that leaves a marker at the end of the ring, from its beginning to its end. -/
def writingPast (frame : Frame) : List RingAction :=
  .tryWrite frame :: List.replicate (4 + frame.bytes.length) (.store 0) ++ [.publish]

/-- A call of `peek` that passes a marker and finds a frame, and `pop`. -/
def readingPast : List RingAction := [.peek, .round, .round, .pop]

theorem room_filled (size : Nat) (hsize : 5 ≤ size ∧ size < 2 ^ 32) (byte : UInt8) :
    room (filled size hsize byte) = align8 size := by
  unfold room
  rw [length_filled]

/-! ### Calls from beginning to end -/

variable {ring : Ring}

theorem run_append (ring : Ring) (actions actions' : List RingAction) :
    ring.run (actions ++ actions') = (ring.run actions).run actions' := List.foldl_append

def storeAll (data : Area) (stores : List (Nat × UInt8)) : Area :=
  stores.foldl (fun data store => Function.update data store.1 store.2) data

theorem storeAll_append (data : Area) (stores stores' : List (Nat × UInt8)) :
    storeAll data (stores ++ stores') = storeAll (storeAll data stores) stores' := List.foldl_append

theorem storeAll_copies (data : Area) (offset : Nat) (bytes : Bytes) :
    storeAll data (copies offset bytes) = copyTo data offset bytes := by
  induction bytes generalizing data offset with
  | nil =>
    funext i
    exact (ite_self _).symm
  | cons byte bytes ih =>
    change storeAll (Function.update data offset byte) (copies (offset + 1) bytes) = _
    rw [ih]
    funext i
    unfold copyTo
    by_cases hafter : offset + 1 ≤ i
    · have hindex : i - offset = (i - (offset + 1)) + 1 := by omega
      rw [if_pos hafter, if_pos (by omega), hindex, List.getElem?_cons_succ,
        Function.update_of_ne (by omega)]
    · rw [if_neg hafter]
      by_cases hat : i = offset
      · subst hat
        rw [Function.update_self, if_pos (Nat.le_refl _), Nat.sub_self]
        rfl
      · rw [Function.update_of_ne hat, if_neg (by omega)]

theorem length_copies (offset : Nat) (bytes : Bytes) : (copies offset bytes).length = bytes.length := by
  induction bytes generalizing offset with
  | nil => rfl
  | cons byte bytes ih => exact congrArg Nat.succ (ih (offset + 1))

theorem run_stores {frame : Frame} {position stop : Nat} {stores : List (Nat × UInt8)}
    (hproducer : ring.producer = .writing frame position stores stop) :
    ring.run (List.replicate stores.length (.store 0)) = { ring with
      data := storeAll ring.data stores
      producer := .writing frame position [] stop } := by
  induction stores generalizing ring with
  | nil =>
    rw [← hproducer]
    rfl
  | cons store stores ih =>
    have hstep : ring.step (.store 0) = { ring with
        data := Function.update ring.data store.1 store.2
        producer := .writing frame position stores stop } := by
      unfold step
      simp only [hproducer]
      rfl
    rw [List.length_cons, List.replicate_succ]
    change (ring.step (.store 0)).run _ = _
    rw [hstep, ih rfl]
    rfl

theorem run_tryWrite {frame : Frame} {position stop total : Nat} {stores : List (Nat × UInt8)}
    (hidle : ring.producer = .idle) (hstep : ring.step (.tryWrite frame) = { ring with
      producer := .writing frame position stores stop
      reserved := ring.reserved + total }) :
    ring.run (.tryWrite frame :: List.replicate stores.length (.store 0) ++ [.publish]) = { ring with
      data := storeAll ring.data stores
      tail := stop
      written := ring.written ++ [(position, frame)]
      reserved := ring.reserved + total } := by
  rw [run_append]
  change ((ring.step (.tryWrite frame)).run _).step .publish = _
  rw [hstep, @run_stores { ring with
    producer := .writing frame position stores stop
    reserved := ring.reserved + total } frame position stop stores rfl]
  unfold step
  dsimp only
  rw [← hidle]

theorem run_writing {frame : Frame} (hidle : ring.producer = .idle)
    (hfits : ring.tail % ring.ringBytes + room frame ≤ ring.ringBytes)
    (hfree : subPos (addPos ring.tail (room frame)) ring.head ≤ ring.ringBytes) :
    ring.run (writing frame) = { ring with
      data := copyTo ring.data (ring.tail % ring.ringBytes) frame.bytes
      tail := addPos ring.tail (room frame)
      written := ring.written ++ [(ring.tail, frame)]
      reserved := ring.reserved + room frame } := by
  have hroom : room frame = align8 frame.bytes.length := rfl
  have hlength := frame.length_bytes
  have hstep : ring.step (.tryWrite frame) = { ring with
      producer := .writing frame ring.tail (copies (ring.tail % ring.ringBytes) frame.bytes)
        (addPos ring.tail (room frame))
      reserved := ring.reserved + room frame } := by
    have hsmall : ¬(frame.bytes.length < 5 ∨ align8 frame.bytes.length > ring.ringBytes) := by
      omega
    have hend : ¬align8 frame.bytes.length > ring.ringBytes - ring.tail % ring.ringBytes := by
      omega
    unfold step
    simp only [hidle]
    unfold Ring.tryWrite
    simp only [if_neg hsmall, if_neg hend]
    exact if_neg (Nat.not_lt.2 hfree)
  have hrun := run_tryWrite hidle hstep
  rw [length_copies, storeAll_copies] at hrun
  exact hrun

def toEnd (ring : Ring) : Nat := ring.ringBytes - ring.tail % ring.ringBytes

theorem run_writingPast {frame : Frame} (hidle : ring.producer = .idle)
    (hpast : ring.toEnd < room frame) (hroom : room frame ≤ ring.ringBytes)
    (hfree : subPos (addPos ring.tail (ring.toEnd + room frame)) ring.head ≤ ring.ringBytes) :
    ring.run (writingPast frame) = { ring with
      data := copyTo (copyTo ring.data (ring.tail % ring.ringBytes) (storeLe 4 k_padding_marker)) 0 frame.bytes
      tail := addPos (addPos ring.tail ring.toEnd) (room frame)
      written := ring.written ++ [(addPos ring.tail ring.toEnd, frame)]
      reserved := ring.reserved + (ring.toEnd + room frame) } := by
  have hlength := frame.length_bytes
  have hstep : ring.step (.tryWrite frame) = { ring with
      producer := .writing frame (addPos ring.tail ring.toEnd)
        (copies (ring.tail % ring.ringBytes) (storeLe 4 k_padding_marker) ++ copies 0 frame.bytes)
        (addPos (addPos ring.tail ring.toEnd) (room frame))
      reserved := ring.reserved + (ring.toEnd + room frame) } := by
    have hsmall : ¬(frame.bytes.length < 5 ∨ align8 frame.bytes.length > ring.ringBytes) :=
      not_or.2 ⟨Nat.not_lt.2 hlength, Nat.not_lt.2 hroom⟩
    have hend : align8 frame.bytes.length > ring.ringBytes - ring.tail % ring.ringBytes := hpast
    unfold step
    simp only [hidle]
    unfold Ring.tryWrite
    simp only [if_neg hsmall, if_pos hend]
    exact if_neg (Nat.not_lt.2 hfree)
  have hrun := run_tryWrite hidle hstep
  rw [storeAll_append, storeAll_copies, storeAll_copies, List.length_append, length_copies, length_copies,
    length_storeLe] at hrun
  exact hrun

theorem run_returned {bytes : Bytes} {tail : Nat} (hseen : ring.seen = some tail) (hne : ring.head ≠ tail)
    (hbytes : readArea ring.data (ring.head % ring.ringBytes) bytes.length = bytes)
    (hlength : 5 ≤ bytes.length ∧ bytes.length ≤ maxFrameBytes + 4)
    (hword_eq : loadLe (bytes.take 4) = bytes.length - 4)
    (hfits : ring.head % ring.ringBytes + bytes.length ≤ ring.ringBytes)
    (hstop : addPos ring.head (align8 bytes.length) ≤ tail) :
    ring.run [.round, .pop] = { ring with
      head := addPos ring.head (align8 bytes.length)
      seen := none
      pending := 0
      span := none
      popped := ring.popped ++ [bytes] } := by
  have hword : loadLe (readArea ring.data (ring.head % ring.ringBytes) 4) = bytes.length - 4 := by
    rw [readArea_take (show 4 ≤ bytes.length by omega), hbytes, hword_eq]
  have hsize : 4 + (bytes.length - 4) = bytes.length := by omega
  have hmarker : bytes.length - 4 ≠ k_padding_marker := by
    unfold k_padding_marker
    unfold maxFrameBytes at hlength
    omega
  have hpending : align8 bytes.length ≠ 0 := Nat.ne_of_gt (align8_pos (by omega))
  have hround : ring.step .round = { ring with
      seen := none
      pending := align8 bytes.length
      span := some (ring.head % ring.ringBytes, bytes.length) } := by
    unfold step
    simp only [hseen]
    unfold Ring.round
    simp only [if_neg hne, hword, if_neg hmarker, hsize]
    exact if_neg (by omega)
  change (ring.step .round).step .pop = _
  rw [hround]
  unfold step Ring.pop spanBytes
  dsimp only
  rw [if_pos rfl, if_neg hpending, hbytes]

theorem run_reading {bytes : Bytes} (hseen : ring.seen = none) (hne : ring.head ≠ ring.tail)
    (hbytes : readArea ring.data (ring.head % ring.ringBytes) bytes.length = bytes)
    (hlength : 5 ≤ bytes.length ∧ bytes.length ≤ maxFrameBytes + 4)
    (hword : loadLe (bytes.take 4) = bytes.length - 4)
    (hfits : ring.head % ring.ringBytes + bytes.length ≤ ring.ringBytes)
    (hstop : addPos ring.head (align8 bytes.length) ≤ ring.tail) :
    ring.run reading = { ring with
      head := addPos ring.head (align8 bytes.length)
      pending := 0
      span := none
      popped := ring.popped ++ [bytes] } := by
  have hpeek : ring.step .peek = { ring with seen := some ring.tail, span := none } := if_pos hseen
  have hreturned := @run_returned { ring with seen := some ring.tail, span := none } bytes ring.tail rfl hne
    hbytes hlength hword hfits hstop
  change (ring.step .peek).run [.round, .pop] = _
  rw [hpeek, hreturned, ← hseen]

theorem run_readingPast {bytes : Bytes} {head : Nat} (hseen : ring.seen = none) (hne : ring.head ≠ ring.tail)
    (hmarker : loadLe (readArea ring.data (ring.head % ring.ringBytes) 4) = k_padding_marker)
    (hhead : addPos ring.head (ring.ringBytes - ring.head % ring.ringBytes) = head)
    (hne' : head ≠ ring.tail)
    (hbytes : readArea ring.data (head % ring.ringBytes) bytes.length = bytes)
    (hlength : 5 ≤ bytes.length ∧ bytes.length ≤ maxFrameBytes + 4)
    (hword : loadLe (bytes.take 4) = bytes.length - 4)
    (hfits : head % ring.ringBytes + bytes.length ≤ ring.ringBytes)
    (hstop : addPos head (align8 bytes.length) ≤ ring.tail) :
    ring.run readingPast = { ring with
      head := addPos head (align8 bytes.length)
      pending := 0
      span := none
      popped := ring.popped ++ [bytes] } := by
  have hpeek : ring.step .peek = { ring with seen := some ring.tail, span := none } := if_pos hseen
  have hround : (ring.step .peek).step .round =
      { ring with seen := some ring.tail, span := none, head := head } := by
    rw [hpeek]
    unfold step Ring.round
    dsimp only
    simp only [if_neg hne, hmarker, if_true, hhead]
  have hreturned := @run_returned { ring with seen := some ring.tail, span := none, head := head } bytes
    ring.tail rfl hne' hbytes hlength hword hfits hstop
  change ((ring.step .peek).step .round).run [.round, .pop] = _
  rw [hround, hreturned, ← hseen]

/-- Nobody is at work, and what has been done so far. -/
structure Rested (ring : Ring) (ringBytes head tail : Nat) (data : Area) (popped : List Bytes)
    (reserved : Nat) : Prop where
  ringBytes_eq : ring.ringBytes = ringBytes
  head_eq : ring.head = head
  tail_eq : ring.tail = tail
  data_eq : ring.data = data
  idle : ring.producer = .idle
  seen : ring.seen = none
  popped_eq : ring.popped = popped
  reserved_eq : ring.reserved = reserved

namespace Rested

variable {ringBytes head tail next size reserved : Nat} {data : Area} {popped : List Bytes} {frame : Frame}

theorem write (h : ring.Rested ringBytes head tail data popped reserved) (hroom : room frame = size)
    (hfits : tail % ringBytes + size ≤ ringBytes) (hfree : subPos (addPos tail size) head ≤ ringBytes) :
    (ring.run (writing frame)).Rested ringBytes head (addPos tail size)
      (copyTo data (tail % ringBytes) frame.bytes) popped (reserved + size) := by
  obtain ⟨rfl, rfl, rfl, rfl, hidle, hseen, rfl, rfl⟩ := h
  subst hroom
  rw [run_writing hidle hfits hfree]
  exact ⟨rfl, rfl, rfl, rfl, hidle, hseen, rfl, rfl⟩

theorem writePast (h : ring.Rested ringBytes head tail data popped reserved) (hroom : room frame = size)
    (hpast : ringBytes - tail % ringBytes < size) (hsize : size ≤ ringBytes)
    (hfree : subPos (addPos tail (ringBytes - tail % ringBytes + size)) head ≤ ringBytes) :
    (ring.run (writingPast frame)).Rested ringBytes head
      (addPos (addPos tail (ringBytes - tail % ringBytes)) size)
      (copyTo (copyTo data (tail % ringBytes) (storeLe 4 k_padding_marker)) 0 frame.bytes) popped
      (reserved + (ringBytes - tail % ringBytes + size)) := by
  obtain ⟨rfl, rfl, rfl, rfl, hidle, hseen, rfl, rfl⟩ := h
  subst hroom
  rw [run_writingPast hidle hpast hsize hfree]
  exact ⟨rfl, rfl, rfl, rfl, hidle, hseen, rfl, rfl⟩

theorem read (h : ring.Rested ringBytes head tail data popped reserved) (hroom : room frame = size)
    (hne : head ≠ tail) (hbytes : readArea data (head % ringBytes) frame.bytes.length = frame.bytes)
    (hsize : frame.bytes.length ≤ maxFrameBytes + 4) (hfits : head % ringBytes + frame.bytes.length ≤ ringBytes)
    (hstop : addPos head size ≤ tail) :
    (ring.run reading).Rested ringBytes (addPos head size) tail data (popped ++ [frame.bytes]) reserved := by
  obtain ⟨rfl, rfl, rfl, rfl, hidle, hseen, rfl, rfl⟩ := h
  subst hroom
  rw [run_reading hseen hne hbytes ⟨frame.length_bytes, hsize⟩ frame.length_prefix hfits hstop]
  exact ⟨rfl, rfl, rfl, rfl, hidle, hseen, rfl, rfl⟩

theorem readPast (h : ring.Rested ringBytes head tail data popped reserved) (hroom : room frame = size)
    (hne : head ≠ tail) (hmarker : loadLe (readArea data (head % ringBytes) 4) = k_padding_marker)
    (hhead : addPos head (ringBytes - head % ringBytes) = next) (hne' : next ≠ tail)
    (hbytes : readArea data (next % ringBytes) frame.bytes.length = frame.bytes)
    (hsize : frame.bytes.length ≤ maxFrameBytes + 4) (hfits : next % ringBytes + frame.bytes.length ≤ ringBytes)
    (hstop : addPos next size ≤ tail) :
    (ring.run readingPast).Rested ringBytes (addPos next size) tail data (popped ++ [frame.bytes])
      reserved := by
  obtain ⟨rfl, rfl, rfl, rfl, hidle, hseen, rfl, rfl⟩ := h
  subst hroom
  rw [run_readingPast hseen hne hmarker hhead hne' hbytes ⟨frame.length_bytes, hsize⟩ frame.length_prefix
    hfits hstop]
  exact ⟨rfl, rfl, rfl, rfl, hidle, hseen, rfl, rfl⟩

end Rested

/-- Three frames, the second of which begins the next round behind a marker. -/
def threeFrames (first second third : Frame) : List RingAction :=
  writing first ++ reading ++ writingPast second ++ writing third ++ readingPast ++ reading

theorem rested_threeFrames {first second third : Frame} (data : Area) (hfirst : first.bytes.length = 3000)
    (hsecond : second.bytes.length = 2000) (hthird : third.bytes.length = 5) :
    ∃ data', ((fresh 4096 data).run (threeFrames first second third)).Rested 4096 6104 6104 data'
      [first.bytes, second.bytes, third.bytes] 6104 := by
  have hroom : room first = 3000 := congrArg align8 hfirst
  have hroom' : room second = 2000 := congrArg align8 hsecond
  have hroom'' : room third = 8 := congrArg align8 hthird
  have hfresh : (fresh 4096 data).Rested 4096 0 0 data [] 0 := ⟨rfl, rfl, rfl, rfl, rfl, rfl, rfl, rfl⟩
  have hstart := ((hfresh.write hroom (by decide) (by decide)).read hroom (by decide)
    (readArea_copyTo_self _ _ _) (by rw [hfirst]; decide) (by rw [hfirst]; decide) (by decide))
  have hboth := (hstart.writePast hroom' (by decide) (by decide) (by decide)).write hroom'' (by decide) (by decide)
  have hmarker : ∀ area, loadLe (readArea (copyTo (copyTo (copyTo area 3000 (storeLe 4 k_padding_marker)) 0
      second.bytes) 2000 third.bytes) 3000 4) = k_padding_marker := by
    intro area
    rw [readArea_copyTo_of_disjoint (.inr (by rw [hthird]; decide)),
      readArea_copyTo_of_disjoint (.inr (by rw [hsecond]; decide))]
    exact congrArg loadLe (readArea_copyTo_self area 3000 (storeLe 4 k_padding_marker))
  have hstored : ∀ area, readArea (copyTo (copyTo area 0 second.bytes) 2000 third.bytes) 0
      second.bytes.length = second.bytes := by
    intro area
    rw [readArea_copyTo_of_disjoint (.inl (by rw [hsecond])), readArea_copyTo_self]
  have hall := (hboth.readPast hroom' (by decide) (hmarker _) rfl (by decide) (hstored _) (by rw [hsecond]; decide)
    (by rw [hsecond]; decide) (by decide)).read hroom'' (by decide) (readArea_copyTo_self _ _ _)
    (by rw [hthird]; decide) (by rw [hthird]; decide) (by decide)
  unfold threeFrames
  simp only [run_append]
  exact ⟨_, hall⟩

theorem fifo_run_threeFrames :
    ((fresh 4096 fun _ => 0).run (threeFrames (filled 3000 (by decide) 1) (filled 2000 (by decide) 2)
        (filled 5 (by decide) 3))).Fifo ∧
      ((fresh 4096 fun _ => 0).run (threeFrames (filled 3000 (by decide) 1) (filled 2000 (by decide) 2)
        (filled 5 (by decide) 3))).popped.map List.length = [3000, 2000, 5] := by
  obtain ⟨_, hrested⟩ := rested_threeFrames (fun _ => 0) (length_filled 3000 (by decide) 1)
    (length_filled 2000 (by decide) 2) (length_filled 5 (by decide) 3)
  refine ⟨fifo_run (show normalizeRingBytes 4096 = some 4096 by decide) _ _ ?_, ?_⟩
  · rw [hrested.reserved_eq]
    decide
  · rw [hrested.popped_eq]
    simp only [List.map_cons, List.map_nil, length_filled]

end Ring

end MoDb.Net
