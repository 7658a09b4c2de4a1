import MoDb.Net.Message
import Mathlib.Logic.Function.Basic

/-!
# The ring in shared memory

One producer and one consumer share an area of bytes and two positions, each a word of 64 bits that
one of them writes. A frame begins at a multiple of eight and is never split at the end of the ring:
where it does not fit, the producer leaves a marker and begins again at the first byte.

The steps are those that the other side can see: the bytes of a copy are stored one by one, in any
order, and a position is read or written at once.
-/

namespace MoDb.Net

open Storage

def k_padding_marker : Nat := 0xFFFFFFFF

def k_min_ring_bytes : Nat := 4096

def k_max_ring_bytes : Nat := 64 * 2 ^ 20

def k_default_ring_bytes : Nat := 2 ^ 20

def align8 (n : Nat) : Nat := (n + 7) / 8 * 8

def addPos (p n : Nat) : Nat := (p + n) % 2 ^ 64

def subPos (p q : Nat) : Nat := (p + (2 ^ 64 - q)) % 2 ^ 64

/-- `normalize_ring_bytes`. -/
def normalizeRingBytes (requested : Nat) : Option Nat :=
  if requested = 0 then some k_default_ring_bytes
  else if requested < k_min_ring_bytes ∨ requested > k_max_ring_bytes then none
  else some (align8 requested)

/-- `| length u32 | type u8 | payload |`. -/
structure Frame where
  bytes : Bytes
  length_bytes : 5 ≤ bytes.length
  length_prefix : loadLe (bytes.take 4) = bytes.length - 4

/-- What the producer is doing: nothing, or writing a frame at a position, with the bytes that it has
still to store and the tail that it will publish. -/
inductive Producer
  | idle
  | writing (frame : Frame) (position : Nat) (stores : List (Nat × UInt8)) (tail : Nat)

/-- `written` are the frames of the calls of `try_write` that returned true, each with its position;
`popped` are the bytes of the frames that were freed by `pop`; `reserved` counts the bytes taken by
frames and padding. -/
structure Ring where
  ringBytes : Nat
  data : Area
  head : Nat := 0
  tail : Nat := 0
  producer : Producer := .idle
  /-- The tail that a call of `peek` has read. -/
  seen : Option Nat := none
  /-- `pending_`. -/
  pending : Nat := 0
  /-- The offset and the size of the frame that the last `peek` returned. -/
  span : Option (Nat × Nat) := none
  written : List (Nat × Frame) := []
  popped : List Bytes := []
  reserved : Nat := 0

inductive RingAction
  /-- `try_write` up to its decision. -/
  | tryWrite (frame : Frame)
  /-- One byte of the copies of `try_write`. -/
  | store (index : Nat)
  /-- The end of `try_write`. -/
  | publish
  /-- `peek` up to its loop. -/
  | peek
  /-- One round of the loop of `peek`. -/
  | round
  | pop

namespace Ring

def copies (offset : Nat) : Bytes → List (Nat × UInt8)
  | [] => []
  | byte :: bytes => (offset, byte) :: copies (offset + 1) bytes

/-- `try_write`: it returns an error or false, or begins to write. -/
def tryWrite (ring : Ring) (frame : Frame) : Ring :=
  let need := align8 frame.bytes.length
  if frame.bytes.length < 5 ∨ need > ring.ringBytes then ring
  else
    let offset := ring.tail % ring.ringBytes
    let toEnd := ring.ringBytes - offset
    let total := if need > toEnd then toEnd + need else need
    if subPos (addPos ring.tail total) ring.head > ring.ringBytes then ring
    else if need > toEnd then
      let tail := addPos ring.tail toEnd
      { ring with
        producer := .writing frame tail
          (copies offset (storeLe 4 k_padding_marker) ++ copies 0 frame.bytes) (addPos tail need)
        reserved := ring.reserved + total }
    else
      { ring with
        producer := .writing frame ring.tail (copies offset frame.bytes) (addPos ring.tail need)
        reserved := ring.reserved + total }

/-- The loop of `peek`, once: the ring is empty, there is padding to pass, the frame is corrupt, or it
is returned. -/
def round (ring : Ring) (tail : Nat) : Ring :=
  if ring.head = tail then { ring with seen := none, span := none }
  else
    let offset := ring.head % ring.ringBytes
    let length := loadLe (readArea ring.data offset 4)
    if length = k_padding_marker then
      { ring with head := addPos ring.head (ring.ringBytes - offset) }
    else
      let frameBytes := 4 + length
      if length = 0 ∨ length > maxFrameBytes ∨ frameBytes > ring.ringBytes - offset ∨
          addPos ring.head (align8 frameBytes) > tail then { ring with seen := none, span := none }
      else
        { ring with seen := none, pending := align8 frameBytes, span := some (offset, frameBytes) }

/-- The bytes of the frame that the last `peek` returned. -/
def spanBytes (ring : Ring) : Bytes :=
  match ring.span with
  | some (offset, size) => readArea ring.data offset size
  | none => []

/-- `pop`. -/
def pop (ring : Ring) : Ring :=
  if ring.pending = 0 then ring
  else
    { ring with
      head := addPos ring.head ring.pending
      pending := 0
      span := none
      popped := ring.popped ++ [ring.spanBytes] }

/-- One step of one side. The other steps of a call come where the call has begun. -/
def step (ring : Ring) : RingAction → Ring
  | .tryWrite frame =>
    match ring.producer with
    | .idle => ring.tryWrite frame
    | .writing .. => ring
  | .store index =>
    match ring.producer with
    | .idle => ring
    | .writing frame position stores tail =>
      match stores[index]? with
      | none => ring
      | some (offset, byte) =>
        { ring with
          data := Function.update ring.data offset byte
          producer := .writing frame position (stores.eraseIdx index) tail }
  | .publish =>
    match ring.producer with
    | .writing frame position [] tail =>
      { ring with tail := tail, producer := .idle, written := ring.written ++ [(position, frame)] }
    | _ => ring
  | .peek => if ring.seen = none then { ring with seen := some ring.tail, span := none } else ring
  | .round =>
    match ring.seen with
    | none => ring
    | some tail => ring.round tail
  | .pop => if ring.seen = none then ring.pop else ring

def run (ring : Ring) (actions : List RingAction) : Ring := actions.foldl step ring

def fresh (ringBytes : Nat) (data : Area) : Ring := { ringBytes := ringBytes, data := data }

end Ring

end MoDb.Net
