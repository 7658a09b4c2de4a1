import MoDb.Index.Key
import MoDb.Store.ObjectCodec

/-!
# Stored elements

An element of a collection is stored as the attribute value it stands for. A collection is a count and the
bytes of its elements one after another.
-/

namespace MoDb.Store

open Storage Format
open ObjectCodec (BinaryDecoder decodeValue readU32)
open Net (writeValue idsFit)

/-- `to_attribute_value` and `from_attribute_value` of a type. -/
structure Element (T : Type) where
  toValue : T → AttributeValue
  fromValue : AttributeValue → Except Error T
  fits (value : T) : idsFit (toValue value) = true
  from_to (value : T) : fromValue (toValue value) = .ok value

namespace Element

/-- `type_mismatch_for`. -/
def typeMismatch (value : AttributeValue) (expected : AttributeType) : Error :=
  ⟨.typeMismatch, s!"attribute value is {value.type.name}, not {expected.name}"⟩

def boolean : Element Bool where
  toValue := .boolean
  fromValue
    | .boolean flag => .ok flag
    | value => .error (typeMismatch value .boolean)
  fits _ := rfl
  from_to _ := rfl

def integerOverflow : Error := ⟨.incompatibleProjection, "integer member conversion overflow"⟩

def signed (width : Nat) (hwidth : width ≤ 64) : Element (BitVec width) where
  toValue number := .int64 (number.signExtend 64)
  fromValue
    | .int64 raw =>
      if raw.toInt < -2 ^ (width - 1) ∨ 2 ^ (width - 1) ≤ raw.toInt then .error integerOverflow
      else .ok (BitVec.ofInt width raw.toInt)
    | value => .error (typeMismatch value .int64)
  fits _ := rfl
  from_to number := by
    have hint : (number.signExtend 64).toInt = number.toInt := BitVec.toInt_signExtend_of_le hwidth
    have hlower := BitVec.le_toInt number
    have hupper := BitVec.toInt_lt (x := number)
    dsimp only
    rw [hint, if_neg (by omega), BitVec.ofInt_toInt]

def float64 : Element (BitVec 64) where
  toValue := .float64
  fromValue
    | .float64 bits => .ok bits
    | value => .error (typeMismatch value .float64)
  fits _ := rfl
  from_to _ := rfl

theorem idsFit_string (text : Bytes) : idsFit (.string text) = true := rfl

theorem idsFit_bytes (data : Bytes) : idsFit (.bytes data) = true := rfl

def string : Element Bytes where
  toValue := .string
  fromValue
    | .string text => .ok text
    | value => .error (typeMismatch value .string)
  fits := idsFit_string
  from_to _ := rfl

def bytes : Element Bytes where
  toValue := .bytes
  fromValue
    | .bytes data => .ok data
    | value => .error (typeMismatch value .bytes)
  fits := idsFit_bytes
  from_to _ := rfl

/-- `ObjectId`, and `Ref` and `OwnedRef` of any type. -/
def ref : Element { id : ObjectId // id < 2 ^ 64 } where
  toValue id := .ref id
  fromValue
    | .ref id => if h : id < 2 ^ 64 then .ok ⟨id, h⟩ else .error (typeMismatch (.ref id) .ref)
    | value => .error (typeMismatch value .ref)
  fits id := decide_eq_true id.2
  from_to id := dif_pos id.2

def blob : Element { id : Nat // id < 2 ^ 64 } where
  toValue id := .blob id
  fromValue
    | .blob id => if h : id < 2 ^ 64 then .ok ⟨id, h⟩ else .error (typeMismatch (.blob id) .blob)
    | value => .error (typeMismatch value .blob)
  fits id := decide_eq_true id.2
  from_to id := dif_pos id.2

/-- A type with a `bytes_codec` of its own. -/
def codec {T : Type} (encode : T → Bytes) (decode : Bytes → Except Error T)
    (h : ∀ value, decode (encode value) = .ok value) : Element T where
  toValue value := .bytes (encode value)
  fromValue
    | .bytes data => decode data
    | value => .error (typeMismatch value .bytes)
  fits _ := rfl
  from_to := h

variable {T : Type} (element : Element T)

/-- `encode_element`. -/
def encode (value : T) : Except Error Bytes := writeValue (element.toValue value)

/-- `decode_element`. -/
def decode : BinaryDecoder T := do
  let value ← decodeValue
  match element.fromValue value with
  | .error error => throw error
  | .ok value => pure value

def bytesOf (value : T) : Bytes := (element.encode value).toOption.getD []

def Encodes (value : T) : Prop := element.encode value = .ok (element.bytesOf value)

variable {element} {value : T}

theorem encodes_of_ok {bytes : Bytes} (h : element.encode value = .ok bytes) :
    element.bytesOf value = bytes ∧ element.Encodes value := by
  have hbytes : element.bytesOf value = bytes := by
    rw [bytesOf, h]
    rfl
  exact ⟨hbytes, by rw [Encodes, hbytes, h]⟩

theorem Encodes.format (h : element.Encodes value) :
    ObjectCodec.ValueFormat (element.toValue value) (element.bytesOf value) := ⟨h, element.fits value⟩

theorem Encodes.decode (h : element.Encodes value) {c : Cursor UInt8} {more : Bytes}
    (hrest : c.rest = element.bytesOf value ++ more) :
    element.decode c = .ok value (c.skip (element.bytesOf value).length) := by
  rw [Element.decode, Effect.bind_of_ok (ObjectCodec.decodes_decodeValue.reads hrest h.format),
    element.from_to]
  rfl

theorem Encodes.inj {value' : T} (h : element.Encodes value) (h' : element.Encodes value')
    (hbytes : element.bytesOf value = element.bytesOf value') : value = value' := by
  have hread := @Encodes.decode T element value h ⟨element.bytesOf value, 0⟩ [] (List.append_nil _).symm
  have hread' := @Encodes.decode T element value' h' ⟨element.bytesOf value, 0⟩ []
    (hbytes ▸ (List.append_nil _).symm)
  rw [hread] at hread'
  injection hread'

end Element

/-! ### Reading elements -/

/-- What a reader makes of the whole of `raw`. -/
def runReader {α : Type} (reader : BinaryDecoder α) (raw : Bytes) : Except Error α :=
  match reader ⟨raw, 0⟩ with
  | .ok value _ => .ok value
  | .error error _ => .error error

/-- `collection_count`. -/
def collectionCount (raw : Bytes) : Except Error Nat := runReader readU32 raw

/-- `raw.size() - reader.remaining()`. -/
def offset : BinaryDecoder Nat := fun c => .ok (c.bytes.length - c.remaining) c

/-- The bytes of an element in a blob. -/
structure Range where
  start : Nat
  stop : Nat
  deriving DecidableEq, Repr

def subspan (raw : Bytes) (range : Range) : Bytes :=
  (raw.drop range.start).take (range.stop - range.start)

/-- One turn of the loop of `element_ranges`. -/
def readRange : BinaryDecoder Range := do
  let start ← offset
  let _ ← decodeValue
  let stop ← offset
  pure ⟨start, stop⟩

def skipValues : Nat → BinaryDecoder Unit
  | 0 => pure ()
  | count + 1 => do
    let _ ← decodeValue
    skipValues count

/-- The loop of `for_each`; the visitor has a state and may fail. -/
def visitElements {T σ : Type} (element : Element T) (visitor : T → σ → Except Error σ) :
    Nat → σ → BinaryDecoder σ
  | 0, state => pure state
  | count + 1, state => do
    let value ← element.decode
    match visitor value state with
    | .error error => throw error
    | .ok state => visitElements element visitor count state

theorem offset_run {c : Cursor UInt8} (h : c.Within) : offset c = .ok c.position c := by
  have hwithin : c.position ≤ c.bytes.length := h
  rw [offset, Cursor.remaining, Nat.sub_sub_self hwithin]

theorem readRange_run {c : Cursor UInt8} {value : AttributeValue} {bytes more : Bytes} (hc : c.Within)
    (hrest : c.rest = bytes ++ more) (hvalue : ObjectCodec.ValueFormat value bytes) :
    readRange c = .ok ⟨c.position, c.position + bytes.length⟩ (c.skip bytes.length) ∧
      subspan c.bytes ⟨c.position, c.position + bytes.length⟩ = bytes := by
  constructor
  · rw [readRange, Effect.bind_of_ok (offset_run hc),
      Effect.bind_of_ok (ObjectCodec.decodes_decodeValue.reads hrest hvalue),
      Effect.bind_of_ok (offset_run (hc.skip hrest))]
    rfl
  · have hdrop : c.bytes.drop c.position = bytes ++ more := hrest
    rw [subspan, hdrop, Nat.add_sub_cancel_left, List.take_left]

section Values

variable {T : Type} {element : Element T} {values : List T}

theorem skipValues_run (h : ∀ value ∈ values, element.Encodes value) {c : Cursor UInt8} {more : Bytes}
    (hrest : c.rest = values.flatMap element.bytesOf ++ more) :
    skipValues values.length c = .ok () (c.skip (values.flatMap element.bytesOf).length) := by
  induction values generalizing c with
  | nil => rfl
  | cons value values ih =>
    rw [List.flatMap_cons, List.append_assoc] at hrest
    have hread := ObjectCodec.decodes_decodeValue.reads hrest (h value List.mem_cons_self).format
    rw [List.length_cons, skipValues, Effect.bind_of_ok hread,
      ih (fun value hvalue => h value (List.mem_cons_of_mem _ hvalue)) (Cursor.rest_skip_append hrest),
      Cursor.skip_skip, List.flatMap_cons, List.length_append]

theorem visitElements_run {σ : Type} {visitor : T → σ → Except Error σ}
    (h : ∀ value ∈ values, element.Encodes value) {c : Cursor UInt8} {more : Bytes}
    (hrest : c.rest = values.flatMap element.bytesOf ++ more) (state : σ) :
    ∃ c', visitElements element visitor values.length state c =
      match values.foldlM (fun state value => visitor value state) state with
      | .ok state => .ok state c'
      | .error error => .error error c' := by
  induction values generalizing c state with
  | nil => exact ⟨c, rfl⟩
  | cons value values ih =>
    rw [List.flatMap_cons, List.append_assoc] at hrest
    have hread := (h value List.mem_cons_self).decode hrest
    rw [List.length_cons, visitElements, Effect.bind_of_ok hread, List.foldlM_cons]
    cases visitor value state with
    | error error => exact ⟨_, rfl⟩
    | ok state =>
      exact ih (fun value hvalue => h value (List.mem_cons_of_mem _ hvalue))
        (Cursor.rest_skip_append hrest) state

end Values

end MoDb.Store
