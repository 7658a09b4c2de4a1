import MoDb.Lib.Format
import MoDb.Net.RoundTrip

/-!
# The codec of objects

A record of the heap is the id of an object, the id of its type, and a payload: a version, the number of
fields, and for each field its id and its value under a tag.
-/

namespace MoDb.ObjectCodec

open Storage Store Format
open Net (writeValue idsFit incompleteInput require_eq_ok)

/-- `object_payload_version`. -/
def objectPayloadVersion : Nat := 1

/-! ### Encoding -/

def encodeField (field : FieldId × AttributeValue) : Except Error Bytes := do
  let value ← writeValue field.2
  pure (storeLe 2 field.1 ++ value)

/-- `encode_object_payload`. -/
def encodeObjectPayload (fields : FieldValues) : Except Error Bytes :=
  if maxColumnsPerTable < fields.length then
    .error ⟨.tooManyColumns, "object has more fields than the type limit"⟩
  else do
    let values ← Wire.writeMany encodeField fields
    pure (storeLe 1 objectPayloadVersion ++ storeLe 2 fields.length ++ values)

/-- `encode_object`. -/
def encodeObject (object : DecodedObject) : Except Error Bytes := do
  let payload ← encodeObjectPayload object.fields
  pure (storeLe 8 object.id ++ storeLe 8 object.type ++ payload)

/-! ### Decoding -/

/-- A reader of the codec: `BinaryReader` is a cursor over bytes. -/
abbrev BinaryDecoder := Format.Decoder UInt8 Error

/-- `read_bytes`. -/
def readBytes (size : Nat) : BinaryDecoder Bytes := Format.readBytes incompleteInput size

def readLe (width : Nat) : BinaryDecoder Nat := do
  let data ← readBytes width
  pure (loadLe data)

def readU8 : BinaryDecoder Nat := readLe 1
def readU16 : BinaryDecoder Nat := readLe 2
def readU32 : BinaryDecoder Nat := readLe 4
def readU64 : BinaryDecoder Nat := readLe 8

def decodeBoolean : BinaryDecoder AttributeValue := do
  let raw ← readU8
  if 1 < raw then throw ⟨.invalidEncoding, "BOOLEAN must be encoded as 0 or 1"⟩
  else pure (.boolean (raw ≠ 0))

def decodeSized (value : Bytes → AttributeValue) : BinaryDecoder AttributeValue := do
  let length ← readU32
  let data ← readBytes length
  pure (value data)

def decodeWord (value : Nat → AttributeValue) : BinaryDecoder AttributeValue := do
  let raw ← readU64
  pure (value raw)

/-- What `decode_value` does under a tag. -/
def decodeTagged : Nat → BinaryDecoder AttributeValue
  | 0 => pure .null
  | 1 => decodeBoolean
  | 2 => decodeWord fun raw => .int64 (BitVec.ofNat 64 raw)
  | 3 => decodeWord fun raw => .float64 (BitVec.ofNat 64 raw)
  | 4 => decodeSized .string
  | 5 => decodeSized .bytes
  | 6 => decodeWord .ref
  | 7 => decodeWord .blob
  | 8 => decodeSized .embedded
  | _ => throw ⟨.invalidEncoding, "unknown attribute tag"⟩

/-- `decode_value`. -/
def decodeValue : BinaryDecoder AttributeValue := do
  let tag ← readU8
  decodeTagged tag

/-- The loop over the fields; `fields` are those read before. -/
def decodeFields : Nat → FieldValues → BinaryDecoder FieldValues
  | 0, fields => pure fields
  | count + 1, fields => do
    let fieldId ← readU16
    if fields.any (·.1 = fieldId) then
      throw ⟨.invalidEncoding, s!"duplicate FieldId {fieldId} in object payload"⟩
    else do
      let value ← decodeValue
      decodeFields count (fields ++ [(fieldId, value)])

/-- `decode_object_payload`, up to the check that nothing is left. -/
def readObjectPayload : BinaryDecoder FieldValues := do
  let version ← readU8
  if version ≠ objectPayloadVersion then
    throw ⟨.invalidEncoding, s!"unsupported object payload version: {version}"⟩
  else do
    let fieldCount ← readU16
    if maxColumnsPerTable < fieldCount then
      throw ⟨.tooManyColumns, "object has more fields than the type limit"⟩
    else decodeFields fieldCount []

/-- The reader of `decode_object_payload`. -/
def objectPayloadReader : BinaryDecoder FieldValues :=
  Format.whole readObjectPayload ⟨.trailingData, "object payload has trailing bytes"⟩

/-- `decode_object_payload`. -/
def decodeObjectPayload (payload : Bytes) : Except Error FieldValues :=
  match objectPayloadReader ⟨payload, 0⟩ with
  | .ok fields _ => .ok fields
  | .error error _ => .error error

/-- The two ids at the front of a record: `decode_object_header`, and the start of `decode_object`. -/
def headerReader : BinaryDecoder (ObjectId × TypeDefinitionId) := do
  let id ← readU64
  let type ← readU64
  pure (id, type)

/-- `decode_object`; the payload has a reader of its own. -/
def decodeObject (record : Bytes) : Except Error DecodedObject :=
  match headerReader ⟨record, 0⟩ with
  | .error error _ => .error error
  | .ok (id, type) reader => do
    let fields ← decodeObjectPayload reader.rest
    pure ⟨id, type, fields⟩

/-! ### The formats -/

theorem storeLe_loadLe {width : Nat} {bytes : Bytes} (h : bytes.length = width) :
    storeLe width (loadLe bytes) = bytes := by
  induction bytes generalizing width with
  | nil =>
    subst h
    rfl
  | cons byte bytes ih =>
    subst h
    have hdiv : (byte.toNat + 256 * loadLe bytes) / 256 = loadLe bytes := by
      have hbyte := byte.toNat_lt
      omega
    have hlow : UInt8.ofNat (byte.toNat + 256 * loadLe bytes) = byte := by
      apply UInt8.toNat_inj.mp
      have hbyte := byte.toNat_lt
      rw [UInt8.toNat_ofNat']
      omega
    rw [List.length_cons, loadLe, storeLe, hdiv, hlow, ih rfl]

theorem decodes_readLe (width : Nat) :
    Decodes (readLe width) fun value bytes => value < 256 ^ width ∧ bytes = storeLe width value := by
  apply ((decodes_readBytes incompleteInput width).bind fun data => .pure (loadLe data)).congr
  intro value bytes
  constructor
  · rintro ⟨data, first, second, ⟨rfl, hlength⟩, ⟨rfl, rfl⟩, rfl⟩
    rw [List.append_nil, storeLe_loadLe hlength]
    exact ⟨hlength ▸ loadLe_lt data, rfl⟩
  · rintro ⟨hvalue, rfl⟩
    exact ⟨storeLe width value, storeLe width value, [], ⟨rfl, length_storeLe width value⟩,
      ⟨(loadLe_storeLe_of_lt hvalue).symm, rfl⟩, (List.append_nil _).symm⟩

theorem decodes_decodeWord (value : Nat → AttributeValue) :
    Decodes (decodeWord value) fun result bytes =>
      ∃ raw < 2 ^ 64, result = value raw ∧ bytes = storeLe 8 raw := by
  apply ((decodes_readLe 8).bind fun raw => .pure (value raw)).congr
  intro result bytes
  constructor
  · rintro ⟨raw, first, second, ⟨hraw, rfl⟩, ⟨rfl, rfl⟩, rfl⟩
    exact ⟨raw, hraw, rfl, List.append_nil _⟩
  · rintro ⟨raw, hraw, rfl, rfl⟩
    exact ⟨raw, _, [], ⟨hraw, rfl⟩, ⟨rfl, rfl⟩, (List.append_nil _).symm⟩

theorem decodes_decodeSized (value : Bytes → AttributeValue) :
    Decodes (decodeSized value) fun result bytes => ∃ data : Bytes, data.length < 2 ^ 32 ∧
      result = value data ∧ bytes = storeLe 4 data.length ++ data := by
  apply ((decodes_readLe 4).bind fun length =>
    (decodes_readBytes incompleteInput length).bind fun data => .pure (value data)).congr
  intro result bytes
  constructor
  · rintro ⟨length, first, second, ⟨hlength, rfl⟩, ⟨data, third, fourth, ⟨rfl, rfl⟩, ⟨rfl, rfl⟩, rfl⟩,
      rfl⟩
    exact ⟨data, hlength, rfl, by rw [List.append_nil]⟩
  · rintro ⟨data, hlength, rfl, rfl⟩
    exact ⟨data.length, _, data, ⟨hlength, rfl⟩,
      ⟨data, data, [], ⟨rfl, rfl⟩, ⟨rfl, rfl⟩, (List.append_nil _).symm⟩, rfl⟩

theorem decodes_decodeBoolean :
    Decodes decodeBoolean fun result bytes =>
      ∃ flag : Bool, result = .boolean flag ∧ bytes = [if flag then 1 else 0] := by
  apply ((decodes_readLe 1).bind fun raw => Decodes.ite (fun _ => .throw _)
    fun _ => .pure (AttributeValue.boolean (raw ≠ 0))).congr
  intro result bytes
  constructor
  · rintro ⟨raw, first, second, ⟨-, rfl⟩, hbody, rfl⟩
    split at hbody
    · exact hbody.elim
    · rename_i hraw
      obtain ⟨rfl, rfl⟩ := hbody
      refine ⟨decide (raw ≠ 0), rfl, ?_⟩
      obtain rfl | rfl : raw = 0 ∨ raw = 1 := by omega
      · rfl
      · rfl
  · rintro ⟨flag, rfl, rfl⟩
    cases flag with
    | false => exact ⟨0, [0], [], ⟨by decide, rfl⟩, ⟨rfl, rfl⟩, rfl⟩
    | true => exact ⟨1, [1], [], ⟨by decide, rfl⟩, ⟨rfl, rfl⟩, rfl⟩

def ValueFormat (value : AttributeValue) (bytes : Bytes) : Prop :=
  writeValue value = .ok bytes ∧ idsFit value = true

/-- `AttributeType` as the tag stores it. -/
def valueTag : AttributeValue → Nat
  | .null => 0
  | .boolean _ => 1
  | .int64 _ => 2
  | .float64 _ => 3
  | .string _ => 4
  | .bytes _ => 5
  | .ref _ => 6
  | .blob _ => 7
  | .embedded _ => 8

def ContentFormat (value : AttributeValue) (bytes : Bytes) : Prop :=
  match value with
  | .null => bytes = []
  | .boolean flag => bytes = [if flag then 1 else 0]
  | .int64 bits => bytes = storeLe 8 bits.toNat
  | .float64 bits => bytes = storeLe 8 bits.toNat
  | .string text => text.length < 2 ^ 32 ∧ bytes = storeLe 4 text.length ++ text
  | .bytes data => data.length < 2 ^ 32 ∧ bytes = storeLe 4 data.length ++ data
  | .ref id => id < 2 ^ 64 ∧ bytes = storeLe 8 id
  | .blob id => id < 2 ^ 64 ∧ bytes = storeLe 8 id
  | .embedded payload => payload.length < 2 ^ 32 ∧ bytes = storeLe 4 payload.length ++ payload

theorem valueFormat_iff (value : AttributeValue) (bytes : Bytes) :
    ValueFormat value bytes ↔
      ∃ content, ContentFormat value content ∧ bytes = UInt8.ofNat (valueTag value) :: content := by
  have hsized : ∀ (tag : UInt8) (data : Bytes) (code : ErrorCode) (message : String),
      (do Net.require (data.length < 2 ^ 32) code message
          pure (tag :: (storeLe 4 data.length ++ data))) = Except.ok bytes ↔
        data.length < 2 ^ 32 ∧ tag :: (storeLe 4 data.length ++ data) = bytes := by
    intro tag data code message
    by_cases hdata : data.length < 2 ^ 32
    · rw [Net.require, if_pos hdata, and_iff_right hdata]
      exact ⟨Except.ok.inj, congrArg Except.ok⟩
    · rw [Net.require, if_neg hdata]
      exact ⟨nofun, fun h => absurd h.1 hdata⟩
  have hpure : ∀ written : Bytes, (pure written : Except Error Bytes) = .ok bytes ↔ bytes = written :=
    fun _ => ⟨fun h => (Except.ok.inj h).symm, fun h => congrArg Except.ok h.symm⟩
  cases value <;>
    simp only [ValueFormat, ContentFormat, valueTag, writeValue, hsized, hpure, idsFit,
      decide_eq_true_eq, and_true, exists_eq_left, and_assoc, exists_and_left]
  all_goals first | rfl | exact and_congr_right fun _ => eq_comm | exact and_comm

theorem word_iff (bits : BitVec 64) (bytes : Bytes) :
    (∃ raw < 2 ^ 64, bits = BitVec.ofNat 64 raw ∧ bytes = storeLe 8 raw) ↔
      bytes = storeLe 8 bits.toNat := by
  constructor
  · rintro ⟨raw, hraw, rfl, rfl⟩
    rw [BitVec.toNat_ofNat, Nat.mod_eq_of_lt hraw]
  · rintro rfl
    exact ⟨bits.toNat, bits.isLt, by simp, rfl⟩

theorem decodes_decodeTagged (tag : Nat) :
    Decodes (decodeTagged tag) fun value bytes => valueTag value = tag ∧ ContentFormat value bytes := by
  unfold decodeTagged
  split
  · apply (Decodes.pure _).congr
    intro value bytes
    cases value <;> simp [valueTag, ContentFormat]
  · apply decodes_decodeBoolean.congr
    intro value bytes
    cases value <;> simp [valueTag, ContentFormat]
  · apply (decodes_decodeWord _).congr
    intro value bytes
    cases value <;> simp [valueTag, ContentFormat]
    exact word_iff _ bytes
  · apply (decodes_decodeWord _).congr
    intro value bytes
    cases value <;> simp [valueTag, ContentFormat]
    exact word_iff _ bytes
  · apply (decodes_decodeSized _).congr
    intro value bytes
    cases value <;> simp [valueTag, ContentFormat]
  · apply (decodes_decodeSized _).congr
    intro value bytes
    cases value <;> simp [valueTag, ContentFormat]
  · apply (decodes_decodeWord _).congr
    intro value bytes
    cases value <;> simp [valueTag, ContentFormat]
  · apply (decodes_decodeWord _).congr
    intro value bytes
    cases value <;> simp [valueTag, ContentFormat]
  · apply (decodes_decodeSized _).congr
    intro value bytes
    cases value <;> simp [valueTag, ContentFormat]
  · apply (Decodes.throw _).congr
    intro value bytes
    cases value <;> simp only [valueTag, false_iff, not_and]
    all_goals
      rintro rfl
      contradiction

theorem decodes_decodeValue : Decodes decodeValue ValueFormat := by
  apply ((decodes_readLe 1).bind fun tag => decodes_decodeTagged tag).congr
  intro value bytes
  rw [valueFormat_iff]
  constructor
  · rintro ⟨tag, first, content, ⟨-, rfl⟩, ⟨rfl, hcontent⟩, rfl⟩
    exact ⟨content, hcontent, rfl⟩
  · rintro ⟨content, hcontent, rfl⟩
    have htag : valueTag value < 256 ^ 1 := by
      cases value <;> simp [valueTag]
    exact ⟨valueTag value, _, content, ⟨htag, rfl⟩, ⟨rfl, hcontent⟩, rfl⟩

/-! ### Fields -/

def FieldFits (field : FieldId × AttributeValue) : Prop := field.1 < 2 ^ 16 ∧ idsFit field.2 = true

def Fresh (seen fields : FieldValues) : Prop :=
  (fields.map Prod.fst).Nodup ∧ ∀ field ∈ fields, field.1 ∉ seen.map Prod.fst

theorem fresh_cons {seen fields : FieldValues} {field : FieldId × AttributeValue} :
    Fresh seen (field :: fields) ↔ field.1 ∉ seen.map Prod.fst ∧ Fresh (seen ++ [field]) fields := by
  unfold Fresh
  rw [List.map_cons, List.nodup_cons, List.forall_mem_cons]
  constructor
  · rintro ⟨⟨hnot, hnodup⟩, hfirst, hrest⟩
    refine ⟨hfirst, hnodup, fun other hother => ?_⟩
    rw [List.map_append, List.mem_append, not_or, List.map_singleton, List.mem_singleton]
    exact ⟨hrest other hother, fun heq => hnot (heq ▸ List.mem_map_of_mem hother)⟩
  · rintro ⟨hfirst, hnodup, hrest⟩
    have hsplit : ∀ other ∈ fields, other.1 ∉ seen.map Prod.fst ∧ other.1 ≠ field.1 := by
      intro other hother
      have hother := hrest other hother
      rwa [List.map_append, List.mem_append, not_or, List.map_singleton, List.mem_singleton] at hother
    refine ⟨⟨?_, hnodup⟩, hfirst, fun other hother => (hsplit other hother).1⟩
    rintro hmem
    obtain ⟨other, hother, heq⟩ := List.mem_map.1 hmem
    exact (hsplit other hother).2 heq

theorem encodeField_eq_ok_iff {field : FieldId × AttributeValue} {bytes : Bytes} :
    encodeField field = .ok bytes ↔
      ∃ value, writeValue field.2 = .ok value ∧ bytes = storeLe 2 field.1 ++ value := by
  unfold encodeField
  cases writeValue field.2 with
  | error error => exact ⟨nofun, fun ⟨_, h, _⟩ => nomatch h⟩
  | ok value =>
    constructor
    · intro h
      exact ⟨value, rfl, (Except.ok.inj h).symm⟩
    · rintro ⟨_, ⟨⟩, rfl⟩
      rfl

theorem writeMany_cons_eq_ok_iff {fields : FieldValues} {field : FieldId × AttributeValue}
    {bytes : Bytes} : Wire.writeMany encodeField (field :: fields) = .ok bytes ↔
      ∃ first rest, encodeField field = .ok first ∧ Wire.writeMany encodeField fields = .ok rest ∧
        bytes = first ++ rest := by
  constructor
  · intro h
    obtain ⟨first, hfirst, hmore⟩ := Effect.except_bind_eq_ok h
    obtain ⟨rest, hrest, hdone⟩ := Effect.except_bind_eq_ok hmore
    exact ⟨first, rest, hfirst, hrest, (Except.ok.inj hdone).symm⟩
  · rintro ⟨first, rest, hfirst, hrest, rfl⟩
    rw [Wire.writeMany, hfirst]
    change (do let rest ← Wire.writeMany encodeField fields; pure (first ++ rest)) = _
    rw [hrest]
    rfl

/-- The bytes of `count` more fields, after those seen before. -/
def FieldsFormat (count : Nat) (seen result : FieldValues) (bytes : Bytes) : Prop :=
  ∃ fields, result = seen ++ fields ∧ fields.length = count ∧ Fresh seen fields ∧
    (∀ field ∈ fields, FieldFits field) ∧ Wire.writeMany encodeField fields = .ok bytes

theorem decodes_decodeFields (count : Nat) (seen : FieldValues) :
    Decodes (decodeFields count seen) (FieldsFormat count seen) := by
  induction count generalizing seen with
  | zero =>
    apply (Decodes.pure seen).congr
    intro result bytes
    constructor
    · rintro ⟨rfl, rfl⟩
      exact ⟨[], (List.append_nil _).symm, rfl, ⟨List.nodup_nil, nofun⟩, nofun, rfl⟩
    · rintro ⟨fields, rfl, hcount, -, -, hwrite⟩
      obtain rfl : fields = [] := List.length_eq_zero_iff.1 hcount
      exact ⟨List.append_nil _, (Except.ok.inj hwrite).symm⟩
  | succ count ih =>
    apply ((decodes_readLe 2).bind fun fieldId => Decodes.ite (fun _ => .throw _) fun _ =>
      decodes_decodeValue.bind fun value => ih (seen ++ [(fieldId, value)])).congr
    intro result bytes
    constructor
    · rintro ⟨fieldId, first, second, ⟨hid, rfl⟩, hbody, rfl⟩
      split at hbody
      · exact hbody.elim
      · rename_i hany
        obtain ⟨value, third, fourth, ⟨hvalue, hfits⟩,
          ⟨fields, rfl, rfl, hfresh, hfields, hwrite⟩, rfl⟩ := hbody
        have hnot : fieldId ∉ seen.map Prod.fst := by
          rintro hmem
          obtain ⟨field, hfield, rfl⟩ := List.mem_map.1 hmem
          exact hany (List.any_eq_true.2 ⟨field, hfield, decide_eq_true rfl⟩)
        refine ⟨(fieldId, value) :: fields, by simp, rfl, fresh_cons.2 ⟨hnot, hfresh⟩, ?_, ?_⟩
        · exact List.forall_mem_cons.2 ⟨⟨hid, hfits⟩, hfields⟩
        · exact writeMany_cons_eq_ok_iff.2 ⟨_, fourth, encodeField_eq_ok_iff.2 ⟨third, hvalue, rfl⟩,
            hwrite, (List.append_assoc _ _ _).symm⟩
    · rintro ⟨fields, rfl, hcount, hfresh, hfields, hwrite⟩
      obtain ⟨field, fields, rfl⟩ := List.exists_cons_of_length_eq_add_one hcount
      obtain ⟨first, rest, hfirst, hrest, rfl⟩ := writeMany_cons_eq_ok_iff.1 hwrite
      obtain ⟨value, hvalue, rfl⟩ := encodeField_eq_ok_iff.1 hfirst
      obtain ⟨⟨hid, hfits⟩, hfields⟩ := List.forall_mem_cons.1 hfields
      obtain ⟨hnot, hfresh⟩ := fresh_cons.1 hfresh
      have hany : ¬(seen.any (·.1 = field.1) = true) := by
        rw [List.any_eq_true]
        rintro ⟨other, hother, heq⟩
        exact hnot (List.mem_map.2 ⟨other, hother, of_decide_eq_true heq⟩)
      refine ⟨field.1, storeLe 2 field.1, value ++ rest, ⟨hid, rfl⟩, ?_, List.append_assoc _ _ _⟩
      rw [if_neg hany]
      exact ⟨field.2, value, rest, ⟨hvalue, hfits⟩,
        ⟨fields, by simp, Nat.succ.inj hcount, hfresh, hfields, hrest⟩, rfl⟩

def PayloadFormat (fields : FieldValues) (bytes : Bytes) : Prop :=
  encodeObjectPayload fields = .ok bytes ∧ (fields.map Prod.fst).Nodup ∧ ∀ field ∈ fields, FieldFits field

theorem decodes_readObjectPayload : Decodes readObjectPayload PayloadFormat := by
  apply ((decodes_readLe 1).bind fun version => Decodes.ite (fun _ => .throw _) fun _ =>
    (decodes_readLe 2).bind fun fieldCount => Decodes.ite (fun _ => .throw _) fun _ =>
      decodes_decodeFields fieldCount []).congr
  intro fields bytes
  constructor
  · rintro ⟨version, first, second, ⟨-, rfl⟩, hbody, rfl⟩
    split at hbody
    · exact hbody.elim
    · rename_i hversion
      obtain ⟨fieldCount, third, fourth, ⟨-, rfl⟩, hbody, rfl⟩ := hbody
      split at hbody
      · exact hbody.elim
      · rename_i hcount
        obtain ⟨fields, rfl, rfl, hfresh, hfields, hwrite⟩ := hbody
        refine ⟨?_, hfresh.1, hfields⟩
        rw [encodeObjectPayload, if_neg hcount, hwrite, not_not.1 hversion]
        exact congrArg Except.ok (List.append_assoc _ _ _)
  · rintro ⟨hencode, hnodup, hfields⟩
    unfold encodeObjectPayload at hencode
    split at hencode
    · cases hencode
    · rename_i hcount
      obtain ⟨values, hwrite, hdone⟩ := Effect.except_bind_eq_ok hencode
      obtain rfl := Except.ok.inj hdone
      have hlength : fields.length < 256 ^ 2 := by
        unfold maxColumnsPerTable at hcount
        omega
      refine ⟨objectPayloadVersion, _, storeLe 2 fields.length ++ values, ⟨by decide, rfl⟩, ?_,
        List.append_assoc _ _ _⟩
      rw [if_neg (not_not.2 rfl)]
      refine ⟨fields.length, _, values, ⟨hlength, rfl⟩, ?_, rfl⟩
      rw [if_neg hcount]
      exact ⟨fields, rfl, rfl, ⟨hnodup, fun _ _ => List.not_mem_nil⟩, hfields, hwrite⟩

/-! ### Records -/

theorem decodes_headerReader : Decodes headerReader fun ids bytes =>
    (ids.1 < 2 ^ 64 ∧ ids.2 < 2 ^ 64) ∧ bytes = storeLe 8 ids.1 ++ storeLe 8 ids.2 := by
  apply ((decodes_readLe 8).bind fun id => (decodes_readLe 8).bind fun type => .pure (id, type)).congr
  rintro ⟨id, type⟩ bytes
  constructor
  · rintro ⟨id', first, second, ⟨hid, rfl⟩, ⟨type', third, fourth, ⟨htype, rfl⟩, ⟨heq, rfl⟩, rfl⟩, rfl⟩
    obtain ⟨rfl, rfl⟩ := Prod.mk.inj heq
    exact ⟨⟨hid, htype⟩, by rw [List.append_nil]⟩
  · rintro ⟨⟨hid, htype⟩, rfl⟩
    exact ⟨id, _, storeLe 8 type, ⟨hid, rfl⟩,
      ⟨type, _, [], ⟨htype, rfl⟩, ⟨rfl, rfl⟩, (List.append_nil _).symm⟩, rfl⟩

/-! ### The reader of the protocol -/

theorem agrees_readLe {τ : Type} {width : Nat} (ofNat : Nat → τ) (toNat : τ → Nat)
    (h : ∀ n < 256 ^ width, toNat (ofNat n) = n) : Agrees toNat (readLe width) (do
      let data ← Net.readBytes width
      pure (ofNat (loadLe data))) := by
  refine (Agrees.take incompleteInput width).bind fun bytes data rest hread => ?_
  obtain ⟨-, -, -, hlength⟩ := Wire.parses_take incompleteInput width bytes data rest hread
  have hword := h (loadLe data) (hlength ▸ loadLe_lt data)
  change Agrees toNat (pure (loadLe data)) _
  nth_rewrite 1 [← hword]
  exact .pure _

theorem agrees_readU8 : Agrees UInt8.toNat readU8 Net.readU8 :=
  agrees_readLe _ _ fun _ hlt => UInt8.toNat_ofNat_of_lt' hlt

theorem agrees_readU32 : Agrees UInt32.toNat readU32 Net.readU32 :=
  agrees_readLe _ _ fun _ hlt => UInt32.toNat_ofNat_of_lt' hlt

theorem agrees_readU64 : Agrees UInt64.toNat readU64 Net.readU64 :=
  agrees_readLe _ _ fun _ hlt => UInt64.toNat_ofNat_of_lt' hlt

theorem agrees_decodeBoolean (fits : ∀ flag, idsFit (.boolean flag) = true) :
    Agrees Subtype.val decodeBoolean (do
      let raw ← Net.readU8
      Net.require (raw.toNat ≤ 1) .invalidEncoding "BOOLEAN must be encoded as 0 or 1"
      pure (⟨.boolean (raw ≠ 0), fits _⟩ : Net.ReadValue)) := by
  refine agrees_readU8.bind fun _ raw _ _ => ?_
  by_cases hraw : raw.toNat ≤ 1
  · rw [if_neg (Nat.not_lt.2 hraw), Net.require, if_pos hraw]
    have hflag : (raw.toNat ≠ 0) = (raw ≠ 0) := by
      rw [← UInt8.toNat_inj.ne]
      rfl
    simp only [hflag]
    exact .pure _
  · rw [if_pos (Nat.lt_of_not_le hraw), Net.require, if_neg hraw]
    exact .throw _

theorem agrees_decodeWord (value : Nat → AttributeValue) (fits : ∀ raw : UInt64, idsFit (value raw.toNat) = true) :
    Agrees Subtype.val (decodeWord value) (do
      let raw ← Net.readU64
      pure (⟨value raw.toNat, fits raw⟩ : Net.ReadValue)) :=
  agrees_readU64.bind fun _ _ _ _ => .pure _

theorem agrees_decodeSized (value : Bytes → AttributeValue) (fits : ∀ data, idsFit (value data) = true) :
    Agrees Subtype.val (decodeSized value) (do
      let length ← Net.readU32
      let data ← Net.readBytes length.toNat
      pure (⟨value data, fits data⟩ : Net.ReadValue)) :=
  agrees_readU32.bind fun _ length _ _ =>
    (Agrees.take incompleteInput length.toNat).bind fun _ _ _ _ => .pure _

theorem agrees_decodeValue : Agrees Subtype.val decodeValue Net.readValue := by
  refine agrees_readU8.bind fun _ tag _ _ => ?_
  repeat' split
  all_goals try subst tag
  · exact .pure (⟨.null, rfl⟩ : Net.ReadValue)
  · exact agrees_decodeBoolean fun _ => rfl
  · exact agrees_decodeWord (fun raw => .int64 (BitVec.ofNat 64 raw)) fun _ => rfl
  · exact agrees_decodeWord (fun raw => .float64 (BitVec.ofNat 64 raw)) fun _ => rfl
  · exact agrees_decodeSized .string fun _ => rfl
  · exact agrees_decodeSized .bytes fun _ => rfl
  · exact agrees_decodeWord .ref fun raw => decide_eq_true raw.toNat_lt
  · exact agrees_decodeWord .blob fun raw => decide_eq_true raw.toNat_lt
  · exact agrees_decodeSized .embedded fun _ => rfl
  · have hunknown : 9 ≤ tag.toNat := by
      simp only [← UInt8.toNat_inj, UInt8.reduceToNat] at *
      omega
    obtain ⟨n, hn⟩ := Nat.exists_eq_add_of_le' hunknown
    rw [hn]
    exact .throw _

/-- Every id of the object is as wide as the program's. -/
structure Fits (object : DecodedObject) : Prop where
  id : object.id < 2 ^ 64
  type : object.type < 2 ^ 64
  fields : ∀ field ∈ object.fields, FieldFits field

theorem decodeObjectPayload_eq_ok_iff {payload : Bytes} {fields : FieldValues} :
    decodeObjectPayload payload = .ok fields ↔ PayloadFormat fields payload := by
  rw [← decodes_readObjectPayload.whole_ok_iff ⟨.trailingData, "object payload has trailing bytes"⟩]
  change _ ↔ ∃ c, objectPayloadReader ⟨payload, 0⟩ = .ok fields c
  unfold decodeObjectPayload
  cases objectPayloadReader ⟨payload, 0⟩ with
  | ok fields' c => simp
  | error error c => simp

theorem decodeObject_eq_ok_iff {record : Bytes} {object : DecodedObject} :
    decodeObject record = .ok object ↔
      encodeObject object = .ok record ∧ (object.fields.map Prod.fst).Nodup ∧ Fits object := by
  constructor
  · intro h
    unfold decodeObject at h
    cases hheader : headerReader ⟨record, 0⟩ with
    | error error reader =>
      rw [hheader] at h
      cases h
    | ok ids reader =>
      rw [hheader] at h
      obtain ⟨fields, hfields, hdone⟩ := Effect.except_bind_eq_ok h
      obtain rfl := Except.ok.inj hdone
      obtain ⟨first, payload, ⟨⟨hid, htype⟩, rfl⟩, hrest, rfl⟩ :=
        decodes_headerReader.only (Nat.zero_le _) hheader
      rw [Cursor.rest_skip_append hrest, decodeObjectPayload_eq_ok_iff] at hfields
      obtain ⟨hencode, hnodup, hfits⟩ := hfields
      have hrecord : record = storeLe 8 ids.1 ++ storeLe 8 ids.2 ++ payload := hrest
      refine ⟨?_, hnodup, hid, htype, hfits⟩
      rw [encodeObject, hencode, hrecord]
      rfl
  · rintro ⟨hencode, hnodup, hid, htype, hfits⟩
    obtain ⟨payload, hpayload, hdone⟩ := Effect.except_bind_eq_ok hencode
    obtain rfl := Except.ok.inj hdone
    set ids := storeLe 8 object.id ++ storeLe 8 object.type with hids
    have hrest : Cursor.rest ⟨ids ++ payload, 0⟩ = ids ++ payload := rfl
    have hheader : headerReader ⟨ids ++ payload, 0⟩ =
        .ok (object.id, object.type) (Cursor.skip ⟨ids ++ payload, 0⟩ ids.length) :=
      decodes_headerReader.reads hrest ⟨⟨hid, htype⟩, rfl⟩
    rw [decodeObject, hheader]
    change (do let fields ← decodeObjectPayload (Cursor.skip ⟨ids ++ payload, 0⟩ ids.length).rest
               pure (⟨object.id, object.type, fields⟩ : DecodedObject)) = _
    rw [Cursor.rest_skip_append hrest, decodeObjectPayload_eq_ok_iff.2 ⟨hpayload, hnodup, hfits⟩]
    rfl

/-! ### What the encoder refuses -/

def SizeFits : AttributeValue → Prop
  | .string text => text.length < 2 ^ 32
  | .bytes data => data.length < 2 ^ 32
  | .embedded payload => payload.length < 2 ^ 32
  | _ => True

theorem writeValue_map (value : AttributeValue) :
    (writeValue value).map (fun _ => ()) = encodeValue value := by
  have hsized : ∀ (tag : UInt8) (data : Bytes) (message : String),
      ((do Net.require (data.length < 2 ^ 32) .valueTooLarge message
           pure (tag :: (storeLe 4 data.length ++ data)) : Except Error Bytes).map fun _ => ()) =
        if 2 ^ 32 ≤ data.length then .error ⟨.valueTooLarge, message⟩ else .ok () := by
    intro tag data message
    by_cases hdata : data.length < 2 ^ 32
    · rw [Net.require, if_pos hdata, if_neg (Nat.not_le.2 hdata)]
      rfl
    · rw [Net.require, if_neg hdata, if_pos (Nat.not_lt.1 hdata)]
      rfl
  cases value with
  | string text => exact hsized 4 text _
  | bytes data => exact hsized 5 data _
  | embedded payload => exact hsized 8 payload _
  | _ => rfl

theorem encodeValue_cases (value : AttributeValue) :
    SizeFits value ∧ encodeValue value = .ok () ∨
      ¬SizeFits value ∧ ∃ message, encodeValue value = .error ⟨.valueTooLarge, message⟩ := by
  have hsized : ∀ (data : Bytes) (message : String),
      data.length < 2 ^ 32 ∧ (if 2 ^ 32 ≤ data.length then .error ⟨.valueTooLarge, message⟩ else .ok () :
          Except Error Unit) = .ok () ∨
        ¬data.length < 2 ^ 32 ∧ ∃ message', (if 2 ^ 32 ≤ data.length then
          .error ⟨.valueTooLarge, message⟩ else .ok () : Except Error Unit) =
            .error ⟨.valueTooLarge, message'⟩ := by
    intro data message
    by_cases hdata : data.length < 2 ^ 32
    · exact .inl ⟨hdata, if_neg (Nat.not_le.2 hdata)⟩
    · exact .inr ⟨hdata, message, if_pos (Nat.not_lt.1 hdata)⟩
  cases value with
  | string text => exact hsized text _
  | bytes data => exact hsized data _
  | embedded payload => exact hsized payload _
  | _ => exact .inl ⟨trivial, rfl⟩

theorem encodeField_map (field : FieldId × AttributeValue) :
    (encodeField field).map (fun _ => ()) = encodeValue field.2 := by
  rw [← writeValue_map, encodeField]
  cases writeValue field.2 <;> rfl

theorem writeMany_map (fields : FieldValues) :
    (Wire.writeMany encodeField fields).map (fun _ => ()) = encodeValues fields := by
  induction fields with
  | nil => rfl
  | cons field fields ih =>
    have hfield := encodeField_map field
    rw [encodeValues, ← ih, ← hfield, Wire.writeMany]
    cases encodeField field with
    | error error => rfl
    | ok first => cases Wire.writeMany encodeField fields <;> rfl

theorem encodeObject_map (object : DecodedObject) :
    (encodeObject object).map (fun _ => object) =
      Store.encodeObject object.id object.type object.fields := by
  rw [Store.encodeObject, ← writeMany_map, encodeObject, encodeObjectPayload]
  split
  · rfl
  · cases Wire.writeMany encodeField object.fields <;> rfl

theorem encodeValues_cases (fields : FieldValues) :
    (∀ field ∈ fields, SizeFits field.2) ∧ encodeValues fields = .ok () ∨
      (∃ field ∈ fields, ¬SizeFits field.2) ∧
        ∃ message, encodeValues fields = .error ⟨.valueTooLarge, message⟩ := by
  induction fields with
  | nil => exact .inl ⟨nofun, rfl⟩
  | cons field fields ih =>
    rcases encodeValue_cases field.2 with ⟨hsize, hvalue⟩ | ⟨hsize, message, hvalue⟩
    · have hrest : encodeValues (field :: fields) = encodeValues fields := by
        rw [encodeValues, hvalue]
      rw [hrest]
      rcases ih with ⟨hsizes, hok⟩ | ⟨⟨other, hother, hnot⟩, herror⟩
      · exact .inl ⟨List.forall_mem_cons.2 ⟨hsize, hsizes⟩, hok⟩
      · exact .inr ⟨⟨other, List.mem_cons_of_mem _ hother, hnot⟩, herror⟩
    · refine .inr ⟨⟨field, List.mem_cons_self, hsize⟩, message, ?_⟩
      rw [encodeValues, hvalue]

theorem encodeObject_cases {object : DecodedObject}
    (hcount : object.fields.length ≤ maxColumnsPerTable) :
    (∀ field ∈ object.fields, SizeFits field.2) ∧ (∃ record, encodeObject object = .ok record) ∨
      (∃ field ∈ object.fields, ¬SizeFits field.2) ∧
        ∃ message, encodeObject object = .error ⟨.valueTooLarge, message⟩ := by
  have hstore := encodeObject_map object
  rw [Store.encodeObject, if_neg (Nat.not_lt.2 hcount)] at hstore
  rcases encodeValues_cases object.fields with ⟨hsize, hvalues⟩ | ⟨hsize, message, hvalues⟩
  · rw [hvalues] at hstore
    cases hencode : encodeObject object with
    | ok record => exact .inl ⟨hsize, record, rfl⟩
    | error error =>
      rw [hencode] at hstore
      cases hstore
  · rw [hvalues] at hstore
    cases hencode : encodeObject object with
    | ok record =>
      rw [hencode] at hstore
      cases hstore
    | error error =>
      rw [hencode] at hstore
      exact .inr ⟨hsize, message, congrArg Except.error (Except.error.inj hstore)⟩

/-! ### The codec -/

/-- The reader has not left its bytes, whether it has read a value or failed. -/
def ReadWithin {α : Type} (read : BinaryDecoder α) (bytes : Bytes) : Prop :=
  (∃ value c, read ⟨bytes, 0⟩ = .ok value c ∧ c.bytes = bytes ∧ c.Within) ∨
  (∃ error c, read ⟨bytes, 0⟩ = .error error c ∧ c.bytes = bytes ∧ c.Within)

/-- Encoding and decoding undo each other, and nothing else is accepted. -/
structure CodecExact : Prop where
  decoded : ∀ object, Fits object → (object.fields.map Prod.fst).Nodup →
    object.fields.length ≤ maxColumnsPerTable → (∀ field ∈ object.fields, SizeFits field.2) →
      ∃ record, encodeObject object = .ok record ∧ decodeObject record = .ok object
  refused : ∀ object, object.fields.length ≤ maxColumnsPerTable →
    (∃ field ∈ object.fields, ¬SizeFits field.2) →
      ∃ message, encodeObject object = .error ⟨.valueTooLarge, message⟩
  canonical : ∀ record object, decodeObject record = .ok object → encodeObject object = .ok record
  rejected : ∀ record, (∀ object, Fits object → (object.fields.map Prod.fst).Nodup →
    encodeObject object ≠ .ok record) → ∃ error, decodeObject record = .error error
  within : ∀ bytes, ReadWithin headerReader bytes ∧ ReadWithin objectPayloadReader bytes

/-- The codec of objects is exact. -/
theorem codec_exact : CodecExact where
  decoded object hfits hnodup hcount hsize := by
    rcases encodeObject_cases hcount with ⟨-, record, hencode⟩ | ⟨⟨field, hfield, hnot⟩, -⟩
    · exact ⟨record, hencode, decodeObject_eq_ok_iff.2 ⟨hencode, hnodup, hfits⟩⟩
    · exact absurd (hsize field hfield) hnot
  refused object hcount hlarge := by
    rcases encodeObject_cases hcount with ⟨hsize, -⟩ | ⟨-, herror⟩
    · obtain ⟨field, hfield, hnot⟩ := hlarge
      exact absurd (hsize field hfield) hnot
    · exact herror
  canonical record object h := (decodeObject_eq_ok_iff.1 h).1
  rejected record hnone := by
    cases hdecode : decodeObject record with
    | error error => exact ⟨error, rfl⟩
    | ok object =>
      obtain ⟨hencode, hnodup, hfits⟩ := decodeObject_eq_ok_iff.1 hdecode
      exact absurd hencode (hnone object hfits hnodup)
  within bytes := ⟨decodes_headerReader.within bytes, decodes_readObjectPayload.whole_within _ bytes⟩

def everyKind : DecodedObject := ⟨7, 3, [(1, .int64 (-1)), (9, .string [77, 68]), (2, .boolean true), (4, .null),
  (3, .embedded [1]), (5, .float64 0), (6, .bytes []), (8, .ref 12), (7, .blob 4)]⟩

theorem codec_exact_everyKind : ∃ record, encodeObject everyKind = .ok record ∧
    decodeObject record = .ok everyKind := by
  have hfits : Fits everyKind := by
    refine ⟨by decide, by decide, ?_⟩
    unfold FieldFits
    decide
  have hsize : ∀ field ∈ everyKind.fields, SizeFits field.2 := by
    simp [everyKind, SizeFits]
  exact codec_exact.decoded everyKind hfits (by decide) (by decide) hsize

/-- A text of `2 ^ 32` bytes is not encoded, so there is nothing to decode. -/
theorem not_codec_total : ¬∀ object, Fits object → (object.fields.map Prod.fst).Nodup →
    object.fields.length ≤ maxColumnsPerTable →
      ∃ record, encodeObject object = .ok record ∧ decodeObject record = .ok object := by
  intro h
  set object : DecodedObject := ⟨1, 1, [(1, .string (List.replicate (2 ^ 32) 0))]⟩ with hobject
  have hfits : Fits object := by
    refine ⟨by decide, by decide, fun field hfield => ?_⟩
    obtain rfl := List.mem_singleton.1 hfield
    exact ⟨by decide, rfl⟩
  have hnodup : (object.fields.map Prod.fst).Nodup := by
    change ([1] : List Nat).Nodup
    decide
  obtain ⟨record, hencode, -⟩ := h object hfits hnodup (by decide)
  rcases encodeObject_cases (show object.fields.length ≤ maxColumnsPerTable by decide) with
    ⟨hsize, -⟩ | ⟨-, message, herror⟩
  · have htext := hsize _ (List.mem_singleton_self _)
    simp only [SizeFits, List.length_replicate, Nat.lt_irrefl] at htext
  · rw [hencode] at herror
    cases herror

end MoDb.ObjectCodec
