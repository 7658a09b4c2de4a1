import MoDb.Error
import MoDb.Storage.Page

/-!
# Attribute values, types and objects

A value carries its own tag. An object is a list of field ids and values; its type says which fields
it may have. Integers and reals are their 64 bits.
-/

namespace MoDb.Store

open Storage

abbrev ObjectId := Nat

/-- `invalid_object_id`. -/
def invalidObjectId : ObjectId := 0

abbrev TypeDefinitionId := Nat

abbrev FieldId := Nat

inductive AttributeType
  | null
  | boolean
  | int64
  | float64
  | string
  | bytes
  | ref
  | blob
  | embedded
  deriving DecidableEq, Repr

/-- `attribute_type_name`. -/
def AttributeType.name : AttributeType → String
  | .null => "NULL"
  | .boolean => "BOOLEAN"
  | .int64 => "INT64"
  | .float64 => "FLOAT64"
  | .string => "STRING"
  | .bytes => "BYTES"
  | .ref => "REF"
  | .blob => "BLOB"
  | .embedded => "EMBEDDED"

inductive AttributeValue
  | null
  | boolean (value : Bool)
  | int64 (bits : BitVec 64)
  | float64 (bits : BitVec 64)
  | string (text : Bytes)
  | bytes (data : Bytes)
  | ref (id : ObjectId)
  | blob (id : Nat)
  | embedded (payload : Bytes)
  deriving DecidableEq, Repr

instance : Inhabited AttributeValue := ⟨.null⟩

namespace AttributeValue

def type : AttributeValue → AttributeType
  | .null => .null
  | .boolean _ => .boolean
  | .int64 _ => .int64
  | .float64 _ => .float64
  | .string _ => .string
  | .bytes _ => .bytes
  | .ref _ => .ref
  | .blob _ => .blob
  | .embedded _ => .embedded

def isNull : AttributeValue → Bool
  | .null => true
  | _ => false

def asRef : AttributeValue → Except Error ObjectId
  | .ref id => .ok id
  | value => .error ⟨.typeMismatch, s!"attribute value is {value.type.name}, not REF"⟩

end AttributeValue

/-! ### Index keys -/

/-- `store_be64`. -/
def storeBe64 (value : Nat) : Bytes := (storeLe 8 value).reverse

def signBit : BitVec 64 := 1#64 <<< 63

/-- `encode_key`: bytes whose order is the order of the values of one type. -/
def encodeKey : AttributeValue → Except Error Bytes
  | .boolean value => .ok [if value then 1 else 0]
  | .int64 bits => .ok (storeBe64 (bits ^^^ signBit).toNat)
  | .float64 bits =>
    .ok (storeBe64 (if bits &&& signBit ≠ 0 then ~~~bits else bits ||| signBit).toNat)
  | .string text => .ok text
  | .ref id => .ok (storeBe64 id)
  | .blob id => .ok (storeBe64 id)
  | .null | .bytes _ | .embedded _ => .error ⟨.invalidArgument, "attribute type is not indexable"⟩

/-! ### Types -/

structure AttributeDefinition where
  id : FieldId
  name : String
  type : AttributeType
  nullable : Bool := true
  defaultValue : Option AttributeValue := none
  isOwned : Bool := false
  deriving DecidableEq, Repr

structure TypeDefinition where
  id : TypeDefinitionId
  name : String
  attributes : List AttributeDefinition
  deriving DecidableEq, Repr

/-- `TypeDefinition::find`. -/
def TypeDefinition.find (type : TypeDefinition) (field : FieldId) : Option AttributeDefinition :=
  type.attributes.find? fun attr => attr.id = field

abbrev FieldValues := List (FieldId × AttributeValue)

/-- `field_value`: the value of a field, if the object has it. -/
def fieldValue (fields : FieldValues) (field : FieldId) : Option AttributeValue :=
  (fields.find? fun entry => entry.1 = field).map Prod.snd

/-- The loop of `validate_object` over the given fields; `seen` are the fields met before. -/
def validateFields (type : TypeDefinition) : FieldValues → List FieldId → Except Error (List FieldId)
  | [], seen => .ok seen
  | (field, value) :: rest, seen =>
    match type.find field with
    | none => .error ⟨.fieldNotFound, s!"type {type.name} has no attribute with FieldId {field}"⟩
    | some attr =>
      if field ∈ seen then
        .error ⟨.duplicateField, s!"duplicate FieldId {field} in object payload"⟩
      else if value.isNull then
        if attr.nullable then validateFields type rest (field :: seen)
        else .error ⟨.nullConstraintViolation, s!"attribute does not accept null: {attr.name}"⟩
      else if value.type ≠ attr.type then
        .error ⟨.typeMismatch, s!"invalid value type for attribute: {attr.name}"⟩
      else validateFields type rest (field :: seen)

/-- `validate_object`. -/
def validateObject (type : TypeDefinition) (fields : FieldValues) : Except Error Unit :=
  match validateFields type fields [] with
  | .error error => .error error
  | .ok seen =>
    match type.attributes.find? fun attr =>
        attr.id ∉ seen ∧ attr.defaultValue = none ∧ ¬attr.nullable with
    | some attr =>
      .error ⟨.nullConstraintViolation,
        s!"attribute is missing, not nullable, and has no default: {attr.name}"⟩
    | none => .ok ()

/-! ### Objects -/

structure DecodedObject where
  id : ObjectId
  type : TypeDefinitionId
  fields : FieldValues
  deriving DecidableEq, Repr

instance : Inhabited DecodedObject := ⟨⟨0, 0, []⟩⟩

def maxColumnsPerTable : Nat := 256

/-- What `encode_value` refuses: a length is stored in 32 bits. -/
def encodeValue : AttributeValue → Except Error Unit
  | .string text =>
    if 2 ^ 32 ≤ text.length then .error ⟨.valueTooLarge, "string is too large to encode"⟩ else .ok ()
  | .bytes data =>
    if 2 ^ 32 ≤ data.length then .error ⟨.valueTooLarge, "byte string is too large to encode"⟩
    else .ok ()
  | .embedded payload =>
    if 2 ^ 32 ≤ payload.length then
      .error ⟨.valueTooLarge, "embedded object is too large to encode"⟩
    else .ok ()
  | _ => .ok ()

/-- The loop of `encode_object_payload`. -/
def encodeValues : FieldValues → Except Error Unit
  | [] => .ok ()
  | (_, value) :: rest =>
    match encodeValue value with
    | .error error => .error error
    | .ok () => encodeValues rest

/-- `encode_object`, up to the bytes: a record is the object it encodes. -/
def encodeObject (id : ObjectId) (type : TypeDefinitionId) (fields : FieldValues) :
    Except Error DecodedObject :=
  if maxColumnsPerTable < fields.length then
    .error ⟨.tooManyColumns, "object has more fields than the type limit"⟩
  else
    match encodeValues fields with
    | .error error => .error error
    | .ok () => .ok ⟨id, type, fields⟩

theorem encodeObject_eq_ok {id : ObjectId} {type : TypeDefinitionId} {fields : FieldValues}
    {object : DecodedObject} (h : encodeObject id type fields = .ok object) :
    object = ⟨id, type, fields⟩ := by
  unfold encodeObject at h
  split at h
  · injection h
  · split at h
    · injection h
    · injection h with hobject
      exact hobject.symm

end MoDb.Store
