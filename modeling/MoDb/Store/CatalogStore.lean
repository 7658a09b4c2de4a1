import MoDb.Store.ObjectCodec
import MoDb.Storage.HeapMap

/-!
# The catalogue

A type or a baseline is an object of the catalogue's heap: a type has its name and its attributes, in a
format of their own, and a baseline the ids of its types. What is saved is there when the catalogue is
opened again: every type as it was created, and of a baseline as many types as its count can say.
-/

namespace MoDb.Catalog

open Storage Store Format ObjectCodec
open Net (writeValue idsFit incompleteInput)

def maxIdentifierBytes : Nat := 63

/-- `AttributeDefinition`; the type of the values is a byte. -/
structure AttributeDefinition where
  id : FieldId
  name : Bytes
  type : Nat
  nullable : Bool := true
  defaultValue : Option AttributeValue := none
  isCollection : Bool := false
  isEmbedded : Bool := false
  isOwned : Bool := false
  deriving DecidableEq

structure TypeDefinition where
  id : TypeDefinitionId
  name : Bytes
  attributes : List AttributeDefinition
  deriving DecidableEq

structure Baseline where
  id : ObjectId
  types : List TypeDefinitionId
  deriving DecidableEq

def shown (name : Bytes) : String := String.ofList (name.map fun byte => Char.ofNat byte.toNat)

/-! ### Validation -/

def validateIdentifier (name : Bytes) : Except Error Unit :=
  if name = [] ∨ maxIdentifierBytes < name.length then
    .error ⟨.invalidIdentifier, s!"identifier must contain between 1 and {maxIdentifierBytes} bytes"⟩
  else .ok ()

def validateDefault (attr : AttributeDefinition) : Except Error Unit :=
  match attr.defaultValue with
  | none => .ok ()
  | some value =>
    if attr.isCollection || attr.isEmbedded then
      .error ⟨.invalidArgument,
        "collection and embedded attributes cannot have a default value: " ++ shown attr.name⟩
    else if value.isNull then
      if attr.nullable then .ok ()
      else .error ⟨.nullConstraintViolation,
        "default value is null but attribute is not nullable: " ++ shown attr.name⟩
    else if valueTag value ≠ attr.type then
      .error ⟨.typeMismatch, "default value type does not match attribute type: " ++ shown attr.name⟩
    else .ok ()

/-- The loop of `TypeDefinition::create`, with the ids and the names met before. -/
def validateAttributes (type : Bytes) : List AttributeDefinition → List FieldId → List Bytes → Except Error Unit
  | [], _, _ => .ok ()
  | attr :: rest, ids, names =>
    if attr.id = 0 then
      .error ⟨.invalidArgument, "FieldId must not be zero: " ++ shown attr.name⟩
    else if attr.id ∈ ids then
      .error ⟨.duplicateField, s!"duplicate FieldId {attr.id} in type " ++ shown type⟩
    else do
      validateIdentifier attr.name
      if names.contains attr.name then
        .error ⟨.duplicateColumn, "duplicate attribute name: " ++ shown attr.name⟩
      else do
        validateDefault attr
        validateAttributes type rest (attr.id :: ids) (attr.name :: names)

/-- `TypeDefinition::create`. -/
def TypeDefinition.create (name : Bytes) (attributes : List AttributeDefinition) : Except Error TypeDefinition := do
  validateIdentifier name
  if maxColumnsPerTable < attributes.length then
    .error ⟨.tooManyColumns, s!"type cannot contain more than {maxColumnsPerTable} attributes"⟩
  else do
    validateAttributes name attributes [] []
    pure ⟨0, name, attributes⟩

/-- The loop of `Baseline::create`, with the ids met before. -/
def validateTypes : List TypeDefinitionId → List TypeDefinitionId → Except Error Unit
  | [], _ => .ok ()
  | id :: rest, seen =>
    if id = invalidObjectId then .error ⟨.invalidObjectId, "baseline cannot reference TypeDefinitionId 0"⟩
    else if id ∈ seen then
      .error ⟨.duplicateType, s!"baseline references the same TypeDefinitionId twice: {id}"⟩
    else validateTypes rest (id :: seen)

/-- `Baseline::create`. -/
def Baseline.create (types : List TypeDefinitionId) : Except Error Baseline := do
  validateTypes types []
  pure ⟨0, types⟩

/-! ### Encoding -/

def metaTypeDefinition : TypeDefinitionId := 1
def metaBaseline : TypeDefinitionId := 3

def flag (set : Bool) (bit : Nat) : Nat := if set then bit else 0

def AttributeDefinition.flags (attr : AttributeDefinition) : Nat :=
  flag attr.nullable 1 + flag attr.isCollection 2 + flag attr.isEmbedded 4 +
    flag attr.isOwned 8

def encodeDefault : Option AttributeValue → Except Error Bytes
  | none => .ok []
  | some value => writeValue value

def encodeAttribute (attr : AttributeDefinition) : Except Error Bytes := do
  let value ← encodeDefault attr.defaultValue
  pure (storeLe 2 attr.id ++ (storeLe 2 attr.name.length ++ (attr.name ++
    (storeLe 1 attr.type ++ (storeLe 1 attr.flags ++
      (storeLe 1 (flag attr.defaultValue.isSome 1) ++ value))))))

/-- `encode_attributes`. -/
def encodeAttributes (attributes : List AttributeDefinition) : Except Error Bytes := do
  let written ← Wire.writeMany encodeAttribute attributes
  pure (storeLe 2 attributes.length ++ written)

/-- The record that `save_type` inserts. -/
def TypeDefinition.record (definition : TypeDefinition) : Except Error Bytes := do
  let attributes ← encodeAttributes definition.attributes
  encodeObject ⟨definition.id, metaTypeDefinition, [(1, .string definition.name), (2, .bytes attributes)]⟩

/-- The record that `save_baseline` inserts. -/
def Baseline.record (baseline : Baseline) : Except Error Bytes :=
  encodeObject ⟨baseline.id, metaBaseline,
    [(1, .bytes (storeLe 2 baseline.types.length ++ baseline.types.flatMap (storeLe 8)))]⟩

/-! ### Decoding -/

def decodeDefault (present : Nat) : BinaryDecoder (Option AttributeValue) :=
  if present ≠ 0 then do
    let value ← decodeValue
    pure (some value)
  else pure none

def decodeAttribute : BinaryDecoder AttributeDefinition := do
  let fieldId ← readU16
  let nameLength ← readU16
  if maxIdentifierBytes < nameLength then
    throw ⟨.invalidArgument, "attribute name exceeds max_identifier_bytes"⟩
  else do
    let name ← ObjectCodec.readBytes nameLength
    let tag ← readU8
    let flags ← readU8
    let hasDefault ← readU8
    let value ← decodeDefault hasDefault
    pure { id := fieldId, name := name, type := tag
           nullable := flags.testBit 0, defaultValue := value, isCollection := flags.testBit 1
           isEmbedded := flags.testBit 2, isOwned := flags.testBit 3 }

/-- `decode_attributes`; what follows the attributes is not looked at. -/
def attributesReader : BinaryDecoder (List AttributeDefinition) := do
  let count ← readU16
  if maxColumnsPerTable < count then
    throw ⟨.tooManyColumns, "type attributes exceed max_columns_per_table"⟩
  else Format.readMany decodeAttribute count

def typesReader : BinaryDecoder (List TypeDefinitionId) := do
  let count ← readU16
  Format.readMany readU64 count

def readFront {α : Type} (reader : BinaryDecoder α) (bytes : Bytes) : Except Error α :=
  match reader ⟨bytes, 0⟩ with
  | .ok value _ => .ok value
  | .error error _ => .error error

def asString : AttributeValue → Except Error Bytes
  | .string text => .ok text
  | value => .error ⟨.typeMismatch, s!"attribute value is {value.type.name}, not STRING"⟩

def asBytes : AttributeValue → Except Error Bytes
  | .bytes data => .ok data
  | value => .error ⟨.typeMismatch, s!"attribute value is {value.type.name}, not BYTES"⟩

def decodeType (object : DecodedObject) : Except Error TypeDefinition :=
  match fieldValue object.fields 1, fieldValue object.fields 2 with
  | some name, some attributes => do
    let name ← asString name
    let raw ← asBytes attributes
    let attributes ← readFront attributesReader raw
    let definition ← TypeDefinition.create name attributes
    pure { definition with id := object.id }
  | _, _ => .error ⟨.corruptFile, "catalog type object is missing required fields"⟩

def decodeBaseline (object : DecodedObject) : Except Error Baseline :=
  match fieldValue object.fields 1 with
  | some types => do
    let raw ← asBytes types
    let ids ← readFront typesReader raw
    let baseline ← Baseline.create ids
    pure { baseline with id := object.id }
  | none => .error ⟨.corruptFile, "catalog baseline object is missing its type list"⟩

/-! ### One attribute -/

def DefaultFormat : Option AttributeValue → Bytes → Prop
  | none, bytes => bytes = []
  | some value, bytes => ValueFormat value bytes

theorem decodes_decodeDefault (present : Nat) : Decodes (decodeDefault present) fun default bytes =>
    (present ≠ 0 ↔ default.isSome = true) ∧ DefaultFormat default bytes := by
  apply (Decodes.ite (fun _ => decodes_decodeValue.bind fun value => .pure (some value))
    fun _ => .pure none).congr
  intro default bytes
  by_cases hpresent : present = 0
  · rw [if_neg (not_not.2 hpresent)]
    cases default with
    | none => simp [DefaultFormat, hpresent]
    | some value => simp [hpresent]
  · rw [if_pos hpresent]
    cases default with
    | none => simp [hpresent]
    | some value => simp [DefaultFormat, hpresent]

def Packs (flags : Nat) (attr : AttributeDefinition) : Prop :=
  flags.testBit 0 = attr.nullable ∧ flags.testBit 1 = attr.isCollection ∧
    flags.testBit 2 = attr.isEmbedded ∧ flags.testBit 3 = attr.isOwned

theorem packs_flags (attr : AttributeDefinition) : attr.flags < 256 ∧ Packs attr.flags attr := by
  unfold Packs AttributeDefinition.flags
  cases attr.nullable <;> cases attr.isCollection <;> cases attr.isEmbedded <;>
    cases attr.isOwned <;> decide

def AttributeFormat (attr : AttributeDefinition) (bytes : Bytes) : Prop :=
  ∃ flags present value, (flags < 256 ∧ present < 256) ∧
    (attr.id < 2 ^ 16 ∧ attr.name.length ≤ maxIdentifierBytes ∧ attr.type < 256) ∧
    Packs flags attr ∧ (present ≠ 0 ↔ attr.defaultValue.isSome = true) ∧
    DefaultFormat attr.defaultValue value ∧
    bytes = storeLe 2 attr.id ++ (storeLe 2 attr.name.length ++ (attr.name ++
      (storeLe 1 attr.type ++ (storeLe 1 flags ++ (storeLe 1 present ++ value)))))

theorem decodes_decodeAttribute : Decodes decodeAttribute AttributeFormat := by
  apply ((decodes_readLe 2).bind fun fieldId => (decodes_readLe 2).bind fun nameLength =>
    Decodes.ite (fun _ => .throw _) fun _ => (decodes_readBytes incompleteInput nameLength).bind fun name =>
      (decodes_readLe 1).bind fun tag => (decodes_readLe 1).bind fun flags => (decodes_readLe 1).bind fun present =>
        (decodes_decodeDefault present).bind fun value => .pure _).congr
  intro attr bytes
  constructor
  · rintro ⟨fieldId, _, _, ⟨hid, rfl⟩, ⟨nameLength, _, _, ⟨-, rfl⟩, hbody, rfl⟩, rfl⟩
    split at hbody
    · exact hbody.elim
    · rename_i hlength
      obtain ⟨name, _, _, ⟨rfl, rfl⟩, ⟨tag, _, _, ⟨htag, rfl⟩, ⟨flags, _, _, ⟨hflags, rfl⟩, ⟨present, _, _,
        ⟨hpresent, rfl⟩, ⟨default, value, _, ⟨hsome, hdefault⟩, ⟨rfl, rfl⟩, rfl⟩, rfl⟩, rfl⟩, rfl⟩, rfl⟩ := hbody
      refine ⟨flags, present, value, ⟨hflags, hpresent⟩, ⟨hid, Nat.not_lt.1 hlength, htag⟩, ⟨rfl, rfl, rfl, rfl⟩, hsome,
        hdefault, ?_⟩
      rw [List.append_nil]
  · rintro ⟨flags, present, value, ⟨hflags, hpresent⟩, ⟨hid, hlength, htag⟩, ⟨hnull, hcoll, hemb, howned⟩, hsome,
      hdefault, rfl⟩
    have hshort : attr.name.length < 256 ^ 2 := Nat.lt_of_le_of_lt hlength (by decide)
    refine ⟨attr.id, _, _, ⟨hid, rfl⟩, ⟨attr.name.length, _, _, ⟨hshort, rfl⟩, ?_, rfl⟩, rfl⟩
    rw [if_neg (Nat.not_lt.2 hlength)]
    refine ⟨attr.name, _, _, ⟨rfl, rfl⟩, ⟨attr.type, _, _, ⟨htag, rfl⟩, ⟨flags, _, _, ⟨hflags, rfl⟩,
      ⟨present, _, _, ⟨hpresent, rfl⟩, ⟨attr.defaultValue, value, [], ⟨hsome, hdefault⟩, ⟨?_, rfl⟩, ?_⟩, rfl⟩,
      rfl⟩, rfl⟩, rfl⟩
    · rw [hnull, hcoll, hemb, howned]
    · rw [List.append_nil]

/-- The numbers of an attribute are as wide as the program's. -/
structure AttributeDefinition.Fits (attr : AttributeDefinition) : Prop where
  id : attr.id < 2 ^ 16
  type : attr.type < 256
  default : ∀ value, attr.defaultValue = some value → idsFit value = true

theorem encodeAttribute_format {attr : AttributeDefinition} {bytes : Bytes} (hfits : attr.Fits)
    (hname : attr.name.length ≤ maxIdentifierBytes) (hencode : encodeAttribute attr = .ok bytes) :
    AttributeFormat attr bytes := by
  obtain ⟨value, hvalue, hdone⟩ := Effect.except_bind_eq_ok hencode
  obtain rfl := Except.ok.inj hdone
  obtain ⟨hflags, hpacks⟩ := packs_flags attr
  refine ⟨attr.flags, flag attr.defaultValue.isSome 1, value, ⟨hflags, ?_⟩,
    ⟨hfits.id, hname, hfits.type⟩, hpacks, ?_, ?_, rfl⟩
  · cases attr.defaultValue <;> simp [flag]
  · cases attr.defaultValue <;> simp [flag]
  · cases hdefault : attr.defaultValue with
    | none =>
      rw [hdefault] at hvalue
      exact (Except.ok.inj hvalue).symm
    | some default =>
      rw [hdefault] at hvalue
      exact ⟨hvalue, hfits.default default hdefault⟩

/-! ### Lists -/

theorem readMany_writeMany {α : Type} {read : BinaryDecoder α} {write : α → Except Error Bytes} {values : List α}
    (h : ∀ value ∈ values, ∀ bytes, write value = .ok bytes → ∀ (c : Cursor UInt8) (more : Bytes),
      c.rest = bytes ++ more → read c = .ok value (c.skip bytes.length))
    {bytes more : Bytes} (hwrite : Wire.writeMany write values = .ok bytes) {c : Cursor UInt8}
    (hrest : c.rest = bytes ++ more) :
    Format.readMany read values.length c = .ok values (c.skip bytes.length) := by
  induction values generalizing bytes c with
  | nil =>
    cases hwrite
    rfl
  | cons value values ih =>
    obtain ⟨first, hfirst, hmore⟩ := Effect.except_bind_eq_ok hwrite
    obtain ⟨rest, hwritten, hdone⟩ := Effect.except_bind_eq_ok hmore
    cases hdone
    rw [List.append_assoc] at hrest
    have hread := h value List.mem_cons_self first hfirst c (rest ++ more) hrest
    have hreads := ih (fun other hother => h other (List.mem_cons_of_mem _ hother)) hwritten
      (Cursor.rest_skip_append hrest)
    rw [Cursor.skip_skip, ← List.length_append] at hreads
    change EStateM.bind read _ c = _
    rw [EStateM.bind, hread]
    change EStateM.bind (Format.readMany read values.length) _ _ = _
    rw [EStateM.bind, hreads]
    rfl

theorem readFront_of_reads {α : Type} {reader : BinaryDecoder α} {bytes : Bytes} {value : α} {c : Cursor UInt8}
    (h : reader ⟨bytes, 0⟩ = .ok value c) : readFront reader bytes = .ok value := by
  rw [readFront, h]

theorem readFront_counted {α : Type} {read : BinaryDecoder α} {values : List α} {count : Nat} {bytes more : Bytes}
    {reader : BinaryDecoder (List α)} (hreader : ∀ c c' : Cursor UInt8, readU16 c = .ok count c' →
      reader c = Format.readMany read count c')
    (hcount : count < 2 ^ 16) (hread : ∀ c : Cursor UInt8, c.rest = bytes ++ more →
      Format.readMany read count c = .ok values (c.skip bytes.length)) :
    readFront reader (storeLe 2 count ++ (bytes ++ more)) = .ok values := by
  have hrest : Cursor.rest ⟨storeLe 2 count ++ (bytes ++ more), 0⟩ = storeLe 2 count ++ (bytes ++ more) := rfl
  have hfirst := (decodes_readLe 2).reads hrest ⟨hcount, rfl⟩
  apply readFront_of_reads
  rw [hreader _ _ hfirst, hread _ (Cursor.rest_skip_append hrest)]

/-! ### Types -/

theorem validateIdentifier_eq_ok {name : Bytes} (h : validateIdentifier name = .ok ()) :
    name.length ≤ maxIdentifierBytes := by
  unfold validateIdentifier at h
  split at h
  · cases h
  · rename_i hname
    exact Nat.not_lt.1 fun hlong => hname (.inr hlong)

theorem length_name_le {type : Bytes} {attributes : List AttributeDefinition} {ids : List FieldId}
    {names : List Bytes} (h : validateAttributes type attributes ids names = .ok ()) :
    ∀ attr ∈ attributes, attr.name.length ≤ maxIdentifierBytes := by
  induction attributes generalizing ids names with
  | nil => simp
  | cons attr rest ih =>
    rw [validateAttributes] at h
    split at h
    · cases h
    · split at h
      · cases h
      · obtain ⟨_, hname, hmore⟩ := Effect.except_bind_eq_ok h
        split at hmore
        · cases hmore
        · obtain ⟨_, -, hrest⟩ := Effect.except_bind_eq_ok hmore
          exact List.forall_mem_cons.2 ⟨validateIdentifier_eq_ok hname, ih hrest⟩

/-- What the catalogue relies on: the definition is one of `TypeDefinition::create`. -/
structure TypeDefinition.Valid (definition : TypeDefinition) : Prop where
  created : TypeDefinition.create definition.name definition.attributes =
    .ok ⟨0, definition.name, definition.attributes⟩
  id : definition.id < 2 ^ 64
  attributes : ∀ attr ∈ definition.attributes, attr.Fits

theorem TypeDefinition.Valid.limits {definition : TypeDefinition} (h : definition.Valid) :
    definition.name.length ≤ maxIdentifierBytes ∧ definition.attributes.length ≤ maxColumnsPerTable ∧
      ∀ attr ∈ definition.attributes, attr.name.length ≤ maxIdentifierBytes := by
  obtain ⟨_, hname, hmore⟩ := Effect.except_bind_eq_ok h.created
  split at hmore
  · cases hmore
  · rename_i hcount
    obtain ⟨_, hattributes, -⟩ := Effect.except_bind_eq_ok hmore
    exact ⟨validateIdentifier_eq_ok hname, Nat.not_lt.1 hcount, length_name_le hattributes⟩

theorem readFront_attributes {definition : TypeDefinition} (h : definition.Valid) {bytes : Bytes}
    (hencode : encodeAttributes definition.attributes = .ok bytes) :
    readFront attributesReader bytes = .ok definition.attributes := by
  obtain ⟨-, hcount, hnames⟩ := h.limits
  obtain ⟨written, hwrite, hdone⟩ := Effect.except_bind_eq_ok hencode
  obtain rfl := Except.ok.inj hdone
  have hread := @readFront_counted _ decodeAttribute definition.attributes definition.attributes.length written []
    attributesReader
  rw [List.append_nil] at hread
  apply hread
  · intro c c' hc
    change EStateM.bind readU16 _ c = _
    rw [EStateM.bind, hc]
    change (if maxColumnsPerTable < _ then _ else Format.readMany decodeAttribute _) c' = _
    rw [if_neg (Nat.not_lt.2 hcount)]
  · exact Nat.lt_of_le_of_lt hcount (by decide)
  · intro c hrest
    refine readMany_writeMany (fun attr hattr bytes hbytes c more hrest => ?_) hwrite
      (hrest.trans (List.append_nil written).symm)
    exact decodes_decodeAttribute.reads hrest (encodeAttribute_format (h.attributes attr hattr) (hnames attr hattr) hbytes)

theorem decodeObject_record {object : DecodedObject} {record : Bytes} (hencode : encodeObject object = .ok record)
    (hnodup : (object.fields.map Prod.fst).Nodup) (hfits : ObjectCodec.Fits object) :
    decodeObject record = .ok object := decodeObject_eq_ok_iff.2 ⟨hencode, hnodup, hfits⟩

theorem TypeDefinition.Valid.decoded {definition : TypeDefinition} (h : definition.Valid) {record : Bytes}
    (hrecord : definition.record = .ok record) :
    ∃ object, decodeObject record = .ok object ∧ object.type = metaTypeDefinition ∧
      decodeType object = .ok definition := by
  obtain ⟨attributes, hencode, hobject⟩ := Effect.except_bind_eq_ok hrecord
  refine ⟨_, decodeObject_record hobject (by simp) ⟨h.id, by simp [metaTypeDefinition], by simp [FieldFits, idsFit]⟩, rfl, ?_⟩
  change (do
    let attributes ← readFront attributesReader attributes
    let created ← TypeDefinition.create definition.name attributes
    pure { created with id := definition.id }) = _
  rw [readFront_attributes h hencode]
  change (do
    let created ← TypeDefinition.create definition.name definition.attributes
    pure { created with id := definition.id }) = _
  rw [h.created]
  rfl

theorem writeMany_attributes_cases (attributes : List AttributeDefinition) :
    (∃ bytes, Wire.writeMany encodeAttribute attributes = .ok bytes) ∨
      ∃ message, Wire.writeMany encodeAttribute attributes = .error ⟨.valueTooLarge, message⟩ ∧
        ∃ attr ∈ attributes, ∃ value, attr.defaultValue = some value ∧ ¬SizeFits value := by
  induction attributes with
  | nil => exact .inl ⟨[], rfl⟩
  | cons attr rest ih =>
    rw [Wire.writeMany]
    have hfirst : (∃ bytes, encodeAttribute attr = .ok bytes) ∨
        ∃ message, encodeAttribute attr = .error ⟨.valueTooLarge, message⟩ ∧
          ∃ value, attr.defaultValue = some value ∧ ¬SizeFits value := by
      rw [encodeAttribute]
      cases hdefault : attr.defaultValue with
      | none => exact .inl ⟨_, rfl⟩
      | some value =>
        have hmap := writeValue_map value
        rw [encodeDefault]
        rcases encodeValue_cases value with ⟨-, hvalue⟩ | ⟨hsize, message, hvalue⟩
        · cases hwrite : writeValue value with
          | ok bytes => exact .inl ⟨_, rfl⟩
          | error error =>
            rw [hwrite, hvalue] at hmap
            cases hmap
        · cases hwrite : writeValue value with
          | ok bytes =>
            rw [hwrite, hvalue] at hmap
            cases hmap
          | error error =>
            rw [hwrite, hvalue] at hmap
            obtain rfl := Except.error.inj hmap
            exact .inr ⟨message, rfl, value, rfl, hsize⟩
    rcases hfirst with ⟨bytes, hbytes⟩ | ⟨message, herror, hvalue⟩
    · rw [hbytes]
      rcases ih with ⟨more, hmore⟩ | ⟨message, herror, other, hother, hvalue⟩
      · rw [hmore]
        exact .inl ⟨_, rfl⟩
      · rw [herror]
        exact .inr ⟨message, rfl, other, List.mem_cons_of_mem _ hother, hvalue⟩
    · rw [herror]
      exact .inr ⟨message, rfl, attr, List.mem_cons_self, hvalue⟩

/-- Every type is written and read as it was, unless a default or all of its attributes are too large to write. -/
theorem type_round_trip {definition : TypeDefinition} (h : definition.Valid) :
    (∃ record object, definition.record = .ok record ∧ decodeObject record = .ok object ∧
      decodeType object = .ok definition) ∨
    ∃ message, definition.record = .error ⟨.valueTooLarge, message⟩ ∧
      ((∃ attr ∈ definition.attributes, ∃ value, attr.defaultValue = some value ∧ ¬SizeFits value) ∨
        ∃ bytes, encodeAttributes definition.attributes = .ok bytes ∧ 2 ^ 32 ≤ bytes.length) := by
  cases hrecord : definition.record with
  | ok record =>
    obtain ⟨object, hdecode, -, hdefinition⟩ := h.decoded hrecord
    exact .inl ⟨record, object, rfl, hdecode, hdefinition⟩
  | error error =>
    refine .inr ?_
    rw [TypeDefinition.record] at hrecord
    rcases writeMany_attributes_cases definition.attributes with ⟨written, hwrite⟩ | ⟨message, hwrite, hlarge⟩
    · have hencode : encodeAttributes definition.attributes =
          .ok (storeLe 2 definition.attributes.length ++ written) := by
        rw [encodeAttributes, hwrite]
        rfl
      rw [hencode] at hrecord
      have hshort := Nat.lt_of_le_of_lt h.limits.1 (show 63 < 2 ^ 32 by decide)
      rcases @encodeObject_cases ⟨definition.id, metaTypeDefinition, [(1, .string definition.name),
        (2, .bytes (storeLe 2 definition.attributes.length ++ written))]⟩ (by simp [maxColumnsPerTable]) with
        ⟨-, record, hok⟩ | ⟨⟨field, hfield, hsize⟩, message, herror⟩
      · exact absurd (hok.symm.trans hrecord) (by simp)
      · obtain rfl := Except.error.inj (herror.symm.trans hrecord)
        refine ⟨message, rfl, .inr ⟨_, hencode, Nat.not_lt.1 fun hlt => hsize ?_⟩⟩
        simp only [List.mem_cons, List.not_mem_nil, or_false] at hfield
        rcases hfield with rfl | rfl
        · exact hshort
        · exact hlt
    · rw [encodeAttributes, hwrite] at hrecord
      obtain rfl := Except.error.inj hrecord
      exact ⟨message, rfl, .inl hlarge⟩

def noteType : TypeDefinition :=
  ⟨1024, [78], [{ id := 1, name := [116], type := 4, nullable := false, defaultValue := some (.string [45]) },
    { id := 2, name := [112], type := 6, isCollection := true, isOwned := true }]⟩

theorem noteType_valid : noteType.Valid :=
  ⟨rfl, by decide, by
    intro attr hattr
    simp only [noteType, List.mem_cons, List.not_mem_nil, or_false] at hattr
    rcases hattr with rfl | rfl <;> exact ⟨by decide, by decide, by simp [idsFit]⟩⟩

theorem type_round_trip_note : (∃ record object, noteType.record = .ok record ∧ decodeObject record = .ok object ∧
      decodeType object = .ok noteType) ∨
    ∃ message, noteType.record = .error ⟨.valueTooLarge, message⟩ ∧
      ((∃ attr ∈ noteType.attributes, ∃ value, attr.defaultValue = some value ∧ ¬SizeFits value) ∨
        ∃ bytes, encodeAttributes noteType.attributes = .ok bytes ∧ 2 ^ 32 ≤ bytes.length) :=
  type_round_trip noteType_valid

/-! ### Baselines -/

structure Baseline.Valid (baseline : Baseline) : Prop where
  created : Baseline.create baseline.types = .ok ⟨0, baseline.types⟩
  id : baseline.id < 2 ^ 64
  types : ∀ id ∈ baseline.types, id < 2 ^ 64

def Baseline.counted (baseline : Baseline) : Baseline :=
  { baseline with types := baseline.types.take (baseline.types.length % 2 ^ 16) }

theorem validateTypes_take {types seen : List TypeDefinitionId} (h : validateTypes types seen = .ok ()) (count : Nat) :
    validateTypes (types.take count) seen = .ok () := by
  induction types generalizing seen count with
  | nil => simpa using h
  | cons id rest ih =>
    cases count with
    | zero => rfl
    | succ count =>
      rw [validateTypes] at h
      rw [List.take_succ_cons, validateTypes]
      split at h
      · cases h
      · rename_i hzero
        split at h
        · cases h
        · rename_i hseen
          rw [if_neg hzero, if_neg hseen]
          exact ih h count

theorem storeLe_mod (width value : Nat) : storeLe width (value % 256 ^ width) = storeLe width value := by
  have hlength := length_storeLe width value
  have hload := storeLe_loadLe hlength
  rwa [loadLe_storeLe] at hload

theorem writeMany_storeLe (types : List TypeDefinitionId) :
    Wire.writeMany (fun id => (Except.ok (storeLe 8 id) : Except Error Bytes)) types =
      .ok (types.flatMap (storeLe 8)) := by
  induction types with
  | nil => rfl
  | cons id rest ih =>
    rw [Wire.writeMany, ih]
    rfl

theorem readFront_types {baseline : Baseline} (h : baseline.Valid) :
    readFront typesReader (storeLe 2 baseline.types.length ++ baseline.types.flatMap (storeLe 8)) =
      .ok baseline.counted.types := by
  have hsplit : baseline.types.flatMap (storeLe 8) = baseline.counted.types.flatMap (storeLe 8) ++
      (baseline.types.drop (baseline.types.length % 2 ^ 16)).flatMap (storeLe 8) := by
    rw [← List.flatMap_append]
    exact congrArg _ (List.take_append_drop _ _).symm
  have hcount : baseline.counted.types.length = baseline.types.length % 2 ^ 16 := by
    rw [Baseline.counted, List.length_take]
    exact Nat.min_eq_left (Nat.mod_le _ _)
  rw [← storeLe_mod, hsplit]
  apply readFront_counted
  · intro c c' hc
    change EStateM.bind readU16 _ c = _
    rw [EStateM.bind, hc]
  · exact Nat.mod_lt _ (by decide)
  · intro c hrest
    rw [show baseline.types.length % 256 ^ 2 = _ from hcount.symm]
    refine readMany_writeMany (fun id hid bytes hbytes c more hrest => ?_) (writeMany_storeLe _) hrest
    obtain rfl := Except.ok.inj hbytes
    exact (decodes_readLe 8).reads hrest ⟨h.types id (List.mem_of_mem_take hid), rfl⟩

theorem Baseline.Valid.decoded {baseline : Baseline} (h : baseline.Valid) {record : Bytes}
    (hrecord : baseline.record = .ok record) :
    ∃ object, decodeObject record = .ok object ∧ object.type = metaBaseline ∧
      decodeBaseline object = .ok baseline.counted := by
  refine ⟨_, decodeObject_record hrecord (by simp) ⟨h.id, by simp [metaBaseline], by simp [FieldFits, idsFit]⟩, rfl, ?_⟩
  obtain ⟨_, hvalid, -⟩ := Effect.except_bind_eq_ok h.created
  change (do
    let ids ← readFront typesReader (storeLe 2 baseline.types.length ++ baseline.types.flatMap (storeLe 8))
    let created ← Baseline.create ids
    pure { created with id := baseline.id }) = _
  rw [readFront_types h]
  change (do
    let created ← Baseline.create baseline.counted.types
    pure { created with id := baseline.id }) = _
  have hcreated : Baseline.create baseline.counted.types = .ok ⟨0, baseline.counted.types⟩ := by
    rw [Baseline.create, Baseline.counted, validateTypes_take hvalid]
    rfl
  rw [hcreated]
  rfl

/-! ### The catalogue on its heap -/

/-- `CatalogContents`. -/
structure CatalogContents where
  types : List TypeDefinition := []
  baselines : List Baseline := []
  deriving DecidableEq

variable [PageSize]

/-- `CatalogStore::save_type`. -/
def saveType (definition : TypeDefinition) : HeapM HeapRecordId := do
  let record ← HeapHandle.demand definition.record
  HeapHandle.insert record

/-- `CatalogStore::save_baseline`. -/
def saveBaseline (baseline : Baseline) : HeapM HeapRecordId := do
  let record ← HeapHandle.demand baseline.record
  HeapHandle.insert record

omit [PageSize] in
/-- What `load_all` does with one record. -/
def loadRecord (contents : CatalogContents) (record : Bytes) : Except Error CatalogContents := do
  let object ← decodeObject record
  if object.type = metaTypeDefinition then do
    let type ← decodeType object
    pure { contents with types := contents.types ++ [type] }
  else if object.type = metaBaseline then do
    let baseline ← decodeBaseline object
    pure { contents with baselines := contents.baselines ++ [baseline] }
  else throw ⟨.corruptFile, "catalog heap contains an unknown meta-type object"⟩

/-- `CatalogStore::load_all`. -/
def loadAll (handle : HeapHandle) : Except Error CatalogContents := do
  let records ← handle.heap.scanRecords handle.file
  (records.map HeapRecord.bytes).foldlM loadRecord {}

/-! ### Runs -/

inductive Entry
  | type (definition : TypeDefinition)
  | baseline (baseline : Baseline)

namespace Entry

def record : Entry → Except Error Bytes
  | .type definition => definition.record
  | .baseline base => base.record

def Valid : Entry → Prop
  | .type definition => definition.Valid
  | .baseline base => base.Valid

def save : Entry → HeapM HeapRecordId
  | .type definition => saveType definition
  | .baseline base => saveBaseline base

def add (contents : CatalogContents) : Entry → CatalogContents
  | .type definition => { contents with types := contents.types ++ [definition] }
  | .baseline base => { contents with baselines := contents.baselines ++ [base.counted] }

theorem save_eq (entry : Entry) : entry.save = HeapHandle.demand entry.record >>= HeapHandle.insert := by
  cases entry <;> rfl

omit [PageSize]

theorem loadRecord_record {entry : Entry} (hvalid : entry.Valid) {bytes : Bytes} (hrecord : entry.record = .ok bytes)
    (contents : CatalogContents) : loadRecord contents bytes = .ok (entry.add contents) := by
  cases entry with
  | type definition =>
    obtain ⟨object, hdecode, htype, hdefinition⟩ := TypeDefinition.Valid.decoded hvalid hrecord
    rw [loadRecord, hdecode]
    change (if object.type = metaTypeDefinition then _ else _) = _
    rw [if_pos htype, hdefinition]
    rfl
  | baseline base =>
    obtain ⟨object, hdecode, htype, hbaseline⟩ := Baseline.Valid.decoded hvalid hrecord
    rw [loadRecord, hdecode]
    change (if object.type = metaTypeDefinition then _ else if object.type = metaBaseline then _ else _) = _
    rw [if_neg (by simp [htype, metaBaseline, metaTypeDefinition]), if_pos htype, hbaseline]
    rfl

theorem length_writeMany_le {fields : FieldValues} {bytes : Bytes}
    (hsized : ∀ field ∈ fields, ∃ data, field.2 = .string data ∨ field.2 = .bytes data)
    (hwrite : Wire.writeMany encodeField fields = .ok bytes) : bytes.length ≤ fields.length * 2 ^ 33 := by
  induction fields generalizing bytes with
  | nil =>
    cases hwrite
    simp
  | cons field rest ih =>
    obtain ⟨hfield, hrest⟩ := List.forall_mem_cons.1 hsized
    obtain ⟨first, more, hfirst, hmore, rfl⟩ := writeMany_cons_eq_ok_iff.1 hwrite
    obtain ⟨value, hvalue, rfl⟩ := encodeField_eq_ok_iff.1 hfirst
    have hlength : value.length < 2 ^ 32 + 5 := by
      obtain ⟨data, hdata | hdata⟩ := hfield
      · rw [hdata] at hvalue
        obtain ⟨content, ⟨hsize, rfl⟩, rfl⟩ := (valueFormat_iff (.string data) value).1 ⟨hvalue, rfl⟩
        simp only [List.length_cons, List.length_append, length_storeLe]
        omega
      · rw [hdata] at hvalue
        obtain ⟨content, ⟨hsize, rfl⟩, rfl⟩ := (valueFormat_iff (.bytes data) value).1 ⟨hvalue, rfl⟩
        simp only [List.length_cons, List.length_append, length_storeLe]
        omega
    have hrest' := ih hrest hmore
    simp only [List.length_append, length_storeLe, List.length_cons]
    omega

theorem length_record_le {entry : Entry} {bytes : Bytes} (hrecord : entry.record = .ok bytes) :
    bytes.length ≤ overflowMaxTotal := by
  have hobject {object : DecodedObject} (hencode : encodeObject object = .ok bytes)
      (hsized : ∀ field ∈ object.fields, ∃ data, field.2 = .string data ∨ field.2 = .bytes data)
      (hcount : object.fields.length ≤ 2) : bytes.length ≤ 2 ^ 40 := by
    obtain ⟨payload, hpayload, hdone⟩ := Effect.except_bind_eq_ok hencode
    obtain rfl := Except.ok.inj hdone
    unfold encodeObjectPayload at hpayload
    split at hpayload
    · cases hpayload
    · obtain ⟨values, hwrite, hdone⟩ := Effect.except_bind_eq_ok hpayload
      obtain rfl := Except.ok.inj hdone
      have hlength := length_writeMany_le hsized hwrite
      simp only [List.length_append, length_storeLe]
      omega
  cases entry with
  | type definition =>
    obtain ⟨attributes, -, hencode⟩ := Effect.except_bind_eq_ok hrecord
    exact hobject hencode (by simp) (by simp)
  | baseline base => exact hobject hrecord (by simp) (by simp)

end Entry

/-- Runs of the catalogue, with what has been saved. -/
inductive CatalogRun : HeapHandle → List Entry → Prop
  | create {file : PageFile Area} {handle : HeapHandle} (hpos : 0 < file.pageCount)
      (hfits : file.pageCount < 2 ^ 64) (hcreate : HeapHandle.create file = .ok handle) : CatalogRun handle []
  | saved {handle handle' : HeapHandle} {saved : List Entry} {entry : Entry} {id : HeapRecordId}
      (hvalid : entry.Valid) (h : CatalogRun handle saved) (hrun : entry.save handle = .ok id handle') :
      CatalogRun handle' (saved ++ [entry])
  | failed {handle handle' : HeapHandle} {saved : List Entry} {entry : Entry} {error : Error}
      (h : CatalogRun handle saved) (hrun : entry.save handle = .error error handle') : CatalogRun handle' saved
  | reopen {handle handle' : HeapHandle} {saved : List Entry} (hsize : 48 ≤ pageSize)
      (hbytes : handle.file.pageCount * pageSize < 2 ^ 64) (hcurrent : handle.Current)
      (h : CatalogRun handle saved) (hopen : HeapHandle.open handle.file handle.heap.root = .ok handle') :
      CatalogRun handle' saved

/-- The records of the heap are those of the entries. -/
structure Keeps (map : HeapRecordId → Option Bytes) (placed : List (HeapRecordId × Entry × Bytes)) : Prop where
  nodup : (placed.map Prod.fst).Nodup
  written : ∀ place ∈ placed, place.2.1.record = .ok place.2.2 ∧ place.2.1.Valid
  map : ∀ id bytes, map id = some bytes ↔ ∃ entry, (id, entry, bytes) ∈ placed

omit [PageSize] in
theorem Keeps.insert {map : HeapRecordId → Option Bytes} {placed : List (HeapRecordId × Entry × Bytes)}
    (h : Keeps map placed) {id : HeapRecordId} (hfresh : map id = none) {entry : Entry} {bytes : Bytes}
    (hvalid : entry.Valid) (hrecord : entry.record = .ok bytes) :
    Keeps (HeapOp.apply map (some id) (.insert bytes)) (placed ++ [(id, entry, bytes)]) := by
  have hnot : ∀ place ∈ placed, place.1 ≠ id := by
    rintro ⟨other, entry', bytes'⟩ hmem rfl
    have hsome := (h.map other bytes').2 ⟨entry', hmem⟩
    rw [hfresh] at hsome
    cases hsome
  refine ⟨?_, ?_, fun other bytes' => ?_⟩
  · rw [List.map_append, List.nodup_append]
    refine ⟨h.nodup, by simp, ?_⟩
    rintro _ hmem _ hlast rfl
    obtain ⟨place, hplace, heq⟩ := List.mem_map.1 hmem
    exact hnot place hplace (heq.trans (by simpa using hlast))
  · intro place hplace
    rcases List.mem_append.1 hplace with hold | hnew
    · exact h.written place hold
    · obtain rfl := List.mem_singleton.1 hnew
      exact ⟨hrecord, hvalid⟩
  · simp only [HeapOp.apply, Option.some.injEq, List.mem_append, List.mem_singleton, Prod.mk.injEq]
    by_cases heq : id = other
    · subst heq
      rw [if_pos rfl]
      constructor
      · intro hbytes
        exact ⟨entry, .inr ⟨rfl, rfl, (Option.some.inj hbytes).symm⟩⟩
      · rintro ⟨entry', hold | ⟨-, -, rfl⟩⟩
        · exact absurd rfl (hnot _ hold)
        · rfl
    · rw [if_neg heq, h.map other bytes']
      simp [Ne.symm heq]

theorem CatalogRun.keeps {handle : HeapHandle} {saved : List Entry} (h : CatalogRun handle saved) :
    ∃ map placed, HeapContents HeapOp.Readable handle map ∧ Keeps map placed ∧
      placed.map (fun place => place.2.1) = saved := by
  induction h with
  | create hpos hfits hcreate =>
    exact ⟨_, [], .create hpos hfits hcreate, ⟨by simp, by simp, by simp⟩, rfl⟩
  | @saved handle handle' saved entry id hvalid _ hrun ih =>
    obtain ⟨map, placed, hcontents, hkeeps, hplaced⟩ := ih
    rw [entry.save_eq] at hrun
    cases hrecord : entry.record with
    | error error =>
      rw [hrecord] at hrun
      cases hrun
    | ok bytes =>
      rw [hrecord] at hrun
      have hlength := Entry.length_record_le hrecord
      have hshort : bytes.length < 2 ^ 64 := Nat.lt_of_le_of_lt hlength (by simp [overflowMaxTotal])
      have hinsert : HeapHandle.insert bytes handle = .ok id handle' := hrun
      obtain ⟨layout, hcontains⟩ := hcontents.contains
      have hfresh := hcontains.insert hshort hinsert
      have hcall : HeapOp.run (.insert bytes) handle = .ok (some id) handle' := Effect.bind_of_ok hinsert
      refine ⟨_, _, @HeapContents.call _ _ handle handle' map (.insert bytes) (some id) hshort hlength hcontents hcall,
         hkeeps.insert hfresh hvalid hrecord, ?_⟩
      rw [List.map_append, hplaced]
      rfl
  | @failed handle handle' saved entry error _ hrun ih =>
    obtain ⟨map, placed, hcontents, hkeeps, hplaced⟩ := ih
    rw [entry.save_eq] at hrun
    cases hrecord : entry.record with
    | error error =>
      rw [hrecord] at hrun
      cases hrun
      exact ⟨map, placed, hcontents, hkeeps, hplaced⟩
    | ok bytes =>
      rw [hrecord] at hrun
      have hshort : bytes.length < 2 ^ 64 :=
        Nat.lt_of_le_of_lt (Entry.length_record_le hrecord) (by simp [overflowMaxTotal])
      have hinsert : HeapHandle.insert bytes handle = .error error handle' := hrun
      have hcall : HeapOp.run (.insert bytes) handle = .error error handle' := Effect.bind_of_error hinsert
      exact ⟨map, placed, @HeapContents.failed _ _ handle handle' map (.insert bytes) error hshort hcontents hcall,
         hkeeps, hplaced⟩
  | reopen hsize hbytes hcurrent _ hopen ih =>
    obtain ⟨map, placed, hcontents, hkeeps, hplaced⟩ := ih
    exact ⟨map, placed, .reopen hsize hbytes hcurrent hcontents hopen, hkeeps, hplaced⟩

def recordAt (place : HeapRecordId × Entry × Bytes) : HeapRecord :=
  ⟨place.1.page, place.1.slot, place.1.generation, place.2.2⟩

omit [PageSize] in
theorem foldlM_loadRecord {placed : List (HeapRecordId × Entry × Bytes)}
    (hwritten : ∀ place ∈ placed, place.2.1.record = .ok place.2.2 ∧ place.2.1.Valid) (contents : CatalogContents) :
    ((placed.map recordAt).map HeapRecord.bytes).foldlM loadRecord contents =
      .ok ((placed.map fun place => place.2.1).foldl Entry.add contents) := by
  induction placed generalizing contents with
  | nil => rfl
  | cons place rest ih =>
    obtain ⟨⟨hrecord, hvalid⟩, hrest⟩ := List.forall_mem_cons.1 hwritten
    rw [List.map_cons, List.map_cons, List.foldlM_cons]
    change (loadRecord contents place.2.2 >>= _) = _
    rw [Entry.loadRecord_record hvalid hrecord]
    exact ih hrest _

/-- After every run, the catalogue is read as what was saved, and so it is when it is opened again. -/
theorem load_of_run {handle : HeapHandle} {saved : List Entry} (h : CatalogRun handle saved) :
    (∃ entries : List Entry, entries.Perm saved ∧ loadAll handle = .ok (entries.foldl Entry.add {})) ∧
      (48 ≤ pageSize → handle.file.pageCount * pageSize < 2 ^ 64 →
        ∃ handle', HeapHandle.open handle.file handle.heap.root = .ok handle' ∧ loadAll handle' = loadAll handle) := by
  obtain ⟨map, placed, hcontents, hkeeps, rfl⟩ := h.keeps
  obtain ⟨layout, hcontains⟩ := hcontents.contains
  have hrefines := hcontains.refines hcontents.length_le
  constructor
  · obtain ⟨records, hscan, hnodup, hrecords, -⟩ := hrefines.scan
    have hperm : records.Perm (placed.map recordAt) := by
      apply (List.perm_ext_iff_of_nodup hnodup ?_).2
      · intro record
        rw [hrecords ⟨record.page, record.slot, record.generation⟩ record.bytes, hkeeps.map, List.mem_map]
        constructor
        · rintro ⟨entry, hmem⟩
          exact ⟨_, hmem, rfl⟩
        · rintro ⟨⟨id, entry, bytes⟩, hmem, rfl⟩
          exact ⟨entry, hmem⟩
      · have hids := hkeeps.nodup
        rw [show placed.map Prod.fst = (placed.map recordAt).map fun record =>
          ⟨record.page, record.slot, record.generation⟩ by simp [recordAt]] at hids
        exact hids.of_map _
    have hcomp := congrFun (congrFun (List.eq_map_comp_perm recordAt) records) placed
    obtain ⟨placed', hmap, hplaced⟩ := hcomp.mpr hperm
    refine ⟨_, hplaced.map _, ?_⟩
    rw [loadAll, hscan]
    change ((records.map HeapRecord.bytes).foldlM loadRecord {}) = _
    rw [hmap]
    exact foldlM_loadRecord (fun place hplace => hkeeps.written place (hplaced.mem_iff.1 hplace)) _
  · intro hsize hbytes
    obtain ⟨handle', hopen, -, hscan⟩ := hrefines.reopen hsize hbytes
    refine ⟨handle', hopen, ?_⟩
    rw [loadAll, loadAll, hscan]

omit [PageSize] in
theorem load_of_run_note : letI := PageSize.default
    ∃ handle, CatalogRun handle [.type noteType] ∧
      (∃ entries : List Entry, entries.Perm [.type noteType] ∧ loadAll handle = .ok (entries.foldl Entry.add {})) := by
  obtain ⟨created, id, handle, hcreate, hrun⟩ : ∃ created id handle, HeapHandle.create PageFile.create = .ok created ∧
      @Entry.save PageSize.default (.type noteType) created = .ok id handle := ⟨_, _, _, rfl, rfl⟩
  have hcreated := @CatalogRun.create PageSize.default _ _ (by decide) (by decide) hcreate
  have hsaved := @CatalogRun.saved PageSize.default _ _ _ (.type noteType) _ noteType_valid hcreated hrun
  exact ⟨handle, hsaved, (@load_of_run PageSize.default _ _ hsaved).1⟩

end MoDb.Catalog
