import MoDb.Net.FrameCodec

/-!
# What was sent is read again

One lemma for each part says which bytes the reader takes off for a value that the writer has written.
-/

namespace MoDb.Net

open Storage Wire

variable {α : Type}

/-! ### Integers and bytes -/

theorem Reads.check {result : Except Error Unit} {next : Unit → BinaryReader α} {bytes : Bytes} {value : α}
    (h : result = .ok ⟨⟩) (hnext : Reads (next ⟨⟩) bytes value) :
    Reads (liftM result >>= next) bytes value := by
  rw [h]
  exact hnext

theorem ReadsAll.check {β : Type} {result : Except Error β} {checked : β} {next : β → BinaryReader α}
    {bytes : Bytes} {value : α} (h : result = .ok checked) (hnext : ReadsAll (next checked) bytes value) :
    ReadsAll (liftM result >>= next) bytes value := by
  rw [h]
  exact hnext

theorem Rejects.check {result : Except Error Unit} {next : Unit → BinaryReader α} {bytes : Bytes}
    (h : result = .ok ⟨⟩) (hnext : Rejects (next ⟨⟩) bytes) : Rejects (liftM result >>= next) bytes := by
  rw [h]
  exact hnext

theorem rejects_check {result : Except Error Unit} {next : Unit → BinaryReader α} {bytes : Bytes}
    {error : Error} (h : result = .error error) : Rejects (liftM result >>= next) bytes :=
  ⟨error, by rw [h]; rfl⟩

theorem Reads.require {condition : Prop} [Decidable condition] {code : ErrorCode} {message : String}
    {next : Unit → BinaryReader α} {bytes : Bytes} {value : α} (h : condition)
    (hnext : Reads (next ⟨⟩) bytes value) :
    Reads (liftM (require condition code message) >>= next) bytes value :=
  Reads.check (if_pos h) hnext

theorem ReadsAll.require {condition : Prop} [Decidable condition] {code : ErrorCode} {message : String}
    {next : Unit → BinaryReader α} {bytes : Bytes} {value : α} (h : condition)
    (hnext : ReadsAll (next ⟨⟩) bytes value) :
    ReadsAll (liftM (require condition code message) >>= next) bytes value :=
  ReadsAll.check (if_pos h) hnext

theorem reads_readBytes {bytes : Bytes} {size : Nat} (h : bytes.length = size) :
    Reads (readBytes size) bytes bytes := h ▸ reads_take incompleteInput bytes

theorem reads_readU8 (value : UInt8) : Reads readU8 [value] value := by
  apply (reads_readBytes (show [value].length = 1 from rfl)).bind_pure
  have hvalue : UInt8.ofNat (loadLe [value]) = value := by simp [loadLe]
  rw [hvalue]
  exact .pure value

theorem reads_readU16 (value : UInt16) : Reads readU16 (writeU16 value) value := by
  apply (reads_readBytes (length_storeLe 2 _)).bind_pure
  rw [loadLe_storeLe_of_lt value.toNat_lt, UInt16.ofNat_toNat]
  exact .pure value

theorem reads_readU32 (value : UInt32) : Reads readU32 (writeU32 value) value := by
  apply (reads_readBytes (length_storeLe 4 _)).bind_pure
  rw [loadLe_storeLe_of_lt value.toNat_lt, UInt32.ofNat_toNat]
  exact .pure value

theorem reads_readU64 (value : UInt64) : Reads readU64 (writeU64 value) value := by
  apply (reads_readBytes (length_storeLe 8 _)).bind_pure
  rw [loadLe_storeLe_of_lt value.toNat_lt, UInt64.ofNat_toNat]
  exact .pure value

theorem Reads.size {next : UInt32 → BinaryReader α} {size : Nat} {bytes : Bytes} {value : α}
    (hsize : size < 2 ^ 32)
    (hnext : ∀ count : UInt32, count.toNat = size → Reads (next count) bytes value) :
    Reads (readU32 >>= next) (storeLe 4 size ++ bytes) value := by
  have hcount : (UInt32.ofNat size).toNat = size := UInt32.toNat_ofNat_of_lt' hsize
  have hread := reads_readU32 (UInt32.ofNat size)
  rw [writeU32, hcount] at hread
  exact hread.bind (hnext _ hcount)

theorem ReadsAll.size {next : UInt32 → BinaryReader α} {size : Nat} {bytes : Bytes} {value : α}
    (hsize : size < 2 ^ 32)
    (hnext : ∀ count : UInt32, count.toNat = size → ReadsAll (next count) bytes value) :
    ReadsAll (readU32 >>= next) (storeLe 4 size ++ bytes) value := by
  have hcount : (UInt32.ofNat size).toNat = size := UInt32.toNat_ofNat_of_lt' hsize
  have hread := reads_readU32 (UInt32.ofNat size)
  rw [writeU32, hcount] at hread
  exact hread.bind_all (hnext _ hcount)

theorem Rejects.size {next : UInt32 → BinaryReader α} {size : Nat} {bytes : Bytes} (hsize : size < 2 ^ 32)
    (hnext : ∀ count : UInt32, count.toNat = size → Rejects (next count) bytes) :
    Rejects (readU32 >>= next) (storeLe 4 size ++ bytes) := by
  have hcount : (UInt32.ofNat size).toNat = size := UInt32.toNat_ofNat_of_lt' hsize
  have hread := reads_readU32 (UInt32.ofNat size)
  rw [writeU32, hcount] at hread
  exact hread.bind_rejects (hnext _ hcount)

theorem Reads.size16 {next : UInt16 → BinaryReader α} {size : Nat} {bytes : Bytes} {value : α}
    (hsize : size < 2 ^ 16)
    (hnext : ∀ count : UInt16, count.toNat = size → Reads (next count) bytes value) :
    Reads (readU16 >>= next) (storeLe 2 size ++ bytes) value := by
  have hcount : (UInt16.ofNat size).toNat = size := UInt16.toNat_ofNat_of_lt' hsize
  have hread := reads_readU16 (UInt16.ofNat size)
  rw [writeU16, hcount] at hread
  exact hread.bind (hnext _ hcount)

theorem Reads.word {next : UInt64 → BinaryReader α} {number : Nat} {value : α} (hnumber : number < 2 ^ 64)
    (hnext : ∀ raw : UInt64, raw.toNat = number → Reads (next raw) [] value) :
    Reads (readU64 >>= next) (storeLe 8 number) value := by
  have hraw : (UInt64.ofNat number).toNat = number := UInt64.toNat_ofNat_of_lt' hnumber
  have hread := reads_readU64 (UInt64.ofNat number)
  rw [writeU64, hraw] at hread
  exact hread.bind_pure (hnext _ hraw)

theorem reads_readSized {code : ErrorCode} {message : String} {bytes : Bytes} {size : Nat}
    (h : bytes.length = size) : Reads (readSized code message size) bytes bytes :=
  by
  rw [← h]
  exact reads_takeSized (⟨code, message⟩ : Error) incompleteInput bytes

theorem require_bind_iff {condition : Prop} [Decidable condition] {code : ErrorCode} {message : String}
    {next : Unit → Except Error α} {value : α} :
    (require condition code message >>= next) = .ok value ↔ condition ∧ next ⟨⟩ = .ok value := by
  unfold require
  split
  · exact ⟨fun h => ⟨‹_›, h⟩, And.right⟩
  · exact iff_of_false nofun fun h => absurd h.1 ‹_›

theorem require_eq_ok {condition : Prop} [Decidable condition] {code : ErrorCode} {message : String}
    {next : Unit → Except Error α} {value : α}
    (h : (require condition code message >>= next) = .ok value) : condition ∧ next ⟨⟩ = .ok value :=
  require_bind_iff.1 h

/-! ### Parts -/

theorem reads_readString {text bytes : Bytes} (h : writeString text = .ok bytes) :
    Reads readString bytes text := by
  obtain ⟨hlength, hdone⟩ := require_eq_ok h
  cases hdone
  apply Reads.size (Nat.lt_of_le_of_lt hlength (by decide))
  intro count hcount
  apply Reads.require (hcount ▸ hlength)
  exact reads_readSized hcount.symm

theorem reads_readCompressionList {codecs : List Compression} {bytes : Bytes}
    (h : writeCompressionList codecs = .ok bytes) : Reads readCompressionList bytes codecs := by
  obtain ⟨hlength, hdone⟩ := require_eq_ok h
  cases hdone
  have hcount : (UInt8.ofNat codecs.length).toNat = codecs.length :=
    toNat_ofNat_of_lt (Nat.lt_succ_of_le hlength)
  have hmany : Reads (readMany readU8 codecs.length) (codecs.flatMap fun codec => [codec]) codecs :=
    reads_readMany_flatMap fun codec _ => reads_readU8 codec
  rw [List.flatMap_singleton'] at hmany
  apply (reads_readU8 (UInt8.ofNat codecs.length)).bind
  apply Reads.remaining
  intro left hleft
  rw [hcount]
  exact Reads.require hleft hmany

theorem reads_blob {data : Bytes} (h : data.length < 2 ^ 32) {next : Bytes → BinaryReader α} {value : α}
    (hnext : Reads (next data) [] value) :
    Reads (do let length ← readU32
              let data ← readBytes length.toNat
              next data) (storeLe 4 data.length ++ data) value := by
  apply Reads.size h
  intro count hcount
  exact (reads_readBytes hcount.symm).bind_pure hnext

theorem reads_readValue {value : Store.AttributeValue} {bytes : Bytes} (hfits : idsFit value = true)
    (h : writeValue value = .ok bytes) : Reads readValue bytes ⟨value, hfits⟩ := by
  cases value with
  | null =>
    cases h
    exact (reads_readU8 0).bind_pure (.pure _)
  | boolean flag =>
    cases h
    apply (reads_readU8 1).bind
    apply (reads_readU8 _).bind_pure
    cases flag with
    | true => exact Reads.require (by decide) (.pure _)
    | false => exact Reads.require (by decide) (.pure _)
  | int64 bits =>
    cases h
    apply (reads_readU8 2).bind
    apply Reads.word bits.isLt
    rintro raw hraw
    have hbits : BitVec.ofNat 64 raw.toNat = bits := by rw [hraw, BitVec.ofNat_toNat, BitVec.setWidth_eq]
    rw [← hbits]
    exact .pure _
  | float64 bits =>
    cases h
    apply (reads_readU8 3).bind
    apply Reads.word bits.isLt
    rintro raw hraw
    have hbits : BitVec.ofNat 64 raw.toNat = bits := by rw [hraw, BitVec.ofNat_toNat, BitVec.setWidth_eq]
    rw [← hbits]
    exact .pure _
  | string text =>
    obtain ⟨hlength, hdone⟩ := require_eq_ok h
    cases hdone
    apply (reads_readU8 4).bind
    exact reads_blob hlength (.pure _)
  | bytes data =>
    obtain ⟨hlength, hdone⟩ := require_eq_ok h
    cases hdone
    apply (reads_readU8 5).bind
    exact reads_blob hlength (.pure _)
  | ref id =>
    cases h
    apply (reads_readU8 6).bind
    apply Reads.word (of_decide_eq_true hfits)
    rintro raw rfl
    exact .pure _
  | blob id =>
    cases h
    apply (reads_readU8 7).bind
    apply Reads.word (of_decide_eq_true hfits)
    rintro raw rfl
    exact .pure _
  | embedded payload =>
    obtain ⟨hlength, hdone⟩ := require_eq_ok h
    cases hdone
    apply (reads_readU8 8).bind
    exact reads_blob hlength (.pure _)

theorem reads_readEquals {equals : Option EqualityFilter} {bytes : Bytes}
    (h : writeEquals equals = .ok bytes) : Reads readEquals bytes equals := by
  cases equals with
  | none =>
    cases h
    apply (reads_readU8 0).bind_pure
    exact Reads.require (by decide) (.pure _)
  | some filter =>
    obtain ⟨value, hvalue, hdone⟩ := Effect.except_bind_eq_ok h
    cases hdone
    apply (reads_readU8 1).bind
    apply Reads.require (by decide)
    apply (reads_readU16 filter.field).bind
    exact (reads_readValue filter.fits hvalue).bind_pure (.pure _)

theorem length_writeU16 (value : UInt16) : (writeU16 value).length = 2 := length_storeLe 2 _

theorem reads_decodeQueryDescription {description : QueryDescription} {bytes : Bytes}
    (h : encodeQueryDescription description = .ok bytes) :
    Reads decodeQueryDescription bytes description := by
  obtain ⟨equals, hequals, hmore⟩ := Effect.except_bind_eq_ok h
  obtain ⟨hproject, hdone⟩ := require_eq_ok hmore
  cases hdone
  simp only [List.append_assoc]
  apply (reads_readU64 description.type).bind
  apply (reads_readU64 description.limit).bind
  apply (reads_readEquals hequals).bind
  apply Reads.size16 (Nat.lt_succ_of_le hproject)
  intro count hcount
  apply Reads.remaining
  intro left hleft
  rw [hcount]
  apply Reads.require
  · rw [Wire.length_flatMap length_writeU16] at hleft
    exact hleft
  · exact (reads_readMany_flatMap fun field _ => reads_readU16 field).bind_pure (.pure _)

/-! ### The extension of minor 3 -/

theorem reads_readAttribute {entry : Bytes × Bytes} {bytes : Bytes}
    (h : writeAttribute entry = .ok bytes) : Reads readAttribute bytes entry := by
  obtain ⟨key, hkey, hmore⟩ := Effect.except_bind_eq_ok h
  obtain ⟨value, hvalue, hdone⟩ := Effect.except_bind_eq_ok hmore
  cases hdone
  apply (reads_readString hkey).bind
  exact (reads_readString hvalue).bind_pure (.pure _)

theorem reads_readActingAs {actingAs : Delegation} {bytes : Bytes} (hsubject : actingAs.subject ≠ [])
    (h : writeActingAs actingAs = .ok bytes) : Reads readActingAs bytes actingAs := by
  obtain ⟨hlength, hmore⟩ := require_eq_ok h
  obtain ⟨subject, hwrite, hmore⟩ := Effect.except_bind_eq_ok hmore
  obtain ⟨entries, hentries, hdone⟩ := Effect.except_bind_eq_ok hmore
  cases hdone
  have hcount : (UInt8.ofNat actingAs.attributes.length).toNat = actingAs.attributes.length :=
    toNat_ofNat_of_lt (Nat.lt_of_le_of_lt hlength (by decide))
  apply (reads_readString hwrite).bind
  apply Reads.require hsubject
  apply (reads_readU8 (UInt8.ofNat actingAs.attributes.length)).bind
  rw [hcount]
  apply Reads.require hlength
  exact (reads_readMany (fun _ _ _ => reads_readAttribute) hentries).bind_pure (.pure _)

theorem reads_readIdempotencyKey {key bytes : Bytes} (hkey : key ≠ [])
    (h : writeIdempotencyKey key = .ok bytes) : Reads readIdempotencyKey bytes key := by
  obtain ⟨hlength, hwrite⟩ := require_eq_ok h
  apply (reads_readString hwrite).bind_pure
  exact Reads.require ⟨hkey, hlength⟩ (.pure _)

theorem readsAll_flags {flags : UInt8} {body : Bytes} {actingAs : Delegation} {key : Bytes}
    {hasKey : Bool} (hflags : flags ≠ 0 ∧ flags.toNat < if hasKey then 4 else 2)
    (h : Reads (do
      let actingAs ← (if flags &&& 1 ≠ 0 then readActingAs else pure {})
      let key ← (if flags &&& 2 ≠ 0 then readIdempotencyKey else pure [])
      pure (actingAs, key)) body (actingAs, key)) :
    ReadsAll (decodeExtension hasKey) (flags :: body) (actingAs, key) := by
  apply ReadsAll.remaining
  rw [if_neg (by rw [List.length_cons]; omega)]
  apply Reads.readsAll
  apply (reads_readU8 flags).bind
  exact Reads.require hflags h

/-- The delegation that comes out of an extension: without a subject there is none. -/
def named (actingAs : Delegation) : Delegation := if actingAs.subject = [] then {} else actingAs

theorem named_eq_self_iff {actingAs : Delegation} :
    named actingAs = actingAs ↔ (actingAs.subject = [] → actingAs.attributes = []) := by
  unfold named
  split
  · rename_i hsubject
    constructor
    · intro heq _
      rw [← heq]
    · intro hattributes
      cases actingAs
      simp_all
  · rename_i hsubject
    exact iff_of_true rfl fun h => absurd h hsubject

theorem readsAll_decodeExtension {actingAs : Delegation} {key bytes : Bytes} {hasKey : Bool}
    (hkey : hasKey = true ∨ key = []) (h : encodeExtension actingAs key = .ok bytes) :
    ReadsAll (decodeExtension hasKey) bytes (named actingAs, key) := by
  unfold encodeExtension at h
  dsimp only at h
  by_cases hsubject : actingAs.subject = []
  · have hnamed : named actingAs = {} := if_pos hsubject
    rw [hnamed]
    by_cases hempty : key = []
    · rw [if_neg (not_not.2 hsubject), if_neg (not_not.2 hempty), if_pos (by decide)] at h
      obtain ⟨-, hdone⟩ := require_eq_ok h
      cases hdone
      rw [hempty]
      exact ReadsAll.remaining rfl
    · rw [if_neg (not_not.2 hsubject), if_pos hempty, if_neg (by decide)] at h
      obtain ⟨body, hbody, hmore⟩ := Effect.except_bind_eq_ok h
      obtain ⟨text, htext, hdone⟩ := Effect.except_bind_eq_ok hmore
      rw [if_neg (by decide)] at hbody
      rw [if_pos (by decide)] at htext
      cases hbody
      cases hdone
      have htrue := hkey.resolve_right hempty
      apply readsAll_flags (by rw [htrue]; decide)
      apply (Reads.pure ({} : Delegation)).bind
      exact (reads_readIdempotencyKey hempty htext).bind_pure (.pure _)
  · have hnamed : named actingAs = actingAs := if_neg hsubject
    rw [hnamed]
    by_cases hempty : key = []
    · rw [if_pos hsubject, if_neg (not_not.2 hempty), if_neg (by decide)] at h
      obtain ⟨body, hbody, hmore⟩ := Effect.except_bind_eq_ok h
      obtain ⟨text, htext, hdone⟩ := Effect.except_bind_eq_ok hmore
      rw [if_pos (by decide)] at hbody
      rw [if_neg (by decide)] at htext
      cases htext
      cases hdone
      apply readsAll_flags (by cases hasKey <;> decide)
      apply (reads_readActingAs hsubject hbody).bind
      rw [hempty]
      exact .pure _
    · rw [if_pos hsubject, if_pos hempty, if_neg (by decide)] at h
      obtain ⟨body, hbody, hmore⟩ := Effect.except_bind_eq_ok h
      obtain ⟨text, htext, hdone⟩ := Effect.except_bind_eq_ok hmore
      rw [if_pos (by decide)] at hbody htext
      cases hdone
      have htrue := hkey.resolve_right hempty
      apply readsAll_flags (by rw [htrue]; decide)
      apply (reads_readActingAs hsubject hbody).bind
      exact (reads_readIdempotencyKey hempty htext).bind_pure (.pure _)

/-! ### Messages -/

theorem readsAll_decodeHello {message : Hello} {bytes : Bytes} (h : encodeHello message = .ok bytes) :
    ReadsAll decodeHello bytes message := by
  obtain ⟨name, hname, hmore⟩ := Effect.except_bind_eq_ok h
  obtain ⟨codecs, hcodecs, hdone⟩ := Effect.except_bind_eq_ok hmore
  cases hdone
  simp only [List.append_assoc]
  apply (reads_readU16 message.version).bind_all
  apply (reads_readString hname).bind_all
  apply (reads_readCompressionList hcodecs).bind_all
  apply ReadsAll.remaining
  rw [if_pos (by exact Nat.le_of_eq (length_storeLe 2 _).symm)]
  exact (reads_readU16 message.minor).readsAll.bind rfl

theorem readsAll_readMechanisms {mechanisms : List Bytes} {bytes : Bytes}
    (hne : mechanisms ≠ []) (h : writeMechanisms mechanisms = .ok bytes) :
    0 < bytes.length ∧ ReadsAll readMechanisms bytes mechanisms := by
  unfold writeMechanisms at h
  rw [if_pos hne] at h
  obtain ⟨hlength, hmore⟩ := require_eq_ok h
  obtain ⟨texts, htexts, hdone⟩ := Effect.except_bind_eq_ok hmore
  cases hdone
  have hcount : (UInt8.ofNat mechanisms.length).toNat = mechanisms.length :=
    toNat_ofNat_of_lt (Nat.lt_of_le_of_lt hlength (by decide))
  refine ⟨Nat.succ_pos _, Reads.readsAll ?_⟩
  apply (reads_readU8 (UInt8.ofNat mechanisms.length)).bind
  rw [hcount]
  apply Reads.require hlength
  exact reads_readMany (fun _ _ _ => reads_readString) htexts

def heardMechanisms (message : HelloOk) : List Bytes :=
  if 2 ≤ message.minor then message.authMechanisms else []

theorem readsAll_decodeHelloOk {message : HelloOk} {bytes : Bytes} (h : encodeHelloOk message = .ok bytes)
    (hknown : isKnownCompression message.selectedCodec = true) (hratio : message.maxExpansionRatio ≠ 0) :
    ReadsAll decodeHelloOk bytes { message with authMechanisms := heardMechanisms message } := by
  obtain ⟨mechanisms, hmechanisms, hdone⟩ := Effect.except_bind_eq_ok h
  cases hdone
  simp only [List.append_assoc]
  apply (reads_readU16 message.version).bind_all
  apply (reads_readU64 message.baseline).bind_all
  apply (reads_readU8 message.selectedCodec).bind_all
  apply ReadsAll.require hknown
  apply (reads_readU32 message.maxFrameBytes).bind_all
  apply (reads_readU16 message.maxConcurrentStreams).bind_all
  apply (reads_readU16 message.maxExpansionRatio).bind_all
  apply ReadsAll.require hratio
  apply (reads_readU32 message.idleTimeoutMs).bind_all
  apply ReadsAll.remaining
  rw [if_pos (by rw [List.length_append, writeU16, length_storeLe]; omega)]
  apply (reads_readU16 message.minor).bind_all
  apply ReadsAll.remaining
  unfold heardMechanisms
  by_cases hminor : 2 ≤ message.minor
  · by_cases hne : message.authMechanisms = []
    · unfold writeMechanisms at hmechanisms
      rw [if_neg (not_not.2 hne)] at hmechanisms
      cases hmechanisms
      rw [if_neg (fun hboth => absurd hboth.2 (Nat.lt_irrefl 0)), if_pos hminor, hne]
      rfl
    · obtain ⟨hpos, hread⟩ := readsAll_readMechanisms hne hmechanisms
      rw [if_pos ⟨hminor, hpos⟩, if_pos hminor]
      exact hread.bind rfl
  · rw [if_neg (fun hboth => hminor hboth.1), if_neg hminor]
    rfl

theorem rejects_decodeHelloOk {message : HelloOk} {bytes : Bytes} (h : encodeHelloOk message = .ok bytes)
    (hnot : ¬(isKnownCompression message.selectedCodec = true ∧ message.maxExpansionRatio ≠ 0)) :
    Rejects decodeHelloOk bytes := by
  obtain ⟨mechanisms, hmechanisms, hdone⟩ := Effect.except_bind_eq_ok h
  cases hdone
  simp only [List.append_assoc]
  apply (reads_readU16 message.version).bind_rejects
  apply (reads_readU64 message.baseline).bind_rejects
  apply (reads_readU8 message.selectedCodec).bind_rejects
  by_cases hknown : isKnownCompression message.selectedCodec = true
  · have hzero : ¬message.maxExpansionRatio ≠ 0 := fun hratio => hnot ⟨hknown, hratio⟩
    apply Rejects.check (if_pos hknown)
    apply (reads_readU32 message.maxFrameBytes).bind_rejects
    apply (reads_readU16 message.maxConcurrentStreams).bind_rejects
    apply (reads_readU16 message.maxExpansionRatio).bind_rejects
    exact rejects_check (if_neg hzero)
  · exact rejects_check (if_neg hknown)

theorem readsAll_decodeQuery {message : Query} {bytes : Bytes} (h : encodeQuery message = .ok bytes) :
    ReadsAll decodeQuery bytes { message with actingAs := named message.actingAs } := by
  obtain ⟨description, hdescription, hmore⟩ := Effect.except_bind_eq_ok h
  obtain ⟨extension, hextension, hdone⟩ := Effect.except_bind_eq_ok hmore
  cases hdone
  simp only [List.append_assoc]
  apply (reads_readU32 message.queryId).bind_all
  apply (reads_decodeQueryDescription hdescription).bind_all
  exact (readsAll_decodeExtension (.inr rfl) hextension).bind (.pure _)

theorem reads_decodeStreamError {message : StreamError} {bytes : Bytes}
    (h : encodeStreamError message = .ok bytes) : Reads decodeStreamError bytes message := by
  obtain ⟨text, htext, hdone⟩ := Effect.except_bind_eq_ok h
  cases hdone
  simp only [List.append_assoc]
  apply (reads_readU32 message.queryId).bind
  apply (reads_readU16 message.code).bind
  exact (reads_readString htext).bind_pure (.pure _)

theorem readsAll_decodeOpCall {message : OpCall} {bytes : Bytes} (h : encodeOpCall message = .ok bytes) :
    ReadsAll decodeOpCall bytes { message with actingAs := named message.actingAs } := by
  obtain ⟨operation, hoperation, hmore⟩ := Effect.except_bind_eq_ok h
  obtain ⟨hargs, hmore⟩ := require_eq_ok hmore
  obtain ⟨extension, hextension, hdone⟩ := Effect.except_bind_eq_ok hmore
  cases hdone
  simp only [List.append_assoc]
  apply (reads_readU32 message.callId).bind_all
  apply (reads_readString hoperation).bind_all
  apply ReadsAll.size (Nat.lt_of_le_of_lt hargs (by decide))
  intro count hcount
  apply (reads_readSized hcount.symm).bind_all
  exact (readsAll_decodeExtension (.inl rfl) hextension).bind (.pure _)

/-- What a reader of the result hears: a result without an error, or an error without a result. -/
def heardResult (message : OpResult) : OpResult :=
  if message.ok then { message with code := invalidArgumentCode, message := [], detail := [] }
  else { message with payload := [] }

theorem readsAll_readDetail {detail bytes : Bytes} (h : writeDetail detail = .ok bytes) :
    ReadsAll readDetail bytes detail := by
  unfold writeDetail at h
  by_cases hne : detail = []
  · rw [if_neg (not_not.2 hne)] at h
    cases h
    rw [hne]
    rfl
  · rw [if_pos hne] at h
    obtain ⟨hlength, hdone⟩ := require_eq_ok h
    cases hdone
    apply ReadsAll.remaining
    rw [if_pos (by rw [List.length_append, length_storeLe]; omega)]
    apply ReadsAll.size (Nat.lt_of_le_of_lt hlength (by decide))
    intro count hcount
    apply ReadsAll.remaining
    apply ReadsAll.require
    · refine ⟨?_, Nat.le_of_eq hcount⟩
      rintro rfl
      exact hne (List.length_eq_zero_iff.1 hcount.symm)
    · exact (reads_readBytes hcount.symm).readsAll

theorem readsAll_decodeOpResult {message : OpResult} {bytes : Bytes}
    (h : encodeOpResult message = .ok bytes) : ReadsAll decodeOpResult bytes (heardResult message) := by
  unfold encodeOpResult at h
  unfold heardResult
  cases hok : message.ok with
  | true =>
    rw [hok, if_pos rfl] at h
    obtain ⟨hlength, hdone⟩ := require_eq_ok h
    cases hdone
    rw [if_pos rfl]
    simp only [List.append_assoc]
    apply (reads_readU32 message.callId).bind_all
    apply (reads_readU8 1).bind_all
    apply ReadsAll.require (by decide)
    apply ReadsAll.size (Nat.lt_of_le_of_lt hlength (by decide))
    intro count hcount
    rw [← hok]
    exact (reads_readSized hcount.symm).readsAll.bind (.pure _)
  | false =>
    rw [hok, if_neg Bool.false_ne_true] at h
    obtain ⟨text, htext, hmore⟩ := Effect.except_bind_eq_ok h
    obtain ⟨detail, hdetail, hdone⟩ := Effect.except_bind_eq_ok hmore
    cases hdone
    rw [if_neg Bool.false_ne_true]
    simp only [List.append_assoc]
    apply (reads_readU32 message.callId).bind_all
    apply (reads_readU8 0).bind_all
    apply ReadsAll.require (by decide)
    apply (reads_readU16 message.code).bind_all
    apply (reads_readString htext).bind_all
    rw [← hok]
    exact (readsAll_readDetail hdetail).bind (.pure _)

theorem reads_decodeMethodDescriptor {method : MethodDescriptor} {bytes : Bytes}
    (h : encodeMethodDescriptor method = .ok bytes) : Reads decodeMethodDescriptor bytes method := by
  obtain ⟨operation, hoperation, hdone⟩ := Effect.except_bind_eq_ok h
  cases hdone
  have hmode : Reads readOperationMode [writeOperationMode method.mode] method.mode := by
    apply (reads_readU8 _).bind_pure
    cases method.mode with
    | readOnly => exact .pure _
    | readWrite => exact .pure _
  simp only [List.append_assoc]
  apply (reads_readString hoperation).bind
  apply (reads_readU32 method.methodVersion).bind
  exact hmode.bind_pure (.pure _)

theorem reads_decodeFacadeDescriptor {facade : FacadeDescriptor} {bytes : Bytes}
    (h : encodeFacadeDescriptor facade = .ok bytes) : Reads decodeFacadeDescriptor bytes facade := by
  obtain ⟨id, hid, hmore⟩ := Effect.except_bind_eq_ok h
  obtain ⟨hlength, hmore⟩ := require_eq_ok hmore
  obtain ⟨methods, hmethods, hdone⟩ := Effect.except_bind_eq_ok hmore
  cases hdone
  have hmode : Reads readFacadeMode [writeFacadeMode facade.mode] facade.mode := by
    apply (reads_readU8 _).bind_pure
    cases facade.mode with
    | readOnly => exact .pure _
    | readWrite => exact .pure _
    | mixed => exact .pure _
  simp only [List.append_assoc]
  apply (reads_readString hid).bind
  apply (reads_readU32 facade.facadeVersion).bind
  apply hmode.bind
  apply Reads.size16 (Nat.lt_succ_of_le hlength)
  intro count hcount
  rw [hcount]
  exact (reads_readMany (fun _ _ _ => reads_decodeMethodDescriptor) hmethods).bind_pure (.pure _)

theorem readsAll_decodeFacadeList {message : FacadeList} {bytes : Bytes}
    (h : encodeFacadeList message = .ok bytes) :
    ReadsAll decodeFacadeList bytes { message with actingAs := named message.actingAs } := by
  obtain ⟨extension, hextension, hdone⟩ := Effect.except_bind_eq_ok h
  cases hdone
  apply (reads_readU32 message.requestId).bind_all
  exact (readsAll_decodeExtension (.inr rfl) hextension).bind (.pure _)

theorem reads_decodeFacadeListOk {message : FacadeListOk} {bytes : Bytes}
    (h : encodeFacadeListOk message = .ok bytes) : Reads decodeFacadeListOk bytes message := by
  obtain ⟨hlength, hmore⟩ := require_eq_ok h
  obtain ⟨facades, hfacades, hdone⟩ := Effect.except_bind_eq_ok hmore
  cases hdone
  simp only [List.append_assoc]
  apply (reads_readU32 message.requestId).bind
  apply Reads.size16 (Nat.lt_succ_of_le hlength)
  intro count hcount
  rw [hcount]
  exact (reads_readMany (fun _ _ _ => reads_decodeFacadeDescriptor) hfacades).bind_pure (.pure _)

theorem readsAll_decodeFacadeOpen {message : FacadeOpen} {bytes : Bytes}
    (h : encodeFacadeOpen message = .ok bytes) :
    ReadsAll decodeFacadeOpen bytes { message with actingAs := named message.actingAs } := by
  obtain ⟨id, hid, hmore⟩ := Effect.except_bind_eq_ok h
  obtain ⟨extension, hextension, hdone⟩ := Effect.except_bind_eq_ok hmore
  cases hdone
  simp only [List.append_assoc]
  apply (reads_readU32 message.requestId).bind_all
  apply (reads_readString hid).bind_all
  apply (reads_readU32 message.facadeVersion).bind_all
  exact (readsAll_decodeExtension (.inr rfl) hextension).bind (.pure _)

/-- What a reader of the answer hears: without a failure neither its code nor its text. -/
def heardOpen (message : FacadeOpenOk) : FacadeOpenOk :=
  if message.ok then { message with code := invalidArgumentCode, message := [] } else message

theorem reads_readFailure {code : WireCode} {message bytes : Bytes}
    (h : writeFailure code message = .ok bytes) : Reads readFailure bytes (code, message) := by
  obtain ⟨text, htext, hdone⟩ := Effect.except_bind_eq_ok h
  cases hdone
  apply (reads_readU16 code).bind
  exact (reads_readString htext).bind_pure (.pure _)

theorem reads_decodeFacadeOpenOk {message : FacadeOpenOk} {bytes : Bytes}
    (h : encodeFacadeOpenOk message = .ok bytes) :
    Reads decodeFacadeOpenOk bytes (heardOpen message) := by
  obtain ⟨failure, hfailure, hmore⟩ := Effect.except_bind_eq_ok h
  obtain ⟨id, hid, hdone⟩ := Effect.except_bind_eq_ok hmore
  cases hdone
  unfold heardOpen
  simp only [List.append_assoc]
  apply (reads_readU32 message.requestId).bind
  cases hok : message.ok with
  | true =>
    rw [hok, if_pos rfl] at hfailure
    cases hfailure
    rw [if_pos rfl]
    apply (reads_readU8 1).bind
    apply Reads.require (by decide)
    apply (Reads.pure (invalidArgumentCode, ([] : Bytes))).bind
    apply (reads_readString hid).bind
    apply (reads_readU32 message.facadeVersion).bind_pure
    exact .pure _
  | false =>
    rw [hok, if_neg Bool.false_ne_true] at hfailure
    rw [if_neg Bool.false_ne_true]
    apply (reads_readU8 0).bind
    apply Reads.require (by decide)
    apply (reads_readFailure hfailure).bind
    apply (reads_readString hid).bind
    apply (reads_readU32 message.facadeVersion).bind_pure
    have hmessage : { message with ok := false } = message := by
      rw [← hok]
    rw [← hmessage]
    exact .pure _

/-- What a reader of the answer hears: a region without a failure, or a failure without a region. -/
def heardAttach (message : ShmAttachOk) : ShmAttachOk :=
  if message.ok then { message with code := invalidArgumentCode, message := [] }
  else { message with kind := .filePath, name := [], ringBytes := 0 }

theorem reads_decodeShmAttachOk {message : ShmAttachOk} {bytes : Bytes}
    (h : encodeShmAttachOk message = .ok bytes) :
    Reads decodeShmAttachOk bytes (heardAttach message) := by
  unfold encodeShmAttachOk at h
  unfold heardAttach
  cases hok : message.ok with
  | true =>
    rw [hok, if_pos rfl] at h
    obtain ⟨name, hname, hdone⟩ := Effect.except_bind_eq_ok h
    cases hdone
    have hkind : Reads readShmRegionKind [writeShmRegionKind message.kind] message.kind := by
      apply (reads_readU8 _).bind_pure
      cases message.kind with
      | windowsNamedMapping => exact .pure _
      | filePath => exact .pure _
    rw [if_pos rfl]
    simp only [List.append_assoc]
    apply (reads_readU32 message.requestId).bind
    apply (reads_readU8 1).bind
    apply Reads.require (by decide)
    apply hkind.bind
    apply (reads_readString hname).bind
    apply (reads_readU32 message.ringBytes).bind_pure
    rw [← hok]
    exact .pure _
  | false =>
    rw [hok, if_neg Bool.false_ne_true] at h
    obtain ⟨text, htext, hdone⟩ := Effect.except_bind_eq_ok h
    cases hdone
    rw [if_neg Bool.false_ne_true]
    simp only [List.append_assoc]
    apply (reads_readU32 message.requestId).bind
    apply (reads_readU8 0).bind
    apply Reads.require (by decide)
    apply (reads_readU16 message.code).bind
    apply (reads_readString htext).bind_pure
    rw [← hok]
    exact .pure _

theorem reads_decodeAuthenticate {message : Authenticate} {bytes : Bytes}
    (h : encodeAuthenticate message = .ok bytes) : Reads decodeAuthenticate bytes message := by
  obtain ⟨mechanism, hmechanism, hmore⟩ := Effect.except_bind_eq_ok h
  obtain ⟨hlength, hdone⟩ := require_eq_ok hmore
  cases hdone
  simp only [List.append_assoc]
  apply (reads_readU32 message.requestId).bind
  apply (reads_readString hmechanism).bind
  apply Reads.size (Nat.lt_of_le_of_lt hlength (by decide))
  intro count hcount
  apply Reads.require (hcount ▸ hlength)
  exact (reads_readBytes hcount.symm).bind_pure (.pure _)

theorem reads_decodeAuthenticateOk {message : AuthenticateOk} {bytes : Bytes}
    (h : encodeAuthenticateOk message = .ok bytes) : Reads decodeAuthenticateOk bytes message := by
  obtain ⟨text, htext, hmore⟩ := Effect.except_bind_eq_ok h
  obtain ⟨principal, hprincipal, hdone⟩ := Effect.except_bind_eq_ok hmore
  cases hdone
  simp only [List.append_assoc]
  apply (reads_readU32 message.requestId).bind
  apply (reads_readU8 (writeFlag message.ok)).bind
  have hflag : (writeFlag message.ok).toNat ≤ 1 ∧ decide (writeFlag message.ok = 1) = message.ok := by
    cases message.ok with
    | true => decide
    | false => decide
  apply Reads.require hflag.1
  apply (reads_readU16 message.code).bind
  apply (reads_readString htext).bind
  apply (reads_readString hprincipal).bind_pure
  rw [hflag.2]
  exact .pure _

end MoDb.Net
