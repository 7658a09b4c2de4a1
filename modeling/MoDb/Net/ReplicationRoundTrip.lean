import MoDb.Net.ReplicationProtocol

/-!
# The round trip of replication messages

For every kind of message, which bytes its decoder takes off; and from it that what was encoded is decoded,
and that what was decoded to its end is encoded to the same bytes.
-/

namespace MoDb.Net

open Storage Format ReplicationMessage
open ObjectCodec (BinaryDecoder readLe decodes_readLe)

/-! ### Fields -/

theorem decodes_readWord {width w : Nat} (h : 256 ^ width = 2 ^ w) :
    Decodes (readWord width w) fun value bytes => bytes = word width value := by
  apply ((decodes_readLe width).bind fun raw => .pure (BitVec.ofNat w raw)).congr
  intro value bytes
  constructor
  · rintro ⟨raw, first, second, ⟨hraw, rfl⟩, ⟨rfl, rfl⟩, rfl⟩
    rw [List.append_nil, word, BitVec.toNat_ofNat, Nat.mod_eq_of_lt (h ▸ hraw)]
  · rintro rfl
    exact ⟨value.toNat, _, [], ⟨h ▸ value.isLt, rfl⟩, ⟨by simp, rfl⟩, (List.append_nil _).symm⟩

section

variable {α β : Type} {format : α → Bytes → Prop}

theorem decodes_labelled {message : String} {read : BinaryDecoder α} (h : Decodes read format) :
    Decodes (labelled message read) format where
  reads hrest hvalue := by
    unfold labelled
    rw [h.reads hrest hvalue]
  only hc hread := by
    unfold labelled at hread
    split at hread
    · rename_i hok
      cases hread
      exact h.only hc hok
    · cases hread
  stays hc hread := by
    unfold labelled at hread
    split at hread
    · cases hread
    · rename_i herror
      cases hread
      exact h.stays hc herror

theorem decodes_word {width w : Nat} (h : 256 ^ width = 2 ^ w) {next : BitVec w → BinaryDecoder β}
    {format : BitVec w → β → Bytes → Prop} (hnext : ∀ value, Decodes (next value) (format value)) :
    Decodes (readWord width w >>= next) fun result bytes =>
      ∃ value rest, format value result rest ∧ bytes = word width value ++ rest := by
  apply ((decodes_readWord h).bind hnext).congr
  intro result bytes
  constructor
  · rintro ⟨value, _, rest, rfl, hrest, rfl⟩
    exact ⟨value, rest, hrest, rfl⟩
  · rintro ⟨value, rest, hrest, rfl⟩
    exact ⟨value, _, rest, rfl, hrest, rfl⟩

end

theorem decodes_readWalFields : Decodes readWalFields fun fields bytes =>
    fields.2.2 < 2 ^ 32 ∧ bytes = word 8 fields.1 ++ (word 8 fields.2.1 ++ storeLe 4 fields.2.2) := by
  apply (decodes_labelled (decodes_word rfl fun firstLsn => decodes_word rfl fun lastLsn =>
    (decodes_readLe 4).bind fun length => .pure (firstLsn, lastLsn, length))).congr
  rintro ⟨firstLsn, lastLsn, length⟩ bytes
  simp

theorem decodes_readWalBody (length : Nat) : Decodes (readWalBody length) fun body bytes =>
    body.1.length = length ∧ bytes = body.1 ++ word 4 body.2 := by
  apply (decodes_labelled ((decodes_readBytes incompleteInput length).bind fun records =>
    decodes_word rfl fun crc => .pure (records, crc))).congr
  rintro ⟨records, crc⟩ bytes
  simp

/-! ### Messages -/

def PayloadFormat (message : ReplicationMessage) (bytes : Bytes) : Prop :=
  match message with
  | .bootstrapRequest hasKnown knownUuid knownTimeline knownLsn => ∃ flag : BitVec 8,
    hasKnown = decide (flag ≠ 0) ∧
      bytes = word 1 flag ++ (word 16 knownUuid ++ (word 8 knownTimeline ++ word 8 knownLsn))
  | .bootstrapChunk _ data => data.length < 2 ^ 32 ∧ bytes = message.payload
  | .walFrame firstLsn lastLsn records crc => records.length < 2 ^ 32 ∧ crc = (crc32 records).toBitVec ∧
    bytes = word 8 firstLsn ++ (word 8 lastLsn ++ (sized records ++ word 4 crc))
  | .replicationError _ text => text.length < 2 ^ 32 ∧ bytes = message.payload
  | message => bytes = message.payload

theorem decodes_decodeReplicationPayload (type : UInt8) :
    Decodes (decodeReplicationPayload type) fun message bytes =>
      message.type = type ∧ PayloadFormat message bytes := by
  unfold decodeReplicationPayload
  have htype : ∀ {n : Nat}, type.toNat = n → type = UInt8.ofNat n := by
    rintro n rfl
    exact (UInt8.ofNat_toNat).symm
  split
  · apply (decodes_labelled (decodes_word rfl fun version => decodes_word rfl fun databaseUuid =>
      decodes_word rfl fun timelineId => .pure _)).congr
    intro message bytes
    cases message <;> simp [htype ‹_›, ReplicationMessage.type, PayloadFormat, payload]
  · apply (decodes_labelled (decodes_word rfl fun version => decodes_word rfl fun databaseUuid =>
      decodes_word rfl fun timelineId => decodes_word rfl fun primaryCommitLsn => .pure _)).congr
    intro message bytes
    cases message <;> simp [htype ‹_›, ReplicationMessage.type, PayloadFormat, payload]
  · apply (decodes_labelled (decodes_word rfl fun flag => decodes_word rfl fun knownUuid =>
      decodes_word rfl fun knownTimeline => decodes_word rfl fun knownLsn => .pure _)).congr
    intro message bytes
    cases message <;> simp [htype ‹_›, ReplicationMessage.type, PayloadFormat, payload]
  · apply (decodes_labelled (decodes_word rfl fun pageSize => decodes_word rfl fun cutLsn =>
      decodes_word rfl fun epoch => decodes_word rfl fun baseline => decodes_word rfl fun sizeBytes =>
        decodes_word rfl fun contentCrc => .pure _)).congr
    intro message bytes
    cases message <;> simp [htype ‹_›, ReplicationMessage.type, PayloadFormat, payload]
  · apply ((decodes_labelled (decodes_word rfl fun offset => (decodes_readLe 4).bind fun length =>
      .pure (offset, length))).bind fun fields =>
        (decodes_readBytes incompleteInput fields.2).bind fun data => .pure _).congr
    intro message bytes
    cases message <;> simp [htype ‹_›, ReplicationMessage.type, PayloadFormat, payload, sized]
  · apply (decodes_labelled (decodes_word rfl fun contentCrc => .pure _)).congr
    intro message bytes
    cases message <;> simp [htype ‹_›, ReplicationMessage.type, PayloadFormat, payload]
  · apply (decodes_labelled (decodes_word rfl fun databaseUuid => decodes_word rfl fun timelineId =>
      decodes_word rfl fun fromLsn => .pure _)).congr
    intro message bytes
    cases message <;> simp [htype ‹_›, ReplicationMessage.type, PayloadFormat, payload]
  · apply (decodes_readWalFields.bind fun fields => (decodes_readWalBody fields.2.2).bind fun body =>
      Decodes.ite (fun _ => .throw _) fun _ => .pure _).congr
    intro message bytes
    cases message <;> simp [htype ‹_›, ReplicationMessage.type, PayloadFormat, payload, sized]
    rintro - rfl
    rfl
  · apply (decodes_labelled (decodes_word rfl fun appliedLsn => .pure _)).congr
    intro message bytes
    cases message <;> simp [htype ‹_›, ReplicationMessage.type, PayloadFormat, payload]
  · apply (decodes_labelled (decodes_word rfl fun oldestAvailableLsn => .pure _)).congr
    intro message bytes
    cases message <;> simp [htype ‹_›, ReplicationMessage.type, PayloadFormat, payload]
  · apply (decodes_labelled (decodes_word rfl fun primaryCommitLsn => .pure _)).congr
    intro message bytes
    cases message <;> simp [htype ‹_›, ReplicationMessage.type, PayloadFormat, payload]
  · apply ((decodes_labelled (decodes_word rfl fun code => (decodes_readLe 4).bind fun length =>
      .pure (code, length))).bind fun fields =>
        (decodes_readBytes incompleteInput fields.2).bind fun data => .pure _).congr
    intro message bytes
    cases message <;> simp [htype ‹_›, ReplicationMessage.type, PayloadFormat, payload, sized]
  · apply (Decodes.pure _).congr
    intro message bytes
    cases message <;> simp [htype ‹_›, ReplicationMessage.type, PayloadFormat, payload]
  · apply (Decodes.throw _).congr
    intro message bytes
    cases message <;> simp [ReplicationMessage.type]
    all_goals
      rintro rfl
      contradiction

/-! ### Checksums -/

namespace ReplicationMessage

/-- A frame of the log asks for the checksum of its records, or carries it. -/
def Sealed : ReplicationMessage → Prop
  | .walFrame _ _ records crc => sentCrc records crc = (crc32 records).toBitVec
  | _ => True

def filled : ReplicationMessage → ReplicationMessage
  | .walFrame firstLsn lastLsn records crc => .walFrame firstLsn lastLsn records (sentCrc records crc)
  | message => message

theorem type_filled (message : ReplicationMessage) : message.filled.type = message.type := by
  cases message <;> rfl

theorem payloadFormat_filled {message : ReplicationMessage} (hfits : message.Fits)
    (hsealed : message.Sealed) : PayloadFormat message.filled message.payload := by
  unfold Fits at hfits
  cases message with
  | bootstrapRequest hasKnown knownUuid knownTimeline knownLsn =>
    cases hasKnown with
    | true => exact ⟨1, rfl, rfl⟩
    | false => exact ⟨0, rfl, rfl⟩
  | bootstrapChunk offset bytes =>
    simp only [payload, sized, List.length_append] at hfits
    exact ⟨by omega, rfl⟩
  | walFrame firstLsn lastLsn records crc =>
    simp only [payload, sized, List.length_append] at hfits
    exact ⟨by omega, hsealed, rfl⟩
  | replicationError code text =>
    simp only [payload, sized, List.length_append] at hfits
    exact ⟨by omega, rfl⟩
  | _ => rfl

end ReplicationMessage

def crcMismatch : Error := ⟨.protocolError, "WalFrame CRC mismatch"⟩

theorem decodeReplicationPayload_mismatch {firstLsn lastLsn : BitVec 64} {records : Bytes}
    {crc : BitVec 32} (hlength : records.length < 2 ^ 32) (hcrc : (crc32 records).toBitVec ≠ crc)
    {c : Cursor UInt8} {more : Bytes}
    (hrest : c.rest = word 8 firstLsn ++ (word 8 lastLsn ++ (sized records ++ word 4 crc)) ++ more) :
    ∃ c', decodeReplicationPayload 107 c = .error crcMismatch c' := by
  have hsplit : c.rest = word 8 firstLsn ++ (word 8 lastLsn ++ storeLe 4 records.length) ++
      (records ++ word 4 crc ++ more) := by
    rw [hrest, sized]
    simp only [List.append_assoc]
  obtain ⟨c₁, hfields, hrest₁⟩ : ∃ c₁,
      readWalFields c = .ok (firstLsn, lastLsn, records.length) c₁ ∧
        c₁.rest = records ++ word 4 crc ++ more :=
    ⟨_, decodes_readWalFields.reads hsplit ⟨hlength, rfl⟩, Cursor.rest_skip_append hsplit⟩
  obtain ⟨c₂, hbody⟩ : ∃ c₂, readWalBody records.length c₁ = .ok (records, crc) c₂ :=
    ⟨_, (decodes_readWalBody records.length).reads hrest₁ ⟨rfl, rfl⟩⟩
  refine ⟨c₂, ?_⟩
  change (readWalFields >>= _) c = _
  rw [Effect.bind_of_ok hfields]
  change (readWalBody records.length >>= _) c₁ = _
  rw [Effect.bind_of_ok hbody]
  change (if (crc32 records).toBitVec ≠ crc then throw crcMismatch else _ : BinaryDecoder _) c₂ = _
  rw [if_pos hcrc]
  rfl

/-! ### Frames -/

theorem length_finishFrame (type : UInt8) (body : Bytes) :
    (finishFrame type body).length = body.length + 5 := by
  rw [finishFrame, List.length_append, length_storeLe, List.length_cons]
  omega

theorem decode_finishFrame {type : UInt8} {body : Bytes} (h : body.length + 5 < 2 ^ 32) :
    decodeReplicationMessage (finishFrame type body) =
      match decodeReplicationPayload type ⟨body, 0⟩ with
      | .ok message _ => .ok message
      | .error error _ => .error error := by
  have hdrop : (finishFrame type body).drop 4 = type :: body := List.drop_left' (length_storeLe 4 _)
  have htake : (finishFrame type body).take 4 = storeLe 4 (1 + body.length) :=
    List.take_left' (length_storeLe 4 _)
  have hlength : (loadLe (storeLe 4 (1 + body.length)) + 4) % 2 ^ 32 = body.length + 5 := by
    rw [loadLe_storeLe_of_lt (by omega)]
    omega
  unfold decodeReplicationMessage
  rw [hdrop]
  simp only
  rw [htake, length_finishFrame]
  exact if_neg (not_not.2 hlength)

theorem finishFrame_of_decode {frame : Bytes} {message : ReplicationMessage}
    (h : decodeReplicationMessage frame = .ok message) : ∃ type body c,
      frame = finishFrame type body ∧ body.length + 5 < 2 ^ 32 ∧
        decodeReplicationPayload type ⟨body, 0⟩ = .ok message c := by
  unfold decodeReplicationMessage at h
  split at h
  · contradiction
  · rename_i type body hdrop
    split at h
    · contradiction
    · rename_i hlength
      split at h
      · rename_i c hread
        cases h
        have hsplit : frame = frame.take 4 ++ type :: body := by
          rw [← hdrop, List.take_append_drop]
        have hfour : 4 < frame.length := by
          have hpos := congrArg List.length hdrop
          rw [List.length_drop, List.length_cons] at hpos
          omega
        have htake : (frame.take 4).length = 4 := by
          rw [List.length_take]
          omega
        have hlt := loadLe_lt (frame.take 4)
        rw [htake] at hlt
        have htotal := congrArg List.length hsplit
        rw [List.length_append, htake, List.length_cons] at htotal
        have hload : loadLe (frame.take 4) = 1 + body.length := by omega
        refine ⟨type, body, c, ?_, by omega, hread⟩
        rw [finishFrame, ← hload, ObjectCodec.storeLe_loadLe htake]
        exact hsplit
      · contradiction

def NothingLeft (frame : Bytes) : Prop := ∀ type body message c, frame.drop 4 = type :: body →
  decodeReplicationPayload type ⟨body, 0⟩ = .ok message c → c.position = body.length

def FlagCanonical (frame : Bytes) : Prop := ∀ flag rest, frame.drop 4 = 102 :: flag :: rest → flag ≤ 1

theorem decode_encodeReplicationMessage {message : ReplicationMessage} (hfits : message.Fits)
    (hsealed : message.Sealed) :
    decodeReplicationMessage (encodeReplicationMessage message) = .ok message.filled := by
  have hrest : Cursor.rest (⟨message.payload, 0⟩ : Cursor UInt8) = message.payload ++ [] :=
    (List.append_nil _).symm
  have hread := (decodes_decodeReplicationPayload message.type).reads hrest
    ⟨message.type_filled, payloadFormat_filled hfits hsealed⟩
  rw [encodeReplicationMessage, decode_finishFrame hfits, hread]

theorem payload_of_format {message : ReplicationMessage} {bytes : Bytes}
    (hformat : PayloadFormat message bytes)
    (hflag : message.type = 102 → ∀ flag rest, bytes = flag :: rest → flag ≤ 1) :
    message.payload = bytes := by
  cases message with
  | bootstrapRequest hasKnown knownUuid knownTimeline knownLsn =>
    obtain ⟨flag, rfl, rfl⟩ := hformat
    have hle : UInt8.ofNat flag.toNat ≤ 1 := hflag rfl _ _ rfl
    have hsmall : flag.toNat ≤ 1 := by
      rw [UInt8.le_iff_toNat_le, UInt8.toNat_ofNat', Nat.mod_eq_of_lt flag.isLt] at hle
      exact hle
    obtain rfl | rfl : flag = 0 ∨ flag = 1 := by
      rcases Nat.le_one_iff_eq_zero_or_eq_one.1 hsmall with hzero | hone
      · exact .inl (BitVec.eq_of_toNat_eq hzero)
      · exact .inr (BitVec.eq_of_toNat_eq hone)
    · rfl
    · rfl
  | bootstrapChunk offset data => exact hformat.2.symm
  | walFrame firstLsn lastLsn records crc =>
    obtain ⟨-, hcrc, rfl⟩ := hformat
    have hsent : sentCrc records crc = crc := by
      rw [sentCrc, ← hcrc]
      exact ite_self _
    rw [payload, hsent]
  | replicationError code text => exact hformat.2.symm
  | _ => exact hformat.symm

theorem decode_of_not_sealed {message : ReplicationMessage} (hfits : message.Fits)
    (hsealed : ¬message.Sealed) :
    ∃ c, decodeReplicationPayload message.type ⟨message.payload, 0⟩ = .error crcMismatch c := by
  cases message with
  | walFrame firstLsn lastLsn records crc =>
    have hlength : records.length < 2 ^ 32 := by
      simp only [ReplicationMessage.Fits, payload, sized, List.length_append] at hfits
      omega
    exact decodeReplicationPayload_mismatch hlength (Ne.symm hsealed) (List.append_nil _).symm
  | _ => exact absurd trivial hsealed

theorem encode_of_decode {frame : Bytes} {message : ReplicationMessage}
    (h : decodeReplicationMessage frame = .ok message) (hleft : NothingLeft frame)
    (hflag : FlagCanonical frame) : encodeReplicationMessage message = frame := by
  obtain ⟨type, body, c, rfl, hfits, hread⟩ := finishFrame_of_decode h
  have hdrop : (finishFrame type body).drop 4 = type :: body := List.drop_left' (length_storeLe 4 _)
  have hend := hleft type body message c hdrop hread
  obtain ⟨bytes, more, ⟨rfl, hformat⟩, hrest, rfl⟩ :=
    (decodes_decodeReplicationPayload type).only (Nat.zero_le _) hread
  obtain rfl : body = bytes ++ more := hrest
  have hmore : more = [] := by
    have hlength : 0 + bytes.length = (bytes ++ more).length := hend
    rw [List.length_append] at hlength
    exact List.length_eq_zero_iff.1 (by omega)
  subst hmore
  rw [List.append_nil] at hdrop ⊢
  rw [encodeReplicationMessage, payload_of_format hformat]
  intro htype flag rest hbytes
  rw [htype, hbytes] at hdrop
  exact hflag flag rest (by rw [List.append_nil, htype, hbytes]; exact hdrop)

/-! ### Damaged frames -/

theorem decode_of_length_ne {message : ReplicationMessage} (hfits : message.Fits) {frame : Bytes}
    (h : frame <+: encodeReplicationMessage message ∨ encodeReplicationMessage message <+: frame)
    (hne : frame ≠ encodeReplicationMessage message) :
    ∃ error, decodeReplicationMessage frame = .error error := by
  cases hdecode : decodeReplicationMessage frame with
  | error error => exact ⟨error, rfl⟩
  | ok message' =>
    obtain ⟨type, body, c, rfl, hbody, -⟩ := finishFrame_of_decode hdecode
    have htake : ∀ type' body', (finishFrame type' body').take 4 = storeLe 4 (1 + body'.length) :=
      fun _ _ => List.take_left' (length_storeLe 4 _)
    have hsame : (finishFrame type body).take 4 = (encodeReplicationMessage message).take 4 := by
      have hfour : 4 ≤ (finishFrame type body).length ∧
          4 ≤ (encodeReplicationMessage message).length := by
        rw [encodeReplicationMessage, length_finishFrame, length_finishFrame]
        omega
      rcases h with ⟨rest, hrest⟩ | ⟨rest, hrest⟩
      · rw [← hrest, List.take_append_of_le_length hfour.1]
      · rw [← hrest, List.take_append_of_le_length hfour.2]
    rw [encodeReplicationMessage, htake, htake] at hsame
    have hload := congrArg loadLe hsame
    unfold ReplicationMessage.Fits at hfits
    rw [loadLe_storeLe_of_lt (by omega), loadLe_storeLe_of_lt (by omega)] at hload
    have hlength : (finishFrame type body).length = (encodeReplicationMessage message).length := by
      rw [encodeReplicationMessage, length_finishFrame, length_finishFrame]
      omega
    rcases h with hleading | hleading
    · exact absurd (hleading.eq_of_length hlength) hne
    · exact absurd (hleading.eq_of_length hlength.symm).symm hne

theorem decode_of_payload_cut {message : ReplicationMessage} (hfits : message.Fits) {n : Nat}
    (hn : n < message.payload.length) :
    ∃ error, decodeReplicationMessage (finishFrame message.type (message.payload.take n)) =
      .error error := by
  have hcut : (message.payload.take n).length + 5 < 2 ^ 32 := by
    unfold ReplicationMessage.Fits at hfits
    rw [List.length_take]
    omega
  rw [decode_finishFrame hcut]
  cases hread : decodeReplicationPayload message.type ⟨message.payload.take n, 0⟩ with
  | error error c => exact ⟨error, rfl⟩
  | ok message' c =>
    obtain ⟨bytes, more, hformat, hrest, -⟩ :=
      (decodes_decodeReplicationPayload message.type).only (Nat.zero_le _) hread
    have hwhole : Cursor.rest (⟨message.payload, 0⟩ : Cursor UInt8) =
        bytes ++ (more ++ message.payload.drop n) := by
      have htake : message.payload.take n = bytes ++ more := hrest
      rw [← List.append_assoc, ← htake]
      exact (List.take_append_drop n message.payload).symm
    have hfirst := (decodes_decodeReplicationPayload message.type).reads hwhole hformat
    have hshort : bytes.length ≤ n := by
      have hlength := congrArg List.length (show message.payload.take n = bytes ++ more from hrest)
      rw [List.length_take, List.length_append] at hlength
      omega
    by_cases hsealed : message.Sealed
    · have hrest' : Cursor.rest (⟨message.payload, 0⟩ : Cursor UInt8) = message.payload ++ [] :=
        (List.append_nil _).symm
      have hall := (decodes_decodeReplicationPayload message.type).reads hrest'
        ⟨message.type_filled, payloadFormat_filled hfits hsealed⟩
      rw [hfirst] at hall
      injection hall with hmessage hend
      have hposition : 0 + bytes.length = 0 + message.payload.length := congrArg Cursor.position hend
      omega
    · obtain ⟨c', herror⟩ := decode_of_not_sealed hfits hsealed
      rw [hfirst] at herror
      contradiction

/-- A message comes back from its frame with the checksum of its records; a frame that is decoded to its end
is that of its message; and a frame that was cut off, continued or damaged is refused. -/
theorem replication_round_trip :
    (∀ message : ReplicationMessage, message.Fits → message.Sealed →
      decodeReplicationMessage (encodeReplicationMessage message) = .ok message.filled) ∧
    (∀ frame message, decodeReplicationMessage frame = .ok message → NothingLeft frame →
      FlagCanonical frame → encodeReplicationMessage message = frame) ∧
    (∀ message : ReplicationMessage, message.Fits →
      (∀ frame, frame <+: encodeReplicationMessage message ∨ encodeReplicationMessage message <+: frame →
        frame ≠ encodeReplicationMessage message →
        ∃ error, decodeReplicationMessage frame = .error error) ∧
      (∀ n < message.payload.length, ∃ error,
        decodeReplicationMessage (finishFrame message.type (message.payload.take n)) = .error error) ∧
      (¬message.Sealed →
        decodeReplicationMessage (encodeReplicationMessage message) = .error crcMismatch)) ∧
    ∀ frame firstLsn lastLsn records crc,
      decodeReplicationMessage frame = .ok (.walFrame firstLsn lastLsn records crc) →
      crc = (crc32 records).toBitVec := by
  refine ⟨fun message => decode_encodeReplicationMessage, fun frame message => encode_of_decode,
    fun message hfits => ⟨fun frame => decode_of_length_ne hfits, fun n => decode_of_payload_cut hfits,
      fun hsealed => ?_⟩, fun frame firstLsn lastLsn records crc hdecode => ?_⟩
  · obtain ⟨c, herror⟩ := decode_of_not_sealed hfits hsealed
    rw [encodeReplicationMessage, decode_finishFrame hfits, herror]
  · obtain ⟨type, body, c, -, -, hread⟩ := finishFrame_of_decode hdecode
    obtain ⟨bytes, more, ⟨-, hformat⟩, -, -⟩ :=
      (decodes_decodeReplicationPayload type).only (Nat.zero_le _) hread
    exact hformat.2.1

/-- A frame of the log comes back with the checksum of its records. It is refused with other records under
that checksum, and without its last byte. -/
theorem replication_round_trip_walFrame :
    decodeReplicationMessage (encodeReplicationMessage (.walFrame 4 6 [1, 2, 3] 0)) =
        .ok (.walFrame 4 6 [1, 2, 3] (crc32 [1, 2, 3]).toBitVec) ∧
      decodeReplicationMessage
          (encodeReplicationMessage (.walFrame 4 6 [1, 2, 4] (crc32 [1, 2, 3]).toBitVec)) =
        .error crcMismatch ∧
      ∃ error, decodeReplicationMessage
          ((encodeReplicationMessage (.walFrame 4 6 [1, 2, 3] 0)).take 31) = .error error := by
  have hfits : ReplicationMessage.Fits (.walFrame 4 6 [1, 2, 3] 0) := by
    unfold ReplicationMessage.Fits
    decide
  have hdamaged : ReplicationMessage.Fits (.walFrame 4 6 [1, 2, 4] (crc32 [1, 2, 3]).toBitVec) := by
    unfold ReplicationMessage.Fits
    decide
  have hseal : ¬ReplicationMessage.Sealed (.walFrame 4 6 [1, 2, 4] (crc32 [1, 2, 3]).toBitVec) := by
    unfold ReplicationMessage.Sealed
    decide +kernel
  exact ⟨replication_round_trip.1 _ hfits rfl, (replication_round_trip.2.2.1 _ hdamaged).2.2 hseal,
    (replication_round_trip.2.2.1 _ hfits).1 _ (.inl (List.take_prefix 31 _))
      fun heq => absurd (congrArg List.length heq) (by decide)⟩

/-- A frame of the log that asks for the checksum comes back with it. -/
theorem decode_zero_crc : ReplicationMessage.Fits (.walFrame 1 1 [1] 0) ∧
    decodeReplicationMessage (encodeReplicationMessage (.walFrame 1 1 [1] 0)) ≠
      .ok (.walFrame 1 1 [1] 0) := by
  have hfits : ReplicationMessage.Fits (.walFrame 1 1 [1] 0) := by
    unfold ReplicationMessage.Fits
    decide
  have hcrc : sentCrc [1] 0 ≠ 0 := by decide +kernel
  refine ⟨hfits, ?_⟩
  rw [decode_encodeReplicationMessage hfits rfl]
  intro heq
  injection heq with hmessage
  injection hmessage with _ _ _ hzero
  exact hcrc hzero

end MoDb.Net
