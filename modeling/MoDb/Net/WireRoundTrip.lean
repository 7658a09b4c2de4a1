import MoDb.Net.RoundTrip

/-!
# Every message is read again

An object frame comes back if its data area does not shrink more than the reader allows. So do all other
messages, but for a greeting of the server that no client takes and for attributes that a call has
without a subject.
-/

namespace MoDb.Net

open Storage Wire

/-! ### The data area -/

theorem reads_decodeObjectEnvelope {envelope : ObjectEnvelope} {bytes : Bytes}
    (h : encodeObjectEnvelope envelope = .ok bytes) :
    Reads decodeObjectEnvelope bytes envelope ∧ bytes ≠ [] := by
  obtain ⟨hlength, hdone⟩ := require_eq_ok h
  cases hdone
  simp only [List.append_assoc]
  constructor
  · apply (reads_readU64 envelope.objectId).bind
    apply (reads_readU64 envelope.typeDefinitionId).bind
    apply Reads.size hlength
    intro count hcount
    exact (reads_readSized hcount.symm).bind_pure (.pure _)
  · intro hnil
    have hzero := congrArg List.length hnil
    rw [List.length_append, writeU64, length_storeLe] at hzero
    exact absurd hzero (Nat.succ_ne_zero _ ∘ Nat.eq_zero_of_add_eq_zero_right)

/-- The envelopes lie one behind the other in the data area from the offset on, up to its end, and the
slots say where. -/
inductive Lies (data : Bytes) : Nat → List DataSlot → List ObjectEnvelope → Prop
  | nil : Lies data data.length [] []
  | cons {start : Nat} {slot : DataSlot} {slots : List DataSlot} {envelope : ObjectEnvelope}
      {records : List ObjectEnvelope} {bytes : Bytes}
      (hbytes : encodeObjectEnvelope envelope = .ok bytes)
      (hslot : slot.1.toNat = start ∧ slot.2.toNat = bytes.length)
      (hfits : start + bytes.length ≤ data.length)
      (hdata : (data.drop start).take bytes.length = bytes)
      (hrest : Lies data (start + bytes.length) slots records) :
      Lies data start (slot :: slots) (envelope :: records)

theorem lies_encodeRecords {records : List ObjectEnvelope} {data data' : Bytes}
    {slots slots' : List DataSlot} (h : encodeRecords records data slots = .ok (data', slots'))
    (hsize : data'.length < 2 ^ 32) :
    data <+: data' ∧ ∃ new, slots' = slots ++ new ∧ Lies data' data.length new records := by
  induction records generalizing data slots with
  | nil =>
    cases h
    exact ⟨List.prefix_refl _, [], (List.append_nil _).symm, .nil⟩
  | cons envelope records ih =>
    obtain ⟨bytes, hbytes, hmore⟩ := Effect.except_bind_eq_ok h
    obtain ⟨⟨rest, rfl⟩, new, rfl, hlies⟩ := ih hmore
    have hlength : data.length + bytes.length ≤ (data ++ bytes ++ rest).length := by
      rw [List.length_append, List.length_append]
      exact Nat.le_add_right _ _
    refine ⟨⟨bytes ++ rest, (List.append_assoc _ _ _).symm⟩, _, List.append_assoc _ _ _, ?_⟩
    refine .cons hbytes ⟨UInt32.toNat_ofNat_of_lt' ?_, UInt32.toNat_ofNat_of_lt' ?_⟩ hlength ?_ ?_
    · exact Nat.lt_of_le_of_lt (Nat.le_of_add_right_le hlength) hsize
    · exact Nat.lt_of_le_of_lt (Nat.le_of_add_left_le hlength) hsize
    · rw [List.append_assoc, List.drop_left, List.take_left]
    · rw [List.length_append] at hlies
      exact hlies

theorem validateSlotDirectory_of_lies {data : Bytes} {start : Nat} {slots : List DataSlot}
    {records : List ObjectEnvelope} (h : Lies data start slots records) {earlier : List DataSlot}
    (hearlier : ∀ slot ∈ earlier, slot.1.toNat + slot.2.toNat ≤ start) :
    validateSlotDirectory data.length earlier slots = .ok ⟨⟩ := by
  induction h generalizing earlier with
  | nil => rfl
  | @cons start slot slots envelope records bytes hbytes hslot hfits hdata hrest ih =>
    obtain ⟨hoffset, hlength⟩ := hslot
    have hpos : 0 < bytes.length := List.length_pos_iff.2 (reads_decodeObjectEnvelope hbytes).2
    have hnonzero : slot.2 ≠ 0 := by
      rintro hzero
      rw [hzero] at hlength
      exact absurd hlength.symm (Nat.ne_of_gt hpos)
    have hapart : (earlier.all fun other => !slotsOverlap slot other) = true := by
      rw [List.all_eq_true]
      intro other hother
      have hend := hearlier other hother
      rw [Bool.not_eq_true']
      apply decide_eq_false
      omega
    unfold validateSlotDirectory
    rw [require, if_pos hnonzero, require, if_pos (by omega), require, if_pos hapart]
    apply ih
    intro other hother
    rcases List.mem_append.1 hother with hmem | hmem
    · exact (hearlier other hmem).trans (Nat.le_add_right _ _)
    · rw [List.mem_singleton.1 hmem, hoffset, hlength]

theorem mapM_decodeSlot_of_lies {data : Bytes} {start : Nat} {slots : List DataSlot}
    {records : List ObjectEnvelope} (h : Lies data start slots records) :
    slots.mapM (decodeSlot data) = .ok records := by
  induction h with
  | nil => rfl
  | @cons start slot slots envelope records bytes hbytes hslot hfits hdata hrest ih =>
    have hread := (reads_decodeObjectEnvelope hbytes).1.readsAll
    have hfirst : decodeSlot data slot = .ok envelope := by
      unfold decodeSlot
      rw [hslot.1, hslot.2, hdata, show decodeObjectEnvelope bytes = .ok (envelope, []) from hread]
      rfl
    rw [List.mapM_cons, hfirst, ih]
    rfl

/-! ### Object frames -/

def dataArea (frame : ObjectFrame) : Bytes :=
  match encodeRecords frame.records [] [] with
  | .ok (data, _) => data
  | .error _ => []

def usedCodec (frame : ObjectFrame) : Compression := (encodeData frame.compression (dataArea frame)).1

/-- Where the data area of the frame is compressed, a reader with the limits takes the sizes. -/
def ExpandsWithin (negotiatedMaxFrame maxExpansionRatio : Nat) (frame : ObjectFrame) : Prop :=
  usedCodec frame = Compression.rle → (dataArea frame).length ≤ negotiatedMaxFrame ∧
    (dataArea frame).length ≤ (compressRle (dataArea frame)).length * maxExpansionRatio

theorem encodeData_cases (preferred : Compression) (data : Bytes) :
    encodeData preferred data = (Compression.none, data) ∨
      encodeData preferred data = (Compression.rle, compressRle data) := by
  unfold encodeData
  split
  · exact .inr rfl
  · exact .inl rfl

theorem rle_ne_none : Compression.rle ≠ Compression.none := by decide

theorem checkSizes_eq_ok_iff {negotiatedMaxFrame maxExpansionRatio : Nat} {compression : Compression}
    {uncompressedSize encodedSize : Nat} :
    checkSizes negotiatedMaxFrame maxExpansionRatio compression uncompressedSize encodedSize = .ok ⟨⟩ ↔
      isKnownCompression compression = true ∧ uncompressedSize ≤ negotiatedMaxFrame ∧
        if compression = Compression.none then encodedSize = uncompressedSize
        else (encodedSize = 0 → uncompressedSize = 0) ∧
          uncompressedSize ≤ encodedSize * maxExpansionRatio := by
  have hlast : ∀ {condition : Prop} [Decidable condition] {code : ErrorCode} {message : String},
      require condition code message = .ok ⟨⟩ ↔ condition := by
    intro condition _ code message
    unfold require
    split
    · exact iff_of_true rfl ‹_›
    · exact iff_of_false nofun ‹_›
  unfold checkSizes
  apply require_bind_iff.trans
  apply and_congr_right'
  apply require_bind_iff.trans
  apply and_congr_right'
  split
  · exact hlast
  · apply require_bind_iff.trans
    exact and_congr_right' hlast

theorem checkSizes_used {frame : ObjectFrame} {negotiatedMaxFrame maxExpansionRatio : Nat}
    (hnone : usedCodec frame = Compression.none → (dataArea frame).length ≤ negotiatedMaxFrame) :
    checkSizes negotiatedMaxFrame maxExpansionRatio (usedCodec frame) (dataArea frame).length
        (encodeData frame.compression (dataArea frame)).2.length = .ok ⟨⟩ ↔
      ExpandsWithin negotiatedMaxFrame maxExpansionRatio frame := by
  rw [checkSizes_eq_ok_iff]
  unfold ExpandsWithin
  unfold usedCodec at *
  rcases encodeData_cases frame.compression (dataArea frame) with hused | hused
  · rw [hused] at hnone ⊢
    rw [if_pos rfl]
    exact iff_of_true ⟨rfl, hnone rfl, rfl⟩ fun h => absurd h.symm rle_ne_none
  · rw [hused, if_neg rle_ne_none]
    constructor
    · rintro ⟨-, hmax, -, hratio⟩ -
      exact ⟨hmax, hratio⟩
    · intro h
      obtain ⟨hmax, hratio⟩ := h rfl
      refine ⟨rfl, hmax, fun hzero => ?_, hratio⟩
      rw [hzero, Nat.zero_mul] at hratio
      exact Nat.le_zero.1 hratio

theorem inflate_used {frame : ObjectFrame} {size : UInt32} (hsize : size.toNat = (dataArea frame).length) :
    inflate (usedCodec frame) (encodeData frame.compression (dataArea frame)).2 size =
      .ok (dataArea frame) := by
  unfold inflate usedCodec
  rcases encodeData_cases frame.compression (dataArea frame) with hused | hused
  · rw [hused]
    exact if_neg rle_ne_none.symm
  · rw [hused, if_pos rfl]
    exact decompressRle_compressRle hsize

theorem reads_readSlot (slot : DataSlot) : Reads readSlot (writeSlot slot) slot := by
  apply (reads_readU32 slot.1).bind
  exact (reads_readU32 slot.2).bind_pure (.pure _)

theorem length_writeSlot (slot : DataSlot) : (writeSlot slot).length = 8 := by
  rw [writeSlot, List.length_append, writeU32, writeU32, length_storeLe, length_storeLe]

theorem encodeObjectFramePayload_eq {frame : ObjectFrame} {bytes : Bytes}
    (h : encodeObjectFramePayload frame = .ok bytes) : ∃ slots : List DataSlot,
      Lies (dataArea frame) 0 slots frame.records ∧ slots.length < 2 ^ 32 ∧
      (dataArea frame).length < 2 ^ 32 ∧
      (encodeData frame.compression (dataArea frame)).2.length < 2 ^ 32 ∧
      bytes = writeU32 frame.queryId ++ storeLe 4 slots.length ++ [usedCodec frame, 0, 0, 0] ++
        storeLe 4 (dataArea frame).length ++
        storeLe 4 (encodeData frame.compression (dataArea frame)).2.length ++
        slots.flatMap writeSlot ++ (encodeData frame.compression (dataArea frame)).2 := by
  obtain ⟨-, hmore⟩ := require_eq_ok h
  obtain ⟨⟨data, slots⟩, hrecords, hmore⟩ := Effect.except_bind_eq_ok hmore
  obtain ⟨hdata, hmore⟩ := require_eq_ok hmore
  obtain ⟨hslots, hmore⟩ := require_eq_ok hmore
  obtain ⟨hencoded, hdone⟩ := require_eq_ok hmore
  have harea : dataArea frame = data := by
    unfold dataArea
    rw [hrecords]
  obtain ⟨-, new, hnew, hlies⟩ := lies_encodeRecords hrecords hdata
  rw [List.nil_append] at hnew
  subst hnew
  cases hdone
  unfold usedCodec
  rw [harea]
  exact ⟨slots, hlies, hslots, hdata, hencoded, rfl⟩

theorem decodeObjectFramePayload_encode {frame : ObjectFrame} {bytes : Bytes}
    {negotiatedMaxFrame maxExpansionRatio : Nat} (h : encodeObjectFramePayload frame = .ok bytes)
    (hmax : bytes.length ≤ negotiatedMaxFrame) :
    (ExpandsWithin negotiatedMaxFrame maxExpansionRatio frame →
      ReadsAll (decodeObjectFramePayload negotiatedMaxFrame maxExpansionRatio) bytes
        { frame with compression := usedCodec frame }) ∧
    (¬ExpandsWithin negotiatedMaxFrame maxExpansionRatio frame →
      Rejects (decodeObjectFramePayload negotiatedMaxFrame maxExpansionRatio) bytes) := by
  obtain ⟨slots, hlies, hslots, hdata, hencoded, rfl⟩ := encodeObjectFramePayload_eq h
  have hnone : usedCodec frame = Compression.none → (dataArea frame).length ≤ negotiatedMaxFrame := by
    intro hcodec
    have hsent : (encodeData frame.compression (dataArea frame)).2 = dataArea frame := by
      unfold usedCodec at hcodec
      rcases encodeData_cases frame.compression (dataArea frame) with hused | hused
      · rw [hused]
      · rw [hused] at hcodec
        exact absurd hcodec rle_ne_none
    rw [List.length_append, hsent] at hmax
    exact Nat.le_of_add_left_le hmax
  have hsizes := @checkSizes_used frame negotiatedMaxFrame maxExpansionRatio hnone
  have hdataCount : (UInt32.ofNat (dataArea frame).length).toNat = (dataArea frame).length :=
    UInt32.toNat_ofNat_of_lt' hdata
  simp only [List.append_assoc]
  constructor
  · intro hwithin
    apply (reads_readU32 frame.queryId).bind_all
    apply ReadsAll.size hslots
    intro count hcount
    apply (reads_readU8 (usedCodec frame)).bind_all
    apply (reads_readU8 0).bind_all
    apply (reads_readU8 0).bind_all
    apply (reads_readU8 0).bind_all
    apply ReadsAll.size hdata
    intro uncompressed huncompressed
    apply ReadsAll.size hencoded
    intro encoded hencodedSize
    rw [huncompressed, hencodedSize, hcount]
    apply ReadsAll.check (hsizes.2 hwithin)
    apply ReadsAll.remaining
    apply ReadsAll.require
    · rw [List.length_append, Wire.length_flatMap length_writeSlot]
      exact Nat.le_add_right _ _
    · apply (reads_readMany_flatMap fun slot _ => reads_readSlot slot).bind_all
      apply ReadsAll.check (validateSlotDirectory_of_lies hlies (by simp))
      apply (reads_readSized rfl).readsAll.bind
      apply ReadsAll.check (inflate_used huncompressed)
      exact ReadsAll.check (mapM_decodeSlot_of_lies hlies) rfl
  · intro hnot
    apply (reads_readU32 frame.queryId).bind_rejects
    apply Rejects.size hslots
    intro count hcount
    apply (reads_readU8 (usedCodec frame)).bind_rejects
    apply (reads_readU8 0).bind_rejects
    apply (reads_readU8 0).bind_rejects
    apply (reads_readU8 0).bind_rejects
    apply Rejects.size hdata
    intro uncompressed huncompressed
    apply Rejects.size hencoded
    intro encoded hencodedSize
    rw [huncompressed, hencodedSize]
    cases hresult : checkSizes negotiatedMaxFrame maxExpansionRatio (usedCodec frame)
        (dataArea frame).length (encodeData frame.compression (dataArea frame)).2.length with
    | ok done => exact absurd (hsizes.1 hresult) hnot
    | error error => exact rejects_check rfl

/-! ### Whole messages -/

theorem named_of_encodeExtension {actingAs : Delegation} {bytes : Bytes}
    (h : encodeExtension actingAs [] = .ok bytes) : named actingAs = actingAs := by
  rw [named_eq_self_iff]
  intro hsubject
  unfold encodeExtension at h
  dsimp only at h
  rw [if_neg (not_not.2 hsubject), if_neg (not_not.2 rfl), if_pos (by decide)] at h
  exact (require_eq_ok h).1

/-- The message that comes out of the bytes of a message: the codec of a frame is the one that was used,
and what the layout does not carry is at its default. -/
def heard : Message → Message
  | .helloOk body => .helloOk { body with authMechanisms := heardMechanisms body }
  | .objectFrame body => .objectFrame { body with compression := usedCodec body }
  | .opResult body => .opResult (heardResult body)
  | .facadeOpenOk body => .facadeOpenOk (heardOpen body)
  | .shmAttachOk body => .shmAttachOk (heardAttach body)
  | message => message

def Carried (negotiatedMaxFrame maxExpansionRatio : Nat) : Message → Prop
  | .helloOk body => isKnownCompression body.selectedCodec = true ∧ body.maxExpansionRatio ≠ 0
  | .objectFrame body => ExpandsWithin negotiatedMaxFrame maxExpansionRatio body
  | .opCall body => body.actingAs.subject = [] → body.actingAs.attributes = []
  | _ => True

theorem readsAll_decodePayload_iff {message : Message} {bytes : Bytes}
    {negotiatedMaxFrame maxExpansionRatio : Nat} (h : encodePayload message = .ok bytes)
    (hmax : bytes.length ≤ negotiatedMaxFrame) :
    ReadsAll (decodePayload message.type negotiatedMaxFrame maxExpansionRatio) bytes (heard message) ↔
      Carried negotiatedMaxFrame maxExpansionRatio message := by
  cases message with
  | hello body => exact iff_of_true ((readsAll_decodeHello h).map Message.hello) trivial
  | helloOk body =>
    constructor
    · intro hread
      by_contra hnot
      exact ((rejects_decodeHelloOk h hnot).map Message.helloOk).not_readsAll _ hread
    · rintro ⟨hknown, hratio⟩
      exact (readsAll_decodeHelloOk h hknown hratio).map Message.helloOk
  | query body =>
    obtain ⟨description, -, hmore⟩ := Effect.except_bind_eq_ok h
    obtain ⟨extension, hextension, -⟩ := Effect.except_bind_eq_ok hmore
    have hread := (readsAll_decodeQuery h).map Message.query
    rw [named_of_encodeExtension hextension] at hread
    exact iff_of_true hread trivial
  | streamBegin body =>
    cases h
    have hread : Reads decodeStreamBegin (encodeStreamBegin body) body :=
      (reads_readU32 body.queryId).bind_pure (.pure _)
    exact iff_of_true (hread.readsAll.map Message.streamBegin) trivial
  | objectFrame body =>
    obtain ⟨hreads, hrejects⟩ := @decodeObjectFramePayload_encode body bytes negotiatedMaxFrame
      maxExpansionRatio h hmax
    constructor
    · intro hread
      by_contra hnot
      exact ((hrejects hnot).map Message.objectFrame).not_readsAll _ hread
    · intro hwithin
      exact (hreads hwithin).map Message.objectFrame
  | streamEnd body =>
    cases h
    have hread : Reads decodeStreamEnd (encodeStreamEnd body) body :=
      (reads_readU32 body.queryId).bind ((reads_readU64 body.total).bind_pure (.pure _))
    exact iff_of_true (hread.readsAll.map Message.streamEnd) trivial
  | streamError body =>
    exact iff_of_true ((reads_decodeStreamError h).readsAll.map Message.streamError) trivial
  | cancel body =>
    cases h
    have hread : Reads decodeCancel (encodeCancel body) body :=
      (reads_readU32 body.queryId).bind_pure (.pure _)
    exact iff_of_true (hread.readsAll.map Message.cancel) trivial
  | opCall body =>
    have hread := (readsAll_decodeOpCall h).map Message.opCall
    constructor
    · intro hsame
      have heq := Message.opCall.inj (ReadsAll.unique hread hsame)
      exact named_eq_self_iff.1 (congrArg OpCall.actingAs heq)
    · intro hsubject
      rw [named_eq_self_iff.2 hsubject] at hread
      exact hread
  | opResult body => exact iff_of_true ((readsAll_decodeOpResult h).map Message.opResult) trivial
  | facadeList body =>
    obtain ⟨extension, hextension, -⟩ := Effect.except_bind_eq_ok h
    have hread := (readsAll_decodeFacadeList h).map Message.facadeList
    rw [named_of_encodeExtension hextension] at hread
    exact iff_of_true hread trivial
  | facadeListOk body =>
    exact iff_of_true ((reads_decodeFacadeListOk h).readsAll.map Message.facadeListOk) trivial
  | facadeOpen body =>
    obtain ⟨id, -, hmore⟩ := Effect.except_bind_eq_ok h
    obtain ⟨extension, hextension, -⟩ := Effect.except_bind_eq_ok hmore
    have hread := (readsAll_decodeFacadeOpen h).map Message.facadeOpen
    rw [named_of_encodeExtension hextension] at hread
    exact iff_of_true hread trivial
  | facadeOpenOk body =>
    exact iff_of_true ((reads_decodeFacadeOpenOk h).readsAll.map Message.facadeOpenOk) trivial
  | shmAttach body =>
    cases h
    have hread : Reads decodeShmAttach (encodeShmAttach body) body :=
      (reads_readU32 body.requestId).bind ((reads_readU32 body.ringBytes).bind_pure (.pure _))
    exact iff_of_true (hread.readsAll.map Message.shmAttach) trivial
  | shmAttachOk body =>
    exact iff_of_true ((reads_decodeShmAttachOk h).readsAll.map Message.shmAttachOk) trivial
  | authenticate body =>
    exact iff_of_true ((reads_decodeAuthenticate h).readsAll.map Message.authenticate) trivial
  | authenticateOk body =>
    exact iff_of_true ((reads_decodeAuthenticateOk h).readsAll.map Message.authenticateOk) trivial

theorem decodeMessage_eq_ok_iff {payload : Bytes} {type : UInt8} {message : Message}
    {negotiatedMaxFrame maxExpansionRatio : Nat} (hlength : 1 + payload.length ≤ negotiatedMaxFrame)
    (hmax : 1 + payload.length ≤ maxFrameBytes) :
    decodeMessage (storeLe 4 (1 + payload.length) ++ type :: payload) negotiatedMaxFrame
        maxExpansionRatio = .ok message ↔
      ReadsAll (decodePayload type negotiatedMaxFrame maxExpansionRatio) payload message := by
  have hhead : (storeLe 4 (1 + payload.length)).length = 4 := length_storeLe 4 _
  have hload : loadLe (storeLe 4 (1 + payload.length)) = 1 + payload.length :=
    loadLe_storeLe_of_lt (Nat.lt_of_le_of_lt hmax (by decide))
  have htake : (storeLe 4 (1 + payload.length) ++ type :: payload).take 4 =
      storeLe 4 (1 + payload.length) := List.take_left' hhead
  have hdrop : (storeLe 4 (1 + payload.length) ++ type :: payload).drop 4 = type :: payload :=
    List.drop_left' hhead
  have hall : (type :: payload).take (1 + payload.length) = type :: payload :=
    List.take_of_length_le (by rw [List.length_cons]; omega)
  have hwhole : (storeLe 4 (1 + payload.length) ++ type :: payload).length = 4 + (1 + payload.length) := by
    rw [List.length_append, hhead, List.length_cons, Nat.add_comm payload.length]
  have htype : readU8 (type :: payload) = .ok (type, payload) := reads_readU8 type payload
  unfold decodeMessage
  dsimp only
  rw [htake, hload, hwhole, hdrop, hall, htype, require_bind_iff, require_bind_iff, require_bind_iff,
    require_bind_iff, require_bind_iff]
  change _ ∧ _ ∧ _ ∧ _ ∧ _ ∧ (do
    let read ← decodePayload type negotiatedMaxFrame maxExpansionRatio payload
    require (read.2 = []) .trailingData "bytes remain after message payload"
    pure read.1) = _ ↔ _
  constructor
  · rintro ⟨-, -, -, -, -, hdone⟩
    obtain ⟨⟨decoded, rest⟩, hread, hmore⟩ := Effect.except_bind_eq_ok hdone
    obtain ⟨hrest, hsame⟩ := require_eq_ok hmore
    cases hsame
    rw [show rest = [] from hrest] at hread
    exact hread
  · intro hread
    refine ⟨Nat.le_add_right 4 _, ⟨hlength, hmax⟩, by omega, Nat.le_refl _, Nat.le_refl _, ?_⟩
    rw [show decodePayload type negotiatedMaxFrame maxExpansionRatio payload = .ok (message, []) from
      hread]
    rfl

/-- A message that the encoder takes is read again, under the limits that a server announces, exactly if
it is carried. -/
theorem decodeMessage_encodeMessage_iff {message : Message} {bytes : Bytes}
    (h : encodeMessage message = .ok bytes) :
    decodeMessage bytes maxFrameBytes defaultMaxExpansionRatio.toNat = .ok (heard message) ↔
      Carried maxFrameBytes defaultMaxExpansionRatio.toNat message := by
  obtain ⟨payload, hpayload, hmore⟩ := Effect.except_bind_eq_ok h
  obtain ⟨hlength, hdone⟩ := require_eq_ok hmore
  cases hdone
  have hmax : 1 + payload.length ≤ maxFrameBytes := by
    rw [Nat.add_comm]
    exact Nat.succ_le_of_lt (Nat.lt_of_le_of_lt hlength (by decide))
  rw [decodeMessage_eq_ok_iff hmax hmax]
  exact readsAll_decodePayload_iff hpayload (Nat.le_of_add_left_le hmax)

def striped : Message :=
  .objectFrame { queryId := 1, compression := Compression.rle,
                 records := [{ payload := (List.range 10).flatMap fun i => List.replicate 8 (UInt8.ofNat i) }] }

theorem decodeMessage_striped : ∃ bytes, encodeMessage striped = .ok bytes ∧
    decodeMessage bytes maxFrameBytes defaultMaxExpansionRatio.toNat = .ok (heard striped) := by
  have hencode : encodeMessage striped = .ok ((encodeMessage striped).toOption.getD []) := by
    decide +kernel
  refine ⟨_, hencode, (decodeMessage_encodeMessage_iff hencode).2 ?_⟩
  intro _
  decide +kernel

/-- A hundred bytes that are almost all zero: they shrink to eleven, and no client takes that. -/
def zeros : Message :=
  .objectFrame { compression := Compression.rle, records := [{ payload := List.replicate 80 0 }] }

theorem decodeMessage_zeros : ∃ bytes, encodeMessage zeros = .ok bytes ∧
    decodeMessage bytes maxFrameBytes defaultMaxExpansionRatio.toNat =
      .error ⟨.protocolError, "ObjectFrame expansion ratio exceeds negotiated limit"⟩ := by
  refine ⟨(encodeMessage zeros).toOption.getD [], ?_, ?_⟩
  · decide +kernel
  · decide +kernel

end MoDb.Net
