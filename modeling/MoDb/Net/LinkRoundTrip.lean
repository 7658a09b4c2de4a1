import MoDb.Net.LinkProtocol
import MoDb.Net.RoundTrip
import MoDb.Store.ObjectCodec
import Mathlib.Data.List.Infix

/-!
# What is sent over a link is read again

Each part has a lemma for what is read from the bytes that were written, and one for the bytes that any
value is read from: a control has one encoding.
-/

namespace MoDb.Net.LinkProtocol

open Storage Wire

variable {α : Type}

/-! ### Integers and checks -/

theorem Parses.require {condition : Prop} [Decidable condition] {code : ErrorCode} {message : String}
    {next : Unit → BinaryReader α} {P : Bytes → α → Prop} (h : condition → Parses (next ⟨⟩) P) :
    Parses (liftM (require condition code message) >>= next) P := by
  by_cases hcondition : condition
  · have hok : Net.require condition code message = .ok ⟨⟩ := if_pos hcondition
    rw [hok]
    exact h hcondition
  · have herror : Net.require condition code message = .error ⟨code, message⟩ := if_neg hcondition
    rw [herror]
    exact .throw _

theorem parses_readBytes (size : Nat) :
    Parses (readBytes size) fun taken bytes => taken = bytes ∧ bytes.length = size := parses_take _ size

theorem parses_word (width : Nat) (number : Nat → α) (toNat : α → Nat)
    (h : ∀ raw, raw < 256 ^ width → toNat (number raw) = raw) :
    Parses (do let bytes ← readBytes width
               pure (number (loadLe bytes)) : BinaryReader α) fun taken value =>
      taken = storeLe width (toNat value) := by
  refine (parses_readBytes width).bind ?_
  rintro bytes _ ⟨rfl, hlength⟩
  apply Parses.pure
  rw [h _ (hlength ▸ loadLe_lt bytes), ObjectCodec.storeLe_loadLe hlength, List.append_nil]

theorem parses_readU8 : Parses readU8 fun taken value => taken = [value] := by
  apply (parses_word 1 UInt8.ofNat UInt8.toNat fun _ hraw => UInt8.toNat_ofNat_of_lt' hraw).imp
  rintro _ value rfl
  simp [storeLe]

theorem parses_readU16 : Parses readU16 fun taken value => taken = writeU16 value :=
  parses_word 2 UInt16.ofNat UInt16.toNat fun _ hraw => UInt16.toNat_ofNat_of_lt' hraw

theorem parses_readU32 : Parses readU32 fun taken value => taken = writeU32 value :=
  parses_word 4 UInt32.ofNat UInt32.toNat fun _ hraw => UInt32.toNat_ofNat_of_lt' hraw

theorem parses_readU64 : Parses readU64 fun taken value => taken = writeU64 value :=
  parses_word 8 UInt64.ofNat UInt64.toNat fun _ hraw => UInt64.toNat_ofNat_of_lt' hraw

/-! ### Parts -/

theorem reads_readString {text bytes : Bytes} (h : writeString text = .ok bytes) :
    Reads readString bytes text := by
  obtain ⟨hlength, hdone⟩ := require_eq_ok h
  cases hdone
  apply Reads.size (Nat.lt_of_le_of_lt hlength (by decide))
  intro count hcount
  apply Reads.require (hcount ▸ hlength)
  exact reads_readBytes hcount.symm

theorem parses_readString : Parses readString fun taken text => writeString text = .ok taken := by
  refine parses_readU32.bind ?_
  rintro _ length rfl
  apply Parses.require
  intro hlength
  apply (parses_readBytes _).imp
  rintro _ text ⟨rfl, htext⟩
  rw [← htext] at hlength
  exact require_bind_iff.2 ⟨hlength, by rw [htext]; rfl⟩

theorem reads_readBool (what : String) (flag : Bool) : Reads (readBool what) [writeFlag flag] flag := by
  apply (reads_readU8 (writeFlag flag)).bind_pure
  cases flag with
  | true => exact Reads.require (by decide) (.pure _)
  | false => exact Reads.require (by decide) (.pure _)

theorem parses_readBool (what : String) :
    Parses (readBool what) fun taken flag => taken = [writeFlag flag] := by
  refine parses_readU8.bind ?_
  rintro _ raw rfl
  apply Parses.require
  intro hraw
  apply Parses.pure
  have hcases : raw = 0 ∨ raw = 1 := by
    rw [← UInt8.toNat_inj, ← UInt8.toNat_inj]
    exact Nat.le_one_iff_eq_zero_or_eq_one.1 hraw
  rcases hcases with rfl | rfl
  · rfl
  · rfl

theorem reads_readOperation {operation : Bytes × Bool} {bytes : Bytes}
    (h : writeOperation operation = .ok bytes) : Reads readOperation bytes operation := by
  obtain ⟨id, hid, hdone⟩ := Effect.except_bind_eq_ok h
  cases hdone
  apply (reads_readString hid).bind
  exact (reads_readBool _ operation.2).bind_pure (.pure _)

theorem parses_readOperation :
    Parses readOperation fun taken operation => writeOperation operation = .ok taken := by
  refine parses_readString.bind fun _ id hid => (parses_readBool _).bind ?_
  rintro _ readOnly rfl
  apply Parses.pure
  unfold writeOperation
  rw [hid]
  rfl

theorem reads_readAttribute {entry : Bytes × Bytes} {bytes : Bytes} (h : writeAttribute entry = .ok bytes) :
    Reads readAttribute bytes entry := by
  obtain ⟨key, hkey, hmore⟩ := Effect.except_bind_eq_ok h
  obtain ⟨value, hvalue, hdone⟩ := Effect.except_bind_eq_ok hmore
  cases hdone
  apply (reads_readString hkey).bind
  exact (reads_readString hvalue).bind_pure (.pure _)

theorem parses_readAttribute :
    Parses readAttribute fun taken entry => writeAttribute entry = .ok taken := by
  refine parses_readString.bind fun _ key hkey => parses_readString.bind fun _ value hvalue => ?_
  apply Parses.pure
  unfold writeAttribute
  rw [hkey, hvalue, List.append_nil]
  rfl

/-! ### Controls that were written -/

theorem reads_decodeLinkHello {message : LinkHello} {bytes : Bytes} (h : encodeLinkHello message = .ok bytes) :
    Reads decodeLinkHello bytes message := by
  obtain ⟨proxyName, hproxyName, hmore⟩ := Effect.except_bind_eq_ok h
  obtain ⟨secret, hsecret, hdone⟩ := Effect.except_bind_eq_ok hmore
  cases hdone
  apply (reads_readU16 message.version).bind
  apply (reads_readString hproxyName).bind
  exact (reads_readString hsecret).bind_pure (.pure _)

theorem reads_decodeLinkHelloOk {message : LinkHelloOk} {bytes : Bytes}
    (h : encodeLinkHelloOk message = .ok bytes) : Reads decodeLinkHelloOk bytes message := by
  obtain ⟨text, htext, hmore⟩ := Effect.except_bind_eq_ok h
  obtain ⟨databaseName, hdatabaseName, hmore⟩ := Effect.except_bind_eq_ok hmore
  obtain ⟨hcount, hmore⟩ := require_eq_ok hmore
  obtain ⟨operations, hoperations, hdone⟩ := Effect.except_bind_eq_ok hmore
  cases hdone
  apply (reads_readU16 message.version).bind
  apply (reads_readBool _ message.ok).bind
  apply (reads_readU16 message.code).bind
  apply (reads_readString htext).bind
  apply (reads_readU16 message.protocolMajor).bind
  apply (reads_readU16 message.protocolMinor).bind
  apply (reads_readU64 message.baseline).bind
  apply (reads_readString hdatabaseName).bind
  apply (reads_readU16 message.maxConcurrentStreams).bind
  apply Reads.size (Nat.lt_of_le_of_lt hcount (by decide))
  intro count hsize
  apply Reads.require (hsize ▸ hcount)
  rw [hsize]
  exact (reads_readMany (fun _ _ _ => reads_readOperation) hoperations).bind_pure (.pure _)

theorem reads_decodeSessionOpen {message : SessionOpen} {bytes : Bytes}
    (h : encodeSessionOpen message = .ok bytes) : Reads decodeSessionOpen bytes message := by
  obtain ⟨⟨hroleCount, hattributeCount⟩, hmore⟩ := require_eq_ok h
  obtain ⟨principal, hprincipal, hmore⟩ := Effect.except_bind_eq_ok hmore
  obtain ⟨roles, hroles, hmore⟩ := Effect.except_bind_eq_ok hmore
  obtain ⟨attributes, hattributes, hdone⟩ := Effect.except_bind_eq_ok hmore
  cases hdone
  apply (reads_readU16 message.clientMinor).bind
  apply (reads_readString hprincipal).bind
  apply Reads.size16 (Nat.lt_of_le_of_lt hroleCount (by decide))
  intro roleCount hroleSize
  apply Reads.require (hroleSize ▸ hroleCount)
  rw [hroleSize]
  apply (reads_readMany (fun _ _ _ => reads_readString) hroles).bind
  apply Reads.size16 (Nat.lt_of_le_of_lt hattributeCount (by decide))
  intro attributeCount hattributeSize
  apply Reads.require (hattributeSize ▸ hattributeCount)
  rw [hattributeSize]
  exact (reads_readMany (fun _ _ _ => reads_readAttribute) hattributes).bind_pure (.pure _)

theorem reads_decodeSessionOpenOk {message : SessionOpenOk} {bytes : Bytes}
    (h : encodeSessionOpenOk message = .ok bytes) : Reads decodeSessionOpenOk bytes message := by
  obtain ⟨text, htext, hdone⟩ := Effect.except_bind_eq_ok h
  cases hdone
  apply (reads_readBool _ message.ok).bind
  apply (reads_readU16 message.code).bind
  exact (reads_readString htext).bind_pure (.pure _)

theorem reads_decodeSessionClose {message : SessionClose} {bytes : Bytes}
    (h : encodeSessionClose message = .ok bytes) : Reads decodeSessionClose bytes message := by
  obtain ⟨text, htext, hdone⟩ := Effect.except_bind_eq_ok h
  cases hdone
  apply (reads_readU16 message.code).bind
  exact (reads_readString htext).bind_pure (.pure _)

theorem reads_decodeStreamCredit (message : StreamCredit) :
    Reads decodeStreamCredit (encodeStreamCredit message) message := by
  apply (reads_readU32 message.queryId).bind
  exact (reads_readU32 message.frames).bind_pure (.pure _)

theorem reads_decodeControl {control : LinkControl} {fields : Bytes} (h : encodeFields control = .ok fields) :
    Reads (decodeControl control.type) fields control := by
  cases control with
  | linkHello body => exact (reads_decodeLinkHello h).map LinkControl.linkHello
  | linkHelloOk body => exact (reads_decodeLinkHelloOk h).map LinkControl.linkHelloOk
  | sessionOpen body => exact (reads_decodeSessionOpen h).map LinkControl.sessionOpen
  | sessionOpenOk body => exact (reads_decodeSessionOpenOk h).map LinkControl.sessionOpenOk
  | sessionClose body => exact (reads_decodeSessionClose h).map LinkControl.sessionClose
  | streamCredit body =>
    cases h
    exact (reads_decodeStreamCredit body).map LinkControl.streamCredit

/-! ### Controls that are read -/

theorem parses_decodeLinkHello :
    Parses decodeLinkHello fun taken message => encodeLinkHello message = .ok taken := by
  refine parses_readU16.bind ?_
  rintro _ version rfl
  refine parses_readString.bind fun _ proxyName hproxyName => ?_
  refine parses_readString.bind fun _ secret hsecret => ?_
  apply Parses.pure
  unfold encodeLinkHello
  rw [hproxyName, hsecret, List.append_nil]
  rfl

theorem parses_decodeLinkHelloOk :
    Parses decodeLinkHelloOk fun taken message => encodeLinkHelloOk message = .ok taken := by
  refine parses_readU16.bind ?_
  rintro _ version rfl
  refine (parses_readBool _).bind ?_
  rintro _ ok rfl
  refine parses_readU16.bind ?_
  rintro _ code rfl
  refine parses_readString.bind fun _ message hmessage => parses_readU16.bind ?_
  rintro _ protocolMajor rfl
  refine parses_readU16.bind ?_
  rintro _ protocolMinor rfl
  refine parses_readU64.bind ?_
  rintro _ baseline rfl
  refine parses_readString.bind fun _ databaseName hdatabaseName => parses_readU16.bind ?_
  rintro _ maxConcurrentStreams rfl
  refine parses_readU32.bind ?_
  rintro _ count rfl
  apply Parses.require
  intro hcount
  refine (parses_readMany parses_readOperation count.toNat).bind ?_
  rintro bytes operations ⟨hoperations, hlength⟩
  apply Parses.pure
  rw [← hlength] at hcount
  unfold encodeLinkHelloOk
  rw [hmessage, hdatabaseName, hoperations, require, if_pos hcount, List.append_nil, hlength]
  rfl

theorem parses_decodeSessionOpen :
    Parses decodeSessionOpen fun taken message => encodeSessionOpen message = .ok taken := by
  refine parses_readU16.bind ?_
  rintro _ clientMinor rfl
  refine parses_readString.bind fun _ principal hprincipal => parses_readU16.bind ?_
  rintro _ roleCount rfl
  apply Parses.require
  intro hroleCount
  refine (parses_readMany parses_readString roleCount.toNat).bind ?_
  rintro roleBytes roles ⟨hroles, hroleLength⟩
  refine parses_readU16.bind ?_
  rintro _ attributeCount rfl
  apply Parses.require
  intro hattributeCount
  refine (parses_readMany parses_readAttribute attributeCount.toNat).bind ?_
  rintro attributeBytes attributes ⟨hattributes, hattributeLength⟩
  apply Parses.pure
  rw [← hroleLength] at hroleCount
  rw [← hattributeLength] at hattributeCount
  unfold encodeSessionOpen
  rw [hprincipal, hroles, hattributes, require, if_pos ⟨hroleCount, hattributeCount⟩, List.append_nil,
    hroleLength, hattributeLength]
  rfl

theorem parses_decodeSessionOpenOk :
    Parses decodeSessionOpenOk fun taken message => encodeSessionOpenOk message = .ok taken := by
  refine (parses_readBool _).bind ?_
  rintro _ ok rfl
  refine parses_readU16.bind ?_
  rintro _ code rfl
  refine parses_readString.bind fun _ message hmessage => ?_
  apply Parses.pure
  unfold encodeSessionOpenOk
  rw [hmessage, List.append_nil]
  rfl

theorem parses_decodeSessionClose :
    Parses decodeSessionClose fun taken message => encodeSessionClose message = .ok taken := by
  refine parses_readU16.bind ?_
  rintro _ code rfl
  refine parses_readString.bind fun _ message hmessage => ?_
  apply Parses.pure
  unfold encodeSessionClose
  rw [hmessage, List.append_nil]
  rfl

theorem parses_decodeStreamCredit :
    Parses decodeStreamCredit fun taken message => taken = encodeStreamCredit message := by
  refine parses_readU32.bind ?_
  rintro _ queryId rfl
  refine parses_readU32.bind ?_
  rintro _ frames rfl
  apply Parses.pure
  rw [List.append_nil]
  rfl

theorem parses_decodeControl (type : UInt8) :
    Parses (decodeControl type) fun taken control => encodeControl control = .ok (type :: taken) := by
  have hfields {control : LinkControl} {taken : Bytes} (h : encodeFields control = .ok taken) :
      encodeControl control = .ok (control.type :: taken) := by
    unfold encodeControl
    rw [h]
    rfl
  unfold decodeControl
  split
  · subst type
    exact Parses.map _ (parses_decodeLinkHello.imp fun _ _ h => hfields h)
  split
  · subst type
    exact Parses.map _ (parses_decodeLinkHelloOk.imp fun _ _ h => hfields h)
  split
  · subst type
    exact Parses.map _ (parses_decodeSessionOpen.imp fun _ _ h => hfields h)
  split
  · subst type
    exact Parses.map _ (parses_decodeSessionOpenOk.imp fun _ _ h => hfields h)
  split
  · subst type
    exact Parses.map _ (parses_decodeSessionClose.imp fun _ _ h => hfields h)
  split
  · subst type
    exact Parses.map _ (parses_decodeStreamCredit.imp fun _ _ h => hfields (congrArg _ h.symm))
  · exact .throw _

/-! ### Frames -/

/-- The length at the start of the bytes is that of what follows, which is something. -/
def WellSized (bytes : Bytes) : Prop := 5 ≤ bytes.length ∧ bytes.length = 4 + loadLe (bytes.take 4)

theorem WellSized.eq_of_starts {bytes other : Bytes} (h : WellSized bytes) (hother : WellSized other)
    (hstart : bytes <+: other) : bytes = other := by
  apply hstart.eq_of_length
  obtain ⟨rest, rfl⟩ := hstart
  rw [h.2, hother.2, List.take_append_of_le_length (Nat.le_of_succ_le h.1)]

theorem wellSized_sized {bytes : Bytes} (hpos : bytes ≠ []) (hlength : bytes.length ≤ maxFrameBytes) :
    WellSized (storeLe 4 bytes.length ++ bytes) := by
  have hhead : (storeLe 4 bytes.length).length = 4 := length_storeLe 4 _
  have hload : loadLe (storeLe 4 bytes.length) = bytes.length :=
    loadLe_storeLe_of_lt (Nat.lt_of_le_of_lt hlength (by decide))
  refine ⟨?_, ?_⟩
  · rw [List.length_append, hhead]
    exact Nat.add_le_add_left (List.length_pos_iff.2 hpos) 4
  · rw [List.length_append, hhead, List.take_left' hhead, hload]

theorem encodeMessage_eq_ok {message : Message} {bytes : Bytes} (h : encodeMessage message = .ok bytes) :
    ∃ payload : Bytes, payload.length + 1 ≤ maxFrameBytes ∧
      bytes = storeLe 4 (message.type :: payload).length ++ message.type :: payload := by
  obtain ⟨payload, -, hmore⟩ := Effect.except_bind_eq_ok h
  obtain ⟨hlength, hdone⟩ := require_eq_ok hmore
  cases hdone
  exact ⟨payload, Nat.add_le_of_le_sub (by decide) hlength, by rw [List.length_cons, Nat.add_comm]⟩

theorem encodeControl_eq_ok {control : LinkControl} {bytes : Bytes}
    (h : encodeBody (.control control) = .ok bytes) :
    ∃ fields : Bytes, encodeFields control = .ok fields ∧ fields.length + 1 ≤ maxFrameBytes ∧
      bytes = storeLe 4 (control.type :: fields).length ++ control.type :: fields := by
  obtain ⟨whole, hcontrol, hmore⟩ := Effect.except_bind_eq_ok h
  obtain ⟨hlength, hdone⟩ := require_eq_ok hmore
  obtain ⟨fields, hfields, hwhole⟩ := Effect.except_bind_eq_ok hcontrol
  cases hwhole
  cases hdone
  exact ⟨fields, hfields, hlength, rfl⟩

theorem LinkControl.type_ge (control : LinkControl) : 0x80 ≤ control.type.toNat := by
  cases control <;> simp [LinkControl.type]

theorem type_lt (message : Message) : ¬0x80 ≤ message.type.toNat := by
  cases message <;> simp [Message.type]

theorem decodeBody_sized {type : UInt8} {fields : Bytes} (hlength : fields.length + 1 ≤ maxFrameBytes) :
    decodeBody (storeLe 4 (type :: fields).length ++ type :: fields) =
      if 0x80 ≤ type.toNat then LinkBody.control <$> decodeControlFrame type fields
      else LinkBody.message <$> decodeMessage (storeLe 4 (type :: fields).length ++ type :: fields) maxFrameBytes
        defaultMaxExpansionRatio.toNat := by
  have hhead : (storeLe 4 (type :: fields).length).length = 4 := length_storeLe 4 _
  have hsized := wellSized_sized (List.cons_ne_nil type fields) hlength
  unfold decodeBody
  dsimp only
  rw [← hsized.2, List.drop_left' hhead]
  dsimp only
  have hload : loadLe ((storeLe 4 (type :: fields).length ++ type :: fields).take 4) = fields.length + 1 := by
    rw [List.take_left' hhead]
    exact loadLe_storeLe_of_lt (Nat.lt_of_le_of_lt hlength (by decide))
  rw [hload, if_pos hlength, if_pos rfl]

theorem decodeBody_control {control : LinkControl} {bytes : Bytes}
    (h : encodeBody (.control control) = .ok bytes) : decodeBody bytes = .ok (.control control) := by
  obtain ⟨fields, hfields, hlength, rfl⟩ := encodeControl_eq_ok h
  have hread : decodeControl control.type fields = .ok (control, []) := (reads_decodeControl hfields).readsAll
  rw [decodeBody_sized hlength, if_pos control.type_ge, decodeControlFrame, hread]
  rfl

theorem decodeBody_message {message : Message} {bytes : Bytes} (h : encodeMessage message = .ok bytes) :
    decodeBody bytes =
      LinkBody.message <$> decodeMessage bytes maxFrameBytes defaultMaxExpansionRatio.toNat := by
  obtain ⟨payload, hlength, rfl⟩ := encodeMessage_eq_ok h
  rw [decodeBody_sized hlength, if_neg (type_lt message)]

theorem wellSized_encodeBody {body : LinkBody} {bytes : Bytes} (h : encodeBody body = .ok bytes) :
    WellSized bytes := by
  cases body with
  | message message =>
    obtain ⟨payload, hlength, rfl⟩ := encodeMessage_eq_ok h
    exact wellSized_sized (List.cons_ne_nil _ _) hlength
  | control control =>
    obtain ⟨fields, -, hlength, rfl⟩ := encodeControl_eq_ok h
    exact wellSized_sized (List.cons_ne_nil _ _) hlength

theorem length_of_decodeMessage {bytes : Bytes} {negotiatedMaxFrame maxExpansionRatio : Nat} {message : Message}
    (h : decodeMessage bytes negotiatedMaxFrame maxExpansionRatio = .ok message) :
    bytes.length = 4 + loadLe (bytes.take 4) := by
  obtain ⟨-, hmore⟩ := require_eq_ok h
  obtain ⟨-, hmore⟩ := require_eq_ok hmore
  obtain ⟨-, hmore⟩ := require_eq_ok hmore
  obtain ⟨hlower, hmore⟩ := require_eq_ok hmore
  obtain ⟨hupper, -⟩ := require_eq_ok hmore
  exact Nat.le_antisymm hupper hlower

theorem encodeControl_of_decodeControlFrame {type : UInt8} {fields : Bytes} {control : LinkControl}
    (h : decodeControlFrame type fields = .ok control) : encodeControl control = .ok (type :: fields) := by
  obtain ⟨⟨read, rest⟩, hread, hmore⟩ := Effect.except_bind_eq_ok h
  obtain ⟨hrest, hdone⟩ := require_eq_ok hmore
  cases hdone
  obtain ⟨taken, rfl, hencode⟩ := parses_decodeControl type fields control rest hread
  rw [hrest, List.append_nil]
  exact hencode

theorem decodeBody_eq_ok {bytes : Bytes} {body : LinkBody} (h : decodeBody bytes = .ok body) :
    WellSized bytes ∧ ∀ control, body = .control control → encodeBody body = .ok bytes := by
  unfold decodeBody at h
  dsimp only at h
  cases hdrop : bytes.drop 4 with
  | nil =>
    rw [hdrop] at h
    cases h
  | cons type fields =>
    have hlength : bytes.length = 4 + (fields.length + 1) := by
      have hcount := congrArg List.length hdrop
      rw [List.length_drop, List.length_cons] at hcount
      omega
    have hmin : 5 ≤ bytes.length := by omega
    rw [hdrop] at h
    dsimp only at h
    split at h
    · rename_i hmax
      split at h
      · split at h
        · rename_i hsize
          refine ⟨⟨hmin, hsize⟩, ?_⟩
          obtain ⟨control, hcontrol, hdone⟩ := Effect.except_bind_eq_ok h
          cases hdone
          intro _ _
          have hload : loadLe (bytes.take 4) = (type :: fields).length := by
            rw [List.length_cons]
            omega
          have htake : storeLe 4 (loadLe (bytes.take 4)) = bytes.take 4 :=
            ObjectCodec.storeLe_loadLe (List.length_take_of_le (by omega))
          change (encodeControl control >>= _) = _
          rw [encodeControl_of_decodeControlFrame hcontrol]
          apply require_bind_iff.2
          refine ⟨hload ▸ hmax, ?_⟩
          rw [← hload, htake, ← hdrop, List.take_append_drop]
          rfl
        · cases h
      · obtain ⟨message, hmessage, hdone⟩ := Effect.except_bind_eq_ok h
        cases hdone
        exact ⟨⟨hmin, length_of_decodeMessage hmessage⟩, nofun⟩
    · cases h

/-! ### Whole frames -/

def LinkFrame.Allowed (frame : LinkFrame) : Prop :=
  match frame.body with
  | .control control => isLinkScoped control = true ↔ frame.session = linkControlSession
  | .message _ => frame.session ≠ linkControlSession

theorem checkSession_eq_ok_iff {frame : LinkFrame} : checkSession frame = .ok ⟨⟩ ↔ frame.Allowed := by
  have hrequire {condition : Prop} [Decidable condition] {code : ErrorCode} {message : String} :
      require condition code message = .ok ⟨⟩ ↔ condition := by
    unfold require
    split
    · exact iff_of_true rfl ‹_›
    · exact iff_of_false nofun ‹_›
  obtain ⟨session, body⟩ := frame
  cases body with
  | message message => exact hrequire
  | control control =>
    apply hrequire.trans
    rw [Bool.eq_iff_iff, decide_eq_true_iff]
    rfl

theorem decodeLinkFrame_eq_ok_iff {bytes : Bytes} {frame : LinkFrame} :
    decodeLinkFrame bytes = .ok frame ↔ decodeBody (bytes.drop 4) = .ok frame.body ∧
      frame.session = UInt32.ofNat (loadLe (bytes.take 4)) ∧ frame.Allowed := by
  constructor
  · intro h
    obtain ⟨body, hbody, hmore⟩ := Effect.except_bind_eq_ok h
    obtain ⟨⟨⟩, hcheck, hdone⟩ := Effect.except_bind_eq_ok hmore
    cases hdone
    exact ⟨hbody, rfl, checkSession_eq_ok_iff.1 hcheck⟩
  · obtain ⟨session, body⟩ := frame
    rintro ⟨hbody, hsession, hallowed⟩
    dsimp only at hbody hsession
    subst hsession
    unfold decodeLinkFrame
    rw [hbody]
    change (checkSession _ >>= _) = _
    rw [checkSession_eq_ok_iff.2 hallowed]
    rfl

theorem encodeLinkFrame_eq_ok_iff {frame : LinkFrame} {bytes : Bytes} :
    encodeLinkFrame frame = .ok bytes ↔
      frame.Allowed ∧ ∃ body, encodeBody frame.body = .ok body ∧ bytes = writeU32 frame.session ++ body := by
  constructor
  · intro h
    obtain ⟨⟨⟩, hcheck, hmore⟩ := Effect.except_bind_eq_ok h
    obtain ⟨body, hbody, hdone⟩ := Effect.except_bind_eq_ok hmore
    cases hdone
    exact ⟨checkSession_eq_ok_iff.1 hcheck, body, hbody, rfl⟩
  · rintro ⟨hallowed, body, hbody, rfl⟩
    unfold encodeLinkFrame
    rw [checkSession_eq_ok_iff.2 hallowed]
    change (encodeBody frame.body >>= _) = _
    rw [hbody]
    rfl

theorem drop_writeU32 (session : UInt32) (body : Bytes) : (writeU32 session ++ body).drop 4 = body :=
  List.drop_left' (length_storeLe 4 _)

theorem session_writeU32 (session : UInt32) (body : Bytes) :
    UInt32.ofNat (loadLe ((writeU32 session ++ body).take 4)) = session := by
  have hhead : (writeU32 session).length = 4 := length_storeLe 4 _
  rw [List.take_left' hhead, writeU32, loadLe_storeLe_of_lt session.toNat_lt, UInt32.ofNat_toNat]

theorem eq_of_starts {bytes other : Bytes} (h : WellSized (bytes.drop 4)) (hother : WellSized (other.drop 4))
    (hstart : bytes <+: other) : bytes = other := by
  have hrest := h.eq_of_starts hother (hstart.drop 4)
  have hlength := congrArg List.length hrest
  have hmin := h.1
  rw [List.length_drop] at hlength hmin
  rw [List.length_drop] at hlength
  exact hstart.eq_of_length (by omega)

theorem encodeLinkFrame_of_decodeLinkFrame {bytes : Bytes} {session : UInt32} {control : LinkControl}
    (h : decodeLinkFrame bytes = .ok ⟨session, .control control⟩) :
    encodeLinkFrame ⟨session, .control control⟩ = .ok bytes := by
  obtain ⟨hbody, hsession, hallowed⟩ := decodeLinkFrame_eq_ok_iff.1 h
  obtain ⟨hsized, hencode⟩ := decodeBody_eq_ok hbody
  refine encodeLinkFrame_eq_ok_iff.2 ⟨hallowed, _, hencode control rfl, ?_⟩
  have htake : (bytes.take 4).length = 4 := by
    have hmin := hsized.1
    rw [List.length_drop] at hmin
    exact List.length_take_of_le (by omega)
  have hload : loadLe (bytes.take 4) < 2 ^ 32 := by
    have hlt := loadLe_lt (bytes.take 4)
    rwa [htake] at hlt
  dsimp only at hsession
  rw [hsession, writeU32, UInt32.toNat_ofNat_of_lt' hload, ObjectCodec.storeLe_loadLe htake,
    List.take_append_drop]

/-- A frame that was sent is received: its control as it is, and its message as the message comes out of its
own bytes. Nothing else with the same start is received, and what is received is allowed on its session and,
if it is a control, is sent in no other bytes. -/
theorem link_round_trip :
    (∀ frame bytes, encodeLinkFrame frame = .ok bytes →
      (∀ control, frame.body = .control control → decodeLinkFrame bytes = .ok frame) ∧
      (∀ message, frame.body = .message message → ∃ embedded, encodeMessage message = .ok embedded ∧
        decodeLinkFrame bytes = (fun heard => ⟨frame.session, .message heard⟩) <$>
          decodeMessage embedded maxFrameBytes defaultMaxExpansionRatio.toNat) ∧
      ∀ other, other ≠ bytes → other <+: bytes ∨ bytes <+: other →
        ∃ error, decodeLinkFrame other = .error error) ∧
    ∀ bytes, (∃ error, decodeLinkFrame bytes = .error error) ∨
      ∃ frame, decodeLinkFrame bytes = .ok frame ∧ frame.Allowed ∧
        ∀ control, frame.body = .control control → encodeLinkFrame frame = .ok bytes := by
  constructor
  · intro frame bytes h
    obtain ⟨hallowed, body, hbody, rfl⟩ := encodeLinkFrame_eq_ok_iff.1 h
    refine ⟨?_, ?_, ?_⟩
    · intro control hcontrol
      rw [hcontrol] at hbody
      refine decodeLinkFrame_eq_ok_iff.2 ⟨?_, (session_writeU32 _ _).symm, hallowed⟩
      rw [drop_writeU32, hcontrol]
      exact decodeBody_control hbody
    · intro message hmessage
      rw [hmessage] at hbody
      refine ⟨body, hbody, ?_⟩
      unfold decodeLinkFrame
      rw [drop_writeU32, session_writeU32, decodeBody_message hbody]
      cases decodeMessage body maxFrameBytes defaultMaxExpansionRatio.toNat with
      | error error => rfl
      | ok heard =>
        have hheard : LinkFrame.Allowed ⟨frame.session, .message heard⟩ := by
          unfold LinkFrame.Allowed at hallowed
          rw [hmessage] at hallowed
          exact hallowed
        change (checkSession _ >>= _) = _
        rw [checkSession_eq_ok_iff.2 hheard]
        rfl
    · intro other hne hstart
      cases hdecode : decodeLinkFrame other with
      | error error => exact ⟨error, rfl⟩
      | ok read =>
        have hread := (decodeBody_eq_ok (decodeLinkFrame_eq_ok_iff.1 hdecode).1).1
        have hsized : WellSized ((writeU32 frame.session ++ body).drop 4) := by
          rw [drop_writeU32]
          exact wellSized_encodeBody hbody
        rcases hstart with hstart | hstart
        · exact absurd (eq_of_starts hread hsized hstart) hne
        · exact absurd (eq_of_starts hsized hread hstart).symm hne
  · intro bytes
    cases hdecode : decodeLinkFrame bytes with
    | error error => exact .inl ⟨error, rfl⟩
    | ok frame =>
      refine .inr ⟨frame, rfl, (decodeLinkFrame_eq_ok_iff.1 hdecode).2.2, ?_⟩
      obtain ⟨session, body⟩ := frame
      rintro control rfl
      exact encodeLinkFrame_of_decodeLinkFrame hdecode

/-- More frames for the stream of a query. -/
theorem link_round_trip_credit :
    decodeLinkFrame [7, 0, 0, 0, 9, 0, 0, 0, 0x86, 3, 0, 0, 0, 5, 0, 0, 0] =
      .ok ⟨7, .control (.streamCredit ⟨3, 5⟩)⟩ :=
  (link_round_trip.1 ⟨7, .control (.streamCredit ⟨3, 5⟩)⟩ _ rfl).1 _ rfl

end MoDb.Net.LinkProtocol
