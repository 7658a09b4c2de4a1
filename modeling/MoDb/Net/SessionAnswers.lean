import MoDb.Net.StreamAnswers
import MoDb.Net.WireRoundTrip

/-!
# Every request is answered once

As long as what a session has to send fits the limits of the protocol, each request gets one answer,
whatever its size.
-/

namespace MoDb.Net

open EngineSession

variable {services : EngineServices}

def Readable (message : Message) : Prop :=
  (encodeMessage message).isOk = true ∧
    Carried maxFrameBytes defaultMaxExpansionRatio.toNat message

theorem Readable.heard {message : Message} (h : Readable message) : ∃ bytes,
    encodeMessage message = .ok bytes ∧
      decodeMessage bytes maxFrameBytes defaultMaxExpansionRatio.toNat = .ok (Net.heard message) := by
  obtain ⟨hok, hcarried⟩ := h
  cases hencode : encodeMessage message with
  | error error =>
    rw [hencode] at hok
    cases hok
  | ok bytes => exact ⟨bytes, rfl, (decodeMessage_encodeMessage_iff hencode).2 hcarried⟩

/-- The message as the client gets it: a proxy sends frames with the codec of its client, and the detail
of an error only to a client that reads it. -/
def relayed (services : EngineServices) (message : Message) : Message :=
  match services.link, message with
  | some relay, .objectFrame frame => .objectFrame { frame with compression := relay.codec }
  | some _, .opResult result =>
    .opResult { result with detail := if 3 ≤ services.clientMinor then result.detail else [] }
  | _, message => message

def Fits (services : EngineServices) (message : Message) : Prop :=
  Readable message ∧ Readable (relayed services message)

/-- `is_client_request`. -/
def isClientRequest : Message → Bool
  | .query _ | .cancel _ | .opCall _ | .facadeList _ | .facadeOpen _ | .shmAttach _
  | .authenticate _ => true
  | _ => false

namespace EngineSession

variable {s s' : EngineSession}

/-- What is asked of a step: the client sends requests only, what is sent fits, and behind a proxy no id
of a query is in use again when its stream is forgotten. The transport stays up. -/
def Meets (services : EngineServices) (s : EngineSession) : Action → Prop
  | .receive message => isClientRequest message = true
  | .handle outcomes => ∀ message reply, s.handling = some message →
      answer services s.attached outcomes message = some reply → Fits services reply
  | .worker number => ∀ stream, s.streams[number]? = some stream →
      (∀ message, stream.next services = some message → Fits services message) ∧
      (services.link.isSome = true → stream.phase = .forgetting → ∀ other ∈ s.streams,
        other.query.queryId = stream.query.queryId → other.ended = true)
  | .close | .disconnect => False
  | .take | .grant _ | .finish => True

def credit (s : EngineSession) (id : UInt32) : Nat :=
  s.credits id + (s.owed.map fun grant => if grant.1 = id then grant.2 else 0).sum

/-- What holds in a run whose steps meet the condition. -/
structure Answering (services : EngineServices) (s : EngineSession) : Prop where
  up : s.up = true
  unclosed : s.closing = false
  requests : ∀ message ∈ s.pending, isClientRequest message = true ∧ ∀ cancel, message ≠ .cancel cancel
  told : ∀ {number : Nat} {stream : Stream}, s.streams[number]? = some stream →
    Told services stream (s.log number)
  fresh : ∀ {number : Nat}, s.streams.length ≤ number → s.log number = []
  fits : ∀ entry ∈ s.sent, Fits services entry.2
  credit : services.link.isSome = true → ∀ stream ∈ s.streams, stream.ended = false →
    1 ≤ s.credit stream.query.queryId

theorem answering_init : Answering services {} :=
  ⟨rfl, rfl, nofun, nofun, fun _ => rfl, nofun, nofun⟩

theorem sends_of_fits {message : Message} (hup : s.up = true) (h : Fits services message) :
    s.sends message = true := decide_eq_true ⟨hup, h.1.1⟩

/-! ### The reader -/

def Marked (stream stream' : Stream) : Prop :=
  ∃ cancelled request, stream' = { stream with cancelled, request } ∧
    (cancelled = false → stream.cancelled = false)

theorem Marked.refl (stream : Stream) : Marked stream stream :=
  ⟨stream.cancelled, stream.request, rfl, id⟩

theorem Marked.trans {stream mid last : Stream} (h : Marked stream mid) (h' : Marked mid last) :
    Marked stream last := by
  obtain ⟨cancelled, request, rfl, hcancelled⟩ := h
  obtain ⟨cancelled', request', rfl, hcancelled'⟩ := h'
  exact ⟨cancelled', request', rfl, fun hnot => hcancelled (hcancelled' hnot)⟩

theorem marked_requested (stream : Stream) : Marked stream stream.requested := by
  unfold Stream.requested
  split
  · exact Marked.refl stream
  · exact ⟨stream.cancelled, _, rfl, id⟩

theorem marked_cancelled (stream : Stream) : Marked stream { stream with cancelled := true } :=
  ⟨true, stream.request, rfl, nofun⟩

theorem Marked.told {stream stream' : Stream} {log : List Message} (hmarked : Marked stream stream')
    (h : Told services stream log) : Told services stream' log := by
  obtain ⟨cancelled, request, rfl, hcancelled⟩ := hmarked
  revert h
  unfold Told
  dsimp only
  cases stream.phase with
  | ending =>
    rintro ⟨taken, hopened, hprefix, hall⟩
    exact ⟨taken, hopened, hprefix, fun hnot => hall (hcancelled hnot)⟩
  | totalling =>
    rintro ⟨hbatch, taken, hopened, hprefix, hall⟩
    exact ⟨hbatch, taken, hopened, hprefix, fun hnot => hall (hcancelled hnot)⟩
  | forgetting => exact fun h => h.cancel hcancelled
  | exiting => exact fun h => h.cancel hcancelled
  | finished => exact fun h => h.cancel hcancelled
  | _ => exact id

/-- At most tokens are cancelled. -/
structure Marks (s s' : EngineSession) : Prop where
  length : s'.streams.length = s.streams.length
  each : ∀ {number : Nat} {stream' : Stream}, s'.streams[number]? = some stream' →
    ∃ stream, s.streams[number]? = some stream ∧ Marked stream stream'

theorem Marks.trans {s'' : EngineSession} (h : Marks s s') (h' : Marks s' s'') : Marks s s'' where
  length := h'.length.trans h.length
  each hlast := by
    obtain ⟨mid, hmid, hmarked'⟩ := h'.each hlast
    obtain ⟨stream, hstream, hmarked⟩ := h.each hmid
    exact ⟨stream, hstream, hmarked.trans hmarked'⟩

theorem marks_note (s : EngineSession) (id : UInt32) : Marks s (s.note id) where
  length := List.length_map _
  each {number stream'} h := by
    change (s.streams.map _)[number]? = _ at h
    rw [List.getElem?_map, Option.map_eq_some_iff] at h
    obtain ⟨stream, hstream, rfl⟩ := h
    refine ⟨stream, hstream, ?_⟩
    split
    · exact marked_requested stream
    · exact Marked.refl stream

theorem marks_cancel (s : EngineSession) (id : UInt32) : Marks s (s.cancel id) := by
  unfold cancel
  cases s.tokens id with
  | none => exact ⟨rfl, fun h => ⟨_, h, Marked.refl _⟩⟩
  | some token =>
    refine ⟨List.length_modify .., ?_⟩
    intro number stream' h
    change (s.streams.modify token _)[number]? = _ at h
    rw [List.getElem?_modify, Option.map_eq_map, Option.map_eq_some_iff] at h
    obtain ⟨stream, hstream, rfl⟩ := h
    refine ⟨stream, hstream, ?_⟩
    split
    · exact marked_cancelled stream
    · exact Marked.refl stream

theorem marks_finish (s : EngineSession) : Marks s (s.finish services) where
  length := List.length_mapIdx
  each {number stream'} h := by
    change (s.streams.mapIdx _)[number]? = _ at h
    rw [List.getElem?_mapIdx, Option.map_eq_some_iff] at h
    obtain ⟨stream, hstream, rfl⟩ := h
    refine ⟨stream, hstream, ?_⟩
    split
    · exact marked_cancelled stream
    · exact Marked.refl stream

theorem Marks.told (hmarks : Marks s s') (hsent : s'.sent = s.sent)
    (htold : ∀ {number : Nat} {stream : Stream}, s.streams[number]? = some stream →
      Told services stream (s.log number)) {number : Nat} {stream' : Stream}
    (h : s'.streams[number]? = some stream') : Told services stream' (s'.log number) := by
  obtain ⟨stream, hstream, hmarked⟩ := hmarks.each h
  rw [log, hsent]
  exact hmarked.told (htold hstream)

theorem answering_cancel (h : Answering services s) (id : UInt32) :
    Answering services ((s.note id).cancel id) := by
  have hmarks := (marks_note s id).trans (marks_cancel (s.note id) id)
  obtain ⟨hsame, hsent⟩ := sameQueues_cancel (s.note id) id
  have hcredit : ∀ other, ((s.note id).cancel id).credit other = s.credit other := by
    intro other
    unfold cancel credit
    cases (s.note id).tokens id with
    | none => rfl
    | some token => rfl
  constructor
  · exact hsame.up.trans h.up
  · exact hsame.closing.trans h.unclosed
  · intro message hmem
    apply h.requests
    rw [pending, hsame.handling, hsame.inbox] at hmem
    exact hmem
  · exact hmarks.told hsent h.told
  · intro number hlength
    rw [log, hsent]
    apply h.fresh
    rwa [hmarks.length] at hlength
  · rw [hsent]
    exact h.fits
  · intro hlink stream' hmem hunended
    obtain ⟨number, hstream'⟩ := List.mem_iff_getElem?.1 hmem
    obtain ⟨stream, hstream, cancelled, request, rfl, -⟩ := hmarks.each hstream'
    rw [hcredit]
    exact h.credit hlink stream (List.mem_of_getElem? hstream) hunended

theorem sum_credit_append (grants more : List (UInt32 × Nat)) (id : UInt32) :
    ((grants ++ more).map fun grant => if grant.1 = id then grant.2 else 0).sum =
      (grants.map fun grant => if grant.1 = id then grant.2 else 0).sum +
        (more.map fun grant => if grant.1 = id then grant.2 else 0).sum := by
  rw [List.map_append, List.sum_append]

theorem answering_receive (h : Answering services s) {message : Message}
    (hrequest : isClientRequest message = true) :
    Answering services (s.receive services message) := by
  have hplain : (∀ cancel, message ≠ .cancel cancel) →
      Answering services { s with inbox := s.inbox ++ [message], received := s.received ++ [message] } := by
    intro hnot
    refine ⟨h.up, h.unclosed, ?_, h.told, h.fresh, h.fits, h.credit⟩
    intro other hmem
    rw [pending, ← List.append_assoc] at hmem
    rcases List.mem_append.1 hmem with hold | hnew
    · exact h.requests other hold
    · rw [List.mem_singleton.1 hnew]
      exact ⟨hrequest, hnot⟩
  cases message with
  | cancel message => exact answering_cancel h message.queryId
  | query query =>
    refine ⟨h.up, h.unclosed, (hplain fun _ heq => by cases heq).requests, ?_, ?_, h.fits, ?_⟩
    · intro number stream hstream
      change (s.streams ++ [({ query } : Stream)])[number]? = _ at hstream
      by_cases hlt : number < s.streams.length
      · rw [List.getElem?_append_left hlt] at hstream
        exact h.told hstream
      · rw [List.getElem?_append_right (Nat.le_of_not_lt hlt)] at hstream
        have hmem := List.mem_of_getElem? hstream
        rw [List.mem_singleton.1 hmem]
        exact ⟨h.fresh (Nat.le_of_not_lt hlt), rfl, rfl, rfl⟩
    · intro number hlength
      change (s.streams ++ [({ query } : Stream)]).length ≤ number at hlength
      rw [List.length_append] at hlength
      exact h.fresh (Nat.le_of_add_right_le hlength)
    · intro hlink stream hmem hunended
      obtain ⟨frames, hframes⟩ := Option.isSome_iff_exists.1 hlink
      unfold credit
      change 1 ≤ s.credits _ + ((s.owed ++ _).map _).sum
      rw [sum_credit_append, ← Nat.add_assoc]
      rcases List.mem_append.1 hmem with hold | hnew
      · exact (h.credit hlink stream hold hunended).trans (Nat.le_add_right _ _)
      · rw [List.mem_singleton.1 hnew, hframes]
        apply Nat.le_trans _ (Nat.le_add_left _ _)
        simp only [Option.map_some, Option.toList_some, List.map_cons, List.map_nil, if_true,
          List.sum_cons, List.sum_nil]
        exact Nat.le_max_left _ _
  | _ => exact hplain fun _ heq => by cases heq

/-! ### The thread of the session -/

theorem readable_refusal (query : Query) : Readable (refusal query) := by
  have hlength : (text "max concurrent streams exceeded").length = 31 := by decide +kernel
  have hstring : writeString (text "max concurrent streams exceeded") =
      .ok (Storage.storeLe 4 31 ++ text "max concurrent streams exceeded") := by
    rw [writeString, require, hlength]
    rfl
  have hpayload : encodePayload (refusal query) = .ok (writeU32 query.queryId ++
      writeU16 invalidArgumentCode ++
        (Storage.storeLe 4 31 ++ text "max concurrent streams exceeded")) := by
    change encodeStreamError _ = _
    rw [encodeStreamError, hstring]
    rfl
  refine ⟨?_, trivial⟩
  rw [encodeMessage, hpayload]
  change Except.isOk (do require _ _ _; pure _) = true
  rw [require, if_pos]
  · rfl
  · simp only [List.length_append, hlength, writeU32, writeU16, Storage.length_storeLe]
    decide

theorem fits_refusal (services : EngineServices) (query : Query) : Fits services (refusal query) := by
  have hsame : relayed services (refusal query) = refusal query := by
    unfold relayed
    cases services.link with
    | none => rfl
    | some relay => rfl
  refine ⟨readable_refusal query, ?_⟩
  rw [hsame]
  exact readable_refusal query

theorem answering_respond {message reply : Message} {outcomes : Outcomes} {attached : Bool}
    (h : Answering services s) (hhandling : s.handling = some message)
    (hmeets : Meets services s (.handle outcomes))
    (hanswer : answer services s.attached outcomes message = some reply) :
    Answering services ({ s with handling := none, attached }.respond none reply) := by
  have hfits := hmeets message reply hhandling hanswer
  have hsends : EngineSession.sends { s with handling := none, attached } reply = true :=
    sends_of_fits h.up hfits
  rw [respond, if_pos hsends]
  have hlog : ∀ number, EngineSession.log
      ({ s with handling := none, attached }.put none reply) number = s.log number := by
    intro number
    rw [log_put, if_neg nofun]
    exact List.append_nil _
  refine ⟨h.up, h.unclosed, ?_, ?_, ?_, ?_, h.credit⟩
  · intro other hmem
    exact h.requests other (List.mem_append_right _ hmem)
  · intro number stream hstream
    rw [hlog]
    exact h.told hstream
  · intro number hlength
    rw [hlog]
    exact h.fresh hlength
  · intro entry hmem
    rcases List.mem_append.1 hmem with hold | hnew
    · exact h.fits entry hold
    · rw [List.mem_singleton.1 hnew]
      exact hfits

theorem told_set {number : Nat} {stream' : Stream}
    (hlog : ∀ other, other ≠ number → s'.log other = s.log other)
    (htold : ∀ {other : Nat} {old : Stream}, s.streams[other]? = some old → Told services old (s.log other))
    (hnew : Told services stream' (s'.log number)) {other : Nat} {old : Stream}
    (h : (s.streams.set number stream')[other]? = some old) : Told services old (s'.log other) := by
  rw [List.getElem?_set] at h
  split at h
  · rename_i heq
    subst heq
    split at h
    · cases h
      exact hnew
    · cases h
  · rename_i hne
    rw [hlog other (Ne.symm hne)]
    exact htold h

theorem mem_of_mem_set {streams : List Stream} {number : Nat} {stream old : Stream}
    (h : old ∈ streams.set number stream) : old = stream ∨ old ∈ streams := by
  obtain ⟨other, hother⟩ := List.mem_iff_getElem?.1 h
  rw [List.getElem?_set] at hother
  split at hother
  · split at hother
    · cases hother
      exact .inl rfl
    · cases hother
  · exact .inr (List.mem_of_getElem? hother)

theorem answering_handleQuery {stream : Stream} {outcomes : Outcomes} (h : Answering services s)
    (hstream : s.streams[s.handled]? = some stream) (hphase : stream.phase = .queued) :
    Answering services ({ s with handling := none }.handleQuery services outcomes stream) := by
  have htold := h.told hstream
  rw [Told, hphase] at htold
  have hunended : stream.ended = false := by
    rw [Stream.ended, hphase]
    rfl
  have hrequests : ∀ message ∈ s.inbox,
      isClientRequest message = true ∧ ∀ cancel, message ≠ .cancel cancel :=
    fun message hmem => h.requests message (List.mem_append_right _ hmem)
  unfold handleQuery
  dsimp only
  split
  · have hfits := fits_refusal services stream.query
    have hsends : EngineSession.sends (setStream { s with handling := none, handled := s.handled + 1 }
        s.handled { stream with phase := .finished }) (refusal stream.query) = true :=
      sends_of_fits h.up hfits
    rw [respond, if_pos hsends]
    have hlog : ∀ number, EngineSession.log (EngineSession.put (setStream
        { s with handling := none, handled := s.handled + 1 } s.handled { stream with phase := .finished })
        (some s.handled) (refusal stream.query)) number =
          s.log number ++ if some s.handled = some number then [refusal stream.query] else [] := by
      intro number
      rw [log_put]
      rfl
    refine ⟨h.up, h.unclosed, hrequests, ?_, ?_, ?_, ?_⟩
    · apply told_set ?_ h.told
      · rw [hlog, if_pos rfl, htold.1]
        exact Answered.refused rfl
      · intro other hne
        rw [hlog, if_neg fun heq => hne (Option.some.inj heq).symm]
        exact List.append_nil _
    · intro number hlength
      change (s.streams.set s.handled _).length ≤ number at hlength
      rw [List.length_set] at hlength
      have hlt := (List.getElem?_eq_some_iff.1 hstream).1
      rw [hlog, if_neg fun heq => by
        have hsame := Option.some.inj heq
        omega]
      exact (List.append_nil _).trans (h.fresh hlength)
    · intro entry hmem
      rcases List.mem_append.1 hmem with hold | hnew
      · exact h.fits entry hold
      · rw [List.mem_singleton.1 hnew]
        exact hfits
    · intro hlink old hmem hold
      rcases mem_of_mem_set hmem with rfl | hmem
      · cases hold
      · exact h.credit hlink old hmem hold
  · refine ⟨h.up, h.unclosed, hrequests, ?_, ?_, h.fits, ?_⟩
    · apply told_set (fun _ _ => rfl) h.told
      exact htold
    · intro number hlength
      change (s.streams.set s.handled _).length ≤ number at hlength
      rw [List.length_set] at hlength
      exact h.fresh hlength
    · intro hlink old hmem hold
      rcases mem_of_mem_set hmem with rfl | hmem
      · exact h.credit hlink stream (List.mem_of_getElem? hstream) hunended
      · exact h.credit hlink old hmem hold

theorem answering_handle {message : Message} {outcomes : Outcomes} (hqueues : Queues s)
    (h : Answering services s) (hhandling : s.handling = some message)
    (hmeets : Meets services s (.handle outcomes)) :
    Answering services ({ s with handling := none }.handle services outcomes message) := by
  have hrequest := h.requests message (List.mem_append_left _ (by rw [hhandling]; exact List.mem_singleton.2 rfl))
  cases message with
  | query query =>
    obtain ⟨stream, hstream, -, hphase⟩ := hqueues.next hhandling
    unfold EngineSession.handle
    dsimp only
    rw [hstream]
    exact answering_handleQuery h hstream hphase
  | opCall message => exact @answering_respond _ s _ _ outcomes s.attached h hhandling hmeets rfl
  | facadeList message => exact @answering_respond _ s _ _ outcomes s.attached h hhandling hmeets rfl
  | facadeOpen message => exact @answering_respond _ s _ _ outcomes s.attached h hhandling hmeets rfl
  | shmAttach message => exact @answering_respond _ s _ _ outcomes _ h hhandling hmeets rfl
  | authenticate message => exact @answering_respond _ s _ _ outcomes s.attached h hhandling hmeets rfl
  | cancel message => exact absurd rfl (hrequest.2 message)
  | _ => cases hrequest.1

/-! ### Workers -/

theorem unended_of_announces {stream : Stream} {announced : Message × Phase}
    (h : stream.announces = some announced) : stream.ended = false := by
  unfold Stream.announces at h
  unfold Stream.ended
  revert h
  cases stream.phase with
  | forgetting => exact nofun
  | exiting => exact nofun
  | finished => exact nofun
  | _ => exact fun _ => rfl

theorem unended_of_afterFlush {stream : Stream} {phases : Phase × Phase}
    (h : stream.phase.afterFlush = some phases) : stream.ended = false := by
  unfold Stream.ended
  revert h
  cases stream.phase with
  | forgetting => exact nofun
  | exiting => exact nofun
  | finished => exact nofun
  | _ => exact fun _ => rfl

theorem ended_streamStep {sends : Message → Bool} {stream stream' : Stream} {message : Option Message}
    (h : StreamStep services sends stream message stream') (hended : stream'.ended = false) :
    stream.ended = false := by
  cases h with
  | start hphase =>
    rw [Stream.ended, hphase]
    rfl
  | announce hannounces hsends => exact unended_of_announces hannounces
  | silent hannounces hsends => cases hended
  | pull hphase =>
    rw [Stream.ended, hphase]
    rfl
  | check hphase =>
    rw [Stream.ended, hphase]
    rfl
  | skip hphase hbatch => exact unended_of_afterFlush hphase
  | flush hphase hbatch hsends => exact unended_of_afterFlush hphase
  | lose hphase hbatch hsends => exact unended_of_afterFlush hphase
  | forget hphase => cases hended
  | exit hphase => cases hended

theorem credit_owe_spend {id : UInt32} (hup : s.up = true) (hwaits : ¬s.waits services id = true)
    (other : UInt32) : ((s.spend services id).owe services id).credit other = s.credit other := by
  unfold spend owe
  cases hlink : services.link with
  | none => rfl
  | some frames =>
    have hpos : 0 < s.credits id := by
      apply Nat.pos_of_ne_zero
      intro hzero
      apply hwaits
      exact decide_eq_true ⟨by rw [hlink]; rfl, hup, hzero⟩
    unfold credit
    dsimp only
    rw [sum_credit_append]
    by_cases hsame : id = other
    · subst hsame
      rw [Function.update_self]
      simp only [List.map_cons, List.map_nil, if_true, List.sum_cons, List.sum_nil]
      omega
    · rw [Function.update_of_ne (Ne.symm hsame)]
      simp only [List.map_cons, List.map_nil, hsame, if_false, List.sum_cons, List.sum_nil,
        Nat.add_zero]

theorem credit_flush {number : Nat} {stream : Stream} {sent failed : Phase}
    (hphase : stream.phase.afterFlush = some (sent, failed)) (hup : s.up = true)
    (hsends : ∀ message, stream.next services = some message → s.sends message = true)
    (h : s.flush services number stream sent failed = some s') (id : UInt32) :
    s'.credit id = s.credit id := by
  unfold flush at h
  dsimp only at h
  by_cases hbatch : stream.batch = []
  · rw [if_pos hbatch] at h
    cases h
    rfl
  · rw [if_neg hbatch] at h
    by_cases hwaits : s.waits services stream.query.queryId = true
    · rw [if_pos hwaits] at h
      cases h
    · rw [if_neg hwaits, if_pos (hsends _ (next_of_afterFlush hphase hbatch))] at h
      cases h
      exact credit_owe_spend hup hwaits id

theorem credit_runQuery {number : Nat} {stream : Stream} (hup : s.up = true)
    (hsends : ∀ message, stream.next services = some message → s.sends message = true)
    (h : s.runQuery services number stream = some s') {id : UInt32}
    (hother : stream.phase = .forgetting → id ≠ stream.query.queryId) : s'.credit id = s.credit id := by
  unfold runQuery at h
  dsimp only at h
  cases hphase : stream.phase with
  | flushing =>
    rw [hphase] at h
    exact credit_flush (by rw [hphase]; rfl) hup hsends h id
  | ending =>
    rw [hphase] at h
    exact credit_flush (by rw [hphase]; rfl) hup hsends h id
  | failing failure =>
    rw [hphase] at h
    exact credit_flush (by rw [hphase]; rfl) hup hsends h id
  | forgetting =>
    rw [hphase] at h
    cases h
    change Function.update s.credits _ 0 id + _ = _
    rw [Function.update_of_ne (hother hphase)]
    rfl
  | beginning =>
    rw [hphase] at h
    cases h
    unfold workerSend
    split
    · rfl
    · rfl
  | totalling =>
    rw [hphase] at h
    cases h
    unfold workerSend
    split
    · rfl
    · rfl
  | reporting failure =>
    rw [hphase] at h
    cases h
    unfold workerSend
    split
    · rfl
    · rfl
  | queued =>
    rw [hphase] at h
    cases h
  | finished =>
    rw [hphase] at h
    cases h
  | starting =>
    rw [hphase] at h
    cases h
    rfl
  | pulling =>
    rw [hphase] at h
    cases h
    rfl
  | checking item =>
    rw [hphase] at h
    cases h
    rfl
  | exiting =>
    rw [hphase] at h
    cases h
    rfl

theorem next_of_streamStep {sends : Message → Bool} {stream stream' : Stream} {message : Message}
    (h : StreamStep services sends stream (some message) stream') :
    stream.next services = some message := by
  cases h with
  | announce hannounces hsends => exact next_of_announces hannounces
  | flush hphase hbatch hsends => exact next_of_afterFlush hphase hbatch

theorem answering_worker {number : Nat} {stream : Stream} (h : Answering services s)
    (hstream : s.streams[number]? = some stream) (hmeets : Meets services s (.worker number))
    (hrun : s.runQuery services number stream = some s') : Answering services s' := by
  obtain ⟨hfits, hforget⟩ := hmeets stream hstream
  have hsends : ∀ message, stream.next services = some message → s.sends message = true :=
    fun message hnext => sends_of_fits h.up (hfits message hnext)
  obtain ⟨message, stream', hworks⟩ := works_runQuery hrun
  have hlog := hworks.log
  constructor
  · exact hworks.same.up.trans h.up
  · exact hworks.same.closing.trans h.unclosed
  · rw [pending, hworks.same.handling, hworks.same.inbox]
    exact h.requests
  · rw [hworks.streams]
    apply told_set ?_ h.told
    · rw [hlog, if_pos rfl]
      exact told_streamStep hworks.step hsends (h.told hstream)
    · intro other hne
      rw [hlog, if_neg hne]
      exact List.append_nil _
  · intro other hlength
    rw [hworks.streams, List.length_set] at hlength
    have hlt := (List.getElem?_eq_some_iff.1 hstream).1
    rw [hlog, if_neg (by omega)]
    exact (List.append_nil _).trans (h.fresh hlength)
  · intro entry hmem
    rw [hworks.sent] at hmem
    rcases List.mem_append.1 hmem with hold | hnew
    · exact h.fits entry hold
    · cases message with
      | none => cases hnew
      | some message =>
        rw [List.mem_singleton.1 hnew]
        exact hfits message (next_of_streamStep hworks.step)
  · intro hlink old hmem hunended
    have hcredit : ∀ {id}, (stream.phase = .forgetting → id ≠ stream.query.queryId) →
        s'.credit id = s.credit id := credit_runQuery h.up hsends hrun
    rw [hworks.streams] at hmem
    rcases mem_of_mem_set hmem with rfl | hmem
    · have hold := ended_streamStep hworks.step hunended
      rw [(unqueued_streamStep hworks.step).1, hcredit]
      · exact h.credit hlink stream (List.mem_of_getElem? hstream) hold
      · intro hphase
        rw [Stream.ended, hphase] at hold
        cases hold
    · rw [hcredit]
      · exact h.credit hlink old hmem hunended
      · intro hphase hsame
        have hended := hforget hlink hphase old hmem hsame
        rw [hunended] at hended
        cases hended

end EngineSession

end MoDb.Net
