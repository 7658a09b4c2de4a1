import MoDb.Net.StreamStep

/-!
# Replies in order

The replies of a session are those to the requests that it received, in their order, as far as they were
handled. A session that ends drops what it had not handled.
-/

namespace MoDb.Net

variable {services : EngineServices}

/-! ### Requests and replies -/

inductive ReplyKind
  | call
  | facadeList
  | facadeOpen
  | shmAttach
  | authenticate
  deriving DecidableEq, Repr

/-- A request that the session's own thread answers: its kind and its id. -/
def requestKey : Message → Option (ReplyKind × UInt32)
  | .opCall message => some (.call, message.callId)
  | .facadeList message => some (.facadeList, message.requestId)
  | .facadeOpen message => some (.facadeOpen, message.requestId)
  | .shmAttach message => some (.shmAttach, message.requestId)
  | .authenticate message => some (.authenticate, message.requestId)
  | _ => none

def replyKey : Message → Option (ReplyKind × UInt32)
  | .opResult message => some (.call, message.callId)
  | .facadeListOk message => some (.facadeList, message.requestId)
  | .facadeOpenOk message => some (.facadeOpen, message.requestId)
  | .shmAttachOk message => some (.shmAttach, message.requestId)
  | .authenticateOk message => some (.authenticate, message.requestId)
  | _ => none

def asQuery : Message → Option Query
  | .query query => some query
  | _ => none

theorem callId_executeOpCall (call : OpCall) (outcome : Except Failure Storage.Bytes) :
    (executeOpCall services call outcome).callId = call.callId := by
  unfold executeOpCall
  split
  · rfl
  · split
    · rfl
    · cases outcome with
      | ok payload => rfl
      | error failure => rfl

theorem requestId_openFacade (message : FacadeOpen) :
    (openFacade services message).requestId = message.requestId := by
  unfold openFacade
  cases services.facades with
  | none => rfl
  | some facades =>
    dsimp only
    cases findFacade facades message.facadeId message.facadeVersion with
    | ok facade => rfl
    | error failure => rfl

theorem requestId_attachShm (attached : Bool) (message : ShmAttach) (region : Except Failure ShmRegion) :
    (attachShm services attached message region).requestId = message.requestId := by
  unfold attachShm
  dsimp only
  split
  · rfl
  · rfl

theorem replyKey_answer {attached : Bool} {outcomes : Outcomes} {message reply : Message}
    (h : answer services attached outcomes message = some reply) :
    (∃ key, requestKey message = some key ∧ replyKey reply = some key) ∧
      asQuery message = none := by
  cases message with
  | opCall message =>
    cases h
    refine ⟨⟨_, rfl, ?_⟩, rfl⟩
    rw [replyKey, callId_executeOpCall]
  | facadeList message =>
    cases h
    exact ⟨⟨_, rfl, rfl⟩, rfl⟩
  | facadeOpen message =>
    cases h
    refine ⟨⟨_, rfl, ?_⟩, rfl⟩
    rw [replyKey, requestId_openFacade]
  | shmAttach message =>
    cases h
    refine ⟨⟨_, rfl, ?_⟩, rfl⟩
    rw [replyKey, requestId_attachShm]
  | authenticate message =>
    cases h
    exact ⟨⟨_, rfl, rfl⟩, rfl⟩
  | _ => cases h

theorem replyKey_announces {stream : Stream} {message : Message} {phase : Phase}
    (h : stream.announces = some (message, phase)) : replyKey message = none := by
  unfold Stream.announces at h
  split at h
  · cases h
    rfl
  · cases h
    rfl
  · cases h
    rfl
  · cases h

theorem replyKey_streamStep {sends : Message → Bool} {stream stream' : Stream} {message : Message}
    (h : StreamStep services sends stream (some message) stream') : replyKey message = none := by
  cases h with
  | announce hannounces hsends => exact replyKey_announces hannounces
  | flush hphase hbatch hsends => rfl

/-! ### Accounts -/

section Accounts

variable {α : Type} {done pending received more : List α} {item : α} {closing : Bool}

/-- What was received is done, or it is pending, or the session has dropped it at its end. -/
def Accounted (done pending received : List α) (closing : Bool) : Prop :=
  ∃ dropped, done ++ pending ++ dropped = received ∧ (closing = false → dropped = [])

theorem Accounted.open (h : Accounted done pending received false) : done ++ pending = received := by
  obtain ⟨dropped, hall, hopen⟩ := h
  rwa [hopen rfl, List.append_nil] at hall

theorem Accounted.receive (h : Accounted done pending received false) :
    Accounted done (pending ++ more) (received ++ more) false := by
  refine ⟨[], ?_, fun _ => rfl⟩
  rw [List.append_nil, ← List.append_assoc, h.open]

theorem Accounted.finish (h : Accounted done (item :: pending) received closing) :
    Accounted (done ++ [item]) pending received closing := by
  obtain ⟨dropped, hall, hopen⟩ := h
  refine ⟨dropped, ?_, hopen⟩
  rwa [List.append_assoc done]

theorem Accounted.drop (h : Accounted done (pending ++ more) received closing) :
    Accounted done pending received true := by
  obtain ⟨dropped, hall, -⟩ := h
  refine ⟨more ++ dropped, ?_, nofun⟩
  rwa [← List.append_assoc, List.append_assoc done]

theorem Accounted.prefix_received (h : Accounted done pending received closing) :
    done ++ pending <+: received := by
  obtain ⟨dropped, hall, -⟩ := h
  exact ⟨dropped, hall⟩

end Accounts

namespace EngineSession

variable {s s' : EngineSession}

def replies (s : EngineSession) : List (ReplyKind × UInt32) :=
  s.sent.filterMap fun entry => replyKey entry.2

def pending (s : EngineSession) : List Message := s.handling.toList ++ s.inbox

def face (stream : Stream) : Query × Bool := (stream.query, stream.phase = .queued)

/-- What holds of the queues in every run. -/
structure Queues (s : EngineSession) : Prop where
  replies : Accounted s.replies (s.pending.filterMap requestKey) (s.received.filterMap requestKey)
    s.closing
  queries : Accounted ((s.streams.take s.handled).map Stream.query)
    (s.pending.filterMap asQuery) (s.received.filterMap asQuery) s.closing
  streams : s.streams.map Stream.query = s.received.filterMap asQuery
  queued : ∀ {number : Nat} {stream : Stream}, s.streams[number]? = some stream →
    (stream.phase = .queued ↔ s.handled ≤ number)
  handled : s.handled ≤ s.streams.length
  inbox : s.closing = true → s.inbox = []

theorem queues_init : Queues {} :=
  ⟨⟨[], rfl, fun _ => rfl⟩, ⟨[], rfl, fun _ => rfl⟩, rfl, nofun, Nat.le_refl 0, fun _ => rfl⟩

theorem Queues.congr (hqueues : Queues s) (hsame : SameQueues s s') (hreplies : s'.replies = s.replies)
    (hfaces : s'.streams.map face = s.streams.map face) : Queues s' := by
  have hqueries : ∀ streams : List Stream, streams.map Stream.query = (streams.map face).map Prod.fst :=
    fun streams => by rw [List.map_map, show Prod.fst ∘ face = Stream.query from rfl]
  have hpending : s'.pending = s.pending := by
    unfold pending
    rw [hsame.handling, hsame.inbox]
  constructor
  · rw [hreplies, hpending, hsame.received, hsame.closing]
    exact hqueues.replies
  · rw [hpending, hsame.received, hsame.closing, hsame.handled, List.map_take, hqueries, hfaces,
      ← hqueries, ← List.map_take]
    exact hqueues.queries
  · rw [hqueries, hfaces, ← hqueries, hsame.received]
    exact hqueues.streams
  · intro number stream hstream
    have hface := congrArg (·[number]?) hfaces
    rw [List.getElem?_map, List.getElem?_map, hstream] at hface
    cases hold : s.streams[number]? with
    | none =>
      rw [hold] at hface
      cases hface
    | some old =>
      rw [hold] at hface
      have hphase := congrArg Prod.snd (Option.some.inj hface)
      rw [hsame.handled, ← hqueues.queued hold]
      exact decide_eq_decide.1 hphase
  · have hlength := congrArg List.length hfaces
    rw [List.length_map, List.length_map] at hlength
    rw [hsame.handled, hlength]
    exact hqueues.handled
  · intro hclosing
    rw [hsame.inbox]
    exact hqueues.inbox (hsame.closing ▸ hclosing)

/-! ### Steps -/

theorem replies_put (number : Option Nat) (message : Message) :
    (s.put number message).replies = s.replies ++ (replyKey message).toList := by
  unfold replies put
  rw [List.filterMap_append]
  cases hkey : replyKey message with
  | none => simp only [List.filterMap_cons, hkey, List.filterMap_nil, Option.toList_none]
  | some key => simp only [List.filterMap_cons, hkey, List.filterMap_nil, Option.toList_some]

theorem map_face_set {streams : List Stream} {number : Nat} {stream stream' : Stream}
    (hstream : streams[number]? = some stream) (hface : face stream' = face stream) :
    (streams.set number stream').map face = streams.map face := by
  obtain ⟨hlt, rfl⟩ := List.getElem?_eq_some_iff.1 hstream
  apply List.ext_getElem?
  intro other
  rw [List.getElem?_map, List.getElem?_map, List.getElem?_set]
  split
  · rename_i heq
    subst heq
    rw [hstream]
    exact congrArg some hface
  · rfl

theorem map_face_map {streams : List Stream} {f : Stream → Stream}
    (hface : ∀ stream, face (f stream) = face stream) :
    (streams.map f).map face = streams.map face := by
  rw [List.map_map]
  exact List.map_congr_left fun stream _ => hface stream

theorem map_face_mapIdx {streams : List Stream} {f : Nat → Stream → Stream}
    (hface : ∀ number stream, face (f number stream) = face stream) :
    (streams.mapIdx f).map face = streams.map face := by
  apply List.ext_getElem?
  intro number
  rw [List.getElem?_map, List.getElem?_map, List.getElem?_mapIdx]
  cases streams[number]? with
  | none => rfl
  | some stream => exact congrArg some (hface number stream)

theorem afterFlush_ne_queued {phase sent failed : Phase} (h : phase.afterFlush = some (sent, failed)) :
    phase ≠ .queued ∧ sent ≠ .queued ∧ failed ≠ .queued := by
  unfold Phase.afterFlush at h
  split at h
  · cases h
    exact ⟨nofun, nofun, nofun⟩
  · cases h
    exact ⟨nofun, nofun, nofun⟩
  · cases h
    exact ⟨nofun, nofun, nofun⟩
  · cases h

theorem announces_ne_queued {stream : Stream} {message : Message} {phase : Phase}
    (h : stream.announces = some (message, phase)) : stream.phase ≠ .queued ∧ phase ≠ .queued := by
  unfold Stream.announces at h
  split at h
  · rename_i hphase
    cases h
    rw [hphase]
    exact ⟨nofun, nofun⟩
  · rename_i hphase
    cases h
    rw [hphase]
    exact ⟨nofun, nofun⟩
  · rename_i hphase
    cases h
    rw [hphase]
    exact ⟨nofun, nofun⟩
  · cases h

theorem unqueued_streamStep {sends : Message → Bool} {stream stream' : Stream}
    {message : Option Message} (h : StreamStep services sends stream message stream') :
    stream'.query = stream.query ∧ stream.phase ≠ .queued ∧ stream'.phase ≠ .queued := by
  cases h with
  | start hphase => exact ⟨rfl, by rw [hphase]; exact nofun, nofun⟩
  | announce hannounces hsends => exact ⟨rfl, announces_ne_queued hannounces⟩
  | silent hannounces hsends => exact ⟨rfl, (announces_ne_queued hannounces).1, nofun⟩
  | pull hphase =>
    unfold Stream.pull
    split
    · exact ⟨rfl, by rw [hphase]; exact nofun, nofun⟩
    · exact ⟨rfl, by rw [hphase]; exact nofun, nofun⟩
  | check hphase =>
    unfold Stream.check
    split
    · exact ⟨rfl, by rw [hphase]; exact nofun, nofun⟩
    · split
      · exact ⟨rfl, by rw [hphase]; exact nofun, nofun⟩
      · refine ⟨rfl, by rw [hphase]; exact nofun, ?_⟩
        dsimp only
        split
        · exact nofun
        · exact nofun
  | skip hphase hbatch =>
    obtain ⟨hold, hsent, -⟩ := afterFlush_ne_queued hphase
    exact ⟨rfl, hold, hsent⟩
  | flush hphase hbatch hsends =>
    obtain ⟨hold, hsent, -⟩ := afterFlush_ne_queued hphase
    exact ⟨rfl, hold, hsent⟩
  | lose hphase hbatch hsends =>
    obtain ⟨hold, -, hfailed⟩ := afterFlush_ne_queued hphase
    exact ⟨rfl, hold, hfailed⟩
  | forget hphase => exact ⟨rfl, by rw [hphase]; exact nofun, nofun⟩
  | exit hphase => exact ⟨rfl, by rw [hphase]; exact nofun, nofun⟩

theorem face_streamStep {sends : Message → Bool} {stream stream' : Stream} {message : Option Message}
    (h : StreamStep services sends stream message stream') : face stream' = face stream := by
  obtain ⟨hquery, hold, hnew⟩ := unqueued_streamStep h
  unfold face
  rw [hquery, decide_eq_false hold, decide_eq_false hnew]

theorem queues_worker {number : Nat} {stream : Stream} (hqueues : Queues s)
    (hstream : s.streams[number]? = some stream)
    (h : s.runQuery services number stream = some s') : Queues s' := by
  obtain ⟨message, stream', hworks⟩ := works_runQuery h
  apply hqueues.congr hworks.same
  · unfold replies
    rw [hworks.sent, List.filterMap_append]
    cases message with
    | none => exact List.append_nil _
    | some message =>
      have hkey := replyKey_streamStep hworks.step
      simp only [Option.map_some, Option.toList_some, List.filterMap_cons, hkey, List.filterMap_nil,
        List.append_nil]
  · rw [hworks.streams]
    exact map_face_set hstream (face_streamStep hworks.step)

theorem face_requested (stream : Stream) : face stream.requested = face stream := by
  unfold Stream.requested
  split
  · rfl
  · rfl

theorem map_face_note (s : EngineSession) (id : UInt32) :
    (s.note id).streams.map face = s.streams.map face := by
  apply map_face_map
  intro stream
  split
  · exact face_requested stream
  · rfl

theorem map_face_cancel (s : EngineSession) (id : UInt32) :
    (s.cancel id).streams.map face = s.streams.map face := by
  unfold cancel
  cases s.tokens id with
  | none => rfl
  | some number =>
    change (s.streams.modify number _).map face = _
    apply List.ext_getElem?
    intro other
    rw [List.getElem?_map, List.getElem?_map, List.getElem?_modify]
    cases s.streams[other]? with
    | none => rfl
    | some stream =>
      change Option.map face (some (if number = other then _ else stream)) = _
      split
      · rfl
      · rfl

theorem sameQueues_cancel (s : EngineSession) (id : UInt32) :
    SameQueues s (s.cancel id) ∧ (s.cancel id).sent = s.sent := by
  unfold cancel
  cases s.tokens id with
  | none => exact ⟨⟨rfl, rfl, rfl, rfl, rfl, rfl, rfl⟩, rfl⟩
  | some number => exact ⟨⟨rfl, rfl, rfl, rfl, rfl, rfl, rfl⟩, rfl⟩

theorem queues_receive (hqueues : Queues s) (hopen : s.closing = false) (message : Message) :
    Queues (s.receive services message) := by
  have hreplies := hqueues.replies
  have hqueries := hqueues.queries
  rw [hopen] at hreplies hqueries
  -- A message goes to the end of the inbox, and a query adds its stream.
  have hplain : asQuery message = none →
      Queues { s with inbox := s.inbox ++ [message], received := s.received ++ [message] } := by
    intro hquery
    constructor
    · have hmore := @Accounted.receive _ _ _ _ ([message].filterMap requestKey) hreplies
      rw [← List.filterMap_append, ← List.filterMap_append] at hmore
      rwa [hopen, pending, ← List.append_assoc]
    · have hmore := @Accounted.receive _ _ _ _ ([message].filterMap asQuery) hqueries
      rw [← List.filterMap_append, ← List.filterMap_append] at hmore
      rwa [hopen, pending, ← List.append_assoc]
    · rw [List.filterMap_append, List.filterMap_cons, hquery]
      exact hqueues.streams.trans (List.append_nil _).symm
    · exact hqueues.queued
    · exact hqueues.handled
    · intro hclosing
      rw [hopen] at hclosing
      cases hclosing
  cases message with
  | cancel message =>
    obtain ⟨hsame, hsent⟩ := sameQueues_cancel (s.note message.queryId) message.queryId
    apply hqueues.congr
    · have hnote : SameQueues s (s.note message.queryId) := ⟨rfl, rfl, rfl, rfl, rfl, rfl, rfl⟩
      exact hnote.trans hsame
    · exact congrArg (List.filterMap _) hsent
    · exact (map_face_cancel _ _).trans (map_face_note _ _)
  | query query =>
    have hlength := hqueues.handled
    constructor
    · have hmore := @Accounted.receive _ _ _ _ ([Message.query query].filterMap requestKey) hreplies
      rw [← List.filterMap_append, ← List.filterMap_append] at hmore
      change Accounted _ ((s.handling.toList ++ (s.inbox ++ [Message.query query])).filterMap requestKey) _
        s.closing
      rwa [← List.append_assoc, hopen]
    · have hmore := @Accounted.receive _ _ _ _ ([Message.query query].filterMap asQuery) hqueries
      rw [← List.filterMap_append, ← List.filterMap_append] at hmore
      change Accounted (((s.streams ++ [({ query } : Stream)]).take s.handled).map _)
        ((s.handling.toList ++ (s.inbox ++ [Message.query query])).filterMap asQuery) _ s.closing
      rwa [← List.append_assoc, hopen, List.take_append_of_le_length hlength]
    · change (s.streams ++ [({ query } : Stream)]).map _ = (s.received ++ [Message.query query]).filterMap asQuery
      rw [List.map_append, List.filterMap_append, hqueues.streams]
      rfl
    · intro number stream hstream
      change (s.streams ++ [({ query } : Stream)])[number]? = some stream at hstream
      by_cases hlt : number < s.streams.length
      · rw [List.getElem?_append_left hlt] at hstream
        exact hqueues.queued hstream
      · rw [List.getElem?_append_right (Nat.le_of_not_lt hlt)] at hstream
        obtain ⟨hzero, rfl⟩ := List.getElem?_eq_some_iff.1 hstream
        simp only [List.length_cons, List.length_nil] at hzero
        have hsame : number - s.streams.length = 0 := by omega
        simp only [hsame, List.getElem_cons_zero, true_iff]
        exact hlength.trans (Nat.le_of_not_lt hlt)
    · change s.handled ≤ (s.streams ++ [({ query } : Stream)]).length
      rw [List.length_append]
      exact hlength.trans (Nat.le_add_right _ _)
    · intro hclosing
      change s.closing = true at hclosing
      rw [hopen] at hclosing
      cases hclosing
  | _ => exact hplain rfl

theorem queues_fail {message : Message} (hqueues : Queues s) (hhandling : s.handling = some message) :
    Queues { s with handling := none }.fail := by
  have hpending : s.pending = [] ++ message :: s.inbox := by
    unfold pending
    rw [hhandling]
    rfl
  have hreplies := hqueues.replies
  have hqueries := hqueues.queries
  rw [hpending, List.filterMap_append] at hreplies hqueries
  exact ⟨hreplies.drop, hqueries.drop, hqueues.streams, hqueues.queued, hqueues.handled, fun _ => rfl⟩

theorem queues_reply {message reply : Message} {outcomes : Outcomes} {attached : Bool}
    (hqueues : Queues s) (hhandling : s.handling = some message)
    (h : answer services s.attached outcomes message = some reply) :
    Queues ({ s with handling := none, attached }.respond none reply) := by
  obtain ⟨⟨key, hrequest, hreply⟩, hquery⟩ := replyKey_answer h
  unfold respond
  split
  · have hreplies := hqueues.replies
    have hqueries := hqueues.queries
    unfold pending at hreplies hqueries
    rw [hhandling, Option.toList_some, List.singleton_append, List.filterMap_cons, hrequest] at hreplies
    rw [hhandling, Option.toList_some, List.singleton_append, List.filterMap_cons, hquery] at hqueries
    refine ⟨?_, hqueries, hqueues.streams, hqueues.queued, hqueues.handled, hqueues.inbox⟩
    rw [replies_put, hreply]
    exact hreplies.finish
  · have hfail := queues_fail hqueues hhandling
    exact ⟨hfail.replies, hfail.queries, hfail.streams, hfail.queued, hfail.handled, hfail.inbox⟩

theorem Queues.next {query : Query} (hqueues : Queues s)
    (hhandling : s.handling = some (.query query)) :
    ∃ stream, s.streams[s.handled]? = some stream ∧ stream.query = query ∧ stream.phase = .queued := by
  obtain ⟨dropped, hall, -⟩ := hqueues.queries
  rw [← hqueues.streams, pending, hhandling, Option.toList_some, List.singleton_append,
    List.filterMap_cons] at hall
  have hlength : (s.streams.take s.handled).length = s.handled := List.length_take_of_le hqueues.handled
  have hget := congrArg (·[s.handled]?) hall
  rw [List.append_assoc, List.getElem?_append_right (by rw [List.length_map, hlength]), List.length_map,
    hlength, Nat.sub_self, List.getElem?_map] at hget
  cases hstream : s.streams[s.handled]? with
  | none =>
    rw [hstream] at hget
    cases hget
  | some stream =>
    rw [hstream] at hget
    exact ⟨stream, rfl, (Option.some.inj hget).symm, (hqueues.queued hstream).2 (Nat.le_refl _)⟩

theorem queues_started {query : Query} {stream stream' : Stream} (hqueues : Queues s)
    (hhandling : s.handling = some (.query query)) (hstream : s.streams[s.handled]? = some stream)
    (hquery : stream'.query = stream.query) (hphase : stream'.phase ≠ .queued) :
    Queues ({ s with handling := none, handled := s.handled + 1 }.setStream s.handled stream') := by
  obtain ⟨hlt, hget⟩ := List.getElem?_eq_some_iff.1 hstream
  have hsame : (s.streams.set s.handled stream').map Stream.query = s.streams.map Stream.query := by
    rw [List.map_set, hquery, ← hget]
    apply List.ext_getElem?
    intro number
    rw [List.getElem?_set]
    split
    · rename_i heq
      subst heq
      rw [List.getElem?_map, hstream, hget, List.length_map, if_pos hlt]
      rfl
    · rfl
  have hreplies := hqueues.replies
  have hqueries := hqueues.queries
  unfold pending at hreplies hqueries
  rw [hhandling, Option.toList_some, List.singleton_append, List.filterMap_cons] at hreplies hqueries
  refine ⟨hreplies, ?_, hsame.trans hqueues.streams, ?_, ?_, hqueues.inbox⟩
  · change Accounted (((s.streams.set s.handled stream').take (s.handled + 1)).map _) _ _ _
    rw [List.map_take, hsame, ← List.map_take, List.take_add_one, hstream, List.map_append]
    obtain ⟨other, hother, hnext, -⟩ := hqueues.next hhandling
    rw [hstream] at hother
    cases hother
    change Accounted (_ ++ [stream.query]) _ _ _
    rw [hnext]
    exact hqueries.finish
  · intro number old hold
    change (s.streams.set s.handled stream')[number]? = some old at hold
    rw [List.getElem?_set] at hold
    split at hold
    · rename_i heq
      subst heq
      cases hold
      exact iff_of_false hphase (Nat.not_succ_le_self _)
    · rename_i hne
      rw [hqueues.queued hold]
      change s.handled ≤ number ↔ s.handled + 1 ≤ number
      omega
  · change s.handled + 1 ≤ (s.streams.set s.handled stream').length
    rw [List.length_set]
    exact hlt

theorem queues_handleQuery {query : Query} {stream : Stream} {outcomes : Outcomes} (hqueues : Queues s)
    (hhandling : s.handling = some (.query query)) (hstream : s.streams[s.handled]? = some stream) :
    Queues ({ s with handling := none }.handleQuery services outcomes stream) := by
  unfold handleQuery
  dsimp only
  split
  · have hstarted := @queues_started s query stream { stream with phase := .finished } hqueues hhandling
      hstream rfl nofun
    unfold respond
    split
    · refine ⟨?_, hstarted.queries, hstarted.streams, hstarted.queued, hstarted.handled, hstarted.inbox⟩
      rw [replies_put]
      exact (List.append_nil _).symm ▸ hstarted.replies
    · have hreplies := hstarted.replies
      have hqueries := hstarted.queries
      rw [show EngineSession.pending _ = [] ++ s.inbox from rfl, List.filterMap_append] at hreplies hqueries
      exact ⟨hreplies.drop, hqueries.drop, hstarted.streams, hstarted.queued, hstarted.handled,
        fun _ => rfl⟩
  · have hstarted := @queues_started s query stream
      { stream with phase := .starting, source := outcomes.queryObjects } hqueues hhandling hstream rfl
      nofun
    exact ⟨hstarted.replies, hstarted.queries, hstarted.streams, hstarted.queued, hstarted.handled,
      hstarted.inbox⟩

theorem queues_handle {message : Message} {outcomes : Outcomes} (hqueues : Queues s)
    (hhandling : s.handling = some message) :
    Queues ({ s with handling := none }.handle services outcomes message) := by
  cases message with
  | query query =>
    obtain ⟨stream, hstream, -, -⟩ := hqueues.next hhandling
    unfold EngineSession.handle
    dsimp only
    rw [hstream]
    exact queues_handleQuery hqueues hhandling hstream
  | opCall message => exact @queues_reply services s _ _ outcomes s.attached hqueues hhandling rfl
  | facadeList message => exact @queues_reply services s _ _ outcomes s.attached hqueues hhandling rfl
  | facadeOpen message => exact @queues_reply services s _ _ outcomes s.attached hqueues hhandling rfl
  | shmAttach message => exact @queues_reply services s _ _ outcomes _ hqueues hhandling rfl
  | authenticate message => exact @queues_reply services s _ _ outcomes s.attached hqueues hhandling rfl
  | _ => exact queues_fail hqueues hhandling

theorem queues_take {message : Message} {inbox : List Message} (hqueues : Queues s)
    (hhandling : s.handling = none) (hinbox : s.inbox = message :: inbox) :
    Queues { s with handling := some message, inbox } := by
  have hpending : s.pending = message :: inbox := by
    rw [pending, hhandling, hinbox]
    exact List.nil_append _
  have hreplies := hqueues.replies
  have hqueries := hqueues.queries
  rw [hpending] at hreplies hqueries
  refine ⟨hreplies, hqueries, hqueues.streams, hqueues.queued, hqueues.handled, ?_⟩
  intro hclosing
  have hempty := hqueues.inbox hclosing
  rw [hinbox] at hempty
  cases hempty

theorem queues_close (hqueues : Queues s) (up : Bool) : Queues { s.fail with up } := by
  have hreplies := hqueues.replies
  have hqueries := hqueues.queries
  rw [pending, List.filterMap_append] at hreplies hqueries
  have hpending : EngineSession.pending { s.fail with up } = s.handling.toList := List.append_nil _
  refine ⟨?_, ?_, hqueues.streams, hqueues.queued, hqueues.handled, fun _ => rfl⟩
  · rw [hpending]
    exact hreplies.drop
  · rw [hpending]
    exact hqueries.drop

theorem queues_finish (hqueues : Queues s) : Queues (s.finish services) := by
  have hface : (s.finish services).streams.map face = s.streams.map face := by
    apply map_face_mapIdx
    intro number stream
    split
    · rfl
    · rfl
  have hup : Queues { s with up := s.up && services.link.isNone } :=
    ⟨hqueues.replies, hqueues.queries, hqueues.streams, hqueues.queued, hqueues.handled,
      hqueues.inbox⟩
  exact hup.congr ⟨rfl, rfl, rfl, rfl, rfl, rfl, rfl⟩ rfl hface

theorem queues_step {action : Action} (hqueues : Queues s)
    (h : s.step services action = some s') : Queues s' := by
  cases action with
  | receive message =>
    obtain ⟨hopen, rfl⟩ := step_receive h
    exact queues_receive hqueues hopen message
  | take =>
    obtain ⟨message, inbox, hhandling, hinbox, rfl⟩ := step_take h
    exact queues_take hqueues hhandling hinbox
  | handle outcomes =>
    obtain ⟨message, hhandling, rfl⟩ := step_handle h
    exact queues_handle hqueues hhandling
  | worker number =>
    obtain ⟨stream, hstream, hrun⟩ := step_worker h
    exact queues_worker hqueues hstream hrun
  | grant index =>
    obtain ⟨id, frames, howed, rfl⟩ := step_grant h
    exact hqueues.congr ⟨rfl, rfl, rfl, rfl, rfl, rfl, rfl⟩ rfl rfl
  | close =>
    cases h
    exact queues_close hqueues _
  | disconnect =>
    cases h
    exact ⟨hqueues.replies, hqueues.queries, hqueues.streams, hqueues.queued, hqueues.handled,
      hqueues.inbox⟩
  | finish =>
    obtain ⟨-, -, rfl⟩ := step_finish h
    exact queues_finish hqueues

theorem queues_run {condition : EngineSession → Action → Prop} {actions : List Action}
    (hrun : Run services condition {} actions s) : Queues s :=
  hrun.inv queues_init fun hqueues _ hstep => queues_step hqueues hstep

end EngineSession

end MoDb.Net
