import MoDb.Net.FrameCodec
import Mathlib.Logic.Function.Basic

/-!
# A session of the engine

A session handles the messages of one client. A reader puts each message into the inbox, but for a
`Cancel`, which it handles at once; the session's own thread takes the messages out again and answers
them; and each query has a worker that sends its objects. The session is fed from a socket or from the
link of a proxy. Behind a proxy a frame with objects waits for credit of its stream.

What the engine answers, and the objects that a query finds, are left open.
-/

namespace MoDb.Net

open Storage (Bytes)

def text (string : String) : Bytes := string.toUTF8.toList

structure Failure where
  code : WireCode
  message : Bytes
  detail : Bytes := []
  deriving DecidableEq, Repr

/-- `ErrorCode::operation_not_found`, `permission_denied`, `facade_not_found`,
`incompatible_facade_version`. -/
def operationNotFoundCode : WireCode := 48

def permissionDeniedCode : WireCode := 74

def facadeNotFoundCode : WireCode := 51

def incompatibleFacadeVersionCode : WireCode := 53

/-! ### Answers -/

/-- The proxy in front of a session: how many frames it grants for a query, and the codec of its client. -/
structure Relay where
  streamCredit : UInt32 := 8
  codec : Compression := Compression.none

/-- What does not change in a session. -/
structure EngineServices where
  /-- There are operations. -/
  operations : Bool := true
  facades : Option (List FacadeDescriptor) := none
  maxConcurrentStreams : UInt16 := defaultMaxConcurrentStreams
  allowShm : Bool := true
  clientMinor : UInt16 := protocolMinor
  delegationAllowed : Bool := false
  codec : Compression := Compression.none
  /-- The session is one of a link. -/
  link : Option Relay := none

structure ShmRegion where
  kind : ShmRegionKind
  name : Bytes
  ringBytes : UInt32
  deriving DecidableEq, Repr

/-- What the generator of a query yields, with its payload encoded, or the failure that ends it. -/
abbrev Item := Except Failure ObjectEnvelope

/-- How the engine carries out one message. -/
structure Outcomes where
  dispatch : Except Failure Bytes := .ok []
  region : Except Failure ShmRegion := .error ⟨invalidArgumentCode, [], []⟩
  queryObjects : List Item := []

/-- `FacadeCatalog::find`. -/
def findFacade (facades : List FacadeDescriptor) (facadeId : Bytes) (version : UInt32) :
    Except Failure FacadeDescriptor :=
  if facadeId = [] then .error ⟨invalidArgumentCode, text "facade_id must not be empty", []⟩
  else
    match facades.find? fun facade => facade.facadeId = facadeId ∧ facade.facadeVersion = version with
    | some facade => .ok facade
    | none =>
      if facades.any fun facade => facade.facadeId = facadeId then
        .error ⟨incompatibleFacadeVersionCode, text "incompatible facade version for '" ++ facadeId ++
          text s!"': requested {version.toNat}", []⟩
      else .error ⟨facadeNotFoundCode, text "facade not found: " ++ facadeId, []⟩

def executeOpCall (services : EngineServices) (call : OpCall) (outcome : Except Failure Bytes) :
    OpResult :=
  if services.operations = false then
    { callId := call.callId, ok := false, code := operationNotFoundCode,
      message := text "server has no operation registry" }
  else if call.actingAs.subject ≠ [] ∧ services.delegationAllowed = false then
    { callId := call.callId, ok := false, code := permissionDeniedCode,
      message := text "delegation (acting_as) requires a modb-proxy that authorizes it" }
  else
    match outcome with
    | .ok payload => { callId := call.callId, ok := true, payload }
    | .error failure =>
      { callId := call.callId, ok := false, code := failure.code, message := failure.message,
        detail := if 3 ≤ services.clientMinor then failure.detail else [] }

def openFacade (services : EngineServices) (message : FacadeOpen) : FacadeOpenOk :=
  match services.facades with
  | none =>
    { requestId := message.requestId, ok := false, code := facadeNotFoundCode,
      message := text "server has no facade catalog", facadeId := message.facadeId,
      facadeVersion := message.facadeVersion }
  | some facades =>
    match findFacade facades message.facadeId message.facadeVersion with
    | .ok facade =>
      { requestId := message.requestId, ok := true, facadeId := facade.facadeId,
        facadeVersion := facade.facadeVersion }
    | .error failure =>
      { requestId := message.requestId, ok := false, code := failure.code, message := failure.message,
        facadeId := message.facadeId, facadeVersion := message.facadeVersion }

/-- `attached`: the session already has a ring. -/
def attachShm (services : EngineServices) (attached : Bool) (message : ShmAttach)
    (region : Except Failure ShmRegion) : ShmAttachOk :=
  let region : Except Failure ShmRegion :=
    if services.allowShm = false then
      .error ⟨invalidArgumentCode, text "shared-memory ring is served by the proxy", []⟩
    else if attached then .error ⟨invalidArgumentCode, text "session already has a ring", []⟩
    else region
  match region with
  | .ok region =>
    { requestId := message.requestId, kind := region.kind, name := region.name,
      ringBytes := region.ringBytes }
  | .error failure =>
    { requestId := message.requestId, ok := false, code := failure.code, message := failure.message }

/-- The reply to a request that no worker answers; no other message is expected in a session. -/
def answer (services : EngineServices) (attached : Bool) (outcomes : Outcomes) : Message → Option Message
  | .facadeList message =>
    some (.facadeListOk { requestId := message.requestId, facades := services.facades.getD [] })
  | .facadeOpen message => some (.facadeOpenOk (openFacade services message))
  | .shmAttach message => some (.shmAttachOk (attachShm services attached message outcomes.region))
  | .opCall message => some (.opResult (executeOpCall services message outcomes.dispatch))
  | .authenticate message =>
    some (.authenticateOk { requestId := message.requestId, ok := false, code := invalidArgumentCode,
                            message := text "the engine does not authenticate; connect through a proxy" })
  | _ => none

/-! ### Streams -/

/-- Where the worker of a query is. -/
inductive Phase
  /-- The query has not been handled yet. -/
  | queued
  /-- The worker has not put its token into the table. -/
  | starting
  | beginning
  /-- The next object is asked for. -/
  | pulling
  | checking (item : Item)
  /-- The batch is full. -/
  | flushing
  /-- The last batch is sent, then the end. -/
  | ending
  | totalling
  /-- `fail_stream`: the last batch is sent, then the error. -/
  | failing (failure : Failure)
  | reporting (failure : Failure)
  | forgetting
  | exiting
  | finished
  deriving DecidableEq

/-- The stream of a query. `source` is what the generator yields as long as it is not cancelled, and
`pulled` says how much of it was asked for; `request` is how much that was when a `Cancel` for the
stream came. -/
structure Stream where
  query : Query
  source : List Item := []
  phase : Phase := .queued
  pulled : Nat := 0
  batch : List ObjectEnvelope := []
  produced : Nat := 0
  /-- The token. -/
  cancelled : Bool := false
  request : Option Nat := none

def maxInFlightObjects : Nat := 8

def Stream.frame (services : EngineServices) (stream : Stream) : Message :=
  .objectFrame { queryId := stream.query.queryId, compression := services.codec,
                 records := stream.batch }

def generated (cancelled : Bool) : Option Item → Option Item
  | some (.ok object) => if cancelled then none else some (.ok object)
  | item => item

def Stream.pull (stream : Stream) : Stream :=
  match generated stream.cancelled stream.source[stream.pulled]? with
  | none => { stream with phase := .ending }
  | some item => { stream with phase := .checking item, pulled := stream.pulled + 1 }

def Stream.check (stream : Stream) (item : Item) : Stream :=
  if stream.cancelled then { stream with phase := .ending }
  else
    match item with
    | .error failure => { stream with phase := .failing failure }
    | .ok object =>
      { stream with batch := stream.batch ++ [object],
                    produced := stream.produced + 1,
                    phase := if maxInFlightObjects ≤ stream.batch.length + 1 then .flushing
                             else .pulling }

/-- The stream has sent its last message, or it will send none any more. -/
def Stream.ended (stream : Stream) : Bool :=
  stream.phase = .forgetting ∨ stream.phase = .exiting ∨ stream.phase = .finished

/-- A `Cancel` for the stream has come. -/
def Stream.requested (stream : Stream) : Stream :=
  if stream.ended then stream else { stream with request := stream.request <|> some stream.pulled }

/-! ### Sessions -/

/-- `handled` is how many queries were handled. `sent` are the messages that the sink took, each with
the number of its stream if it belongs to one; `received` are those that came but for `Cancel`. `owed`
are the grants of credit that are on their way from the proxy. -/
structure EngineSession where
  inbox : List Message := []
  handling : Option Message := none
  closing : Bool := false
  /-- The sink takes messages. -/
  up : Bool := true
  /-- There is a ring. -/
  attached : Bool := false
  streams : List Stream := []
  handled : Nat := 0
  tokens : UInt32 → Option Nat := fun _ => none
  liveWorkers : Nat := 0
  credits : UInt32 → Nat := fun _ => 0
  owed : List (UInt32 × Nat) := []
  sent : List (Option Nat × Message) := []
  received : List Message := []

namespace EngineSession

/-- The message can be sent: the sink takes it, and it has an encoding. -/
def sends (s : EngineSession) (message : Message) : Bool := s.up ∧ (encodeMessage message).isOk

def put (s : EngineSession) (number : Option Nat) (message : Message) : EngineSession :=
  { s with sent := s.sent ++ [(number, message)] }

def setStream (s : EngineSession) (number : Nat) (stream : Stream) : EngineSession :=
  { s with streams := s.streams.set number stream }

def fail (s : EngineSession) : EngineSession := { s with closing := true, inbox := [] }

def respond (s : EngineSession) (number : Option Nat) (message : Message) : EngineSession :=
  if s.sends message then s.put number message else s.fail

/-- The body of `handle_urgent`. -/
def cancel (s : EngineSession) (id : UInt32) : EngineSession :=
  match s.tokens id with
  | none => s
  | some number =>
    { s with streams := s.streams.modify number fun stream => { stream with cancelled := true } }

/-- A `Cancel` is noted for all streams with the id. -/
def note (s : EngineSession) (id : UInt32) : EngineSession :=
  { s with streams := s.streams.map fun stream =>
      if stream.query.queryId = id then stream.requested else stream }

/-- The reader has a message. Behind a proxy, credit for at least one frame comes after each query. -/
def receive (services : EngineServices) (s : EngineSession) (message : Message) : EngineSession :=
  match message with
  | .cancel message => (s.note message.queryId).cancel message.queryId
  | .query query =>
    { s with inbox := s.inbox ++ [.query query],
             received := s.received ++ [.query query],
             streams := s.streams ++ [{ query }],
             owed := s.owed ++
               (services.link.map fun relay => (query.queryId, max 1 relay.streamCredit.toNat)).toList }
  | message => { s with inbox := s.inbox ++ [message], received := s.received ++ [message] }

def refusal (query : Query) : Message :=
  .streamError { queryId := query.queryId, code := invalidArgumentCode,
                 message := text "max concurrent streams exceeded" }

def handleQuery (services : EngineServices) (outcomes : Outcomes) (s : EngineSession)
    (stream : Stream) : EngineSession :=
  let next := { s with handled := s.handled + 1 }
  if services.maxConcurrentStreams.toNat ≤ s.liveWorkers then
    (next.setStream s.handled { stream with phase := .finished }).respond (some s.handled)
      (refusal stream.query)
  else
    { next.setStream s.handled { stream with phase := .starting, source := outcomes.queryObjects } with
      liveWorkers := s.liveWorkers + 1 }

def handle (services : EngineServices) (outcomes : Outcomes) (s : EngineSession)
    (message : Message) : EngineSession :=
  match message with
  | .query _ =>
    match s.streams[s.handled]? with
    | none => s
    | some stream => s.handleQuery services outcomes stream
  | message =>
    match answer services s.attached outcomes message with
    | none => s.fail
    | some (.shmAttachOk reply) =>
      { s with attached := s.attached || reply.ok }.respond none (.shmAttachOk reply)
    | some reply => s.respond none reply

/-! ### Workers -/

/-- The worker sends a message and is in the next phase, or it gives up. -/
def workerSend (s : EngineSession) (number : Nat) (stream : Stream) (message : Message)
    (sent failed : Phase) : EngineSession :=
  if s.sends message then
    (s.put (some number) message).setStream number { stream with phase := sent }
  else s.setStream number { stream with phase := failed }

/-- `grant`. -/
def grant (credits : UInt32 → Nat) (id : UInt32) (frames : Nat) : UInt32 → Nat :=
  Function.update credits id (min (credits id + frames) (2 ^ 32 - 1))

def waits (services : EngineServices) (s : EngineSession) (id : UInt32) : Bool :=
  services.link.isSome ∧ s.up ∧ s.credits id = 0

/-- Behind a proxy a frame takes one credit, which the proxy grants again when it has passed it on. -/
def spend (services : EngineServices) (s : EngineSession) (id : UInt32) : EngineSession :=
  match services.link with
  | none => s
  | some _ => { s with credits := Function.update s.credits id (s.credits id - 1) }

def owe (services : EngineServices) (s : EngineSession) (id : UInt32) : EngineSession :=
  match services.link with
  | none => s
  | some _ => { s with owed := s.owed ++ [(id, 1)] }

/-- `flush_batch`. -/
def flush (services : EngineServices) (s : EngineSession) (number : Nat) (stream : Stream)
    (sent failed : Phase) : Option EngineSession :=
  let id := stream.query.queryId
  if stream.batch = [] then some (s.setStream number { stream with phase := sent })
  else if s.waits services id then none
  else if s.sends (stream.frame services) then
    some ((((s.spend services id).owe services id).put (some number) (stream.frame services)).setStream
      number { stream with batch := [], phase := sent })
  else some ((s.spend services id).setStream number { stream with phase := failed })

/-- `forget_token`. -/
def forgetToken (s : EngineSession) (id : UInt32) : EngineSession :=
  { s with tokens := Function.update s.tokens id none, credits := Function.update s.credits id 0 }

/-- `run_query`, one step at a time; a worker that waits for credit has none. -/
def runQuery (services : EngineServices) (s : EngineSession) (number : Nat) (stream : Stream) :
    Option EngineSession :=
  let id := stream.query.queryId
  match stream.phase with
  | .queued => none
  | .starting =>
    some { s.setStream number { stream with phase := .beginning } with
           tokens := Function.update s.tokens id (some number) }
  | .beginning =>
    some (s.workerSend number stream (.streamBegin { queryId := id }) .pulling .forgetting)
  | .pulling => some (s.setStream number stream.pull)
  | .checking item => some (s.setStream number (stream.check item))
  | .flushing => s.flush services number stream .pulling .forgetting
  | .ending => s.flush services number stream .totalling .forgetting
  | .totalling =>
    some (s.workerSend number stream
      (.streamEnd { queryId := id, total := UInt64.ofNat stream.produced }) .forgetting .forgetting)
  | .failing failure => s.flush services number stream (.reporting failure) (.reporting failure)
  | .reporting failure =>
    some (s.workerSend number stream
      (.streamError { queryId := id, code := failure.code, message := failure.message })
      .forgetting .forgetting)
  | .forgetting => some ((s.forgetToken id).setStream number { stream with phase := .exiting })
  | .exiting =>
    some { s.setStream number { stream with phase := .finished } with
           liveWorkers := s.liveWorkers - 1 }
  | .finished => none

/-! ### Steps -/

inductive Action
  /-- The reader has a message. -/
  | receive (message : Message)
  /-- The thread of the session takes the next message out of the inbox. -/
  | take
  | handle (outcomes : Outcomes)
  | worker (number : Nat)
  /-- One of the grants of credit arrives. -/
  | grant (index : Nat)
  /-- The client or the proxy ends the session. -/
  | close
  /-- The transport fails. -/
  | disconnect
  /-- `finish` of a session that has ended. -/
  | finish

def finish (services : EngineServices) (s : EngineSession) : EngineSession :=
  { s with up := s.up && services.link.isNone,
           streams := s.streams.mapIdx fun number stream =>
             if s.tokens stream.query.queryId = some number then { stream with cancelled := true }
             else stream }

def step (services : EngineServices) (s : EngineSession) : Action → Option EngineSession
  | .receive message => if s.closing then none else some (s.receive services message)
  | .take =>
    match s.handling, s.inbox with
    | none, message :: inbox => some { s with handling := some message, inbox }
    | _, _ => none
  | .handle outcomes =>
    match s.handling with
    | none => none
    | some message => some ({ s with handling := none }.handle services outcomes message)
  | .worker number =>
    match s.streams[number]? with
    | none => none
    | some stream => s.runQuery services number stream
  | .grant index =>
    match s.owed[index]? with
    | none => none
    | some (id, frames) =>
      some { s with owed := s.owed.eraseIdx index, credits := grant s.credits id frames }
  | .close => some { s.fail with up := s.up && services.link.isNone }
  | .disconnect => some { s with up := false }
  | .finish => if s.closing ∧ s.handling = none then some (s.finish services) else none

section Inversion

variable {services : EngineServices} {s s' : EngineSession}

theorem step_receive {message : Message} (h : s.step services (.receive message) = some s') :
    s.closing = false ∧ s' = s.receive services message := by
  change (if s.closing then none else some (s.receive services message)) = some s' at h
  split at h
  · cases h
  · cases h
    exact ⟨eq_false_of_ne_true ‹_›, rfl⟩

theorem step_take (h : s.step services .take = some s') :
    ∃ message inbox, s.handling = none ∧ s.inbox = message :: inbox ∧
      s' = { s with handling := some message, inbox } := by
  change (match s.handling, s.inbox with
    | none, message :: inbox => some { s with handling := some message, inbox }
    | _, _ => none) = some s' at h
  split at h
  · cases h
    exact ⟨_, _, ‹_›, ‹_›, rfl⟩
  · cases h

theorem step_handle {outcomes : Outcomes} (h : s.step services (.handle outcomes) = some s') :
    ∃ message, s.handling = some message ∧
      s' = { s with handling := none }.handle services outcomes message := by
  change (match s.handling with
    | none => none
    | some message => some ({ s with handling := none }.handle services outcomes message)) =
      some s' at h
  split at h
  · cases h
  · cases h
    exact ⟨_, ‹_›, rfl⟩

theorem step_worker {number : Nat} (h : s.step services (.worker number) = some s') :
    ∃ stream, s.streams[number]? = some stream ∧ s.runQuery services number stream = some s' := by
  change (match s.streams[number]? with
    | none => none
    | some stream => s.runQuery services number stream) = some s' at h
  split at h
  · cases h
  · exact ⟨_, ‹_›, h⟩

theorem step_grant {index : Nat} (h : s.step services (.grant index) = some s') :
    ∃ id frames, s.owed[index]? = some (id, frames) ∧
      s' = { s with owed := s.owed.eraseIdx index, credits := EngineSession.grant s.credits id frames } := by
  change (match s.owed[index]? with
    | none => none
    | some (id, frames) =>
      some { s with owed := s.owed.eraseIdx index, credits := EngineSession.grant s.credits id frames }) =
      some s' at h
  split at h
  · cases h
  · cases h
    exact ⟨_, _, ‹_›, rfl⟩

theorem step_finish (h : s.step services .finish = some s') :
    s.closing = true ∧ s.handling = none ∧ s' = s.finish services := by
  change (if s.closing ∧ s.handling = none then some (s.finish services) else none) = some s' at h
  split at h
  · rename_i hboth
    cases h
    exact ⟨hboth.1, hboth.2, rfl⟩
  · cases h

end Inversion

/-- The steps take one state to the other, and each meets the condition. -/
inductive Run (services : EngineServices) (condition : EngineSession → Action → Prop) :
    EngineSession → List Action → EngineSession → Prop
  | refl (s : EngineSession) : Run services condition s [] s
  | tail {s mid last : EngineSession} {actions : List Action} {action : Action}
      (hrun : Run services condition s actions mid) (hmeets : condition mid action)
      (hstep : mid.step services action = some last) :
      Run services condition s (actions ++ [action]) last

theorem Run.inv {services : EngineServices} {condition : EngineSession → Action → Prop}
    {s last : EngineSession} {actions : List Action} {P : EngineSession → Prop}
    (hrun : Run services condition s actions last) (hstart : P s)
    (hkeep : ∀ {mid next : EngineSession} {action : Action}, P mid → condition mid action →
      mid.step services action = some next → P next) : P last := by
  induction hrun with
  | refl => exact hstart
  | tail hrun hmeets hstep ih => exact hkeep ih hmeets hstep

end EngineSession

end MoDb.Net
