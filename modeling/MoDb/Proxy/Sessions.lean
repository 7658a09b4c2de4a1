import MoDb.Proxy.Policy

/-!
# The sessions of a proxy

A thread reads the requests of each client, and one more those of its ring; a writer hands out what the
session has to answer; and one thread reads the link to the engine. What a policy accepts goes to the
engine, and is pending until its answer has gone through the writer, or the session closes.

A step is one round of one of these loops. The client and the engine may send anything. `Net.ProxySession`
follows one session and no policy; its rounds are those of a session here, while no request is rewritten.
-/

namespace MoDb.Proxy

open Storage (Bytes)
open Net

variable {σ ι : Type}

/-! ### Sessions -/

/-- A request on its way to the engine. -/
structure Pending where
  kind : RequestKind
  target : Bytes
  caller : Caller
  objects : Nat := 0
  deriving DecidableEq

/-- The pending requests, by the id that the client gave them. -/
abbrev Table := List (UInt32 × Pending)

namespace Table

def insert (table : Table) (id : UInt32) (entry : Pending) : Table :=
  (id, entry) :: table.filter fun pair => pair.1 ≠ id

def find (table : Table) (id : UInt32) : Option Pending :=
  (table.find? fun pair => pair.1 = id).map Prod.snd

def erase (table : Table) (id : UInt32) : Table := table.filter fun pair => pair.1 ≠ id

def count (table : Table) (id : UInt32) (objects : Nat) : Table :=
  table.map fun pair =>
    if pair.1 = id then (pair.1, { pair.2 with objects := pair.2.objects + objects }) else pair

end Table

/-- Where the thread of a client is. -/
inductive Stage
  | greeting
  /-- So many credentials were refused. -/
  | authenticating (refused : Nat)
  /-- The engine has not answered the `SessionOpen` yet; then the `Authenticate` is answered. -/
  | opening (request : Option UInt32)
  | reading
  /-- The loop has ended. -/
  | left
  | closed
  deriving DecidableEq

/-- Who has put a message into the queue to the client. -/
inductive Origin
  | proxy
  | engine
  deriving DecidableEq

/-- What became of a request. -/
structure Verdict where
  kind : RequestKind
  target : Bytes
  caller : Caller
  denied : Bool
  deriving DecidableEq

/-- A `ClientSession`; that of a ring has an owner. `sent` is what was handed to the transport.
`epoch` is the link that there was when the client came, `proof` what let the client in, `asked` what
became of its requests, `records` are those of the audit, and `running` the queries that were passed on
and have not ended. -/
structure Session (σ ι : Type) where
  owner : Option Nat := none
  client : ClientInfo := {}
  stage : Stage := .greeting
  caller : Caller := {}
  codec : Compression := Compression.none
  clientMinor : UInt16 := 0
  engineMinor : UInt16 := 0
  registered : Bool := false
  engineClosed : Bool := false
  calls : Table := []
  queries : Table := []
  facades : Table := []
  out : List (Origin × Message) := []
  outClosed : Bool := false
  writing : Bool := true
  sent : List Message := []
  epoch : Nat := 0
  proof : Option (σ × ι × Credentials) := none
  asked : List Verdict := []
  records : List AuditRecord := []
  running : List (UInt32 × Caller) := []

namespace Session

variable (session : Session σ ι)

/-- `pending_for`. -/
def table : RequestKind → Table
  | .call => session.calls
  | .query => session.queries
  | _ => session.facades

def setTable (kind : RequestKind) (table : Table) : Session σ ι :=
  match kind with
  | .call => { session with calls := table }
  | .query => { session with queries := table }
  | _ => { session with facades := table }

def push (origin : Origin) (message : Message) : Session σ ι :=
  if session.outClosed then session else { session with out := session.out ++ [(origin, message)] }

/-- A message that goes to the client at once, before there is a writer. -/
def send (message : Message) : Session σ ι := { session with sent := session.sent ++ [message] }

def pending : List Pending := ((session.calls ++ session.queries ++ session.facades).map Prod.snd)

def record (caller : Caller) (kind : RequestKind) (target : Bytes) (ok : Bool) (code : WireCode)
    (message : Bytes) (objects : Nat) (denied : Bool) : AuditRecord :=
  { caller, client := session.client.address, kind, target, ok, code, message, denied, objects }

end Session

/-! ### Before a session -/

/-- `k_attempts`. -/
def maxAttempts : Nat := 3

def protocolErrorCode : WireCode := 45

def connectionClosedCode : WireCode := 47

def unauthenticatedCode : WireCode := 73

def authenticateFirst (mechanisms : List Bytes) : Decision :=
  { allowed := false, code := unauthenticatedCode,
    message := text "authenticate first (mechanisms: " ++ (text ", ").intercalate mechanisms ++ text ")" }

/-! ### Rounds of the threads -/

section Rounds

variable (policy : Policy σ ι) (input : ι)

/-- `audit`. -/
def audit (state : σ) (session : Session σ ι) (record : AuditRecord) : σ × Session σ ι :=
  (policy.audit state input record, { session with records := session.records ++ [record] })

/-- `complete`. -/
def complete (state : σ) (session : Session σ ι) (kind : RequestKind) (id : UInt32) (ok : Bool)
    (code : WireCode) (message : Bytes) : σ × Session σ ι :=
  match (session.table kind).find id with
  | none => (state, session)
  | some done =>
    audit policy input state (session.setTable kind ((session.table kind).erase id))
      (session.record done.caller done.kind done.target ok code message done.objects false)

def settle (state : σ) (session : Session σ ι) : Message → σ × Session σ ι
  | .objectFrame frame =>
    (state, { session with queries := session.queries.count frame.queryId frame.records.length })
  | .streamEnd message =>
    complete policy input state session .query message.queryId true invalidArgumentCode []
  | .streamError message =>
    complete policy input state session .query message.queryId false message.code message.message
  | .opResult result =>
    complete policy input state session .call result.callId result.ok result.code result.message
  | .facadeListOk list =>
    complete policy input state session .facadeList list.requestId true invalidArgumentCode []
  | .facadeOpenOk facade =>
    complete policy input state session .facadeOpen facade.requestId facade.ok facade.code facade.message
  | _ => (state, session)

def shown (session : Session σ ι) : Message → Message
  | .opResult result =>
    .opResult { result with detail := if session.clientMinor < 3 then [] else result.detail }
  | .objectFrame frame => .objectFrame { frame with compression := session.codec }
  | message => message

def endedQuery : Message → Option UInt32
  | .streamEnd message => some message.queryId
  | .streamError message => some message.queryId
  | _ => none

def Session.finish (session : Session σ ι) (origin : Origin) (message : Message) : Session σ ι :=
  match origin, endedQuery message with
  | .engine, some id => { session with running := session.running.eraseP fun query => query.1 = id }
  | _, _ => session

/-- A round of `writer_loop`; the transport takes the message, or it does not. -/
def writeOut (delivered : Bool) (state : σ) (session : Session σ ι) : Option (σ × Session σ ι) :=
  match session.writing, session.out with
  | true, (origin, response) :: out =>
    let (response, state) := policy.onResponse state input session.caller response
    let message := shown session response
    let (state, session) := settle policy input state ({ session with out }.finish origin message) message
    some (state,
      if delivered then session.send message else { session with writing := false })
  | _, _ => none

def abandon (result : σ × Session σ ι) (entry : Pending) : σ × Session σ ι :=
  audit policy input result.1 result.2
    (result.2.record entry.caller entry.kind entry.target false connectionClosedCode
      (text "client left before the answer") entry.objects false)

/-- `close_session`, and `close_out`: what is pending is given up. -/
def closeSession (state : σ) (session : Session σ ι) : σ × Session σ ι :=
  session.pending.foldl (abandon policy input)
    (state, { session with registered := false, stage := .closed, outClosed := true, running := [],
                           calls := [], queries := [], facades := [] })

/-- `check_delegation`, and then the policy: the decision, the request as it goes on, its caller. -/
def decide (state : σ) (session : Session σ ι) (request : Message) : Decision × Message × Caller × σ :=
  match checkDelegation session.caller request session.engineMinor with
  | (some refusal, effective) => (refusal, request, effective, state)
  | (none, effective) =>
    let (decision, message, state) := policy.authorize state input effective request
    (decision, message, effective, state)

end Rounds

/-- What is to be audited of a request: the kind and the target that the policy leaves it. -/
def verdict (request message : Message) (caller : Caller) (allowed : Bool) : List Verdict :=
  match requestKey message <|> requestKey request with
  | some key => [{ kind := key.kind, target := key.target, caller, denied := !allowed }]
  | none => []

def startedQuery (message : Message) (caller : Caller) : List (UInt32 × Caller) :=
  match message with
  | .query query => [(query.queryId, caller)]
  | _ => []

namespace Session

def note (session : Session σ ι) (verdicts : List Verdict) : Session σ ι :=
  { session with asked := session.asked ++ verdicts }

def pend (session : Session σ ι) (message : Message) (effective : Caller) : Session σ ι :=
  match requestKey message with
  | some key =>
    session.setTable key.kind
      ((session.table key.kind).insert key.id ⟨key.kind, key.target, effective, 0⟩)
  | none => session

def start (session : Session σ ι) (message : Message) (effective : Caller) : Session σ ι :=
  { session with running := session.running ++ startedQuery message effective }

end Session

def refuse (policy : Policy σ ι) (input : ι) (state : σ) (session : Session σ ι) (decision : Decision)
    (message : Message) (effective : Caller) : σ × Session σ ι :=
  let (state, session) :=
    match requestKey message with
    | some key =>
      audit policy input state session
        (session.record effective key.kind key.target false decision.code decision.message 0 true)
    | none => (state, session)
  (state,
    match denial decision message with
    | some reply => session.push .proxy reply
    | none => session)

/-- A call of a ring is refused, or the policy has made something else of it. -/
def refuseRing (policy : Policy σ ι) (input : ι) (state : σ) (session : Session σ ι) (decision : Decision)
    (message : Message) (effective : Caller) : σ × Session σ ι :=
  let (id, target) :=
    match message with
    | .opCall call => (call.callId, call.operationId)
    | _ => (0, [])
  let (state, session) := audit policy input state session
    (session.record effective .call target false decision.code decision.message 0 true)
  (state, session.push .proxy
    (.opResult { callId := id, ok := false, code := decision.code, message := decision.message }))

/-! ### The proxy -/

/-- `link` is the minor of the engine at the other end, and `epoch` says how often there was a new one.
`forwarded` are the messages that went to the engine, each with its session. -/
structure State (σ ι : Type) where
  policy : σ
  link : Option UInt16 := none
  epoch : Nat := 0
  sessions : List (Session σ ι) := []
  forwarded : List (Nat × Message) := []

namespace State

def setSession (s : State σ ι) (i : Nat) (session : Session σ ι) : State σ ι :=
  { s with sessions := s.sessions.set i session }

def put (s : State σ ι) (i : Nat) (result : σ × Session σ ι) : State σ ι :=
  { s with policy := result.1 }.setSession i result.2

/-- `send_engine`, with the session as it is if that fails. -/
def sendEngine (s : State σ ι) (i : Nat) (message : Message) (session failed : Session σ ι) : State σ ι :=
  match s.link with
  | none => s.setSession i failed
  | some _ => { s with forwarded := s.forwarded ++ [(i, message)] }.setSession i session

theorem sendEngine_cases (s : State σ ι) (i : Nat) (message : Message) (session failed : Session σ ι) :
    s.link = none ∧ s.sendEngine i message session failed = s.setSession i failed ∨
      s.link.isSome = true ∧ s.sendEngine i message session failed =
        { s with forwarded := s.forwarded ++ [(i, message)] }.setSession i session := by
  unfold sendEngine
  cases s.link with
  | none => exact .inl ⟨rfl, rfl⟩
  | some minor => exact .inr ⟨rfl, rfl⟩

/-- `shm_session` of a client. -/
def ringOf (s : State σ ι) (i : Nat) : Option Nat := s.sessions.findIdx? fun ring => ring.owner = some i

variable (policy : Policy σ ι) (input : ι)

/-! ### The reader of a client -/

def handleRequest (s : State σ ι) (i : Nat) (session : Session σ ι) (request : Message) : State σ ι :=
  let (decision, message, effective, state) := decide policy input s.policy session request
  let session := session.note (verdict request message effective decision.allowed)
  if decision.allowed = false then
    s.put i (refuse policy input state session decision message effective)
  else
    let session := session.pend message effective
    { s with policy := state }.sendEngine i message (session.start message effective)
      { session with stage := .left }

/-- `attach_ring`; `opened` says whether the engine opens a session for the ring. -/
def attachRing (s : State σ ι) (i : Nat) (session : Session σ ι) (attach : ShmAttach)
    (region : Except Failure ShmRegion) (opened : Bool) : State σ ι :=
  let refuse (code : WireCode) (message : Bytes) : State σ ι :=
    s.setSession i (session.push .proxy
      (.shmAttachOk { requestId := attach.requestId, ok := false, code, message }))
  if (s.ringOf i).isSome then refuse invalidArgumentCode (text "session already has a ring")
  else
    match region with
    | .error failure => refuse failure.code failure.message
    | .ok region =>
      if s.link = none ∨ opened = false then
        refuse connectionClosedCode (text "engine did not open the ring session")
      else
        let ring : Session σ ι :=
          { owner := some i, client := session.client, stage := .reading, caller := session.caller,
            clientMinor := session.clientMinor, engineMinor := session.engineMinor, registered := true,
            epoch := session.epoch, proof := session.proof }
        let session := session.push .proxy
          (.shmAttachOk { requestId := attach.requestId, kind := region.kind, name := region.name,
                          ringBytes := region.ringBytes })
        { s.setSession i session with sessions := (s.setSession i session).sessions ++ [ring] }

/-- A round of the loop of `handle_client`. -/
def readClient (s : State σ ι) (i : Nat) (session : Session σ ι) (message : Message)
    (region : Except Failure ShmRegion) (opened : Bool) : State σ ι :=
  match message with
  | .cancel message => s.sendEngine i (.cancel message) session { session with stage := .left }
  | .authenticate message =>
    s.setSession i (session.push .proxy
      (.authenticateOk { requestId := message.requestId, ok := false, code := invalidArgumentCode,
                         message := text "already authenticated" }))
  | .shmAttach attach => s.attachRing i session attach region opened
  | message =>
    if isClientRequest message = false then s.setSession i { session with stage := .left }
    else s.handleRequest policy input i session message

/-- A round of `ring_loop`; a message that cannot be decoded is none. -/
def readRing (s : State σ ι) (i : Nat) (session : Session σ ι) (request : Option Message) : State σ ι :=
  match request with
  | some (.opCall call) =>
    let (decision, message, effective, state) := decide policy input s.policy session (.opCall call)
    let session := session.note (verdict (.opCall call) message effective decision.allowed)
    match decision.allowed, message with
    | true, .opCall call =>
      let session := session.pend (.opCall call) effective
      { s with policy := state }.sendEngine i (.opCall call) session
        { session.push .proxy (.opResult { callId := call.callId, ok := false, code := connectionClosedCode,
                                           message := text "link to the engine is down" }) with
          stage := .left }
    | _, message => s.put i (refuseRing policy input state session decision message effective)
  | request =>
    let asked := (request.map fun message => verdict message message session.caller false).getD []
    s.setSession i ((session.note asked).push .proxy
      (.opResult { ok := false, code := protocolErrorCode,
                   message := text "only OpCall travels over the shared-memory ring" }))

/-! ### A client is let in -/

/-- `register_session`, and the `SessionOpen`. -/
def openSession (s : State σ ι) (i : Nat) (session : Session σ ι) (request : Option UInt32)
    (failed : Session σ ι) : State σ ι :=
  match s.link with
  | none => s.setSession i failed
  | some _ => s.setSession i { session with stage := .opening request, registered := true }

def unavailable (session : Session σ ι) (request : Option UInt32) : Session σ ι :=
  let session := { session with registered := false, stage := .closed }
  match request with
  | none => session
  | some request =>
    session.send (.authenticateOk { requestId := request, ok := false, code := connectionClosedCode,
                                    message := text "engine unavailable" })

/-- `authenticate_client` calls the policy. -/
def authenticate (s : State σ ι) (i : Nat) (session : Session σ ι) (request : Option UInt32)
    (credentials : Credentials) (refuse : Failure → σ × Session σ ι → σ × Session σ ι) : State σ ι :=
  match policy.authenticate s.policy input session.client credentials with
  | (.error failure, state) => s.put i (refuse failure (state, session))
  | (.ok caller, state) =>
    let session := { session with caller, proof := some (s.policy, input, credentials) }
    { s with policy := state }.openSession i session request (unavailable session request)

def greet (s : State σ ι) (i : Nat) (session : Session σ ι) (message : Message)
    (negotiated : Option (UInt16 × Compression)) : State σ ι :=
  match message, s.link, negotiated with
  | .hello _, some engineMinor, some (minor, codec) =>
    let session :=
      { session with codec, clientMinor := min minor engineMinor, engineMinor, epoch := s.epoch }
    if policy.mechanisms = [] then
      s.authenticate policy input i session none {} fun _ (state, session) =>
        (state, { session with stage := .closed })
    else s.setSession i { session with stage := .authenticating 0 }
  | _, _, _ => s.setSession i { session with stage := .closed }

def refuseCredential (refused : Nat) (message : Authenticate) (failure : Failure)
    (result : σ × Session σ ι) : σ × Session σ ι :=
  let (state, session) := audit policy input result.1 result.2
    (result.2.record result.2.caller .authenticate message.mechanism false failure.code failure.message 0
      true)
  (state, { session with
    stage := if refused + 1 < maxAttempts then .authenticating (refused + 1) else .closed }.send
      (.authenticateOk { requestId := message.requestId, ok := false, code := failure.code,
                         message := failure.message }))

/-- A round of the loop of `authenticate_client`. -/
def readCredentials (s : State σ ι) (i : Nat) (session : Session σ ι) (refused : Nat)
    (message : Message) : State σ ι :=
  match message with
  | .cancel _ => s
  | .authenticate message =>
    s.authenticate policy input i session (some message.requestId) ⟨message.mechanism, message.payload⟩
      (refuseCredential policy input refused message)
  | message =>
    if isClientRequest message = false then s.setSession i { session with stage := .closed }
    else
      match denial (authenticateFirst policy.mechanisms) message with
      | some reply => s.setSession i (session.send reply)
      | none => s

/-- The engine has answered the `SessionOpen`, or the wait for it is over. -/
def opened (s : State σ ι) (i : Nat) (session : Session σ ι) (request : Option UInt32) (ok : Bool) :
    State σ ι :=
  if ok = false then s.setSession i (unavailable session request)
  else
    let session := { session with stage := .reading }
    match request with
    | none => s.setSession i session
    | some request =>
      let mechanism := (session.proof.map fun proof => proof.2.2.mechanism).getD []
      let (state, session) := audit policy input s.policy session
        (session.record session.caller .authenticate mechanism true invalidArgumentCode [] 0 false)
      s.put i (state, session.send
        (.authenticateOk { requestId := request, code := invalidArgumentCode,
                           principal := session.caller.principal }))

/-! ### The end of a session -/

/-- The end of `handle_client`: the session of the ring is closed first. -/
def closeClient (s : State σ ι) (i : Nat) (session : Session σ ι) : State σ ι :=
  let s :=
    match (s.ringOf i).bind fun j => s.sessions[j]?.map fun ring => (j, ring) with
    | some (j, ring) => s.put j (closeSession policy input s.policy ring)
    | none => s
  s.put i (closeSession policy input s.policy session)

end State

/-! ### Steps -/

inductive Action (ι : Type)
  | accept (client : ClientInfo)
  | hello (i : Nat) (message : Message) (negotiated : Option (UInt16 × Compression)) (input : ι)
  | read (i : Nat) (message : Message) (region : Except Failure ShmRegion) (opened : Bool) (input : ι)
  | readRing (i : Nat) (message : Option Message) (input : ι)
  | opened (i : Nat) (ok : Bool) (input : ι)
  /-- The link has a message for a session. -/
  | engine (i : Nat) (message : Message)
  /-- The engine closes a session. -/
  | engineClose (i : Nat)
  | write (i : Nat) (delivered : Bool) (input : ι)
  /-- The loop of a reader ends: the client has gone, or it sent what cannot be read. -/
  | leave (i : Nat)
  | close (i : Nat) (input : ι)
  | linkDown
  | linkUp (engineMinor : UInt16) (info : EngineInfo) (input : ι)

def State.step (policy : Policy σ ι) (s : State σ ι) : Action ι → Option (State σ ι)
  | .accept client => some { s with sessions := s.sessions ++ [{ client }] }
  | .hello i message negotiated input => do
    let session ← s.sessions[i]?
    match session.stage with
    | .greeting => some (s.greet policy input i session message negotiated)
    | _ => none
  | .read i message region opened input => do
    let session ← s.sessions[i]?
    match session.owner, session.stage with
    | none, .authenticating refused => some (s.readCredentials policy input i session refused message)
    | none, .reading => some (s.readClient policy input i session message region opened)
    | _, _ => none
  | .readRing i message input => do
    let session ← s.sessions[i]?
    match session.owner, session.stage with
    | some _, .reading => some (s.readRing policy input i session message)
    | _, _ => none
  | .opened i ok input => do
    let session ← s.sessions[i]?
    match session.stage with
    | .opening request => some (s.opened policy input i session request ok)
    | _ => none
  | .engine i message => do
    let session ← s.sessions[i]?
    if session.registered then some (s.setSession i (session.push .engine message)) else none
  | .engineClose i => do
    let session ← s.sessions[i]?
    if session.registered then some (s.setSession i { session with engineClosed := true }) else none
  | .write i delivered input => do
    let session ← s.sessions[i]?
    let result ← writeOut policy input delivered s.policy session
    some (s.put i result)
  | .leave i => do
    let session ← s.sessions[i]?
    match session.stage with
    | .greeting | .authenticating _ => some (s.setSession i { session with stage := .closed })
    | .reading => some (s.setSession i { session with stage := .left })
    | _ => none
  | .close i input => do
    let session ← s.sessions[i]?
    match session.owner, session.stage with
    | none, .left => some (s.closeClient policy input i session)
    | _, _ => none
  | .linkDown =>
    some { s with link := none,
                  sessions := s.sessions.map fun session =>
                    if session.registered then { session with engineClosed := true } else session }
  | .linkUp engineMinor info input =>
    match s.link with
    | some _ => none
    | none =>
      some { s with policy := policy.onEngine s.policy input info, link := some engineMinor,
                    epoch := s.epoch + 1 }

/-! ### What a step does -/

section Inversion

variable {policy : Policy σ ι} {s s' : State σ ι} {i : Nat} {input : ι} {message : Message}

theorem step_hello {negotiated : Option (UInt16 × Compression)}
    (h : s.step policy (.hello i message negotiated input) = some s') :
    ∃ session, s.sessions[i]? = some session ∧ session.stage = .greeting ∧
      s' = s.greet policy input i session message negotiated := by
  obtain ⟨session, hsession, hmore⟩ := Option.bind_eq_some_iff.1 h
  refine ⟨session, hsession, ?_⟩
  split at hmore
  · rename_i hstage
    cases hmore
    exact ⟨hstage, rfl⟩
  · cases hmore

theorem step_read {region : Except Failure ShmRegion} {opened : Bool}
    (h : s.step policy (.read i message region opened input) = some s') :
    ∃ session, s.sessions[i]? = some session ∧ session.owner = none ∧
      ((∃ refused, session.stage = .authenticating refused ∧
          s' = s.readCredentials policy input i session refused message) ∨
        session.stage = .reading ∧ s' = s.readClient policy input i session message region opened) := by
  obtain ⟨session, hsession, hmore⟩ := Option.bind_eq_some_iff.1 h
  refine ⟨session, hsession, ?_⟩
  split at hmore
  · rename_i howner hstage
    cases hmore
    exact ⟨howner, .inl ⟨_, hstage, rfl⟩⟩
  · rename_i howner hstage
    cases hmore
    exact ⟨howner, .inr ⟨hstage, rfl⟩⟩
  · cases hmore

theorem step_readRing {request : Option Message}
    (h : s.step policy (.readRing i request input) = some s') :
    ∃ session, s.sessions[i]? = some session ∧ session.owner.isSome = true ∧ session.stage = .reading ∧
      s' = s.readRing policy input i session request := by
  obtain ⟨session, hsession, hmore⟩ := Option.bind_eq_some_iff.1 h
  refine ⟨session, hsession, ?_⟩
  split at hmore
  · rename_i howner hstage
    cases hmore
    exact ⟨by rw [howner]; rfl, hstage, rfl⟩
  · cases hmore

theorem step_opened {ok : Bool} (h : s.step policy (.opened i ok input) = some s') :
    ∃ session request, s.sessions[i]? = some session ∧ session.stage = .opening request ∧
      s' = s.opened policy input i session request ok := by
  obtain ⟨session, hsession, hmore⟩ := Option.bind_eq_some_iff.1 h
  split at hmore
  · rename_i request hstage
    cases hmore
    exact ⟨session, request, hsession, hstage, rfl⟩
  · cases hmore

theorem step_engine (h : s.step policy (.engine i message) = some s') :
    ∃ session, s.sessions[i]? = some session ∧ session.registered = true ∧
      s' = s.setSession i (session.push .engine message) := by
  obtain ⟨session, hsession, hmore⟩ := Option.bind_eq_some_iff.1 h
  split at hmore
  · rename_i hregistered
    cases hmore
    exact ⟨session, hsession, hregistered, rfl⟩
  · cases hmore

theorem step_engineClose (h : s.step policy (.engineClose i) = some s') :
    ∃ session, s.sessions[i]? = some session ∧ session.registered = true ∧
      s' = s.setSession i { session with engineClosed := true } := by
  obtain ⟨session, hsession, hmore⟩ := Option.bind_eq_some_iff.1 h
  split at hmore
  · rename_i hregistered
    cases hmore
    exact ⟨session, hsession, hregistered, rfl⟩
  · cases hmore

theorem step_write {delivered : Bool} (h : s.step policy (.write i delivered input) = some s') :
    ∃ session result, s.sessions[i]? = some session ∧
      writeOut policy input delivered s.policy session = some result ∧ s' = s.put i result := by
  obtain ⟨session, hsession, hmore⟩ := Option.bind_eq_some_iff.1 h
  obtain ⟨result, hresult, hput⟩ := Option.bind_eq_some_iff.1 hmore
  cases hput
  exact ⟨session, result, hsession, hresult, rfl⟩

theorem step_leave (h : s.step policy (.leave i) = some s') :
    ∃ session stage, s.sessions[i]? = some session ∧ s' = s.setSession i { session with stage } ∧
      (stage = .closed ∧ (session.stage = .greeting ∨ ∃ refused, session.stage = .authenticating refused) ∨
        stage = .left ∧ session.stage = .reading) := by
  obtain ⟨session, hsession, hmore⟩ := Option.bind_eq_some_iff.1 h
  split at hmore
  · rename_i hstage
    cases hmore
    exact ⟨session, _, hsession, rfl, .inl ⟨rfl, .inl hstage⟩⟩
  · rename_i refused hstage
    cases hmore
    exact ⟨session, _, hsession, rfl, .inl ⟨rfl, .inr ⟨refused, hstage⟩⟩⟩
  · rename_i hstage
    cases hmore
    exact ⟨session, _, hsession, rfl, .inr ⟨rfl, hstage⟩⟩
  · cases hmore

theorem step_close (h : s.step policy (.close i input) = some s') :
    ∃ session, s.sessions[i]? = some session ∧ session.owner = none ∧ session.stage = .left ∧
      s' = s.closeClient policy input i session := by
  obtain ⟨session, hsession, hmore⟩ := Option.bind_eq_some_iff.1 h
  split at hmore
  · rename_i howner hstage
    cases hmore
    exact ⟨session, hsession, howner, hstage, rfl⟩
  · cases hmore

theorem step_linkUp {minor : UInt16} {info : EngineInfo}
    (h : s.step policy (.linkUp minor info input) = some s') : s.link = none ∧
      s' = { s with policy := policy.onEngine s.policy input info, link := some minor,
                    epoch := s.epoch + 1 } := by
  change (match s.link with
    | some _ => none
    | none => some { s with policy := policy.onEngine s.policy input info, link := some minor,
                            epoch := s.epoch + 1 }) = some s' at h
  split at h
  · cases h
  · rename_i hlink
    cases h
    exact ⟨hlink, rfl⟩

end Inversion

/-- The steps take one state to the other, and each meets the condition. -/
inductive Run (policy : Policy σ ι) (condition : State σ ι → Action ι → Prop) :
    State σ ι → List (Action ι) → State σ ι → Prop
  | refl (s : State σ ι) : Run policy condition s [] s
  | tail {s mid last : State σ ι} {actions : List (Action ι)} {action : Action ι}
      (hrun : Run policy condition s actions mid) (hmeets : condition mid action)
      (hstep : mid.step policy action = some last) :
      Run policy condition s (actions ++ [action]) last

theorem Run.inv {policy : Policy σ ι} {condition : State σ ι → Action ι → Prop}
    {s last : State σ ι} {actions : List (Action ι)} {P : State σ ι → Prop}
    (hrun : Run policy condition s actions last) (hstart : P s)
    (hkeep : ∀ {mid next : State σ ι} {action : Action ι}, P mid → condition mid action →
      mid.step policy action = some next → P next) : P last := by
  induction hrun with
  | refl => exact hstart
  | tail hrun hmeets hstep ih => exact hkeep ih hmeets hstep

theorem Run.append {policy : Policy σ ι} {s mid last : State σ ι} {earlier actions : List (Action ι)}
    (hrun : Run policy (fun _ _ => True) s earlier mid)
    (h : actions.foldlM (State.step policy) mid = some last) :
    Run policy (fun _ _ => True) s (earlier ++ actions) last := by
  induction actions generalizing earlier mid with
  | nil =>
    cases h
    rwa [List.append_nil]
  | cons action actions ih =>
    obtain ⟨next, hnext, hlast⟩ := Option.bind_eq_some_iff.1 h
    have hmore := ih (hrun.tail trivial hnext) hlast
    rwa [List.append_assoc] at hmore

/-! ### One session by itself -/

/-- The session is one whose order of results is followed: whether its loop goes on, the queue to the client,
and what has gone to the engine are the same. -/
structure Shows (s : State σ ι) (i : Nat) (session : Session σ ι) (p : ProxySession) : Prop where
  mem : s.sessions[i]? = some session
  reading : session.stage = .reading ↔ p.reading = true
  outOpen : session.outClosed = false
  out : session.out.map Prod.snd = p.out
  forwarded : (s.forwarded.filter fun entry => entry.1 = i).map Prod.snd = p.forwarded

/-- Of a session, what shows in the other has not changed. -/
structure Alike (session session' : Session σ ι) : Prop where
  stage : session'.stage = session.stage
  outClosed : session'.outClosed = session.outClosed
  out : session'.out = session.out

section Shows

variable {policy : Policy σ ι} {input : ι} {s : State σ ι} {i : Nat} {session session' : Session σ ι}
  {p : ProxySession} {message : Message}

theorem Alike.trans {first second third : Session σ ι} (h : Alike first second) (h' : Alike second third) :
    Alike first third :=
  ⟨h'.stage.trans h.stage, h'.outClosed.trans h.outClosed, h'.out.trans h.out⟩

theorem alike_note (session : Session σ ι) (verdicts : List Verdict) : Alike session (session.note verdicts) :=
  ⟨rfl, rfl, rfl⟩

theorem alike_setTable (session : Session σ ι) (kind : RequestKind) (table : Table) :
    Alike session (session.setTable kind table) := by
  cases kind with
  | _ => exact ⟨rfl, rfl, rfl⟩

theorem alike_pend (session : Session σ ι) (message : Message) (effective : Caller) :
    Alike session (session.pend message effective) := by
  unfold Session.pend
  cases requestKey message with
  | none => exact ⟨rfl, rfl, rfl⟩
  | some key => exact alike_setTable session key.kind _

theorem alike_complete (policy : Policy σ ι) (input : ι) (state : σ) (session : Session σ ι)
    (kind : RequestKind) (id : UInt32) (ok : Bool) (code : WireCode) (message : Bytes) :
    Alike session (complete policy input state session kind id ok code message).2 := by
  unfold complete
  cases (session.table kind).find id with
  | none => exact ⟨rfl, rfl, rfl⟩
  | some done =>
    have halike := alike_setTable session kind ((session.table kind).erase id)
    exact ⟨halike.stage, halike.outClosed, halike.out⟩

theorem alike_settle (policy : Policy σ ι) (input : ι) (state : σ) (session : Session σ ι) (message : Message) :
    Alike session (settle policy input state session message).2 := by
  unfold settle
  split
  · exact ⟨rfl, rfl, rfl⟩
  all_goals first | exact alike_complete policy input state session _ _ _ _ _ | exact ⟨rfl, rfl, rfl⟩

theorem alike_finish (session : Session σ ι) (origin : Origin) (message : Message) :
    Alike session (session.finish origin message) := by
  unfold Session.finish
  split <;> exact ⟨rfl, rfl, rfl⟩

namespace Shows

theorem put (h : Shows s i session p) (halike : Alike session session') (state : σ) :
    Shows (s.put i (state, session')) i session' p where
  mem := List.getElem?_set_self (List.getElem?_eq_some_iff.1 h.mem).1
  reading := halike.stage ▸ h.reading
  outOpen := halike.outClosed.trans h.outOpen
  out := halike.out ▸ h.out
  forwarded := h.forwarded

theorem push (h : Shows s i session p) (halike : Alike session session') (state : σ) (origin : Origin)
    (message : Message) :
    Shows (s.put i (state, session'.push origin message)) i (session'.push origin message) (p.push message) := by
  have hpush : session'.push origin message = { session' with out := session'.out ++ [(origin, message)] } := by
    rw [Session.push, halike.outClosed, h.outOpen]
    rfl
  rw [hpush]
  refine ⟨List.getElem?_set_self (List.getElem?_eq_some_iff.1 h.mem).1, halike.stage ▸ h.reading,
    halike.outClosed.trans h.outOpen, ?_, h.forwarded⟩
  rw [List.map_append, halike.out, h.out]
  rfl

theorem sendEngine (h : Shows s i session p) (halike : Alike session session') (hlink : s.link.isSome = true)
    (state : σ) (failed : Session σ ι) (message : Message) :
    Shows ({ s with policy := state }.sendEngine i message session' failed) i session'
      (p.sendEngine message) := by
  rcases State.sendEngine_cases { s with policy := state } i message session' failed with
    ⟨hnone, -⟩ | ⟨-, hsend⟩
  · rw [show s.link = none from hnone] at hlink
    cases hlink
  rw [hsend]
  refine ⟨List.getElem?_set_self (List.getElem?_eq_some_iff.1 h.mem).1, halike.stage ▸ h.reading,
    halike.outClosed.trans h.outOpen, halike.out ▸ h.out, ?_⟩
  change ((s.forwarded ++ [(i, message)]).filter _).map Prod.snd = p.forwarded ++ [message]
  rw [List.filter_append, List.map_append, h.forwarded]
  simp

theorem refuse (h : Shows s i session p) (halike : Alike session session') (state : σ) (decision : Decision)
    (message : Message) (effective : Caller) :
    ∃ refused, Shows (s.put i (refuse policy input state session' decision message effective)) i refused
      (match denial decision message with
        | some reply => p.push reply
        | none => p) := by
  have haudited : ∃ state' audited, Alike session' audited ∧
      Proxy.refuse policy input state session' decision message effective =
        (state', match denial decision message with
          | some reply => audited.push .proxy reply
          | none => audited) := by
    unfold Proxy.refuse
    cases requestKey message with
    | none => exact ⟨state, session', ⟨rfl, rfl, rfl⟩, rfl⟩
    | some key => exact ⟨_, { session' with records := session'.records ++ [_] }, ⟨rfl, rfl, rfl⟩, rfl⟩
  obtain ⟨state', audited, haudited, heq⟩ := haudited
  rw [heq]
  have hsame := halike.trans haudited
  cases denial decision message with
  | none => exact ⟨audited, h.put hsame state'⟩
  | some reply => exact ⟨_, h.push hsame state' .proxy reply⟩

theorem handleRequest (h : Shows s i session p) (hlink : s.link.isSome = true)
    (hkept : (decide policy input s.policy session message).2.1 = message) :
    ∃ handled, Shows (s.handleRequest policy input i session message) i handled
      (if (decide policy input s.policy session message).1.allowed then p.sendEngine message
       else match denial (decide policy input s.policy session message).1 message with
         | some reply => p.push reply
         | none => p) := by
  unfold State.handleRequest
  generalize decide policy input s.policy session message = result at hkept ⊢
  obtain ⟨decision, rewritten, effective, state⟩ := result
  obtain rfl : rewritten = message := hkept
  dsimp only
  have hnoted := alike_note session (verdict rewritten rewritten effective decision.allowed)
  cases hallowed : decision.allowed with
  | true =>
    rw [if_neg (by simp), if_pos rfl]
    have hpended := alike_pend (session.note (verdict rewritten rewritten effective true)) rewritten effective
    have hstarted : Alike session
        (((session.note (verdict rewritten rewritten effective true)).pend rewritten effective).start rewritten
          effective) := ⟨hpended.stage, hpended.outClosed, hpended.out⟩
    exact ⟨_, h.sendEngine hstarted hlink state _ rewritten⟩
  | false =>
    rw [if_pos rfl, if_neg (by simp)]
    exact h.refuse (alike_note session _) state decision rewritten effective

theorem join (h : Shows s i session p) (ring : Session σ ι) :
    Shows { s with sessions := s.sessions ++ [ring] } i session p where
  mem := by
    rw [List.getElem?_append_left (List.getElem?_eq_some_iff.1 h.mem).1]
    exact h.mem
  reading := h.reading
  outOpen := h.outOpen
  out := h.out
  forwarded := h.forwarded

theorem attachRing (h : Shows s i session p) (attach : ShmAttach) (region : Except Failure ShmRegion)
    (opened : Bool) : ∃ handled attached, Shows (s.attachRing i session attach region opened) i handled
      (p.push (.shmAttachOk attached)) := by
  unfold State.attachRing
  dsimp only
  split
  · exact ⟨_, _, h.push ⟨rfl, rfl, rfl⟩ s.policy .proxy _⟩
  · split
    · exact ⟨_, _, h.push ⟨rfl, rfl, rfl⟩ s.policy .proxy _⟩
    · split
      · exact ⟨_, _, h.push ⟨rfl, rfl, rfl⟩ s.policy .proxy _⟩
      · exact ⟨_, _, (h.push ⟨rfl, rfl, rfl⟩ s.policy .proxy _).join _⟩

theorem request (h : Shows s i session p) (hlink : s.link.isSome = true)
    (hkept : (decide policy input s.policy session message).2.1 = message) :
    ∃ handled, Shows
      (if isClientRequest message = false then s.setSession i { session with stage := .left }
       else s.handleRequest policy input i session message) i handled
      (if isClientRequest message = false then p.leave
       else if (decide policy input s.policy session message).1.allowed then p.sendEngine message
       else match denial (decide policy input s.policy session message).1 message with
         | some reply => p.push reply
         | none => p) := by
  cases isClientRequest message with
  | false =>
    refine ⟨{ session with stage := .left }, ?_⟩
    exact ⟨List.getElem?_set_self (List.getElem?_eq_some_iff.1 h.mem).1, iff_of_false nofun nofun, h.outOpen,
      h.out, h.forwarded⟩
  | true => exact h.handleRequest hlink hkept

theorem readClient (h : Shows s i session p) (hlink : s.link.isSome = true) (region : Except Failure ShmRegion)
    (opened : Bool) (hkept : (decide policy input s.policy session message).2.1 = message) :
    ∃ handled attached, Shows (s.readClient policy input i session message region opened) i handled
      (p.handleClient (decide policy input s.policy session message).1 attached message) := by
  have hrequest := h.request hlink hkept
  cases message with
  | cancel cancel => exact ⟨session, {}, h.sendEngine ⟨rfl, rfl, rfl⟩ hlink s.policy _ (.cancel cancel)⟩
  | authenticate request => exact ⟨_, {}, h.push ⟨rfl, rfl, rfl⟩ s.policy .proxy _⟩
  | shmAttach attach => exact h.attachRing attach region opened
  | _ =>
    obtain ⟨handled, hhandled⟩ := hrequest
    exact ⟨handled, {}, hhandled⟩

theorem writeOut {delivered : Bool} {result : σ × Session σ ι} (h : Shows s i session p)
    (hwrite : writeOut policy input delivered s.policy session = some result) :
    ∃ message out, p.out = message :: out ∧ Shows (s.put i result) i result.2 { p with out } := by
  unfold Proxy.writeOut at hwrite
  split at hwrite
  · rename_i origin response out _ hout
    set answer := policy.onResponse s.policy input session.caller response
    set message := shown session answer.1
    have hsettled := (alike_finish { session with out } origin message).trans
      (alike_settle policy input answer.2 ({ session with out }.finish origin message) message)
    have hleft : Shows (s.setSession i { session with out }) i { session with out }
        { p with out := out.map Prod.snd } :=
      ⟨List.getElem?_set_self (List.getElem?_eq_some_iff.1 h.mem).1, h.reading, h.outOpen, rfl, h.forwarded⟩
    have hout : p.out = response :: out.map Prod.snd := by
      rw [← h.out, hout]
      rfl
    refine ⟨response, out.map Prod.snd, hout, ?_⟩
    have hlast : Alike { session with out } result.2 := by
      obtain rfl := Option.some.inj hwrite
      dsimp only
      split <;> exact ⟨hsettled.stage, hsettled.outClosed, hsettled.out⟩
    have hput := hleft.put hlast result.1
    rwa [State.put, State.setSession, State.setSession, List.set_set] at hput
  · cases hwrite

end Shows

end Shows

end MoDb.Proxy
