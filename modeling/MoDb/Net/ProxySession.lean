import MoDb.Net.SessionAnswers

/-!
# The order of results

A client sends calls and waits for no answer. The engine answers the calls of a session in their order.
In front of it a proxy passes the requests on, but those that its policy denies it answers itself, into
the same queue to the client: such an answer overtakes the answers that are still on their way.

A ring of a client behind a proxy is a session of its own, with the rings in place of the socket.
-/

namespace MoDb.Net

variable {services : EngineServices}

def callId : Message → Option UInt32
  | .opCall message => some message.callId
  | _ => none

def resultId : Message → Option UInt32
  | .opResult message => some message.callId
  | _ => none

def callKey (key : ReplyKind × UInt32) : Option UInt32 := if key.1 = .call then some key.2 else none

theorem callId_eq_bind (message : Message) : callId message = (requestKey message).bind callKey := by
  cases message with
  | _ => rfl

theorem resultId_eq_bind (message : Message) : resultId message = (replyKey message).bind callKey := by
  cases message with
  | _ => rfl

namespace EngineSession

variable {s s' : EngineSession}

def results (s : EngineSession) : List UInt32 := s.sent.filterMap fun entry => resultId entry.2

theorem Queues.results_ordered (h : Queues s) : s.results <+: s.received.filterMap callId := by
  have hresults : s.results = s.replies.filterMap callKey := by
    unfold results EngineSession.replies
    rw [List.filterMap_filterMap]
    exact congrArg (List.filterMap · _) (funext fun entry => resultId_eq_bind entry.2)
  have hcalls : s.received.filterMap callId = (s.received.filterMap requestKey).filterMap callKey := by
    rw [List.filterMap_filterMap]
    exact congrArg (List.filterMap · _) (funext callId_eq_bind)
  rw [hresults, hcalls]
  have hprefix := h.replies.prefix_received
  exact ((List.prefix_append _ _).trans hprefix).filterMap callKey

theorem results_direct {condition : EngineSession → Action → Prop} {actions : List Action}
    (hrun : Run services condition {} actions s) : s.results <+: s.received.filterMap callId :=
  (queues_run hrun).results_ordered

end EngineSession

/-! ### A session behind a proxy -/

/-- What the delegation check and the policy say of a request. -/
structure Decision where
  allowed : Bool := true
  code : WireCode := permissionDeniedCode
  message : Storage.Bytes := []

def denial (decision : Decision) : Message → Option Message
  | .opCall call =>
    some (.opResult { callId := call.callId, ok := false, code := decision.code,
                      message := decision.message })
  | .query query =>
    some (.streamError { queryId := query.queryId, code := decision.code, message := decision.message })
  | .facadeList list => some (.facadeListOk { requestId := list.requestId })
  | .facadeOpen facade =>
    some (.facadeOpenOk { requestId := facade.requestId, ok := false, code := decision.code,
                          message := decision.message, facadeId := facade.facadeId,
                          facadeVersion := facade.facadeVersion })
  | .shmAttach attach =>
    some (.shmAttachOk { requestId := attach.requestId, ok := false, code := decision.code,
                         message := decision.message })
  | _ => none

/-- A client session of the proxy. `requests` are the messages on their way from the client, `link` those
on their way to the engine, and `dispatched` says how many messages of the engine the thread of the link
has passed on. `read`, `forwarded` and `delivered` record what the proxy has read, what it has passed on,
and what the client has got. -/
structure ProxySession where
  requests : List Message := []
  reading : Bool := true
  link : List Message := []
  engine : EngineSession := {}
  dispatched : Nat := 0
  /-- The session is in the table of the proxy. -/
  registered : Bool := true
  out : List Message := []
  asked : List Message := []
  read : List Message := []
  forwarded : List Message := []
  delivered : List Message := []

namespace ProxySession

def push (s : ProxySession) (message : Message) : ProxySession := { s with out := s.out ++ [message] }

/-- `send_engine`. -/
def sendEngine (s : ProxySession) (message : Message) : ProxySession :=
  { s with link := s.link ++ [message], forwarded := s.forwarded ++ [message] }

/-- The reader of the session is through: the session leaves the table. -/
def leave (s : ProxySession) : ProxySession := { s with reading := false, registered := false }

/-- The body of the loop of `handle_client`; `attached` is what `attach_ring` answers. -/
def handleClient (decision : Decision) (attached : ShmAttachOk) (s : ProxySession)
    (message : Message) : ProxySession :=
  match message with
  | .cancel message => s.sendEngine (.cancel message)
  | .authenticate message =>
    s.push (.authenticateOk { requestId := message.requestId, ok := false, code := invalidArgumentCode,
                              message := text "already authenticated" })
  | .shmAttach _ => s.push (.shmAttachOk attached)
  | message =>
    if isClientRequest message = false then s.leave
    else if decision.allowed then s.sendEngine message
    else
      match denial decision message with
      | some reply => s.push reply
      | none => s

inductive Action
  /-- The client sends a message. -/
  | ask (message : Message)
  /-- The reader of the proxy takes the next message. -/
  | read (decision : Decision) (attached : ShmAttachOk)
  /-- The engine takes the next message off the link. -/
  | arrive
  /-- A step of the engine's session. -/
  | engine (action : EngineSession.Action)
  /-- The thread of the link passes the next message of the engine on. -/
  | dispatch
  /-- The writer sends the next message to the client. -/
  | write
  /-- The client has gone, or the engine has closed the session. -/
  | leave

def step (services : EngineServices) (s : ProxySession) : Action → Option ProxySession
  | .ask message => some { s with requests := s.requests ++ [message], asked := s.asked ++ [message] }
  | .read decision attached =>
    match s.reading, s.requests with
    | true, message :: requests =>
      some ({ s with requests, read := s.read ++ [message] }.handleClient decision attached message)
    | _, _ => none
  | .arrive =>
    match s.link with
    | [] => none
    | message :: link =>
      -- A session that the engine has closed is unknown to it.
      some { s with link, engine := (s.engine.step services (.receive message)).getD s.engine }
  | .engine action =>
    match action with
    | .receive _ => none
    | action => (s.engine.step services action).map fun engine => { s with engine }
  | .dispatch =>
    match s.engine.sent[s.dispatched]? with
    | none => none
    | some (_, message) =>
      some { s with dispatched := s.dispatched + 1,
                    out := if s.registered then s.out ++ [message] else s.out }
  | .write =>
    match s.out with
    | [] => none
    | message :: out => some { s with out, delivered := s.delivered ++ [relayed services message] }
  | .leave => some s.leave

def answered (s : ProxySession) : List UInt32 := (s.delivered ++ s.out).filterMap resultId

/-- When the proxy denies a call, the calls before it have been answered. -/
def Meets (s : ProxySession) : Action → Prop
  | .read decision _ => ∀ call requests, s.requests = .opCall call :: requests →
      decision.allowed = false → s.answered.length = (s.read.filterMap callId).length
  | _ => True

/-- The steps take one state to the other, and each meets the condition. -/
inductive Run (services : EngineServices) (condition : ProxySession → Action → Prop) :
    ProxySession → List Action → ProxySession → Prop
  | refl (s : ProxySession) : Run services condition s [] s
  | tail {s mid last : ProxySession} {actions : List Action} {action : Action}
      (hrun : Run services condition s actions mid) (hmeets : condition mid action)
      (hstep : mid.step services action = some last) :
      Run services condition s (actions ++ [action]) last

variable {s s' : ProxySession}

/-! ### What the engine's session does by itself -/

end ProxySession

namespace EngineSession

variable {s s' : EngineSession}

/-- A session receives nothing by itself, and it sends more. -/
structure Grows (s s' : EngineSession) : Prop where
  received : s'.received = s.received
  sent : s.sent <+: s'.sent
  closing : s'.closing = false → s.closing = false

theorem grows_respond (s : EngineSession) (number : Option Nat) (message : Message) :
    Grows s (s.respond number message) := by
  unfold respond
  split
  · exact ⟨rfl, List.prefix_append _ _, id⟩
  · exact ⟨rfl, List.prefix_refl _, nofun⟩

theorem grows_handleQuery (outcomes : Outcomes) (stream : Stream) :
    Grows s (s.handleQuery services outcomes stream) := by
  unfold handleQuery
  dsimp only
  split
  · have hgrows := grows_respond
      (setStream { s with handled := s.handled + 1 } s.handled { stream with phase := .finished })
      (some s.handled) (refusal stream.query)
    exact ⟨hgrows.received, hgrows.sent, hgrows.closing⟩
  · exact ⟨rfl, List.prefix_refl _, id⟩

theorem grows_handle (outcomes : Outcomes) (message : Message) :
    Grows s (s.handle services outcomes message) := by
  unfold handle
  split
  · split
    · exact ⟨rfl, List.prefix_refl _, id⟩
    · exact grows_handleQuery outcomes _
  · split
    · exact ⟨rfl, List.prefix_refl _, nofun⟩
    · rename_i reply hanswer
      have hgrows := grows_respond { s with attached := s.attached || reply.ok } none (.shmAttachOk reply)
      exact ⟨hgrows.received, hgrows.sent, hgrows.closing⟩
    · exact grows_respond s none _

theorem grows_step {action : Action} (hown : ∀ message, action ≠ .receive message)
    (h : s.step services action = some s') : Grows s s' := by
  cases action with
  | receive message => exact absurd rfl (hown message)
  | take =>
    obtain ⟨message, inbox, -, -, rfl⟩ := step_take h
    exact ⟨rfl, List.prefix_refl _, id⟩
  | handle outcomes =>
    obtain ⟨message, -, rfl⟩ := step_handle h
    have hgrows := @grows_handle services { s with handling := none } outcomes message
    exact ⟨hgrows.received, hgrows.sent, hgrows.closing⟩
  | worker number =>
    obtain ⟨stream, -, hrun⟩ := step_worker h
    obtain ⟨message, stream', hworks⟩ := works_runQuery hrun
    refine ⟨hworks.same.received, ?_, hworks.same.closing ▸ id⟩
    rw [hworks.sent]
    exact List.prefix_append _ _
  | grant index =>
    obtain ⟨id, frames, -, rfl⟩ := step_grant h
    exact ⟨rfl, List.prefix_refl _, fun hopen => hopen⟩
  | close =>
    cases h
    exact ⟨rfl, List.prefix_refl _, nofun⟩
  | disconnect =>
    cases h
    exact ⟨rfl, List.prefix_refl _, id⟩
  | finish =>
    obtain ⟨-, -, rfl⟩ := step_finish h
    exact ⟨rfl, List.prefix_refl _, id⟩

theorem calls_receive (s : EngineSession) (message : Message) :
    (s.receive services message).received.filterMap callId =
        s.received.filterMap callId ++ [message].filterMap callId ∧
      (s.receive services message).sent = s.sent ∧
      (s.receive services message).closing = s.closing := by
  cases message with
  | cancel message =>
    obtain ⟨hsame, hsent⟩ := sameQueues_cancel (s.note message.queryId) message.queryId
    refine ⟨?_, hsent, hsame.closing⟩
    change ((s.note message.queryId).cancel message.queryId).received.filterMap callId = _
    rw [hsame.received]
    exact (List.append_nil _).symm
  | _ => exact ⟨List.filterMap_append, rfl, rfl⟩

end EngineSession

/-! ### What a run keeps -/

namespace ProxySession

variable {s s' : ProxySession}

def taken (s : ProxySession) : List UInt32 :=
  (s.engine.sent.take s.dispatched).filterMap fun entry => resultId entry.2

/-- The calls that were passed on reach the engine in their order. -/
structure Forwards (s : ProxySession) : Prop where
  queues : EngineSession.Queues s.engine
  arrived : s.engine.received.filterMap callId <+: s.forwarded.filterMap callId
  way : s.engine.closing = false →
    s.engine.received.filterMap callId ++ s.link.filterMap callId = s.forwarded.filterMap callId
  asked : s.read ++ s.requests = s.asked
  dispatched : s.dispatched ≤ s.engine.sent.length
  gone : s.registered = s.reading

/-- The results that came are followed by those that are still to come. -/
structure Ordered (s : ProxySession) : Prop where
  answered : s.answered <+: s.read.filterMap callId
  whole : s.registered = true →
    s.answered ++ (s.forwarded.filterMap callId).drop s.taken.length = s.read.filterMap callId

theorem Forwards.prefix_forwarded (h : Forwards s) {count : Nat} :
    ((s.engine.sent.take count).filterMap fun entry => resultId entry.2) <+:
      s.forwarded.filterMap callId :=
  (((List.take_prefix _ _).filterMap _).trans h.queues.results_ordered).trans h.arrived

theorem forwards_init : Forwards {} :=
  ⟨EngineSession.queues_init, List.prefix_refl _, fun _ => rfl, rfl, Nat.le_refl 0, rfl⟩

theorem ordered_init : Ordered {} := ⟨List.prefix_refl _, fun _ => rfl⟩

theorem callId_eq_none {message : Message} (h : isClientRequest message = false) :
    callId message = none := by
  cases message with
  | opCall message => cases h
  | _ => rfl

/-- What the reader does with a message. -/
inductive Reads (s : ProxySession) (decision : Decision) (message : Message) : ProxySession → Prop
  | forward : Reads s decision message (s.sendEngine message)
  | reply {reply : Message} (hcall : callId message = none) (hreply : resultId reply = none) :
      Reads s decision message (s.push reply)
  | deny {call : OpCall} (hcall : message = .opCall call) (hdenied : decision.allowed = false)
      {reply : Message} (hreply : resultId reply = some call.callId) :
      Reads s decision message (s.push reply)
  | leave (hcall : callId message = none) : Reads s decision message s.leave
  | ignore (hcall : callId message = none) : Reads s decision message s

theorem reads_handleClient (decision : Decision) (attached : ShmAttachOk) (s : ProxySession)
    (message : Message) : Reads s decision message (s.handleClient decision attached message) := by
  unfold handleClient
  split
  · exact .forward
  · exact .reply rfl rfl
  · exact .reply rfl rfl
  · split
    · rename_i hrequest
      exact .leave (callId_eq_none hrequest)
    · split
      · exact .forward
      · rename_i hdenied
        have hdenied := eq_false_of_ne_true hdenied
        cases message with
        | opCall call => exact .deny rfl hdenied rfl
        | query query => exact .reply rfl rfl
        | facadeList list => exact .reply rfl rfl
        | facadeOpen facade => exact .reply rfl rfl
        | shmAttach attach => exact .reply rfl rfl
        | _ => exact .ignore rfl

theorem filterMap_cons_toList {α β : Type} (f : α → Option β) (a : α) (l : List α) :
    (a :: l).filterMap f = (f a).toList ++ l.filterMap f := by
  rw [List.filterMap_cons]
  cases f a with
  | none => rfl
  | some b => rfl

theorem filterMap_concat {α β : Type} (f : α → Option β) (l : List α) (a : α) :
    (l ++ [a]).filterMap f = l.filterMap f ++ (f a).toList := by
  rw [List.filterMap_append, filterMap_cons_toList]
  exact congrArg _ (List.append_nil _)

/-! ### The reader -/

theorem forwards_read {requests : List Message} {decision : Decision} {message : Message}
    (h : Forwards s) (hrequests : s.requests = message :: requests)
    (hreads : Reads { s with requests, read := s.read ++ [message] } decision message s') :
    Forwards s' := by
  have hasked : (s.read ++ [message]) ++ requests = s.asked := by
    rw [List.append_assoc, List.singleton_append, ← hrequests]
    exact h.asked
  cases hreads with
  | forward =>
    refine ⟨h.queues, ?_, ?_, hasked, h.dispatched, h.gone⟩
    · change _ <+: (s.forwarded ++ [message]).filterMap callId
      rw [filterMap_concat]
      exact h.arrived.trans (List.prefix_append _ _)
    · intro hopen
      change s.engine.received.filterMap callId ++ (s.link ++ [message]).filterMap callId =
        (s.forwarded ++ [message]).filterMap callId
      rw [filterMap_concat, filterMap_concat, ← List.append_assoc, h.way hopen]
  | reply hcall hreply => exact ⟨h.queues, h.arrived, h.way, hasked, h.dispatched, h.gone⟩
  | deny hcall hdenied hreply => exact ⟨h.queues, h.arrived, h.way, hasked, h.dispatched, h.gone⟩
  | leave hcall => exact ⟨h.queues, h.arrived, h.way, hasked, h.dispatched, rfl⟩
  | ignore hcall => exact ⟨h.queues, h.arrived, h.way, hasked, h.dispatched, h.gone⟩

theorem answered_push (s : ProxySession) (message : Message) :
    (s.push message).answered = s.answered ++ (resultId message).toList := by
  unfold answered push
  rw [← List.append_assoc, filterMap_concat]

theorem ordered_read {requests : List Message} {decision : Decision} {message : Message}
    (hforwards : Forwards s) (h : Ordered s) (hreading : s.reading = true)
    (hmeets : ∀ call, message = .opCall call → decision.allowed = false →
      s.answered.length = (s.read.filterMap callId).length)
    (hreads : Reads { s with requests, read := s.read ++ [message] } decision message s') :
    Ordered s' := by
  have hwhole := h.whole (hforwards.gone.trans hreading)
  have hread : (s.read ++ [message]).filterMap callId = s.read.filterMap callId ++ (callId message).toList :=
    filterMap_concat callId s.read message
  have hkeeps : callId message = none → (s.read ++ [message]).filterMap callId = s.read.filterMap callId := by
    intro hcall
    rw [hread, hcall]
    exact List.append_nil _
  cases hreads with
  | forward =>
    constructor
    · change s.answered <+: (s.read ++ [message]).filterMap callId
      rw [hread]
      exact h.answered.trans (List.prefix_append _ _)
    · intro _
      change s.answered ++ ((s.forwarded ++ [message]).filterMap callId).drop s.taken.length =
        (s.read ++ [message]).filterMap callId
      have hlength : s.taken.length ≤ (s.forwarded.filterMap callId).length :=
        hforwards.prefix_forwarded.length_le
      rw [filterMap_concat, hread, List.drop_append_of_le_length hlength, ← List.append_assoc, hwhole]
  | reply hcall hreply =>
    have hanswered := answered_push { s with requests, read := s.read ++ [message] }
    constructor
    · rw [hanswered, hreply]
      change s.answered ++ [] <+: (s.read ++ [message]).filterMap callId
      rw [hkeeps hcall, List.append_nil]
      exact h.answered
    · intro _
      rw [hanswered, hreply]
      change s.answered ++ [] ++ (s.forwarded.filterMap callId).drop s.taken.length =
        (s.read ++ [message]).filterMap callId
      rw [hkeeps hcall, List.append_nil]
      exact hwhole
  | @deny call hcall hdenied reply hreply =>
    -- All calls before it are answered: nothing that was passed on is still to come.
    have hlength := congrArg List.length hwhole
    rw [List.length_append, hmeets call hcall hdenied] at hlength
    have hnone : (s.forwarded.filterMap callId).drop s.taken.length = [] :=
      List.eq_nil_of_length_eq_zero (by omega)
    rw [hnone, List.append_nil] at hwhole
    have hanswered : s.answered ++ [call.callId] = (s.read ++ [message]).filterMap callId := by
      rw [hread, hcall, hwhole]
      rfl
    have hpush := answered_push { s with requests, read := s.read ++ [message] } reply
    rw [hreply] at hpush
    constructor
    · rw [hpush]
      exact ⟨[], (List.append_nil _).trans hanswered⟩
    · intro _
      rw [hpush]
      change s.answered ++ [call.callId] ++ (s.forwarded.filterMap callId).drop s.taken.length = _
      rw [hnone, List.append_nil]
      exact hanswered
  | leave hcall =>
    refine ⟨?_, nofun⟩
    change s.answered <+: (s.read ++ [message]).filterMap callId
    rw [hkeeps hcall]
    exact h.answered
  | ignore hcall =>
    constructor
    · change s.answered <+: (s.read ++ [message]).filterMap callId
      rw [hkeeps hcall]
      exact h.answered
    · intro _
      change s.answered ++ (s.forwarded.filterMap callId).drop s.taken.length =
        (s.read ++ [message]).filterMap callId
      rw [hkeeps hcall]
      exact hwhole

/-! ### The engine -/

theorem forwards_arrive {message : Message} {link : List Message} (h : Forwards s)
    (hlink : s.link = message :: link) :
    Forwards { s with link, engine := (s.engine.step services (.receive message)).getD s.engine } := by
  cases hclosing : s.engine.closing with
  | true =>
    have hstep : s.engine.step services (.receive message) = none := if_pos hclosing
    rw [hstep]
    refine ⟨h.queues, h.arrived, ?_, h.asked, h.dispatched, h.gone⟩
    intro hopen
    change s.engine.closing = false at hopen
    rw [hclosing] at hopen
    cases hopen
  | false =>
    have hstep : s.engine.step services (.receive message) = some (s.engine.receive services message) :=
      if_neg (ne_true_of_eq_false hclosing)
    obtain ⟨hreceived, hsent, hsame⟩ := @EngineSession.calls_receive services s.engine message
    have hway := h.way hclosing
    rw [hlink, filterMap_cons_toList, ← List.append_assoc] at hway
    have hcalls : (s.engine.receive services message).received.filterMap callId ++ link.filterMap callId =
        s.forwarded.filterMap callId := by
      rw [hreceived, filterMap_cons_toList]
      change _ ++ ((callId message).toList ++ []) ++ _ = _
      rw [List.append_nil]
      exact hway
    rw [hstep]
    refine ⟨EngineSession.queues_step h.queues hstep, ⟨_, hcalls⟩, fun _ => hcalls, h.asked, ?_, h.gone⟩
    change s.dispatched ≤ (s.engine.receive services message).sent.length
    rw [hsent]
    exact h.dispatched

theorem taken_eq_of_prefix {engine : EngineSession} (hsent : s.engine.sent <+: engine.sent)
    (h : s.dispatched ≤ s.engine.sent.length) : taken { s with engine } = s.taken := by
  obtain ⟨more, hmore⟩ := hsent
  unfold taken
  rw [← hmore, List.take_append_of_le_length h]

theorem ordered_engine {engine : EngineSession} {link : List Message} (hforwards : Forwards s)
    (h : Ordered s) (hsent : s.engine.sent <+: engine.sent) : Ordered { s with link, engine } := by
  have htaken : taken { s with link, engine } = s.taken := taken_eq_of_prefix hsent hforwards.dispatched
  refine ⟨h.answered, ?_⟩
  intro hregistered
  rw [htaken]
  exact h.whole hregistered

theorem forwards_engine {engine : EngineSession} {action : EngineSession.Action} (h : Forwards s)
    (hown : ∀ message, action ≠ .receive message)
    (hstep : s.engine.step services action = some engine) : Forwards { s with engine } := by
  have hgrows := EngineSession.grows_step hown hstep
  refine ⟨EngineSession.queues_step h.queues hstep, ?_, ?_, h.asked, ?_, h.gone⟩
  · change engine.received.filterMap callId <+: _
    rw [hgrows.received]
    exact h.arrived
  · intro hopen
    change engine.received.filterMap callId ++ _ = _
    rw [hgrows.received]
    exact h.way (hgrows.closing hopen)
  · exact h.dispatched.trans hgrows.sent.length_le

/-! ### The way back -/

theorem ordered_dispatch {number : Option Nat} {message : Message} (hforwards : Forwards s)
    (h : Ordered s) (hnext : s.engine.sent[s.dispatched]? = some (number, message)) :
    Ordered { s with dispatched := s.dispatched + 1,
                     out := if s.registered then s.out ++ [message] else s.out } := by
  have htaken : ∀ registered out, taken { s with dispatched := s.dispatched + 1, registered, out } =
      s.taken ++ (resultId message).toList := by
    intro registered out
    unfold taken
    dsimp only
    rw [List.take_add_one, hnext]
    exact filterMap_concat _ _ _
  cases hregistered : s.registered with
  | false => exact ⟨h.answered, nofun⟩
  | true =>
    have hwhole := h.whole hregistered
    -- The result that is passed on is that of the first call that is still to be answered.
    have hprefix : s.taken ++ (resultId message).toList <+: s.forwarded.filterMap callId := by
      rw [← htaken s.registered s.out]
      exact @Forwards.prefix_forwarded s hforwards (s.dispatched + 1)
    obtain ⟨later, hlater⟩ := hprefix
    have hdrop : (s.forwarded.filterMap callId).drop s.taken.length = (resultId message).toList ++ later := by
      rw [← hlater, List.append_assoc, List.drop_left]
    have hdrop' : (s.forwarded.filterMap callId).drop (s.taken ++ (resultId message).toList).length = later := by
      rw [← hlater, List.drop_left]
    have hall : s.answered ++ (resultId message).toList ++ later = s.read.filterMap callId := by
      rw [List.append_assoc, ← hdrop]
      exact hwhole
    have hanswered := answered_push { s with dispatched := s.dispatched + 1 } message
    constructor
    · change answered (push { s with dispatched := s.dispatched + 1 } message) <+: _
      rw [hanswered]
      exact ⟨later, hall⟩
    · intro _
      rw [htaken, hdrop']
      change answered (push { s with dispatched := s.dispatched + 1 } message) ++ later = _
      rw [hanswered]
      exact hall

theorem resultId_relayed (services : EngineServices) (message : Message) :
    resultId (relayed services message) = resultId message := by
  unfold relayed
  split
  · rfl
  · rfl
  · rfl

theorem answered_write {message : Message} {out : List Message} (hout : s.out = message :: out) :
    answered { s with out, delivered := s.delivered ++ [relayed services message] } = s.answered := by
  unfold answered
  rw [hout, List.append_assoc, List.singleton_append, List.filterMap_append, List.filterMap_append,
    filterMap_cons_toList, filterMap_cons_toList, resultId_relayed]

theorem step_read {decision : Decision} {attached : ShmAttachOk}
    (h : s.step services (.read decision attached) = some s') :
    ∃ message requests, s.reading = true ∧ s.requests = message :: requests ∧
      Reads { s with requests, read := s.read ++ [message] } decision message s' := by
  change (match s.reading, s.requests with
    | true, message :: requests =>
      some ({ s with requests, read := s.read ++ [message] }.handleClient decision attached message)
    | _, _ => none) = some s' at h
  split at h
  · cases h
    exact ⟨_, _, ‹_›, ‹_›, reads_handleClient ..⟩
  · cases h

theorem step_engine {action : EngineSession.Action} (h : s.step services (.engine action) = some s') :
    ∃ engine, (∀ message, action ≠ .receive message) ∧ s.engine.step services action = some engine ∧
      s' = { s with engine } := by
  have hown : ∀ message, action ≠ .receive message := by
    rintro message rfl
    cases h
  have hstep : s.step services (.engine action) =
      (s.engine.step services action).map fun engine => { s with engine } := by
    cases action with
    | receive message => exact absurd rfl (hown message)
    | _ => rfl
  rw [hstep] at h
  obtain ⟨engine, hengine, rfl⟩ := Option.map_eq_some_iff.1 h
  exact ⟨engine, hown, hengine, rfl⟩

theorem ordered_step {action : Action} (h : Forwards s ∧ Ordered s) (hmeets : Meets s action)
    (hstep : s.step services action = some s') : Forwards s' ∧ Ordered s' := by
  obtain ⟨hforwards, hordered⟩ := h
  cases action with
  | ask message =>
    cases hstep
    refine ⟨⟨hforwards.queues, hforwards.arrived, hforwards.way, ?_, hforwards.dispatched,
      hforwards.gone⟩, hordered.answered, hordered.whole⟩
    change s.read ++ (s.requests ++ [message]) = s.asked ++ [message]
    rw [← List.append_assoc, hforwards.asked]
  | read decision attached =>
    obtain ⟨message, requests, hreading, hrequests, hreads⟩ := step_read hstep
    refine ⟨forwards_read hforwards hrequests hreads, ordered_read hforwards hordered hreading ?_ hreads⟩
    rintro call rfl
    exact hmeets call requests hrequests
  | arrive =>
    change (match s.link with
      | [] => none
      | message :: link => _) = some s' at hstep
    split at hstep
    · cases hstep
    · rename_i message link hlink
      cases hstep
      refine ⟨forwards_arrive hforwards hlink, ordered_engine hforwards hordered ?_⟩
      cases hclosing : s.engine.step services (.receive message) with
      | none => exact List.prefix_refl _
      | some engine =>
        obtain ⟨-, rfl⟩ := EngineSession.step_receive hclosing
        obtain ⟨-, hsent, -⟩ := @EngineSession.calls_receive services s.engine message
        exact ⟨[], (List.append_nil _).trans hsent.symm⟩
  | engine action =>
    obtain ⟨engine, hown, hengine, rfl⟩ := step_engine hstep
    exact ⟨forwards_engine hforwards hown hengine,
      @ordered_engine s engine s.link hforwards hordered (EngineSession.grows_step hown hengine).sent⟩
  | dispatch =>
    change (match s.engine.sent[s.dispatched]? with
      | none => none
      | some (_, message) => _) = some s' at hstep
    split at hstep
    · cases hstep
    · rename_i number message hnext
      cases hstep
      refine ⟨⟨hforwards.queues, hforwards.arrived, hforwards.way, hforwards.asked, ?_,
        hforwards.gone⟩, ordered_dispatch hforwards hordered hnext⟩
      obtain ⟨hlt, -⟩ := List.getElem?_eq_some_iff.1 hnext
      exact hlt
  | write =>
    change (match s.out with
      | [] => none
      | message :: out => _) = some s' at hstep
    split at hstep
    · cases hstep
    · rename_i message out hout
      cases hstep
      have hanswered := @answered_write services s message out hout
      refine ⟨⟨hforwards.queues, hforwards.arrived, hforwards.way, hforwards.asked,
        hforwards.dispatched, hforwards.gone⟩, ?_, ?_⟩
      · rw [hanswered]
        exact hordered.answered
      · intro hregistered
        rw [hanswered]
        exact hordered.whole hregistered
  | leave =>
    cases hstep
    exact ⟨⟨hforwards.queues, hforwards.arrived, hforwards.way, hforwards.asked, hforwards.dispatched,
      rfl⟩, hordered.answered, nofun⟩

theorem ordered_run {actions : List Action} (hrun : Run services Meets {} actions s) :
    Forwards s ∧ Ordered s := by
  generalize hstart : ({} : ProxySession) = start at hrun
  induction hrun with
  | refl =>
    subst hstart
    exact ⟨forwards_init, ordered_init⟩
  | tail hrun hmeets hstep ih =>
    subst hstart
    exact ordered_step ih hmeets hstep

/-- Results come in the order of the calls: always to a direct client, and to one behind a proxy as long
as no denial overtakes a result. -/
theorem results_run :
    (∀ (condition : EngineSession → EngineSession.Action → Prop) (actions : List EngineSession.Action)
      (session : EngineSession), EngineSession.Run services condition {} actions session →
        session.results <+: session.received.filterMap callId) ∧
    ∀ (actions : List Action) (s : ProxySession), Run services Meets {} actions s →
      s.delivered.filterMap resultId <+: s.asked.filterMap callId := by
  refine ⟨fun condition actions session hrun => EngineSession.results_direct hrun, ?_⟩
  intro actions s hrun
  obtain ⟨hforwards, hordered⟩ := ordered_run hrun
  have hdelivered : s.delivered.filterMap resultId <+: s.answered := by
    unfold answered
    rw [List.filterMap_append]
    exact List.prefix_append _ _
  have hread : s.read.filterMap callId <+: s.asked.filterMap callId := by
    rw [← hforwards.asked, List.filterMap_append]
    exact List.prefix_append _ _
  exact (hdelivered.trans hordered.answered).trans hread

/-! ### A denial after the result of the call before it, and one that overtakes it -/

def proxied : EngineServices := { link := some {} }

def firstCall : Message := .opCall { callId := 1 }

def secondCall : Message := .opCall { callId := 2 }

theorem results_denied : ∃ s, Run proxied Meets {} [.ask firstCall, .ask secondCall, .read {} {}, .arrive,
      .engine .take, .engine (.handle {}), .dispatch, .read { allowed := false } {}, .write, .write] s ∧
    s.delivered.filterMap resultId = [1, 2] ∧
    s.delivered.filterMap resultId <+: s.asked.filterMap callId := by
  have hreached : ∃ s, Run proxied Meets {} [.ask firstCall, .ask secondCall, .read {} {}, .arrive,
      .engine .take, .engine (.handle {}), .dispatch, .read { allowed := false } {}, .write, .write] s ∧
      s.delivered.filterMap resultId = [1, 2] := by
    refine ⟨_, .tail (.tail (.tail (.tail (.tail (.tail (.tail (.tail (.tail (.tail (.refl _) trivial rfl)
      trivial rfl) ?_ rfl) trivial rfl) trivial rfl) trivial rfl) trivial rfl) ?_ rfl) trivial rfl)
      trivial rfl, ?_⟩
    · exact nofun
    · exact fun _ _ _ _ => by decide +kernel
    · decide +kernel
  obtain ⟨s, hrun, hdelivered⟩ := hreached
  exact ⟨s, hrun, hdelivered, results_run.2 _ s hrun⟩

theorem denial_overtakes : ∃ s, Run proxied (fun _ _ => True) {} [.ask firstCall, .ask secondCall,
      .read {} {}, .read { allowed := false } {}, .arrive, .engine .take, .engine (.handle {}), .dispatch,
      .write, .write] s ∧
    s.delivered.filterMap resultId = [2, 1] ∧ s.asked.filterMap callId = [1, 2] ∧
    ¬s.delivered.filterMap resultId <+: s.asked.filterMap callId := by
  refine ⟨_, .tail (.tail (.tail (.tail (.tail (.tail (.tail (.tail (.tail (.tail (.refl _) trivial rfl)
    trivial rfl) trivial rfl) trivial rfl) trivial rfl) trivial rfl) trivial rfl) trivial rfl) trivial rfl)
    trivial rfl, ?_⟩
  decide +kernel

end ProxySession

end MoDb.Net
