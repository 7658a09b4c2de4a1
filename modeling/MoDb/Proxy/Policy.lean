import MoDb.Net.ProxySession

/-!
# Policies

A policy authenticates a client, decides on each of its requests, sees each response before the client
does, and gets a record of each request that is done. It has a state of its own; what else it reads, a
clock or a file, is an input of the call.
-/

namespace MoDb.Proxy

open Storage (Bytes)
open Net

/-! ### Callers -/

structure Caller where
  principal : Bytes := []
  roles : List Bytes := []
  attributes : List (Bytes × Bytes) := []
  actingAs : Bytes := []
  actingAttributes : List (Bytes × Bytes) := []
  deriving DecidableEq

namespace Caller

def anonymous (caller : Caller) : Bool := caller.principal = []

def delegated (caller : Caller) : Bool := caller.actingAs ≠ []

def hasRole (caller : Caller) (role : Bytes) : Bool := role ∈ caller.roles

/-- `attribute`. -/
def attributeOf (caller : Caller) (key : Bytes) : Bytes :=
  ((caller.attributes.find? fun pair => pair.1 = key).map Prod.snd).getD []

end Caller

structure ClientInfo where
  address : Bytes := []
  tls : Bool := false
  deriving DecidableEq

structure Credentials where
  mechanism : Bytes := []
  payload : Bytes := []
  deriving DecidableEq

/-! ### Requests -/

/-- `request_delegation`. -/
def requestDelegation (message : Message) : Option Delegation :=
  let given (delegation : Delegation) : Option Delegation :=
    if delegation.subject = [] then none else some delegation
  match message with
  | .opCall call => given call.actingAs
  | .query query => given query.actingAs
  | .facadeList list => given list.actingAs
  | .facadeOpen facade => given facade.actingAs
  | _ => none

def keyed : Message → Bool
  | .opCall call => call.idempotencyKey ≠ []
  | _ => false

/-- `k_delegate_role`. -/
def delegateRole : Bytes := text "delegate"

/-- `check_delegation`: the refusal, if there is one, and the effective caller. -/
def checkDelegation (caller : Caller) (request : Message) (engineMinor : UInt16) :
    Option Decision × Caller :=
  let delegation := requestDelegation request
  if (delegation.isSome ∨ keyed request) ∧ engineMinor < 3 then
    (some { allowed := false, code := invalidArgumentCode,
            message := text
              "the engine does not support protocol minor 3 (delegation, idempotency keys)" }, caller)
  else
    match delegation with
    | none => (none, caller)
    | some delegation =>
      let effective := { caller with actingAs := delegation.subject, actingAttributes := delegation.attributes }
      if caller.hasRole delegateRole then (none, effective)
      else
        (some { allowed := false, message := text "acting_as requires the 'delegate' role" }, effective)

/-- The kinds of requests that are audited. -/
inductive RequestKind
  | call
  | query
  | facadeList
  | facadeOpen
  | authenticate
  deriving DecidableEq

structure RequestKey where
  kind : RequestKind
  id : UInt32
  target : Bytes
  deriving DecidableEq

/-- `request_key`. -/
def requestKey : Message → Option RequestKey
  | .opCall call => some ⟨.call, call.callId, call.operationId⟩
  | .query query => some ⟨.query, query.queryId, text (toString query.description.type.toNat)⟩
  | .facadeList list => some ⟨.facadeList, list.requestId, []⟩
  | .facadeOpen facade =>
    some ⟨.facadeOpen, facade.requestId, facade.facadeId ++ text s!" v{facade.facadeVersion.toNat}"⟩
  | _ => none

structure AuditRecord where
  caller : Caller
  client : Bytes
  kind : RequestKind
  target : Bytes
  ok : Bool
  code : WireCode
  message : Bytes
  denied : Bool
  objects : Nat
  deriving DecidableEq

/-- The catalogue of an engine. -/
structure EngineInfo where
  databaseName : Bytes := []
  baseline : UInt64 := 0
  operations : List (Bytes × Bool) := []

/-! ### Policies -/

structure Policy (σ ι : Type) where
  mechanisms : List Bytes
  authenticate : σ → ι → ClientInfo → Credentials → Except Failure Caller × σ
  /-- The decision, and the request as the policy has rewritten it. -/
  authorize : σ → ι → Caller → Message → Decision × Message × σ
  onResponse : σ → ι → Caller → Message → Message × σ
  audit : σ → ι → AuditRecord → σ
  onEngine : σ → ι → EngineInfo → σ

namespace Policy

variable {σ τ ι κ : Type}

/-- `Policy::authenticate`: everyone is let in, with an address. -/
def anonymousCaller (client : ClientInfo) : Caller :=
  { attributes := [(text "address", client.address), (text "tls", if client.tls then text "1" else text "0")] }

/-- `PassThroughPolicy`. -/
def passThrough : Policy Unit Unit where
  mechanisms := []
  authenticate state _ client _ := (.ok (anonymousCaller client), state)
  authorize state _ _ request := ({}, request, state)
  onResponse state _ _ response := (response, state)
  audit state _ _ := state
  onEngine state _ _ := state

/-- Two links of a `PolicyChain`, the rest of which may be chains again. -/
def andThen (first : Policy σ ι) (rest : Policy τ κ) : Policy (σ × τ) (ι × κ) where
  mechanisms := if first.mechanisms = [] then rest.mechanisms else first.mechanisms
  authenticate state input client credentials :=
    if first.mechanisms ≠ [] then
      let (answer, next) := first.authenticate state.1 input.1 client credentials
      (answer, next, state.2)
    else if rest.mechanisms ≠ [] then
      let (answer, next) := rest.authenticate state.2 input.2 client credentials
      (answer, state.1, next)
    else (.ok (anonymousCaller client), state)
  authorize state input caller request :=
    let (decision, request, next) := first.authorize state.1 input.1 caller request
    if decision.allowed = false then (decision, request, next, state.2)
    else
      let (decision, request, last) := rest.authorize state.2 input.2 caller request
      (decision, request, next, last)
  onResponse state input caller response :=
    let (response, next) := first.onResponse state.1 input.1 caller response
    let (response, last) := rest.onResponse state.2 input.2 caller response
    (response, next, last)
  audit state input record := (first.audit state.1 input.1 record, rest.audit state.2 input.2 record)
  onEngine state input engine := (first.onEngine state.1 input.1 engine, rest.onEngine state.2 input.2 engine)

end Policy

/-! ### Limits -/

/-- The limits of a `RateLimitPolicy`; zero is no limit. -/
structure RateLimit where
  callsPerSecond : Nat
  streamsPerPrincipal : Nat
  delegatedCallsPerSecond : Nat := 0

/-- Whether a token is left, which is a matter of the clock. -/
structure Tokens where
  call : Bool := true
  delegated : Bool := true

def hostOf (address : Bytes) : Bytes :=
  match (address.reverse.dropWhile fun byte => byte ≠ 58) with
  | [] => address
  | _ :: host => host.reverse

/-- `key_of`. -/
def keyOf (caller : Caller) : Bytes :=
  if caller.delegated then text "user:" ++ caller.principal ++ text " as " ++ caller.actingAs
  else if caller.anonymous = false then text "user:" ++ caller.principal
  else text "host:" ++ hostOf (caller.attributeOf (text "address"))

namespace RateLimit

/-- The number of open streams of each account. -/
abbrev Accounts := Bytes → Nat

def authorize (limits : RateLimit) (streams : Accounts) (tokens : Tokens) (caller : Caller)
    (request : Message) : Decision × Message × Accounts :=
  match request with
  | .opCall call =>
    if 0 < limits.callsPerSecond ∧ tokens.call = false then
      ({ allowed := false,
         message := text s!"rate limit: more than {limits.callsPerSecond} calls per second" },
        .opCall call, streams)
    else if caller.delegated ∧ 0 < limits.delegatedCallsPerSecond ∧ tokens.delegated = false then
      ({ allowed := false,
         message := text s!"rate limit: more than {limits.delegatedCallsPerSecond} delegated calls per second for "
           ++ caller.principal }, .opCall call, streams)
    else ({}, .opCall call, streams)
  | .query query =>
    if limits.streamsPerPrincipal = 0 then ({}, .query query, streams)
    else if limits.streamsPerPrincipal ≤ streams (keyOf caller) then
      ({ allowed := false, message := text s!"limit: {limits.streamsPerPrincipal} open streams" },
        .query query, streams)
    else ({}, .query query, Function.update streams (keyOf caller) (streams (keyOf caller) + 1))
  | request => ({}, request, streams)

def audit (limits : RateLimit) (streams : Accounts) (record : AuditRecord) : Accounts :=
  if record.kind ≠ .query ∨ record.denied ∨ limits.streamsPerPrincipal = 0 then streams
  else Function.update streams (keyOf record.caller) (streams (keyOf record.caller) - 1)

/-- `RateLimitPolicy`. -/
def policy (limits : RateLimit) : Policy Accounts Tokens where
  mechanisms := []
  authenticate streams _ client _ := (.ok (Policy.anonymousCaller client), streams)
  authorize := limits.authorize
  onResponse streams _ _ response := (response, streams)
  audit streams _ record := limits.audit streams record
  onEngine streams _ _ := streams

end RateLimit

end MoDb.Proxy
