import MoDb.Proxy.Sessions

/-!
# Every request is mediated

What goes to the engine for a client has passed the check of delegations, as the client sent it, and then
the policy, which may have rewritten it; only a `Cancel` goes through as it is. Nobody gets so far without
having been let in.
-/

namespace MoDb.Proxy

open Storage (Bytes)
open Net

variable {σ ι : Type} {policy : Policy σ ι} {input : ι} {s s' : State σ ι}

/-! ### What stays with a session -/

/-- Whose session it is, and how it was let in. -/
structure Identity (σ ι : Type) where
  client : ClientInfo
  caller : Caller
  engineMinor : UInt16
  epoch : Nat
  proof : Option (σ × ι × Credentials)
  stage : Stage

def Session.identity (session : Session σ ι) : Identity σ ι :=
  ⟨session.client, session.caller, session.engineMinor, session.epoch, session.proof, session.stage⟩

theorem identity_setTable (session : Session σ ι) (kind : RequestKind) (table : Table) :
    (session.setTable kind table).identity = session.identity := by
  unfold Session.setTable
  split
  · rfl
  · rfl
  · rfl

theorem identity_push (session : Session σ ι) (origin : Origin) (message : Message) :
    (session.push origin message).identity = session.identity := by
  unfold Session.push
  split
  · rfl
  · rfl

theorem identity_complete (state : σ) (session : Session σ ι) (kind : RequestKind) (id : UInt32)
    (ok : Bool) (code : WireCode) (message : Bytes) :
    (complete policy input state session kind id ok code message).2.identity = session.identity := by
  unfold complete
  split
  · rfl
  · exact identity_setTable session kind _

theorem identity_settle (state : σ) (session : Session σ ι) (message : Message) :
    (settle policy input state session message).2.identity = session.identity := by
  unfold settle
  split
  · rfl
  · exact identity_complete ..
  · exact identity_complete ..
  · exact identity_complete ..
  · exact identity_complete ..
  · exact identity_complete ..
  · rfl

theorem identity_finish (session : Session σ ι) (origin : Origin) (message : Message) :
    (session.finish origin message).identity = session.identity := by
  unfold Session.finish
  split
  · rfl
  · rfl

theorem identity_writeOut {delivered : Bool} {state : σ} {session : Session σ ι} {result : σ × Session σ ι}
    (h : writeOut policy input delivered state session = some result) :
    result.2.identity = session.identity := by
  unfold writeOut at h
  split at h
  · rename_i origin response out _ _
    cases h
    have hsame := @identity_settle _ _ policy input (policy.onResponse state input session.caller response).2
      ({ session with out }.finish origin
        (shown session (policy.onResponse state input session.caller response).1))
      (shown session (policy.onResponse state input session.caller response).1)
    rw [identity_finish] at hsame
    dsimp only
    split
    · exact hsame
    · exact hsame
  · cases h

theorem identity_refuse (state : σ) (session : Session σ ι) (decision : Decision) (message : Message)
    (effective : Caller) :
    (refuse policy input state session decision message effective).2.identity = session.identity := by
  unfold refuse
  cases requestKey message with
  | none =>
    dsimp only
    split
    · exact identity_push ..
    · rfl
  | some key =>
    dsimp only
    split
    · exact identity_push ..
    · rfl

theorem identity_refuseRing (state : σ) (session : Session σ ι) (decision : Decision) (message : Message)
    (effective : Caller) :
    (refuseRing policy input state session decision message effective).2.identity = session.identity :=
  identity_push ..

theorem identity_pend (session : Session σ ι) (message : Message) (effective : Caller) :
    (session.pend message effective).identity = session.identity := by
  unfold Session.pend
  cases requestKey message with
  | none => rfl
  | some key => exact identity_setTable ..

theorem identity_closeSession (state : σ) (session : Session σ ι) :
    (closeSession policy input state session).2.identity = { session.identity with stage := .closed } := by
  unfold closeSession
  have hfold : ∀ (entries : List Pending) (result : σ × Session σ ι),
      (entries.foldl (abandon policy input) result).2.identity = result.2.identity := by
    intro entries
    induction entries with
    | nil => exact fun result => rfl
    | cons entry entries ih => exact fun result => ih _
  exact hfold _ _

/-! ### Who gets in -/

def Stage.isOpen : Stage → Bool
  | .opening _ | .reading | .left => true
  | _ => false

def Stage.isActive : Stage → Bool
  | .greeting | .closed => false
  | _ => true

/-- A session that can have requests is one of a client that the policy has let in, with the caller that
it gave; and it knows the minor of the engine if that is still the same. -/
structure Entered (policy : Policy σ ι) (epoch : Nat) (link : Option UInt16) (identity : Identity σ ι) :
    Prop where
  proof : identity.stage.isOpen = true → ∃ state input credentials,
    identity.proof = some (state, input, credentials) ∧
      (policy.authenticate state input identity.client credentials).1 = .ok identity.caller
  minor : identity.stage.isActive = true → identity.epoch = epoch → ∀ minor, link = some minor →
    identity.engineMinor = minor
  epoch : identity.epoch ≤ epoch

theorem Entered.stage {epoch : Nat} {link : Option UInt16} {identity : Identity σ ι}
    (h : Entered policy epoch link identity) {stage : Stage}
    (hactive : stage.isActive = true → identity.stage.isActive = true)
    (hopen : stage.isOpen = true → identity.stage.isOpen = true) :
    Entered policy epoch link { identity with stage } :=
  ⟨fun hstage => h.proof (hopen hstage), fun hstage => h.minor (hactive hstage), h.epoch⟩

theorem Entered.closed {epoch : Nat} {link : Option UInt16} {identity : Identity σ ι}
    (h : Entered policy epoch link identity) :
    Entered policy epoch link { identity with stage := .closed } := h.stage nofun nofun

theorem Entered.left {epoch : Nat} {link : Option UInt16} {identity : Identity σ ι}
    (h : Entered policy epoch link identity) (hstage : identity.stage = .reading) :
    Entered policy epoch link { identity with stage := .left } := by
  apply h.stage
  · rw [hstage]
    exact fun _ => rfl
  · rw [hstage]
    exact fun _ => rfl

def AllEntered (policy : Policy σ ι) (s : State σ ι) : Prop :=
  ∀ session ∈ s.sessions, Entered policy s.epoch s.link session.identity

theorem AllEntered.get (h : AllEntered policy s) {i : Nat} {session : Session σ ι}
    (hsession : s.sessions[i]? = some session) : Entered policy s.epoch s.link session.identity :=
  h session (List.mem_of_getElem? hsession)

theorem mem_of_mem_set {α : Type} {l : List α} {i : Nat} {a b : α} (h : b ∈ l.set i a) :
    b = a ∨ b ∈ l := by
  obtain ⟨k, hk⟩ := List.mem_iff_getElem?.1 h
  rw [List.getElem?_set] at hk
  split at hk
  · split at hk
    · cases hk
      exact .inl rfl
    · cases hk
  · exact .inr (List.mem_of_getElem? hk)

theorem AllEntered.setSession (h : AllEntered policy s) {i : Nat} {session : Session σ ι}
    (hentered : Entered policy s.epoch s.link session.identity) :
    AllEntered policy (s.setSession i session) := by
  intro other hother
  rcases mem_of_mem_set hother with rfl | hold
  · exact hentered
  · exact h other hold

theorem AllEntered.put (h : AllEntered policy s) {i : Nat} {result : σ × Session σ ι}
    (hentered : Entered policy s.epoch s.link result.2.identity) : AllEntered policy (s.put i result) := by
  intro other hother
  rcases mem_of_mem_set hother with rfl | hold
  · exact hentered
  · exact h other hold

theorem AllEntered.sendEngine (h : AllEntered policy s) {i : Nat} {message : Message}
    {session failed : Session σ ι} (hentered : Entered policy s.epoch s.link session.identity)
    (hfailed : Entered policy s.epoch s.link failed.identity) :
    AllEntered policy (s.sendEngine i message session failed) := by
  rcases s.sendEngine_cases i message session failed with ⟨-, hsent⟩ | ⟨-, hsent⟩
  · rw [hsent]
    exact h.setSession hfailed
  · rw [hsent]
    have hsame : AllEntered policy { s with forwarded := s.forwarded ++ [(i, message)] } := h
    exact hsame.setSession hentered

/-! ### The rounds -/

theorem AllEntered.openSession (h : AllEntered policy s) {i : Nat} {session failed : Session σ ι}
    {request : Option UInt32}
    (hentered : Entered policy s.epoch s.link { session.identity with stage := .opening request })
    (hfailed : Entered policy s.epoch s.link failed.identity) :
    AllEntered policy (s.openSession i session request failed) := by
  unfold State.openSession
  split
  · exact h.setSession hfailed
  · exact h.setSession hentered

theorem identity_unavailable (session : Session σ ι) (request : Option UInt32) :
    (State.unavailable session request).identity = { session.identity with stage := .closed } := by
  unfold State.unavailable
  cases request with
  | none => rfl
  | some request => rfl

theorem AllEntered.authenticate (h : AllEntered policy s) {i : Nat} {session : Session σ ι}
    {request : Option UInt32} {credentials : Credentials}
    {refuse : Failure → σ × Session σ ι → σ × Session σ ι} (hstage : session.stage.isActive = true)
    (hentered : Entered policy s.epoch s.link session.identity)
    (hrefuse : ∀ failure state, Entered policy s.epoch s.link (refuse failure (state, session)).2.identity) :
    AllEntered policy (s.authenticate policy input i session request credentials refuse) := by
  unfold State.authenticate
  cases hanswer : policy.authenticate s.policy input session.client credentials with
  | mk answer state =>
    cases answer with
    | error failure => exact h.put (hrefuse failure state)
    | ok caller =>
      have hsame : AllEntered policy { s with policy := state } := h
      have hproof : (policy.authenticate s.policy input session.client credentials).1 = .ok caller := by
        rw [hanswer]
      apply hsame.openSession
      · exact ⟨fun _ => ⟨_, _, _, rfl, hproof⟩, fun _ => hentered.minor hstage, hentered.epoch⟩
      · rw [identity_unavailable]
        exact ⟨nofun, fun _ => hentered.minor hstage, hentered.epoch⟩

theorem AllEntered.greet (h : AllEntered policy s) {i : Nat} {session : Session σ ι} {message : Message}
    {negotiated : Option (UInt16 × Compression)} (hentered : Entered policy s.epoch s.link session.identity) :
    AllEntered policy (s.greet policy input i session message negotiated) := by
  unfold State.greet
  split
  · rename_i body engineMinor minor codec hlink
    -- The session notes the minor of the engine that there is now.
    have hminor : ∀ minor', s.link = some minor' → engineMinor = minor' := by
      intro minor' hsome
      rw [hlink] at hsome
      exact Option.some.inj hsome
    dsimp only
    split
    · unfold State.authenticate
      dsimp only
      split
      · exact h.put ⟨nofun, nofun, Nat.le_refl _⟩
      · rename_i caller state hanswer
        have hsame : AllEntered policy { s with policy := state } := h
        have hproof : (policy.authenticate s.policy input session.client {}).1 = .ok caller := by
          rw [hanswer]
        apply hsame.openSession
        · exact ⟨fun _ => ⟨_, _, _, rfl, hproof⟩, fun _ _ => hminor, Nat.le_refl _⟩
        · rw [identity_unavailable]
          exact ⟨nofun, nofun, Nat.le_refl _⟩
    · exact h.setSession ⟨nofun, fun _ _ => hminor, Nat.le_refl _⟩
  · exact h.setSession hentered.closed

theorem AllEntered.readCredentials (h : AllEntered policy s) {i : Nat} {session : Session σ ι}
    {refused : Nat} {message : Message} (hentered : Entered policy s.epoch s.link session.identity)
    (hstage : session.stage = .authenticating refused) :
    AllEntered policy (s.readCredentials policy input i session refused message) := by
  unfold State.readCredentials
  split
  · exact h
  · apply h.authenticate
    · rw [hstage]
      rfl
    · exact hentered
    · intro failure state
      apply hentered.stage
      · intro _
        change session.stage.isActive = true
        rw [hstage]
        rfl
      · intro hopen
        change (if refused + 1 < maxAttempts then Stage.authenticating (refused + 1)
          else .closed).isOpen = true at hopen
        split at hopen
        · cases hopen
        · cases hopen
  · split
    · exact h.setSession hentered.closed
    · split
      · exact h.setSession hentered
      · exact h

theorem AllEntered.opened (h : AllEntered policy s) {i : Nat} {session : Session σ ι}
    {request : Option UInt32} {ok : Bool} (hentered : Entered policy s.epoch s.link session.identity)
    (hstage : session.stage = .opening request) :
    AllEntered policy (s.opened policy input i session request ok) := by
  have hreading : Entered policy s.epoch s.link { session.identity with stage := .reading } := by
    apply hentered.stage
    · intro _
      change session.stage.isActive = true
      rw [hstage]
      rfl
    · intro _
      change session.stage.isOpen = true
      rw [hstage]
      rfl
  unfold State.opened
  split
  · apply h.setSession
    rw [identity_unavailable]
    exact hentered.closed
  · dsimp only
    split
    · exact h.setSession hreading
    · exact h.put hreading

theorem AllEntered.attachRing (h : AllEntered policy s) {i : Nat} {session : Session σ ι}
    {attach : ShmAttach} {region : Except Failure ShmRegion} {opened : Bool}
    (hentered : Entered policy s.epoch s.link session.identity) (hstage : session.stage = .reading) :
    AllEntered policy (s.attachRing i session attach region opened) := by
  have hpush : ∀ (session' : Session σ ι) (origin : Origin) (message : Message),
      session'.identity = session.identity →
      AllEntered policy (s.setSession i (session'.push origin message)) := by
    intro session' origin message hsame
    apply h.setSession
    rw [identity_push, hsame]
    exact hentered
  unfold State.attachRing
  dsimp only
  split
  · exact hpush session _ _ rfl
  · split
    · exact hpush session _ _ rfl
    · split
      · exact hpush session _ _ rfl
      · rename_i region hopened
        intro other hother
        rcases List.mem_append.1 hother with hold | hnew
        · exact hpush session _ _ rfl other hold
        · rw [List.mem_singleton.1 hnew]
          have hproof := hentered.proof (by change session.stage.isOpen = true; rw [hstage]; rfl)
          have hminor := hentered.minor (by change session.stage.isActive = true; rw [hstage]; rfl)
          exact ⟨fun _ => hproof, fun _ => hminor, hentered.epoch⟩

theorem AllEntered.handleRequest (h : AllEntered policy s) {i : Nat} {session : Session σ ι}
    {request : Message} (hentered : Entered policy s.epoch s.link session.identity)
    (hstage : session.stage = .reading) :
    AllEntered policy (s.handleRequest policy input i session request) := by
  unfold State.handleRequest
  dsimp only
  split
  · apply h.put
    rw [identity_refuse]
    exact hentered
  · have hsame : AllEntered policy { s with policy := (decide policy input s.policy session request).2.2.2 } := h
    apply hsame.sendEngine
    · change Entered policy s.epoch s.link (Session.identity (Session.pend _ _ _))
      rw [identity_pend]
      exact hentered
    · have hpend := identity_pend (session.note (verdict request
        (decide policy input s.policy session request).2.1
        (decide policy input s.policy session request).2.2.1
        (decide policy input s.policy session request).1.allowed))
        (decide policy input s.policy session request).2.1
        (decide policy input s.policy session request).2.2.1
      change Entered policy s.epoch s.link { Session.identity (Session.pend _ _ _) with stage := .left }
      rw [hpend]
      exact hentered.left hstage

theorem AllEntered.readClient (h : AllEntered policy s) {i : Nat} {session : Session σ ι}
    {message : Message} {region : Except Failure ShmRegion} {opened : Bool}
    (hentered : Entered policy s.epoch s.link session.identity) (hstage : session.stage = .reading) :
    AllEntered policy (s.readClient policy input i session message region opened) := by
  unfold State.readClient
  split
  · exact h.sendEngine hentered (hentered.left hstage)
  · apply h.setSession
    rw [identity_push]
    exact hentered
  · exact h.attachRing hentered hstage
  · split
    · exact h.setSession (hentered.left hstage)
    · exact h.handleRequest hentered hstage

theorem AllEntered.readRing (h : AllEntered policy s) {i : Nat} {session : Session σ ι}
    {request : Option Message} (hentered : Entered policy s.epoch s.link session.identity)
    (hstage : session.stage = .reading) :
    AllEntered policy (s.readRing policy input i session request) := by
  unfold State.readRing
  split
  · rename_i call
    dsimp only
    split
    · rename_i call' hallowed hmessage
      have hsame : AllEntered policy
        { s with policy := (decide policy input s.policy session (.opCall call)).2.2.2 } := h
      apply hsame.sendEngine
      · rw [identity_pend]
        exact hentered
      · change Entered policy s.epoch s.link { Session.identity (Session.push _ _ _) with stage := .left }
        rw [identity_push, identity_pend]
        exact hentered.left hstage
    · apply h.put
      rw [identity_refuseRing]
      exact hentered
  · apply h.setSession
    rw [identity_push]
    exact hentered

theorem AllEntered.closeClient (h : AllEntered policy s) {i : Nat} {session : Session σ ι}
    (hentered : Entered policy s.epoch s.link session.identity) :
    AllEntered policy (s.closeClient policy input i session) := by
  have hclosed : ∀ (state : σ) (session : Session σ ι), Entered policy s.epoch s.link session.identity →
      Entered policy s.epoch s.link (closeSession policy input state session).2.identity := by
    intro state session hentered
    rw [identity_closeSession]
    exact hentered.closed
  unfold State.closeClient
  dsimp only
  split
  · rename_i j ring hring
    obtain ⟨k, -, hget⟩ := Option.bind_eq_some_iff.1 hring
    obtain ⟨session', hsession', heq⟩ := Option.map_eq_some_iff.1 hget
    cases heq
    have hput := @AllEntered.put _ _ _ s h j (closeSession policy input s.policy ring)
      (hclosed s.policy ring (h.get hsession'))
    exact hput.put (hclosed _ session hentered)
  · exact h.put (hclosed _ session hentered)

theorem entered_step {action : Action ι} (h : AllEntered policy s)
    (hstep : s.step policy action = some s') : AllEntered policy s' := by
  cases action with
  | accept client =>
    cases hstep
    intro session hmem
    rcases List.mem_append.1 hmem with hold | hnew
    · exact h session hold
    · rw [List.mem_singleton.1 hnew]
      exact ⟨nofun, nofun, Nat.zero_le _⟩
  | hello i message negotiated input =>
    obtain ⟨session, hsession, -, rfl⟩ := step_hello hstep
    exact h.greet (h.get hsession)
  | read i message region opened input =>
    obtain ⟨session, hsession, -, ⟨refused, hstage, rfl⟩ | ⟨hstage, rfl⟩⟩ := step_read hstep
    · exact h.readCredentials (h.get hsession) hstage
    · exact h.readClient (h.get hsession) hstage
  | readRing i request input =>
    obtain ⟨session, hsession, -, hstage, rfl⟩ := step_readRing hstep
    exact h.readRing (h.get hsession) hstage
  | opened i ok input =>
    obtain ⟨session, request, hsession, hstage, rfl⟩ := step_opened hstep
    exact h.opened (h.get hsession) hstage
  | engine i message =>
    obtain ⟨session, hsession, -, rfl⟩ := step_engine hstep
    apply h.setSession
    rw [identity_push]
    exact h.get hsession
  | engineClose i =>
    obtain ⟨session, hsession, -, rfl⟩ := step_engineClose hstep
    have hentered := h.get hsession
    exact h.setSession hentered
  | write i delivered input =>
    obtain ⟨session, result, hsession, hresult, rfl⟩ := step_write hstep
    apply h.put
    rw [identity_writeOut hresult]
    exact h.get hsession
  | leave i =>
    obtain ⟨session, stage, hsession, rfl, ⟨rfl, -⟩ | ⟨rfl, hstage⟩⟩ := step_leave hstep
    · exact h.setSession (h.get hsession).closed
    · exact h.setSession ((h.get hsession).left hstage)
  | close i input =>
    obtain ⟨session, hsession, -, -, rfl⟩ := step_close hstep
    exact h.closeClient (h.get hsession)
  | linkDown =>
    cases hstep
    intro session hmem
    obtain ⟨old, hold, rfl⟩ := List.mem_map.1 hmem
    have hentered := h old hold
    split
    · exact ⟨hentered.proof, nofun, hentered.epoch⟩
    · exact ⟨hentered.proof, nofun, hentered.epoch⟩
  | linkUp minor info input =>
    obtain ⟨-, rfl⟩ := step_linkUp hstep
    intro session hmem
    have hentered := h session hmem
    refine ⟨hentered.proof, ?_, Nat.le_succ_of_le hentered.epoch⟩
    -- No session is as young as the new link.
    intro _ hepoch
    have hle := hentered.epoch
    dsimp only at hepoch
    omega

/-! ### What is forwarded -/

def Action.reads : Action ι → Option (Nat × Message × ι)
  | .read i message _ _ input => some (i, message, input)
  | .readRing i (some message) input => some (i, message, input)
  | _ => none

/-- The request was let through: as the client sent it by `check_delegation`, and then by the policy. -/
structure LetThrough (policy : Policy σ ι) (s s' : State σ ι) (session : Session σ ι) (input : ι)
    (request message : Message) : Prop where
  accepted : ∃ effective, checkDelegation session.caller request session.engineMinor = (none, effective) ∧
    ∃ decision, decision.allowed = true ∧
      policy.authorize s.policy input effective request = (decision, message, s'.policy)
  role : (requestDelegation request).isSome = true → session.caller.hasRole delegateRole = true
  minor : (requestDelegation request).isSome = true ∨ keyed request = true → 3 ≤ session.engineMinor

/-- The session of a client that the policy has let in; its engine is that of the link, if this is still
the one that there was at first. -/
structure Belongs (policy : Policy σ ι) (s : State σ ι) (session : Session σ ι) : Prop where
  authenticated : ∃ state input credentials, session.proof = some (state, input, credentials) ∧
    (policy.authenticate state input session.client credentials).1 = .ok session.caller
  engine : session.epoch = s.epoch → ∀ minor, s.link = some minor → session.engineMinor = minor

/-- What a step sends to the engine is nothing, or a message of a session that is let in: a `Cancel` of
its client, or a request that was let through. -/
def Mediated (policy : Policy σ ι) (s : State σ ι) (action : Action ι) (s' : State σ ι) : Prop :=
  s'.forwarded = s.forwarded ∨ ∃ i request input session message,
    action.reads = some (i, request, input) ∧ s.sessions[i]? = some session ∧ Belongs policy s session ∧
      s'.forwarded = s.forwarded ++ [(i, message)] ∧
      ((∃ cancel, request = .cancel cancel ∧ message = request) ∨
        LetThrough policy s s' session input request message)

theorem checkDelegation_none {caller effective : Caller} {request : Message} {engineMinor : UInt16}
    (h : checkDelegation caller request engineMinor = (none, effective)) :
    ((requestDelegation request).isSome = true → caller.hasRole delegateRole = true) ∧
      ((requestDelegation request).isSome = true ∨ keyed request = true → 3 ≤ engineMinor) := by
  unfold checkDelegation at h
  dsimp only at h
  split at h
  · cases h
  · rename_i hminor
    have hthree : (requestDelegation request).isSome = true ∨ keyed request = true → 3 ≤ engineMinor :=
      fun hgiven => UInt16.not_lt.1 fun hlt => hminor ⟨hgiven, hlt⟩
    split at h
    · rename_i hnone
      rw [hnone] at hthree ⊢
      exact ⟨nofun, hthree⟩
    · split at h
      · rename_i hrole
        exact ⟨fun _ => hrole, hthree⟩
      · cases h

theorem decide_allowed {session : Session σ ι} {request : Message} {state : σ}
    (h : (decide policy input state session request).1.allowed = true) :
    ∃ effective, checkDelegation session.caller request session.engineMinor = (none, effective) ∧
      policy.authorize state input effective request =
        ((decide policy input state session request).1, (decide policy input state session request).2.1,
          (decide policy input state session request).2.2.2) := by
  unfold decide at h ⊢
  cases hcheck : checkDelegation session.caller request session.engineMinor with
  | mk refused effective =>
    cases refused with
    | none => exact ⟨effective, rfl, rfl⟩
    | some refusal =>
      rw [hcheck] at h
      exfalso
      unfold checkDelegation at hcheck
      dsimp only at hcheck h
      split at hcheck
      · cases hcheck
        cases h
      · split at hcheck
        · cases hcheck
        · split at hcheck
          · cases hcheck
          · cases hcheck
            cases h

theorem LetThrough.of_decide {session : Session σ ι} {request message : Message} {next : State σ ι}
    (hallowed : (decide policy input s.policy session request).1.allowed = true)
    (hmessage : message = (decide policy input s.policy session request).2.1)
    (hpolicy : next.policy = (decide policy input s.policy session request).2.2.2) :
    LetThrough policy s next session input request message := by
  obtain ⟨effective, hcheck, hauthorize⟩ := decide_allowed hallowed
  obtain ⟨hrole, hminor⟩ := checkDelegation_none hcheck
  refine ⟨⟨effective, hcheck, _, hallowed, ?_⟩, hrole, hminor⟩
  rw [hauthorize, hmessage, hpolicy]

theorem forwarded_sendEngine (s : State σ ι) (i : Nat) (message : Message) (session failed : Session σ ι) :
    ((s.sendEngine i message session failed).forwarded = s.forwarded ∨
      (s.sendEngine i message session failed).forwarded = s.forwarded ++ [(i, message)]) ∧
    (s.sendEngine i message session failed).policy = s.policy := by
  rcases s.sendEngine_cases i message session failed with ⟨-, hsent⟩ | ⟨-, hsent⟩
  · rw [hsent]
    exact ⟨.inl rfl, rfl⟩
  · rw [hsent]
    exact ⟨.inr rfl, rfl⟩

theorem mediated_handleRequest {i : Nat} {session : Session σ ι} {request : Message} :
    (s.handleRequest policy input i session request).forwarded = s.forwarded ∨
      ∃ message, (s.handleRequest policy input i session request).forwarded =
          s.forwarded ++ [(i, message)] ∧
        LetThrough policy s (s.handleRequest policy input i session request) session input request message := by
  unfold State.handleRequest
  dsimp only
  split
  · exact .inl rfl
  · rename_i hallowed
    have hallowed := eq_true_of_ne_false hallowed
    obtain ⟨hforwarded, hpolicy⟩ := forwarded_sendEngine
      { s with policy := (decide policy input s.policy session request).2.2.2 } i
      (decide policy input s.policy session request).2.1
      (((session.note (verdict request (decide policy input s.policy session request).2.1
        (decide policy input s.policy session request).2.2.1
        (decide policy input s.policy session request).1.allowed)).pend
          (decide policy input s.policy session request).2.1
          (decide policy input s.policy session request).2.2.1).start
          (decide policy input s.policy session request).2.1
          (decide policy input s.policy session request).2.2.1) _
    rcases hforwarded with hsame | hsent
    · exact .inl hsame
    · exact .inr ⟨_, hsent, LetThrough.of_decide hallowed rfl hpolicy⟩

theorem mediated_readRing {i : Nat} {session : Session σ ι} {request : Option Message} :
    (s.readRing policy input i session request).forwarded = s.forwarded ∨
      ∃ call message, request = some call ∧
        (s.readRing policy input i session request).forwarded = s.forwarded ++ [(i, message)] ∧
        LetThrough policy s (s.readRing policy input i session request) session input call message := by
  unfold State.readRing
  split
  · rename_i call
    dsimp only
    split
    · rename_i call' hallowed hmessage
      obtain ⟨hforwarded, hpolicy⟩ := forwarded_sendEngine
        { s with policy := (decide policy input s.policy session (.opCall call)).2.2.2 } i (.opCall call')
        ((session.note (verdict (.opCall call) (decide policy input s.policy session (.opCall call)).2.1
          (decide policy input s.policy session (.opCall call)).2.2.1
          (decide policy input s.policy session (.opCall call)).1.allowed)).pend (.opCall call')
            (decide policy input s.policy session (.opCall call)).2.2.1) _
      rcases hforwarded with hsame | hsent
      · exact .inl hsame
      · exact .inr ⟨_, _, rfl, hsent, LetThrough.of_decide hallowed hmessage.symm hpolicy⟩
    · exact .inl rfl
  · exact .inl rfl

theorem mediated_readClient {i : Nat} {session : Session σ ι} {request : Message}
    {region : Except Failure ShmRegion} {opened : Bool} :
    (s.readClient policy input i session request region opened).forwarded = s.forwarded ∨
      ∃ message, (s.readClient policy input i session request region opened).forwarded =
          s.forwarded ++ [(i, message)] ∧
        ((∃ cancel, request = .cancel cancel ∧ message = request) ∨
          LetThrough policy s (s.readClient policy input i session request region opened) session input
            request message) := by
  unfold State.readClient
  split
  · rcases (forwarded_sendEngine s i _ session _).1 with hsame | hsent
    · exact .inl hsame
    · exact .inr ⟨_, hsent, .inl ⟨_, rfl, rfl⟩⟩
  · exact .inl rfl
  · unfold State.attachRing
    dsimp only
    split
    · exact .inl rfl
    · split
      · exact .inl rfl
      · split
        · exact .inl rfl
        · exact .inl rfl
  · split
    · exact .inl rfl
    · rcases @mediated_handleRequest _ _ policy input s i session request with
        hsame | ⟨message, hsent, hthrough⟩
      · exact .inl hsame
      · exact .inr ⟨message, hsent, .inr hthrough⟩

theorem forwarded_authenticate {i : Nat} {session : Session σ ι} {request : Option UInt32}
    {credentials : Credentials} {refuse : Failure → σ × Session σ ι → σ × Session σ ι} :
    (s.authenticate policy input i session request credentials refuse).forwarded = s.forwarded := by
  unfold State.authenticate
  split
  · rfl
  · dsimp only
    unfold State.openSession
    split
    · rfl
    · rfl

theorem mediated_step {action : Action ι} (h : AllEntered policy s)
    (hstep : s.step policy action = some s') : Mediated policy s action s' := by
  have hbelongs : ∀ {i : Nat} {session : Session σ ι}, s.sessions[i]? = some session →
      session.stage = .reading → Belongs policy s session := by
    intro i session hsession hstage
    have hentered := h.get hsession
    refine ⟨hentered.proof ?_, hentered.minor ?_⟩
    · change session.stage.isOpen = true
      rw [hstage]
      rfl
    · change session.stage.isActive = true
      rw [hstage]
      rfl
  cases action with
  | accept client =>
    cases hstep
    exact .inl rfl
  | hello i message negotiated input =>
    obtain ⟨session, -, -, rfl⟩ := step_hello hstep
    left
    unfold State.greet
    split
    · dsimp only
      split
      · exact forwarded_authenticate
      · rfl
    · rfl
  | read i message region opened input =>
    obtain ⟨session, hsession, -, ⟨refused, hstage, rfl⟩ | ⟨hstage, rfl⟩⟩ := step_read hstep
    · left
      unfold State.readCredentials
      split
      · rfl
      · exact forwarded_authenticate
      · split
        · rfl
        · split
          · rfl
          · rfl
    · rcases @mediated_readClient _ _ policy input s i session message region opened with
        hsame | ⟨sent, hsent, hwhy⟩
      · exact .inl hsame
      · exact .inr ⟨i, message, input, session, sent, rfl, hsession, hbelongs hsession hstage, hsent, hwhy⟩
  | readRing i request input =>
    obtain ⟨session, hsession, -, hstage, rfl⟩ := step_readRing hstep
    rcases @mediated_readRing _ _ policy input s i session request with
      hsame | ⟨call, sent, rfl, hsent, hthrough⟩
    · exact .inl hsame
    · exact .inr ⟨i, call, input, session, sent, rfl, hsession, hbelongs hsession hstage, hsent,
        .inr hthrough⟩
  | opened i ok input =>
    obtain ⟨session, request, -, -, rfl⟩ := step_opened hstep
    left
    unfold State.opened
    split
    · rfl
    · dsimp only
      split
      · rfl
      · rfl
  | engine i message =>
    obtain ⟨session, -, -, rfl⟩ := step_engine hstep
    exact .inl rfl
  | engineClose i =>
    obtain ⟨session, -, -, rfl⟩ := step_engineClose hstep
    exact .inl rfl
  | write i delivered input =>
    obtain ⟨session, result, -, -, rfl⟩ := step_write hstep
    exact .inl rfl
  | leave i =>
    obtain ⟨session, stage, -, rfl, -⟩ := step_leave hstep
    exact .inl rfl
  | close i input =>
    obtain ⟨session, -, -, -, rfl⟩ := step_close hstep
    left
    unfold State.closeClient
    dsimp only
    split
    · rfl
    · rfl
  | linkDown =>
    cases hstep
    exact .inl rfl
  | linkUp minor info input =>
    obtain ⟨-, rfl⟩ := step_linkUp hstep
    exact .inl rfl

def State.init (state : σ) (engineMinor : UInt16) : State σ ι := { policy := state, link := some engineMinor }

theorem entered_run {condition : State σ ι → Action ι → Prop} {state : σ} {engineMinor : UInt16}
    {actions : List (Action ι)} (hrun : Run policy condition (.init state engineMinor) actions s) :
    AllEntered policy s :=
  hrun.inv (fun _ hmem => absurd hmem List.not_mem_nil) fun h _ hstep => entered_step h hstep

/-- In every run, each message that goes to the engine for a client has been let through for it. -/
theorem mediated_run (policy : Policy σ ι) (state : σ) (engineMinor : UInt16) (actions : List (Action ι))
    (s s' : State σ ι) (action : Action ι)
    (hrun : Run policy (fun _ _ => True) (.init state engineMinor) actions s)
    (hstep : s.step policy action = some s') : Mediated policy s action s' :=
  mediated_step (entered_run hrun) hstep

/-! ### A policy that lets a call through, and one that adds a delegation to it -/

def plainCall : Message := .opCall { callId := 1, operationId := text "ping" }

def hello : Message := .hello {}

theorem mediated_plainCall : ∃ s s' : State Unit Unit,
    Run Policy.passThrough (fun _ _ => True) (.init () 3)
      [.accept {}, .hello 0 hello (some (3, Compression.none)) (), .opened 0 true ()] s ∧
    s.step Policy.passThrough (.read 0 plainCall (.error ⟨0, [], []⟩) false ()) = some s' ∧
    s'.forwarded = [(0, plainCall)] ∧
    Mediated Policy.passThrough s (.read 0 plainCall (.error ⟨0, [], []⟩) false ()) s' := by
  have hreached : ∃ s s' : State Unit Unit,
      Run Policy.passThrough (fun _ _ => True) (.init () 3)
        [.accept {}, .hello 0 hello (some (3, Compression.none)) (), .opened 0 true ()] s ∧
      s.step Policy.passThrough (.read 0 plainCall (.error ⟨0, [], []⟩) false ()) = some s' ∧
      s'.forwarded = [(0, plainCall)] :=
    ⟨_, _, .tail (.tail (.tail (.refl _) trivial rfl) trivial rfl) trivial rfl, rfl, rfl⟩
  obtain ⟨s, s', hrun, hstep, hforwarded⟩ := hreached
  exact ⟨s, s', hrun, hstep, hforwarded, mediated_run _ _ _ _ s s' _ hrun hstep⟩

def impersonate : Policy Unit Unit :=
  { Policy.passThrough with
    authorize := fun state _ _ request =>
      match request with
      | .opCall call => ({}, .opCall { call with actingAs := { subject := text "bob" } }, state)
      | request => ({}, request, state) }

/-- The call is forwarded with a delegation, for a caller without the role. -/
theorem forwarded_impersonate : ∃ s : State Unit Unit, ∃ session message,
    Run impersonate (fun _ _ => True) (.init () 3)
      [.accept {}, .hello 0 hello (some (3, Compression.none)) (), .opened 0 true (),
        .read 0 plainCall (.error ⟨0, [], []⟩) false ()] s ∧
    s.sessions[0]? = some session ∧ s.forwarded = [(0, message)] ∧
    (requestDelegation message).isSome = true ∧ session.caller.hasRole delegateRole = false ∧
    (checkDelegation session.caller message session.engineMinor).1.isSome = true := by
  refine ⟨_, _, _, .tail (.tail (.tail (.tail (.refl _) trivial rfl) trivial rfl) trivial rfl) trivial rfl,
    rfl, rfl, ?_⟩
  decide +kernel

end MoDb.Proxy
