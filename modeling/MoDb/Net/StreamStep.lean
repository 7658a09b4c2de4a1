import MoDb.Net.EngineSession

/-!
# What a worker does

A step of a worker changes its own stream, and it sends at most one message.
-/

namespace MoDb.Net

open Storage (Bytes)

variable {services : EngineServices}

/-- Where a worker that flushes its batch is then: the batch was sent, or it could not be. -/
def Phase.afterFlush : Phase → Option (Phase × Phase)
  | .flushing => some (.pulling, .forgetting)
  | .ending => some (.totalling, .forgetting)
  | .failing failure => some (.reporting failure, .reporting failure)
  | _ => none

/-- The message of a worker that sends one which is not a frame, and where it is then. -/
def Stream.announces (stream : Stream) : Option (Message × Phase) :=
  match stream.phase with
  | .beginning => some (.streamBegin { queryId := stream.query.queryId }, .pulling)
  | .totalling =>
    some (.streamEnd { queryId := stream.query.queryId, total := UInt64.ofNat stream.produced },
      .forgetting)
  | .reporting failure =>
    some (.streamError { queryId := stream.query.queryId, code := failure.code,
                         message := failure.message }, .forgetting)
  | _ => none

def Stream.register (stream : Stream) (number : Nat) (tokens : UInt32 → Option Nat) :
    UInt32 → Option Nat :=
  match stream.phase with
  | .starting => Function.update tokens stream.query.queryId (some number)
  | .forgetting => Function.update tokens stream.query.queryId none
  | _ => tokens

theorem register_afterFlush {stream : Stream} {phases : Phase × Phase}
    (h : stream.phase.afterFlush = some phases) (number : Nat) (tokens : UInt32 → Option Nat) :
    stream.register number tokens = tokens := by
  unfold Stream.register
  cases hphase : stream.phase with
  | starting =>
    rw [hphase] at h
    cases h
  | forgetting =>
    rw [hphase] at h
    cases h
  | _ => rfl

theorem register_announces {stream : Stream} {announced : Message × Phase}
    (h : stream.announces = some announced) (number : Nat) (tokens : UInt32 → Option Nat) :
    stream.register number tokens = tokens := by
  unfold Stream.announces at h
  unfold Stream.register
  cases hphase : stream.phase with
  | starting =>
    rw [hphase] at h
    cases h
  | forgetting =>
    rw [hphase] at h
    cases h
  | _ => rfl

/-- A step of a worker: what it sends, and its stream after it. `sends` says what can be sent. -/
inductive StreamStep (services : EngineServices) (sends : Message → Bool) (stream : Stream) :
    Option Message → Stream → Prop
  | start (hphase : stream.phase = .starting) :
      StreamStep services sends stream none { stream with phase := .beginning }
  | announce {message : Message} {phase : Phase}
      (hannounces : stream.announces = some (message, phase)) (hsends : sends message = true) :
      StreamStep services sends stream (some message) { stream with phase }
  | silent {message : Message} {phase : Phase} (hannounces : stream.announces = some (message, phase))
      (hsends : sends message = false) :
      StreamStep services sends stream none { stream with phase := .forgetting }
  | pull (hphase : stream.phase = .pulling) : StreamStep services sends stream none stream.pull
  | check {item : Item} (hphase : stream.phase = .checking item) :
      StreamStep services sends stream none (stream.check item)
  | skip {sent failed : Phase} (hphase : stream.phase.afterFlush = some (sent, failed))
      (hbatch : stream.batch = []) :
      StreamStep services sends stream none { stream with phase := sent }
  | flush {sent failed : Phase} (hphase : stream.phase.afterFlush = some (sent, failed))
      (hbatch : stream.batch ≠ []) (hsends : sends (stream.frame services) = true) :
      StreamStep services sends stream (some (stream.frame services))
        { stream with batch := [], phase := sent }
  | lose {sent failed : Phase} (hphase : stream.phase.afterFlush = some (sent, failed))
      (hbatch : stream.batch ≠ []) (hsends : sends (stream.frame services) = false) :
      StreamStep services sends stream none { stream with phase := failed }
  | forget (hphase : stream.phase = .forgetting) :
      StreamStep services sends stream none { stream with phase := .exiting }
  | exit (hphase : stream.phase = .exiting) :
      StreamStep services sends stream none { stream with phase := .finished }

namespace EngineSession

variable {s s' : EngineSession} {number : Nat} {stream : Stream}

/-- What a worker leaves alone. -/
structure SameQueues (s s' : EngineSession) : Prop where
  inbox : s'.inbox = s.inbox
  handling : s'.handling = s.handling
  closing : s'.closing = s.closing
  up : s'.up = s.up
  attached : s'.attached = s.attached
  handled : s'.handled = s.handled
  received : s'.received = s.received

theorem SameQueues.trans {s'' : EngineSession} (h : SameQueues s s') (h' : SameQueues s' s'') :
    SameQueues s s'' where
  inbox := h'.inbox.trans h.inbox
  handling := h'.handling.trans h.handling
  closing := h'.closing.trans h.closing
  up := h'.up.trans h.up
  attached := h'.attached.trans h.attached
  handled := h'.handled.trans h.handled
  received := h'.received.trans h.received

theorem sameQueues_spend (services : EngineServices) (s : EngineSession) (id : UInt32) :
    SameQueues s (s.spend services id) ∧ (s.spend services id).streams = s.streams ∧
      (s.spend services id).sent = s.sent ∧ (s.spend services id).tokens = s.tokens ∧
      (s.spend services id).owed = s.owed := by
  unfold spend
  cases services.link with
  | none => exact ⟨⟨rfl, rfl, rfl, rfl, rfl, rfl, rfl⟩, rfl, rfl, rfl, rfl⟩
  | some frames => exact ⟨⟨rfl, rfl, rfl, rfl, rfl, rfl, rfl⟩, rfl, rfl, rfl, rfl⟩

theorem sameQueues_owe (services : EngineServices) (s : EngineSession) (id : UInt32) :
    SameQueues s (s.owe services id) ∧ (s.owe services id).streams = s.streams ∧
      (s.owe services id).sent = s.sent ∧ (s.owe services id).tokens = s.tokens ∧
      (s.owe services id).owed.length ≤ s.owed.length + 1 := by
  unfold owe
  cases services.link with
  | none => exact ⟨⟨rfl, rfl, rfl, rfl, rfl, rfl, rfl⟩, rfl, rfl, rfl, Nat.le_succ _⟩
  | some frames =>
    exact ⟨⟨rfl, rfl, rfl, rfl, rfl, rfl, rfl⟩, rfl, rfl, rfl, Nat.le_of_eq List.length_append⟩

/-- A step of a worker changes its stream, and adds what it sends. -/
structure Works (services : EngineServices) (s : EngineSession) (number : Nat)
    (stream : Stream) (message : Option Message) (stream' : Stream) (s' : EngineSession) : Prop where
  step : StreamStep services s.sends stream message stream'
  same : SameQueues s s'
  streams : s'.streams = s.streams.set number stream'
  sent : s'.sent = s.sent ++ (message.map fun message => (some number, message)).toList
  tokens : s'.tokens = stream.register number s.tokens
  owed : s'.owed.length ≤ s.owed.length + message.toList.length

def log (s : EngineSession) (number : Nat) : List Message :=
  s.sent.filterMap fun entry => if entry.1 = some number then some entry.2 else none

theorem log_put (number : Option Nat) (message : Message) (other : Nat) :
    (s.put number message).log other =
      s.log other ++ if number = some other then [message] else [] := by
  unfold log put
  rw [List.filterMap_append]
  by_cases hsame : number = some other
  · rw [if_pos hsame]
    simp only [List.filterMap_cons, hsame, if_true, List.filterMap_nil]
  · rw [if_neg hsame]
    simp only [List.filterMap_cons, hsame, if_false, List.filterMap_nil]

theorem Works.log {message : Option Message} {stream' : Stream}
    (h : Works services s number stream message stream' s') (other : Nat) :
    s'.log other = s.log other ++ if other = number then message.toList else [] := by
  unfold EngineSession.log
  rw [h.sent, List.filterMap_append]
  cases message with
  | none =>
    split
    · rfl
    · rfl
  | some message =>
    by_cases hsame : other = number
    · subst hsame
      simp only [Option.map_some, Option.toList_some, List.filterMap_cons, if_true,
        List.filterMap_nil]
    · have hne : ¬some number = some other := fun heq => hsame (Option.some.inj heq).symm
      simp only [Option.map_some, Option.toList_some, List.filterMap_cons, hne, if_false,
        List.filterMap_nil, hsame]

theorem works_workerSend {message : Message} {phase : Phase}
    (h : stream.announces = some (message, phase)) :
    ∃ sent stream', Works services s number stream sent stream'
      (s.workerSend number stream message phase .forgetting) := by
  unfold workerSend
  by_cases hsends : s.sends message = true
  · rw [if_pos hsends]
    exact ⟨_, _, .announce h hsends, ⟨rfl, rfl, rfl, rfl, rfl, rfl, rfl⟩, rfl, rfl,
      (register_announces h number s.tokens).symm, Nat.le_succ _⟩
  · rw [if_neg hsends]
    refine ⟨_, _, .silent h (eq_false_of_ne_true hsends),
      ⟨rfl, rfl, rfl, rfl, rfl, rfl, rfl⟩, rfl, ?_, (register_announces h number s.tokens).symm, Nat.le_refl _⟩
    exact (List.append_nil _).symm

theorem works_flush {sent failed : Phase} (hphase : stream.phase.afterFlush = some (sent, failed))
    (h : s.flush services number stream sent failed = some s') :
    ∃ message stream', Works services s number stream message stream' s' := by
  have hregister := (register_afterFlush hphase number s.tokens).symm
  unfold flush at h
  dsimp only at h
  by_cases hbatch : stream.batch = []
  · rw [if_pos hbatch] at h
    cases h
    exact ⟨_, _, .skip hphase hbatch, ⟨rfl, rfl, rfl, rfl, rfl, rfl, rfl⟩, rfl,
      (List.append_nil _).symm, hregister, Nat.le_refl _⟩
  · rw [if_neg hbatch] at h
    by_cases hwaits : s.waits services stream.query.queryId = true
    · rw [if_pos hwaits] at h
      cases h
    · rw [if_neg hwaits] at h
      obtain ⟨hsame, hstreams, hsent, htokens, howed⟩ := sameQueues_spend services s stream.query.queryId
      by_cases hsends : s.sends (stream.frame services) = true
      · rw [if_pos hsends] at h
        cases h
        obtain ⟨howe, hstreams', hsent', htokens', howed'⟩ := sameQueues_owe services
          (s.spend services stream.query.queryId) stream.query.queryId
        refine ⟨_, _, .flush hphase hbatch hsends, ?_, ?_, ?_, ?_, ?_⟩
        · exact hsame.trans (howe.trans ⟨rfl, rfl, rfl, rfl, rfl, rfl, rfl⟩)
        · exact congrArg (List.set · _ _) (hstreams'.trans hstreams)
        · exact congrArg (· ++ _) (hsent'.trans hsent)
        · exact (htokens'.trans htokens).trans hregister
        · rw [howed] at howed'
          exact howed'
      · rw [if_neg hsends] at h
        cases h
        refine ⟨_, _, .lose hphase hbatch (eq_false_of_ne_true hsends), ?_, ?_, ?_, ?_, ?_⟩
        · exact hsame.trans ⟨rfl, rfl, rfl, rfl, rfl, rfl, rfl⟩
        · exact congrArg (List.set · _ _) hstreams
        · exact hsent.trans (List.append_nil _).symm
        · exact htokens.trans hregister
        · exact Nat.le_of_eq (congrArg List.length howed)

theorem works_runQuery (h : s.runQuery services number stream = some s') :
    ∃ message stream', Works services s number stream message stream' s' := by
  unfold runQuery at h
  dsimp only at h
  have hsame : SameQueues s s := ⟨rfl, rfl, rfl, rfl, rfl, rfl, rfl⟩
  have hnil : s.sent = s.sent ++ [] := (List.append_nil _).symm
  cases hphase : stream.phase with
  | queued =>
    rw [hphase] at h
    cases h
  | starting =>
    rw [hphase] at h
    cases h
    exact ⟨_, _, .start hphase, ⟨rfl, rfl, rfl, rfl, rfl, rfl, rfl⟩, rfl, hnil,
      by simp only [Stream.register, hphase], Nat.le_refl _⟩
  | beginning =>
    rw [hphase] at h
    cases h
    exact works_workerSend (by unfold Stream.announces; rw [hphase])
  | pulling =>
    rw [hphase] at h
    cases h
    exact ⟨_, _, .pull hphase, ⟨rfl, rfl, rfl, rfl, rfl, rfl, rfl⟩, rfl, hnil,
      by simp only [Stream.register, hphase, setStream], Nat.le_refl _⟩
  | checking item =>
    rw [hphase] at h
    cases h
    exact ⟨_, _, .check hphase, ⟨rfl, rfl, rfl, rfl, rfl, rfl, rfl⟩, rfl, hnil,
      by simp only [Stream.register, hphase, setStream], Nat.le_refl _⟩
  | flushing =>
    rw [hphase] at h
    exact works_flush (by rw [hphase]; rfl) h
  | ending =>
    rw [hphase] at h
    exact works_flush (by rw [hphase]; rfl) h
  | totalling =>
    rw [hphase] at h
    cases h
    exact works_workerSend (by unfold Stream.announces; rw [hphase])
  | failing failure =>
    rw [hphase] at h
    exact works_flush (by rw [hphase]; rfl) h
  | reporting failure =>
    rw [hphase] at h
    cases h
    exact works_workerSend (by unfold Stream.announces; rw [hphase])
  | forgetting =>
    rw [hphase] at h
    cases h
    exact ⟨_, _, .forget hphase, ⟨rfl, rfl, rfl, rfl, rfl, rfl, rfl⟩, rfl, hnil,
      by simp only [Stream.register, hphase, setStream, forgetToken], Nat.le_refl _⟩
  | exiting =>
    rw [hphase] at h
    cases h
    exact ⟨_, _, .exit hphase, ⟨rfl, rfl, rfl, rfl, rfl, rfl, rfl⟩, rfl, hnil,
      by simp only [Stream.register, hphase, setStream], Nat.le_refl _⟩
  | finished =>
    rw [hphase] at h
    cases h

end EngineSession

end MoDb.Net
