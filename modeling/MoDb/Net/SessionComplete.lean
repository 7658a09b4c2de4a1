import MoDb.Net.SessionAnswers
import Mathlib.Algebra.BigOperators.Group.List.Basic

/-!
# No request is left

Left to itself, a session comes to rest. If all that it has to send fits, then each request has its
answer when it is at rest.
-/

namespace MoDb.Net

open EngineSession

variable {services : EngineServices}

/-! ### Coming to rest -/

/-- How many steps a worker has left at most, and how many credits its frames give back. -/
def Stream.rank (stream : Stream) : Nat :=
  let left := 6 * (stream.source.length - stream.pulled)
  match stream.phase with
  | .queued => 0
  | .starting => left + 13
  | .beginning => left + 12
  | .pulling => left + 10
  | .checking _ => left + 14
  | .flushing => left + 13
  | .ending => 8
  | .totalling => 5
  | .failing _ => 8
  | .reporting _ => 5
  | .forgetting => 3
  | .exiting => 2
  | .finished => 1

theorem rank_announces {stream : Stream} {message : Message} {phase : Phase}
    (h : stream.announces = some (message, phase)) :
    { stream with phase }.rank + 1 < stream.rank ∧ 3 < stream.rank := by
  unfold Stream.announces at h
  split at h
  · rename_i hphase
    cases h
    rw [Stream.rank, Stream.rank, hphase]
    dsimp only
    omega
  · rename_i hphase
    cases h
    rw [Stream.rank, Stream.rank, hphase]
    dsimp only
    omega
  · rename_i hphase
    cases h
    rw [Stream.rank, Stream.rank, hphase]
    dsimp only
    omega
  · cases h

theorem rank_afterFlush {stream : Stream} {sent failed : Phase} (batch : List ObjectEnvelope)
    (h : stream.phase.afterFlush = some (sent, failed)) :
    { stream with batch, phase := sent }.rank + 1 < stream.rank ∧
      { stream with phase := failed }.rank < stream.rank := by
  unfold Phase.afterFlush at h
  split at h
  · rename_i hphase
    cases h
    rw [Stream.rank, Stream.rank, Stream.rank, hphase]
    dsimp only
    omega
  · rename_i hphase
    cases h
    rw [Stream.rank, Stream.rank, Stream.rank, hphase]
    dsimp only
    omega
  · rename_i hphase
    cases h
    rw [Stream.rank, Stream.rank, Stream.rank, hphase]
    dsimp only
    omega
  · cases h

theorem rank_pull {stream : Stream} (hphase : stream.phase = .pulling) :
    stream.pull.rank < stream.rank := by
  have hrank : stream.rank = 6 * (stream.source.length - stream.pulled) + 10 := by
    rw [Stream.rank, hphase]
  rw [hrank]
  unfold Stream.pull
  cases hitem : stream.source[stream.pulled]? with
  | none =>
    change 8 < _
    omega
  | some item =>
    have hlt := (List.getElem?_eq_some_iff.1 hitem).1
    have hchecking : ∀ item, Stream.rank { stream with phase := .checking item,
                                                       pulled := stream.pulled + 1 } <
        6 * (stream.source.length - stream.pulled) + 10 := by
      intro item
      change 6 * (stream.source.length - (stream.pulled + 1)) + 14 < _
      omega
    cases item with
    | error failure => exact hchecking (.error failure)
    | ok object =>
      cases stream.cancelled with
      | true =>
        change 8 < _
        omega
      | false => exact hchecking (.ok object)

theorem rank_check {stream : Stream} {item : Item} (hphase : stream.phase = .checking item) :
    (stream.check item).rank < stream.rank := by
  have hrank : stream.rank = 6 * (stream.source.length - stream.pulled) + 14 := by
    rw [Stream.rank, hphase]
  rw [hrank]
  unfold Stream.check
  split
  · change 8 < _
    omega
  · split
    · change 8 < _
      omega
    · split
      · change 6 * (stream.source.length - stream.pulled) + 13 < _
        omega
      · change 6 * (stream.source.length - stream.pulled) + 10 < _
        omega

theorem rank_streamStep {sends : Message → Bool} {stream stream' : Stream} {message : Option Message}
    (h : StreamStep services sends stream message stream') :
    stream'.rank + message.toList.length < stream.rank := by
  cases h with
  | start hphase =>
    rw [Stream.rank, Stream.rank, hphase]
    exact Nat.lt_succ_self _
  | announce hannounces hsends => exact (rank_announces hannounces).1
  | silent hannounces hsends => exact (rank_announces hannounces).2
  | pull hphase => exact rank_pull hphase
  | check hphase => exact rank_check hphase
  | skip hphase hbatch =>
    exact Nat.lt_of_succ_lt (rank_afterFlush stream.batch hphase).1
  | flush hphase hbatch hsends => exact (rank_afterFlush [] hphase).1
  | lose hphase hbatch hsends => exact (rank_afterFlush [] hphase).2
  | forget hphase =>
    rw [Stream.rank, Stream.rank, hphase]
    exact Nat.lt_succ_self _
  | exit hphase =>
    rw [Stream.rank, Stream.rank, hphase]
    exact Nat.lt_succ_self _

namespace EngineSession

variable {s s' : EngineSession}

/-- The step is one of the engine's or of its proxy's: no message comes, and nothing ends. -/
def Action.own : Action → Bool
  | .take | .handle _ | .worker _ | .grant _ => true
  | .receive _ | .close | .disconnect | .finish => false

def waiting (s : EngineSession) : Nat := 2 * s.inbox.length + s.handling.toList.length

def working (s : EngineSession) : Nat := (s.streams.map Stream.rank).sum + s.owed.length

theorem sum_rank_set {streams : List Stream} {number : Nat} {stream : Stream} (stream' : Stream)
    (hstream : streams[number]? = some stream) :
    ((streams.set number stream').map Stream.rank).sum + stream.rank =
      (streams.map Stream.rank).sum + stream'.rank := by
  induction streams generalizing number with
  | nil => cases hstream
  | cons first streams ih =>
    cases number with
    | zero =>
      cases hstream
      simp only [List.set_cons_zero, List.map_cons, List.sum_cons]
      omega
    | succ number =>
      have hmore := ih hstream
      simp only [List.set_cons_succ, List.map_cons, List.sum_cons]
      omega

theorem working_worker {number : Nat} {stream : Stream} (hstream : s.streams[number]? = some stream)
    (h : s.runQuery services number stream = some s') : s'.working < s.working := by
  obtain ⟨message, stream', hworks⟩ := works_runQuery h
  have hrank := rank_streamStep hworks.step
  have hsum := sum_rank_set stream' hstream
  have howed := hworks.owed
  unfold working
  rw [hworks.streams]
  omega

theorem waiting_respond (number : Option Nat) (message : Message) :
    (s.respond number message).waiting ≤ s.waiting := by
  unfold respond
  split
  · exact Nat.le_refl _
  · exact Nat.add_le_add_right (Nat.zero_le _) _

theorem waiting_handle (outcomes : Outcomes) (message : Message) :
    (s.handle services outcomes message).waiting ≤ s.waiting := by
  unfold handle
  split
  · split
    · exact Nat.le_refl _
    · unfold handleQuery
      dsimp only
      split
      · exact waiting_respond _ _
      · exact Nat.le_refl _
  · split
    · exact Nat.add_le_add_right (Nat.zero_le _) _
    · exact waiting_respond _ _
    · exact waiting_respond _ _

theorem wellFounded_own (services : EngineServices) :
    WellFounded fun s' s : EngineSession => ∃ action : Action, action.own = true ∧
      s.step services action = some s' := by
  have hwf : WellFounded fun s' s : EngineSession =>
      Prod.Lex (· < ·) (· < ·) (s'.waiting, s'.working) (s.waiting, s.working) :=
    InvImage.wf _ (Prod.lex Nat.lt_wfRel Nat.lt_wfRel).wf
  apply Subrelation.wf _ hwf
  rintro s' s ⟨action, hown, h⟩
  cases action with
  | take =>
    obtain ⟨message, inbox, hhandling, hinbox, rfl⟩ := step_take h
    apply Prod.Lex.left
    unfold waiting
    rw [hhandling, hinbox]
    simp only [List.length_cons, Option.toList_some, Option.toList_none, List.length_nil]
    omega
  | handle outcomes =>
    obtain ⟨message, hhandling, rfl⟩ := step_handle h
    apply Prod.Lex.left
    apply Nat.lt_of_le_of_lt (waiting_handle outcomes message)
    unfold waiting
    rw [hhandling]
    exact Nat.lt_succ_self _
  | worker number =>
    obtain ⟨stream, hstream, hrun⟩ := step_worker h
    have hworking := working_worker hstream hrun
    obtain ⟨message, stream', hworks⟩ := works_runQuery hrun
    have hwaiting : s'.waiting = s.waiting := by
      rw [waiting, hworks.same.inbox, hworks.same.handling]
      rfl
    rw [hwaiting]
    exact Prod.Lex.right _ hworking
  | grant index =>
    obtain ⟨id, frames, howed, rfl⟩ := step_grant h
    apply Prod.Lex.right
    have hlt := (List.getElem?_eq_some_iff.1 howed).1
    unfold working
    dsimp only
    rw [List.length_eraseIdx, if_pos hlt]
    omega
  | receive message => cases hown
  | close => cases hown
  | disconnect => cases hown
  | finish => cases hown

/-! ### At rest -/

def Rest (services : EngineServices) (s : EngineSession) : Prop :=
  ∀ action : Action, action.own = true → s.step services action = none

theorem runQuery_eq_none {number : Nat} {stream : Stream}
    (h : s.runQuery services number stream = none) : stream.phase = .queued ∨
      stream.phase = .finished ∨
      stream.ended = false ∧ s.waits services stream.query.queryId = true := by
  have hflush : ∀ {sent failed}, stream.phase.afterFlush = some (sent, failed) →
      s.flush services number stream sent failed = none →
      stream.ended = false ∧ s.waits services stream.query.queryId = true := by
    intro sent failed hafter hnone
    refine ⟨unended_of_afterFlush hafter, ?_⟩
    unfold flush at hnone
    dsimp only at hnone
    split at hnone
    · cases hnone
    · split at hnone
      · assumption
      · split at hnone
        · cases hnone
        · cases hnone
  unfold runQuery at h
  dsimp only at h
  cases hphase : stream.phase with
  | queued => exact .inl rfl
  | finished => exact .inr (.inl rfl)
  | flushing =>
    rw [hphase] at h
    exact .inr (.inr (hflush (by rw [hphase]; rfl) h))
  | ending =>
    rw [hphase] at h
    exact .inr (.inr (hflush (by rw [hphase]; rfl) h))
  | failing failure =>
    rw [hphase] at h
    exact .inr (.inr (hflush (by rw [hphase]; rfl) h))
  | _ =>
    rw [hphase] at h
    cases h

theorem pending_at_rest (h : Rest services s) : s.pending = [] ∧ s.owed = [] := by
  have hhandling : s.handling = none := by
    cases hhandling : s.handling with
    | none => rfl
    | some message =>
      have hnone := h (.handle {}) rfl
      rw [step, hhandling] at hnone
      cases hnone
  have hinbox : s.inbox = [] := by
    cases hinbox : s.inbox with
    | nil => rfl
    | cons message inbox =>
      have hnone := h .take rfl
      rw [step, hhandling, hinbox] at hnone
      cases hnone
  have howed : s.owed = [] := by
    cases howed : s.owed with
    | nil => rfl
    | cons grant owed =>
      have hnone := h (.grant 0) rfl
      rw [step, howed] at hnone
      cases hnone
  rw [pending, hhandling, hinbox]
  exact ⟨rfl, howed⟩

theorem finished_at_rest (hqueues : Queues s) (h : Answering services s) (hrest : Rest services s)
    {number : Nat} {stream : Stream} (hstream : s.streams[number]? = some stream) :
    stream.phase = .finished := by
  obtain ⟨hpending, howed⟩ := pending_at_rest hrest
  have hnone := hrest (.worker number) rfl
  rw [step, hstream] at hnone
  rcases runQuery_eq_none hnone with hqueued | hfinished | ⟨hunended, hwaits⟩
  · -- All queries were handled.
    have hqueries := hqueues.queries
    rw [h.unclosed, hpending] at hqueries
    have hall := congrArg List.length hqueries.open
    rw [← hqueues.streams, List.filterMap_nil, List.append_nil, List.length_map, List.length_map,
      List.length_take_of_le hqueues.handled] at hall
    have hle := (hqueues.queued hstream).1 hqueued
    have hlt := (List.getElem?_eq_some_iff.1 hstream).1
    rw [hall] at hle
    exact absurd hlt (Nat.not_lt_of_le hle)
  · exact hfinished
  · obtain ⟨hlink, -, hzero⟩ := of_decide_eq_true hwaits
    have hcredit := h.credit hlink stream (List.mem_of_getElem? hstream) hunended
    rw [credit, howed, hzero] at hcredit
    exact absurd hcredit (Nat.not_succ_le_zero 0)

/-! ### Runs -/

theorem credit_grant {index : Nat} {id : UInt32} {frames : Nat}
    (howed : s.owed[index]? = some (id, frames)) {other : UInt32} (hpos : 1 ≤ s.credit other) :
    1 ≤ EngineSession.credit { s with owed := s.owed.eraseIdx index,
                                      credits := EngineSession.grant s.credits id frames } other := by
  obtain ⟨hlt, hget⟩ := List.getElem?_eq_some_iff.1 howed
  have hindex : index < (s.owed.map fun grant : UInt32 × Nat =>
      if grant.1 = other then grant.2 else 0).length := by
    rw [List.length_map]
    exact hlt
  have hsum := List.CommMonoid.add_sum_eraseIdx hindex
  rw [List.getElem_map, hget, List.eraseIdx_map] at hsum
  unfold credit at hpos ⊢
  rw [← hsum] at hpos
  dsimp only at hpos ⊢
  by_cases hsame : id = other
  · subst hsame
    rw [if_pos rfl] at hpos
    rw [EngineSession.grant, Function.update_self]
    omega
  · rw [if_neg hsame] at hpos
    rw [EngineSession.grant, Function.update_of_ne (Ne.symm hsame)]
    omega

theorem answering_step {action : Action} (hqueues : Queues s) (h : Answering services s)
    (hmeets : Meets services s action) (hstep : s.step services action = some s') :
    Answering services s' := by
  cases action with
  | receive message =>
    obtain ⟨-, rfl⟩ := step_receive hstep
    exact answering_receive h hmeets
  | take =>
    obtain ⟨message, inbox, hhandling, hinbox, rfl⟩ := step_take hstep
    refine ⟨h.up, h.unclosed, ?_, h.told, h.fresh, h.fits, h.credit⟩
    intro other hmem
    apply h.requests
    rw [pending, hhandling, hinbox]
    exact hmem
  | handle outcomes =>
    obtain ⟨message, hhandling, rfl⟩ := step_handle hstep
    exact answering_handle hqueues h hhandling hmeets
  | worker number =>
    obtain ⟨stream, hstream, hrun⟩ := step_worker hstep
    exact answering_worker h hstream hmeets hrun
  | grant index =>
    obtain ⟨id, frames, howed, rfl⟩ := step_grant hstep
    refine ⟨h.up, h.unclosed, h.requests, h.told, h.fresh, h.fits, ?_⟩
    intro hlink stream hmem hunended
    exact credit_grant howed (h.credit hlink stream hmem hunended)
  | close => cases hmeets
  | disconnect => cases hmeets
  | finish =>
    obtain ⟨hclosing, -, -⟩ := step_finish hstep
    rw [h.unclosed] at hclosing
    cases hclosing

theorem answering_run {actions : List Action} (hrun : Run services (Meets services) {} actions s) :
    Queues s ∧ Answering services s :=
  @Run.inv _ _ _ _ _ (fun s => Queues s ∧ Answering services s) hrun ⟨queues_init, answering_init⟩
    fun hmid hmeets hstep =>
      ⟨queues_step hmid.1 hstep, answering_step hmid.1 hmid.2 hmeets hstep⟩

theorem told_cases {stream : Stream} {log : List Message} (h : Told services stream log) :
    (stream.ended = true → Answered services stream.query stream.source stream.cancelled log) ∧
    (stream.ended = false → log = [] ∨ ∃ batches, log = opening services stream.query batches ∧
      batches.flatten.map Except.ok <+: stream.source) := by
  have hopening : ∀ {taken}, Opened services stream log taken → taken <+: stream.source →
      ∃ batches, log = opening services stream.query batches ∧
        batches.flatten.map Except.ok <+: stream.source := by
    rintro taken ⟨batches, hlog, htaken, -⟩ hprefix
    refine ⟨batches, hlog, ?_⟩
    rw [List.map_append] at htaken
    exact (List.prefix_append _ _).trans (htaken ▸ hprefix)
  unfold Told at h
  unfold Stream.ended
  revert h
  cases stream.phase with
  | queued => exact fun h => ⟨nofun, fun _ => .inl h.1⟩
  | starting => exact fun h => ⟨nofun, fun _ => .inl h.1⟩
  | beginning => exact fun h => ⟨nofun, fun _ => .inl h.1⟩
  | pulling => exact fun h => ⟨nofun, fun _ => .inr (hopening h (List.take_prefix _ _))⟩
  | flushing => exact fun h => ⟨nofun, fun _ => .inr (hopening h (List.take_prefix _ _))⟩
  | checking item =>
    rintro ⟨taken, htake, hopened⟩
    refine ⟨nofun, fun _ => .inr (hopening hopened ?_)⟩
    exact (List.prefix_append _ _).trans (htake ▸ List.take_prefix _ _)
  | ending =>
    rintro ⟨taken, hopened, hprefix, -⟩
    exact ⟨nofun, fun _ => .inr (hopening hopened hprefix)⟩
  | totalling =>
    rintro ⟨-, taken, hopened, hprefix, -⟩
    exact ⟨nofun, fun _ => .inr (hopening hopened hprefix)⟩
  | failing failure =>
    rintro ⟨taken, hopened, hprefix⟩
    exact ⟨nofun, fun _ => .inr (hopening hopened ((List.prefix_append _ _).trans hprefix))⟩
  | reporting failure =>
    rintro ⟨-, taken, hopened, hprefix⟩
    exact ⟨nofun, fun _ => .inr (hopening hopened ((List.prefix_append _ _).trans hprefix))⟩
  | forgetting => exact fun h => ⟨fun _ => h, nofun⟩
  | exiting => exact fun h => ⟨fun _ => h, nofun⟩
  | finished => exact fun h => ⟨fun _ => h, nofun⟩

/-- In a run in which all that is sent fits, the session goes on, replies come in order and once, a
stream sends what it should, and a client reads all of it. Left to itself the session comes to rest, and
then every request is answered. -/
theorem answers_run {actions : List Action} (hrun : Run services (Meets services) {} actions s) :
    s.closing = false ∧
    s.replies ++ s.pending.filterMap requestKey = s.received.filterMap requestKey ∧
    s.streams.map Stream.query = s.received.filterMap asQuery ∧
    (∀ number stream, s.streams[number]? = some stream →
      (stream.ended = true →
        Answered services stream.query stream.source stream.cancelled (s.log number)) ∧
      (stream.ended = false → s.log number = [] ∨
        ∃ batches, s.log number = opening services stream.query batches ∧
          batches.flatten.map Except.ok <+: stream.source)) ∧
    (∀ entry ∈ s.sent, ∃ bytes, encodeMessage (relayed services entry.2) = .ok bytes ∧
      decodeMessage bytes maxFrameBytes defaultMaxExpansionRatio.toNat =
        .ok (heard (relayed services entry.2))) ∧
    (Acc (fun s' s : EngineSession => ∃ action : Action, action.own = true ∧
      s.step services action = some s') s) ∧
    (Rest services s → s.replies = s.received.filterMap requestKey ∧
      ∀ stream ∈ s.streams, stream.ended = true) := by
  obtain ⟨hqueues, h⟩ := answering_run hrun
  have hreplies := hqueues.replies
  rw [h.unclosed] at hreplies
  refine ⟨h.unclosed, hreplies.open, hqueues.streams, ?_, ?_, (wellFounded_own services).apply s, ?_⟩
  · exact fun number stream hstream => told_cases (h.told hstream)
  · exact fun entry hmem => (h.fits entry hmem).2.heard
  · intro hrest
    have hall := hreplies.open
    rw [(pending_at_rest hrest).1, List.filterMap_nil, List.append_nil] at hall
    refine ⟨hall, ?_⟩
    intro stream hmem
    obtain ⟨number, hstream⟩ := List.mem_iff_getElem?.1 hmem
    rw [Stream.ended, finished_at_rest hqueues h hrest hstream]
    rfl

/-! ### A call with a result of one byte, and one with a result of 16 MiB -/

def call : Message := .opCall { callId := 7 }

theorem answers_call : ∃ s, Run {} (Meets {}) {}
      [.receive call, .take, .handle { dispatch := .ok [1] }] s ∧
    s.closing = false ∧ s.replies = [(.call, 7)] := by
  have hfits : Fits {} (.opResult (executeOpCall {} { callId := 7 } (.ok [1]))) :=
    ⟨⟨by decide +kernel, trivial⟩, by decide +kernel, trivial⟩
  have hreached : ∃ s, Run {} (Meets {}) {}
      [.receive call, .take, .handle { dispatch := .ok [1] }] s ∧ s.replies = [(.call, 7)] := by
    refine ⟨_, .tail (.tail (.tail (.refl _) rfl rfl) trivial rfl) ?_ rfl, by decide +kernel⟩
    rintro message reply hhandling hanswer
    cases hhandling
    cases hanswer
    exact hfits
  obtain ⟨s, hrun, hreplies⟩ := hreached
  exact ⟨s, hrun, (answers_run hrun).1, hreplies⟩

theorem encodeMessage_large {id : UInt32} {payload : Storage.Bytes}
    (h : maxFrameBytes ≤ payload.length) :
    (encodeMessage (.opResult { callId := id, ok := true, payload })).isOk = false := by
  cases hencode : encodeMessage (.opResult { callId := id, ok := true, payload }) with
  | error error => rfl
  | ok bytes =>
    obtain ⟨body, hbody, hmore⟩ := Effect.except_bind_eq_ok hencode
    obtain ⟨hlength, -⟩ := require_eq_ok hmore
    obtain ⟨-, hdone⟩ := require_eq_ok hbody
    cases hdone
    rw [List.length_append] at hlength
    change _ + payload.length ≤ _ at hlength
    have hmax : 0 < maxFrameBytes := by decide
    omega

theorem dropped_of_large {payload : Storage.Bytes} (h : maxFrameBytes ≤ payload.length) :
    ∃ s, Run {} (fun _ _ => True) {} [.receive call, .take, .handle { dispatch := .ok payload }] s ∧
      s.up = true ∧ s.closing = true ∧ s.received.filterMap requestKey = [(.call, 7)] ∧
      s.pending = [] ∧ s.replies = [] := by
  have hsends : EngineSession.sends { received := [call] }
      (.opResult { callId := 7, ok := true, payload }) = false := by
    rw [sends, encodeMessage_large h]
    rfl
  have hrespond : EngineSession.respond { received := [call] } none
      (.opResult { callId := 7, ok := true, payload }) = EngineSession.fail { received := [call] } := by
    rw [respond, if_neg (ne_true_of_eq_false hsends)]
  have hstep : EngineSession.step {} { handling := some call, received := [call] }
      (.handle { dispatch := .ok payload }) = some (EngineSession.fail { received := [call] }) :=
    congrArg some hrespond
  refine ⟨_, .tail (.tail (.tail (.refl _) trivial rfl) trivial rfl) trivial hstep, ?_⟩
  exact ⟨rfl, rfl, rfl, rfl, rfl⟩

theorem unanswered_large : ∃ s, Run {} (fun _ _ => True) {} [.receive call, .take,
        .handle { dispatch := .ok (List.replicate maxFrameBytes 0) }] s ∧
      s.up = true ∧ s.closing = true ∧ s.received.filterMap requestKey = [(.call, 7)] ∧
      s.pending = [] ∧ s.replies = [] :=
  dropped_of_large (Nat.le_of_eq List.length_replicate.symm)

end EngineSession

end MoDb.Net
