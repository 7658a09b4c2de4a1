import MoDb.Net.SessionReplies

/-!
# The messages of a stream

A stream opens with a `StreamBegin`, sends its objects in frames, and ends once: with their number, or
with the failure that its query met.
-/

namespace MoDb.Net

open EngineSession

variable {services : EngineServices}

/-- `StreamBegin`, and a frame for each batch. -/
def opening (services : EngineServices) (query : Query) (batches : List (List ObjectEnvelope)) :
    List Message :=
  .streamBegin { queryId := query.queryId } :: batches.map fun records =>
    .objectFrame { queryId := query.queryId, compression := services.codec, records }

/-- All messages of a stream: the objects of its query and their number, or the objects before a
failure and the failure, or a refusal. A stream that was cancelled may stop at any object. -/
inductive Answered (services : EngineServices) (query : Query) (source : List Item) (cancelled : Bool)
    (log : List Message) : Prop
  | complete (batches : List (List ObjectEnvelope))
      (hlog : log = opening services query batches ++
        [.streamEnd { queryId := query.queryId, total := UInt64.ofNat batches.flatten.length }])
      (hobjects : batches.flatten.map Except.ok <+: source)
      (hall : cancelled = false → batches.flatten.map Except.ok = source)
  | failed (batches : List (List ObjectEnvelope)) (failure : Failure)
      (hlog : log = opening services query batches ++
        [.streamError { queryId := query.queryId, code := failure.code, message := failure.message }])
      (hobjects : batches.flatten.map Except.ok ++ [.error failure] <+: source)
  | refused (hlog : log = [refusal query])

theorem Answered.cancel {query : Query} {source : List Item} {cancelled cancelled' : Bool}
    {log : List Message} (h : Answered services query source cancelled log)
    (hcancelled : cancelled' = false → cancelled = false) :
    Answered services query source cancelled' log := by
  cases h with
  | complete batches hlog hobjects hall =>
    exact .complete batches hlog hobjects fun hnot => hall (hcancelled hnot)
  | failed batches failure hlog hobjects => exact .failed batches failure hlog hobjects
  | refused hlog => exact .refused hlog

/-- The stream has been opened, and the items that were taken are in its frames and in its batch. -/
def Opened (services : EngineServices) (stream : Stream) (log : List Message) (taken : List Item) :
    Prop :=
  ∃ batches, log = opening services stream.query batches ∧
    (batches.flatten ++ stream.batch).map Except.ok = taken ∧
    stream.produced = (batches.flatten ++ stream.batch).length

def Told (services : EngineServices) (stream : Stream) (log : List Message) : Prop :=
  match stream.phase with
  | .queued | .starting | .beginning =>
    log = [] ∧ stream.pulled = 0 ∧ stream.batch = [] ∧ stream.produced = 0
  | .pulling | .flushing => Opened services stream log (stream.source.take stream.pulled)
  | .checking item =>
    ∃ taken, stream.source.take stream.pulled = taken ++ [item] ∧ Opened services stream log taken
  | .ending =>
    ∃ taken, Opened services stream log taken ∧ taken <+: stream.source ∧
      (stream.cancelled = false → taken = stream.source)
  | .totalling =>
    stream.batch = [] ∧ ∃ taken, Opened services stream log taken ∧ taken <+: stream.source ∧
      (stream.cancelled = false → taken = stream.source)
  | .failing failure =>
    ∃ taken, Opened services stream log taken ∧ taken ++ [.error failure] <+: stream.source
  | .reporting failure =>
    stream.batch = [] ∧ ∃ taken, Opened services stream log taken ∧
      taken ++ [.error failure] <+: stream.source
  | .forgetting | .exiting | .finished =>
    Answered services stream.query stream.source stream.cancelled log

def Stream.next (services : EngineServices) (stream : Stream) : Option Message :=
  match stream.announces with
  | some (message, _) => some message
  | none =>
    if stream.phase.afterFlush.isSome ∧ stream.batch ≠ [] then some (stream.frame services) else none

theorem next_of_announces {stream : Stream} {message : Message} {phase : Phase}
    (h : stream.announces = some (message, phase)) : stream.next services = some message := by
  unfold Stream.next
  rw [h]

theorem next_of_afterFlush {stream : Stream} {phases : Phase × Phase}
    (h : stream.phase.afterFlush = some phases) (hbatch : stream.batch ≠ []) :
    stream.next services = some (stream.frame services) := by
  have hannounces : stream.announces = none := by
    unfold Stream.announces
    split
    all_goals
      first
      | rfl
      | rename_i hphase
        rw [hphase] at h
        cases h
  unfold Stream.next
  rw [hannounces]
  exact if_pos ⟨by rw [h]; rfl, hbatch⟩

/-! ### Steps -/

section Steps

variable {stream : Stream} {log : List Message}

theorem Opened.flush {taken : List Item} (h : Opened services stream log taken) (phase : Phase) :
    Opened services { stream with batch := [], phase } (log ++ [stream.frame services]) taken := by
  obtain ⟨batches, hlog, htaken, hproduced⟩ := h
  have hflatten : (batches ++ [stream.batch]).flatten ++ [] = batches.flatten ++ stream.batch := by
    rw [List.append_nil, List.flatten_append, List.flatten_singleton]
  refine ⟨batches ++ [stream.batch], ?_, ?_, ?_⟩
  · rw [hlog, opening, opening, List.map_append]
    rfl
  · rw [hflatten]
    exact htaken
  · rw [hflatten]
    exact hproduced

theorem told_pull (hphase : stream.phase = .pulling) (h : Told services stream log) :
    Told services stream.pull log := by
  unfold Told at h
  rw [hphase] at h
  unfold Stream.pull
  cases hitem : stream.source[stream.pulled]? with
  | none =>
    have hall : stream.source.take stream.pulled = stream.source :=
      List.take_of_length_le (List.getElem?_eq_none_iff.1 hitem)
    exact ⟨_, h, List.take_prefix _ _, fun _ => hall⟩
  | some item =>
    have htake : stream.source.take (stream.pulled + 1) = stream.source.take stream.pulled ++ [item] := by
      rw [List.take_add_one, hitem]
      rfl
    cases item with
    | error failure => exact ⟨_, htake, h⟩
    | ok object =>
      cases hcancelled : stream.cancelled with
      | true =>
        refine ⟨_, h, List.take_prefix _ _, ?_⟩
        intro hnot
        cases hnot
      | false => exact ⟨_, htake, h⟩

theorem told_check {item : Item} (hphase : stream.phase = .checking item)
    (h : Told services stream log) : Told services (stream.check item) log := by
  unfold Told at h
  rw [hphase] at h
  obtain ⟨taken, htake, hopened⟩ := h
  have hprefix : taken ++ [item] <+: stream.source := htake ▸ List.take_prefix _ _
  unfold Stream.check
  split
  · rename_i hcancelled
    exact ⟨taken, hopened, (List.prefix_append _ _).trans hprefix,
      fun hnot => absurd (hcancelled.symm.trans hnot) nofun⟩
  · cases item with
    | error failure => exact ⟨taken, hopened, hprefix⟩
    | ok object =>
      obtain ⟨batches, hlog, htaken, hproduced⟩ := hopened
      have hmore : ∀ phase, Opened services
          { stream with batch := stream.batch ++ [object], produced := stream.produced + 1, phase } log
          (stream.source.take stream.pulled) := by
        intro phase
        refine ⟨batches, hlog, ?_, ?_⟩
        · rw [← List.append_assoc, List.map_append, htaken, htake]
          rfl
        · rw [← List.append_assoc, List.length_append, ← hproduced]
          rfl
      dsimp only
      split
      · exact hmore .flushing
      · exact hmore .pulling

theorem told_announce {message : Message} {phase : Phase}
    (hannounces : stream.announces = some (message, phase)) (h : Told services stream log) :
    Told services { stream with phase } (log ++ [message]) := by
  unfold Stream.announces at hannounces
  unfold Told at h
  split at hannounces
  · rename_i hphase
    cases hannounces
    rw [hphase] at h
    obtain ⟨rfl, hpulled, hbatch, hproduced⟩ := h
    refine ⟨[], rfl, ?_, ?_⟩
    · rw [hpulled, hbatch]
      rfl
    · rw [hproduced, hbatch]
      rfl
  · rename_i hphase
    cases hannounces
    rw [hphase] at h
    obtain ⟨hbatch, taken, ⟨batches, hlog, htaken, hproduced⟩, hprefix, hall⟩ := h
    rw [hbatch, List.append_nil] at htaken hproduced
    subst htaken
    refine Answered.complete batches ?_ hprefix hall
    rw [hlog, hproduced]
  · rename_i failure hphase
    cases hannounces
    rw [hphase] at h
    obtain ⟨hbatch, taken, ⟨batches, hlog, htaken, -⟩, hprefix⟩ := h
    rw [hbatch, List.append_nil] at htaken
    subst htaken
    refine Answered.failed batches failure ?_ hprefix
    rw [hlog]
  · cases hannounces

theorem told_flush {sent failed : Phase} (hafter : stream.phase.afterFlush = some (sent, failed))
    (h : Told services stream log) :
    Told services { stream with batch := [], phase := sent } (log ++ [stream.frame services]) := by
  unfold Phase.afterFlush at hafter
  unfold Told at h
  split at hafter
  · rename_i hphase
    cases hafter
    rw [hphase] at h
    exact h.flush _
  · rename_i hphase
    cases hafter
    rw [hphase] at h
    obtain ⟨taken, hopened, hprefix, hall⟩ := h
    exact ⟨rfl, taken, hopened.flush _, hprefix, hall⟩
  · rename_i failure hphase
    cases hafter
    rw [hphase] at h
    obtain ⟨taken, hopened, hprefix⟩ := h
    exact ⟨rfl, taken, hopened.flush _, hprefix⟩
  · cases hafter

theorem told_skip {sent failed : Phase} (hafter : stream.phase.afterFlush = some (sent, failed))
    (hbatch : stream.batch = []) (h : Told services stream log) :
    Told services { stream with phase := sent } log := by
  unfold Phase.afterFlush at hafter
  unfold Told at h
  split at hafter
  · rename_i hphase
    cases hafter
    rw [hphase] at h
    exact h
  · rename_i hphase
    cases hafter
    rw [hphase] at h
    exact ⟨hbatch, h⟩
  · rename_i failure hphase
    cases hafter
    rw [hphase] at h
    exact ⟨hbatch, h⟩
  · cases hafter

theorem told_streamStep {sends : Message → Bool} {stream' : Stream} {message : Option Message}
    (h : StreamStep services sends stream message stream')
    (hsends : ∀ message, stream.next services = some message → sends message = true)
    (htold : Told services stream log) : Told services stream' (log ++ message.toList) := by
  cases h with
  | start hphase =>
    unfold Told at htold
    rw [hphase] at htold
    rw [Option.toList_none, List.append_nil]
    exact htold
  | announce hannounces _ => exact told_announce hannounces htold
  | silent hannounces hfails =>
    have hsent := hsends _ (next_of_announces hannounces)
    rw [hfails] at hsent
    cases hsent
  | pull hphase =>
    rw [Option.toList_none, List.append_nil]
    exact told_pull hphase htold
  | check hphase =>
    rw [Option.toList_none, List.append_nil]
    exact told_check hphase htold
  | skip hphase hbatch =>
    rw [Option.toList_none, List.append_nil]
    exact told_skip hphase hbatch htold
  | flush hphase hbatch _ => exact told_flush hphase htold
  | lose hphase hbatch hfails =>
    have hsent := hsends _ (next_of_afterFlush hphase hbatch)
    rw [hfails] at hsent
    cases hsent
  | forget hphase =>
    unfold Told at htold
    rw [hphase] at htold
    rw [Option.toList_none, List.append_nil]
    exact htold
  | exit hphase =>
    unfold Told at htold
    rw [hphase] at htold
    rw [Option.toList_none, List.append_nil]
    exact htold

end Steps

end MoDb.Net
