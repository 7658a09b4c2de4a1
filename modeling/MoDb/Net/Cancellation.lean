import MoDb.Net.SessionComplete

/-!
# Cancelled streams

A `Cancel` reaches the stream whose token is in the table under its id. Where that is the stream it is
meant for, no object that is asked for afterwards is sent, and the stream ends.
-/

namespace MoDb.Net

open EngineSession

variable {services : EngineServices}

/-! ### What is counted -/

def recordCount : Message → Nat
  | .objectFrame frame => frame.records.length
  | _ => 0

/-- The objects that were put into the batch, and the one that may be put there next, were asked for. -/
def Stream.counted (stream : Stream) : Prop :=
  match stream.phase with
  | .checking _ => stream.produced + 1 ≤ stream.pulled
  | _ => stream.produced ≤ stream.pulled

theorem Stream.counted.produced_le {stream : Stream} (h : stream.counted) :
    stream.produced ≤ stream.pulled := by
  unfold Stream.counted at h
  split at h
  · exact Nat.le_of_succ_le h
  · exact h

theorem counted_of_phase {stream : Stream} (hphase : ∀ item, stream.phase ≠ .checking item)
    (h : stream.produced ≤ stream.pulled) : stream.counted := by
  unfold Stream.counted
  split
  · exact absurd ‹_› (hphase _)
  · exact h

theorem recordCount_announces {stream : Stream} {message : Message} {phase : Phase}
    (h : stream.announces = some (message, phase)) :
    recordCount message = 0 ∧ ∀ item, phase ≠ .checking item := by
  unfold Stream.announces at h
  split at h
  · cases h
    exact ⟨rfl, nofun⟩
  · cases h
    exact ⟨rfl, nofun⟩
  · cases h
    exact ⟨rfl, nofun⟩
  · cases h

theorem afterFlush_ne_checking {phase sent failed : Phase} (h : phase.afterFlush = some (sent, failed)) :
    (∀ item, sent ≠ .checking item) ∧ ∀ item, failed ≠ .checking item := by
  unfold Phase.afterFlush at h
  split at h
  · cases h
    exact ⟨nofun, nofun⟩
  · cases h
    exact ⟨nofun, nofun⟩
  · cases h
    exact ⟨nofun, nofun⟩
  · cases h

theorem counted_pull {stream : Stream} (h : stream.counted) : stream.pull.counted := by
  have hle := h.produced_le
  unfold Stream.pull
  split
  · exact counted_of_phase nofun hle
  · exact Nat.succ_le_succ hle

theorem counted_check {stream : Stream} {item : Item} (hphase : stream.phase = .checking item)
    (h : stream.counted) : (stream.check item).counted := by
  have hle := h.produced_le
  rw [Stream.counted, hphase] at h
  unfold Stream.check
  split
  · exact counted_of_phase nofun hle
  · split
    · exact counted_of_phase nofun hle
    · refine counted_of_phase ?_ h
      intro item
      dsimp only
      split
      · exact nofun
      · exact nofun

theorem counted_streamStep {sends : Message → Bool} {stream stream' : Stream} {message : Option Message}
    (h : StreamStep services sends stream message stream') (hcounted : stream.counted) :
    stream'.counted ∧
      (message.toList.map recordCount).sum + stream'.batch.length + stream.produced ≤
        stream.batch.length + stream'.produced := by
  have hle := hcounted.produced_le
  cases h with
  | start hphase => exact ⟨counted_of_phase nofun hle, by simp⟩
  | announce hannounces hsends =>
    obtain ⟨hcount, hphase⟩ := recordCount_announces hannounces
    refine ⟨counted_of_phase hphase hle, ?_⟩
    simp [hcount]
  | silent hannounces hsends => exact ⟨counted_of_phase nofun hle, by simp⟩
  | pull hphase =>
    refine ⟨counted_pull hcounted, ?_⟩
    unfold Stream.pull
    split
    · simp
    · simp
  | check hphase =>
    refine ⟨counted_check hphase hcounted, ?_⟩
    unfold Stream.check
    split
    · simp
    · split
      · simp
      · simp only [Option.toList_none, List.map_nil, List.sum_nil, List.length_append,
          List.length_cons, List.length_nil]
        omega
  | skip hphase hbatch =>
    exact ⟨counted_of_phase (afterFlush_ne_checking hphase).1 hle, by simp⟩
  | flush hphase hbatch hsends =>
    refine ⟨counted_of_phase (afterFlush_ne_checking hphase).1 hle, ?_⟩
    change (recordCount (stream.frame services) + 0) + 0 + stream.produced ≤ _
    exact Nat.le_refl _
  | lose hphase hbatch hsends =>
    exact ⟨counted_of_phase (afterFlush_ne_checking hphase).2 hle, by simp⟩
  | forget hphase => exact ⟨counted_of_phase nofun hle, by simp⟩
  | exit hphase => exact ⟨counted_of_phase nofun hle, by simp⟩

/-! ### A cancelled stream -/

/-- How many steps a cancelled stream has left at most until it has ended. -/
def Stream.left (stream : Stream) : Nat :=
  match stream.phase with
  | .queued => 7
  | .starting => 6
  | .beginning => 5
  | .flushing => 5
  | .pulling => 4
  | .checking _ => 3
  | .ending => 2
  | .failing _ => 2
  | .totalling => 1
  | .reporting _ => 1
  | .forgetting | .exiting | .finished => 0

theorem left_eq_zero_iff {stream : Stream} : stream.left = 0 ↔ stream.ended = true := by
  unfold Stream.left Stream.ended
  cases stream.phase with
  | forgetting => exact iff_of_true rfl rfl
  | exiting => exact iff_of_true rfl rfl
  | finished => exact iff_of_true rfl rfl
  | _ => exact iff_of_false nofun nofun

theorem left_announces {stream : Stream} {message : Message} {phase : Phase}
    (h : stream.announces = some (message, phase)) :
    { stream with phase }.left + 1 ≤ stream.left := by
  unfold Stream.announces at h
  split at h
  · rename_i hphase
    cases h
    rw [Stream.left, Stream.left, hphase]
  · rename_i hphase
    cases h
    rw [Stream.left, Stream.left, hphase]
  · rename_i hphase
    cases h
    rw [Stream.left, Stream.left, hphase]
  · cases h

theorem left_afterFlush {stream : Stream} {sent failed : Phase} (batch : List ObjectEnvelope)
    (h : stream.phase.afterFlush = some (sent, failed)) :
    { stream with batch, phase := sent }.left + 1 ≤ stream.left ∧
      { stream with phase := failed }.left + 1 ≤ stream.left := by
  unfold Phase.afterFlush at h
  split at h
  · rename_i hphase
    cases h
    rw [Stream.left, Stream.left, Stream.left, hphase]
    dsimp only
    omega
  · rename_i hphase
    cases h
    rw [Stream.left, Stream.left, Stream.left, hphase]
    dsimp only
    omega
  · rename_i hphase
    cases h
    rw [Stream.left, Stream.left, Stream.left, hphase]
    dsimp only
    omega
  · cases h

theorem left_streamStep {sends : Message → Bool} {stream stream' : Stream} {message : Option Message}
    (h : StreamStep services sends stream message stream') (hcancelled : stream.cancelled = true) :
    stream'.cancelled = true ∧ stream'.request = stream.request ∧
      stream'.produced = stream.produced ∧ (stream'.ended = true ∨ stream'.left + 1 ≤ stream.left) := by
  cases h with
  | start hphase =>
    refine ⟨hcancelled, rfl, rfl, .inr ?_⟩
    rw [Stream.left, Stream.left, hphase]
  | announce hannounces hsends => exact ⟨hcancelled, rfl, rfl, .inr (left_announces hannounces)⟩
  | silent hannounces hsends => exact ⟨hcancelled, rfl, rfl, .inl rfl⟩
  | pull hphase =>
    have hleft : stream.left = 4 := by rw [Stream.left, hphase]
    unfold Stream.pull
    split
    · refine ⟨hcancelled, rfl, rfl, .inr ?_⟩
      rw [hleft]
      exact Nat.le_succ _
    · refine ⟨hcancelled, rfl, rfl, .inr ?_⟩
      rw [hleft]
      exact Nat.le_refl _
  | check hphase =>
    unfold Stream.check
    rw [if_pos hcancelled]
    refine ⟨hcancelled, rfl, rfl, .inr ?_⟩
    rw [Stream.left, Stream.left, hphase]
  | skip hphase hbatch =>
    exact ⟨hcancelled, rfl, rfl, .inr (left_afterFlush stream.batch hphase).1⟩
  | flush hphase hbatch hsends => exact ⟨hcancelled, rfl, rfl, .inr (left_afterFlush [] hphase).1⟩
  | lose hphase hbatch hsends => exact ⟨hcancelled, rfl, rfl, .inr (left_afterFlush [] hphase).2⟩
  | forget hphase => exact ⟨hcancelled, rfl, rfl, .inl rfl⟩
  | exit hphase => exact ⟨hcancelled, rfl, rfl, .inl rfl⟩

theorem request_streamStep {sends : Message → Bool} {stream stream' : Stream} {message : Option Message}
    (h : StreamStep services sends stream message stream') : stream'.request = stream.request := by
  cases h with
  | pull hphase =>
    unfold Stream.pull
    split
    · rfl
    · rfl
  | check hphase =>
    unfold Stream.check
    split
    · rfl
    · split
      · rfl
      · rfl
  | _ => rfl

theorem left_le_streamStep {sends : Message → Bool} {stream stream' : Stream} {message : Option Message}
    (h : StreamStep services sends stream message stream') : stream'.left ≤ 5 := by
  have hphase : ∀ {stream : Stream}, stream.phase ≠ .queued → stream.phase ≠ .starting →
      stream.left ≤ 5 := by
    intro stream
    unfold Stream.left
    cases stream.phase with
    | queued => exact fun hnot => absurd rfl hnot
    | starting => exact fun _ hnot => absurd rfl hnot
    | _ =>
      intro _ _
      dsimp only
      omega
  apply hphase (unqueued_streamStep h).2.2
  cases h with
  | start hphase => exact nofun
  | announce hannounces hsends =>
    unfold Stream.announces at hannounces
    split at hannounces
    · cases hannounces
      exact nofun
    · cases hannounces
      exact nofun
    · cases hannounces
      exact nofun
    · cases hannounces
  | silent hannounces hsends => exact nofun
  | pull hphase =>
    unfold Stream.pull
    split
    · exact nofun
    · exact nofun
  | check hphase =>
    unfold Stream.check
    split
    · exact nofun
    · split
      · exact nofun
      · dsimp only
        split
        · exact nofun
        · exact nofun
  | skip hafter hbatch =>
    unfold Phase.afterFlush at hafter
    split at hafter
    · cases hafter
      exact nofun
    · cases hafter
      exact nofun
    · cases hafter
      exact nofun
    · cases hafter
  | flush hafter hbatch hsends =>
    unfold Phase.afterFlush at hafter
    split at hafter
    · cases hafter
      exact nofun
    · cases hafter
      exact nofun
    · cases hafter
      exact nofun
    · cases hafter
  | lose hafter hbatch hsends =>
    unfold Phase.afterFlush at hafter
    split at hafter
    · cases hafter
      exact nofun
    · cases hafter
      exact nofun
    · cases hafter
      exact nofun
    · cases hafter
  | forget hphase => exact nofun
  | exit hphase => exact nofun

namespace EngineSession

variable {s s' : EngineSession}

/-! ### Sessions -/

def framed (s : EngineSession) (number : Nat) : Nat := ((s.log number).map recordCount).sum

/-- What the table of tokens and the counts of the streams say in every run. -/
structure Registered (s : EngineSession) : Prop where
  tokens : ∀ {id : UInt32} {number : Nat}, s.tokens id = some number →
    ∃ stream, s.streams[number]? = some stream ∧ stream.query.queryId = id ∧ stream.left ≤ 5
  counted : ∀ {number : Nat} {stream : Stream}, s.streams[number]? = some stream →
    stream.counted ∧ s.framed number + stream.batch.length ≤ stream.produced
  fresh : ∀ {number : Nat}, s.streams.length ≤ number → s.log number = []

/-- A stream for which a `Cancel` has come is cancelled, and it has sent none of the objects that were
asked for afterwards. -/
def Requests (s : EngineSession) : Prop :=
  ∀ {number : Nat} {stream : Stream} {pulled : Nat}, s.streams[number]? = some stream →
    stream.request = some pulled →
    stream.cancelled = true ∧ stream.produced ≤ pulled ∧ stream.left ≤ 5

/-- A `Cancel` comes when the streams with its id that have not ended have their own token in the
table. -/
def Reaches (s : EngineSession) : Action → Prop
  | .receive (.cancel message) => ∀ number stream, s.streams[number]? = some stream →
      stream.query.queryId = message.queryId → stream.ended = false →
      s.tokens message.queryId = some number
  | _ => True

theorem register_cases {stream : Stream} {number token : Nat} {tokens : UInt32 → Option Nat} {id : UInt32}
    (h : stream.register number tokens id = some token) :
    token = number ∧ id = stream.query.queryId ∨ tokens id = some token := by
  unfold Stream.register at h
  cases hphase : stream.phase with
  | starting =>
    rw [hphase] at h
    change Function.update tokens stream.query.queryId (some number) id = some token at h
    by_cases hid : id = stream.query.queryId
    · rw [hid, Function.update_self] at h
      exact .inl ⟨(Option.some.inj h).symm, hid⟩
    · rw [Function.update_of_ne hid] at h
      exact .inr h
  | forgetting =>
    rw [hphase] at h
    change Function.update tokens stream.query.queryId none id = some token at h
    by_cases hid : id = stream.query.queryId
    · rw [hid, Function.update_self] at h
      cases h
    · rw [Function.update_of_ne hid] at h
      exact .inr h
  | _ =>
    rw [hphase] at h
    exact .inr h

theorem registered_init : Registered {} := ⟨nofun, nofun, fun _ => rfl⟩

theorem framed_log {number : Nat} (hlog : s'.log number = s.log number) :
    s'.framed number = s.framed number := congrArg (fun log => (log.map recordCount).sum) hlog

theorem registered_worker {number : Nat} {stream : Stream} (h : Registered s)
    (hstream : s.streams[number]? = some stream)
    (hrun : s.runQuery services number stream = some s') : Registered s' := by
  obtain ⟨message, stream', hworks⟩ := works_runQuery hrun
  obtain ⟨hlt, -⟩ := List.getElem?_eq_some_iff.1 hstream
  have hnew : s'.streams[number]? = some stream' := by
    rw [hworks.streams, List.getElem?_set_self hlt]
  have hother : ∀ {other}, other ≠ number → s'.streams[other]? = s.streams[other]? := by
    intro other hne
    rw [hworks.streams, List.getElem?_set_ne (Ne.symm hne)]
  obtain ⟨hcounted, hframed⟩ := h.counted hstream
  obtain ⟨hcounted', hmore⟩ := counted_streamStep hworks.step hcounted
  constructor
  · intro id token htoken
    by_cases hsame : token = number
    · subst hsame
      refine ⟨stream', hnew, ?_, left_le_streamStep hworks.step⟩
      rw [(unqueued_streamStep hworks.step).1]
      rw [hworks.tokens] at htoken
      rcases register_cases htoken with ⟨-, hid⟩ | hold
      · exact hid.symm
      · obtain ⟨other, hget, hid, -⟩ := h.tokens hold
        rw [hstream] at hget
        cases hget
        exact hid
    · rw [hother hsame]
      apply h.tokens
      rw [hworks.tokens] at htoken
      exact (register_cases htoken).resolve_left fun hown => hsame hown.1
  · intro other old hold
    by_cases hsame : other = number
    · subst hsame
      rw [hnew] at hold
      cases hold
      refine ⟨hcounted', ?_⟩
      have hsum : s'.framed other = s.framed other + (message.toList.map recordCount).sum := by
        unfold framed
        rw [hworks.log, if_pos rfl, List.map_append, List.sum_append]
      omega
    · rw [hother hsame] at hold
      rw [framed_log]
      · exact h.counted hold
      · rw [hworks.log, if_neg hsame]
        exact List.append_nil _
  · intro other hlength
    rw [hworks.streams, List.length_set] at hlength
    rw [hworks.log, if_neg (by omega)]
    exact (List.append_nil _).trans (h.fresh hlength)

/-- At most the next stream leaves the queue, and at most a message without objects is sent. -/
structure Handles (s s' : EngineSession) : Prop where
  tokens : s'.tokens = s.tokens
  streams : s'.streams = s.streams ∨ ∃ stream phase source, s.streams[s.handled]? = some stream ∧
    (phase = .starting ∨ phase = .finished) ∧
    s'.streams = s.streams.set s.handled { stream with phase, source }
  sent : s'.sent = s.sent ∨ ∃ number message, s'.sent = s.sent ++ [(number, message)] ∧
    recordCount message = 0 ∧ (number = none ∨ number = some s.handled ∧ s.handled < s.streams.length)

theorem handles_respond {message : Message} (hcount : recordCount message = 0) (attached : Bool) :
    Handles s ({ s with handling := none, attached }.respond none message) := by
  unfold respond
  split
  · exact ⟨rfl, .inl rfl, .inr ⟨_, _, rfl, hcount, .inl rfl⟩⟩
  · exact ⟨rfl, .inl rfl, .inl rfl⟩

theorem handles_handle (outcomes : Outcomes) (message : Message) :
    Handles s ({ s with handling := none }.handle services outcomes message) := by
  cases message with
  | query query =>
    unfold EngineSession.handle
    dsimp only
    cases hstream : s.streams[s.handled]? with
    | none => exact ⟨rfl, .inl rfl, .inl rfl⟩
    | some stream =>
      obtain ⟨hlt, -⟩ := List.getElem?_eq_some_iff.1 hstream
      dsimp only
      unfold handleQuery
      dsimp only
      split
      · unfold respond
        split
        · exact ⟨rfl, .inr ⟨stream, _, _, hstream, .inr rfl, rfl⟩,
            .inr ⟨_, _, rfl, rfl, .inr ⟨rfl, hlt⟩⟩⟩
        · exact ⟨rfl, .inr ⟨stream, _, _, hstream, .inr rfl, rfl⟩, .inl rfl⟩
      · exact ⟨rfl, .inr ⟨stream, _, _, hstream, .inl rfl, rfl⟩, .inl rfl⟩
  | opCall message => exact @handles_respond s (.opResult _) rfl s.attached
  | facadeList message => exact @handles_respond s (.facadeListOk _) rfl s.attached
  | facadeOpen message => exact @handles_respond s (.facadeOpenOk _) rfl s.attached
  | shmAttach message => exact @handles_respond s (.shmAttachOk _) rfl _
  | authenticate message => exact @handles_respond s (.authenticateOk _) rfl s.attached
  | _ => exact ⟨rfl, .inl rfl, .inl rfl⟩

theorem Handles.log (h : Handles s s') {number : Nat} : ∃ more, s'.log number = s.log number ++ more ∧
    (more.map recordCount).sum = 0 ∧ (s.streams.length ≤ number → more = []) := by
  rcases h.sent with hsent | ⟨tag, message, hsent, hcount, htag⟩
  · refine ⟨[], ?_, rfl, fun _ => rfl⟩
    rw [EngineSession.log, hsent]
    exact (List.append_nil _).symm
  · have hlog : s'.log number = s.log number ++ if tag = some number then [message] else [] := by
      rw [← log_put]
      unfold EngineSession.log put
      rw [hsent]
    refine ⟨_, hlog, ?_, ?_⟩
    · split
      · exact hcount
      · rfl
    · intro hlength
      rw [if_neg]
      rintro rfl
      rcases htag with htag | ⟨htag, hlt⟩
      · cases htag
      · cases htag
        exact absurd hlt (Nat.not_lt_of_le hlength)

theorem Handles.stream (hqueues : Queues s) (h : Handles s s') {number : Nat} {stream' : Stream}
    (hstream' : s'.streams[number]? = some stream') :
    ∃ stream, s.streams[number]? = some stream ∧ stream'.query = stream.query ∧
      stream'.batch = stream.batch ∧ stream'.produced = stream.produced ∧
      stream'.request = stream.request ∧ stream'.cancelled = stream.cancelled ∧
      (stream.counted → stream'.counted) ∧ (stream.left ≤ 5 → stream' = stream) := by
  rcases h.streams with hstreams | ⟨stream, phase, source, hstream, hphase, hstreams⟩
  · rw [hstreams] at hstream'
    exact ⟨stream', hstream', rfl, rfl, rfl, rfl, rfl, id, fun _ => rfl⟩
  · rw [hstreams, List.getElem?_set] at hstream'
    split at hstream'
    · rename_i heq
      subst heq
      split at hstream'
      · cases hstream'
        refine ⟨stream, hstream, rfl, rfl, rfl, rfl, rfl, ?_, ?_⟩
        · intro hcounted
          refine counted_of_phase ?_ ?_
          · rcases hphase with rfl | rfl
            · exact nofun
            · exact nofun
          · exact hcounted.produced_le
        · intro hleft
          have hqueued := (hqueues.queued hstream).2 (Nat.le_refl _)
          rw [Stream.left, hqueued] at hleft
          exact absurd hleft (by decide)
      · cases hstream'
    · exact ⟨stream', hstream', rfl, rfl, rfl, rfl, rfl, id, fun _ => rfl⟩

theorem registered_handle (hqueues : Queues s) (hhandles : Handles s s') (h : Registered s) :
    Registered s' := by
  have hlength : s'.streams.length = s.streams.length := by
    rcases hhandles.streams with hstreams | ⟨stream, phase, source, -, -, hstreams⟩
    · rw [hstreams]
    · rw [hstreams, List.length_set]
  constructor
  · intro id number htoken
    rw [hhandles.tokens] at htoken
    obtain ⟨stream, hstream, hid, hleft⟩ := h.tokens htoken
    have hlt := (List.getElem?_eq_some_iff.1 hstream).1
    rw [← hlength] at hlt
    obtain ⟨old, hold, -, -, -, -, -, -, hsame⟩ :=
      hhandles.stream hqueues (List.getElem?_eq_getElem hlt)
    rw [hstream] at hold
    cases hold
    exact ⟨_, List.getElem?_eq_getElem hlt, by rw [hsame hleft, hid], by rw [hsame hleft]; exact hleft⟩
  · intro number stream' hstream'
    obtain ⟨stream, hstream, -, hbatch, hproduced, -, -, hcounted, -⟩ :=
      hhandles.stream hqueues hstream'
    obtain ⟨hold, hframed⟩ := h.counted hstream
    refine ⟨hcounted hold, ?_⟩
    obtain ⟨more, hlog, hcount, -⟩ := @Handles.log s s' hhandles number
    unfold framed at hframed ⊢
    rw [hlog, List.map_append, List.sum_append, hcount, hbatch, hproduced]
    exact hframed
  · intro number hle
    rw [hlength] at hle
    obtain ⟨more, hlog, -, hnil⟩ := @Handles.log s s' hhandles number
    rw [hlog, hnil hle, h.fresh hle]
    rfl

theorem registered_marks (hmarks : Marks s s') (htokens : s'.tokens = s.tokens)
    (hsent : s'.sent = s.sent) (h : Registered s) : Registered s' := by
  have hlog : ∀ number, s'.log number = s.log number := by
    intro number
    rw [log, hsent]
    rfl
  constructor
  · intro id number htoken
    rw [htokens] at htoken
    obtain ⟨stream, hstream, hid, hleft⟩ := h.tokens htoken
    have hlt := (List.getElem?_eq_some_iff.1 hstream).1
    rw [← hmarks.length] at hlt
    have hget := List.getElem?_eq_getElem hlt
    obtain ⟨old, hold, cancelled, request, hsame, -⟩ := hmarks.each hget
    rw [hstream] at hold
    cases hold
    refine ⟨_, hget, ?_, ?_⟩
    · rw [hsame]
      exact hid
    · rw [hsame]
      exact hleft
  · intro number stream' hstream'
    obtain ⟨stream, hstream, cancelled, request, rfl, -⟩ := hmarks.each hstream'
    obtain ⟨hcounted, hframed⟩ := h.counted hstream
    refine ⟨hcounted, ?_⟩
    rw [framed_log (hlog number)]
    exact hframed
  · intro number hle
    rw [hmarks.length] at hle
    exact (hlog number).trans (h.fresh hle)

theorem getElem?_cancel (s : EngineSession) (id : UInt32) (number : Nat) :
    ((s.note id).cancel id).streams[number]? = s.streams[number]?.map fun stream =>
      let noted := if stream.query.queryId = id then stream.requested else stream
      if s.tokens id = some number then { noted with cancelled := true } else noted := by
  have hnote : (s.note id).streams[number]? = s.streams[number]?.map fun stream =>
      if stream.query.queryId = id then stream.requested else stream := List.getElem?_map
  unfold cancel
  rw [show (s.note id).tokens id = s.tokens id from rfl]
  cases s.tokens id with
  | none =>
    rw [hnote]
    rfl
  | some token =>
    change ((s.note id).streams.modify token _)[number]? = _
    rw [List.getElem?_modify, hnote]
    cases s.streams[number]? with
    | none => rfl
    | some stream =>
      apply congrArg some
      dsimp only
      by_cases hsame : token = number
      · rw [if_pos hsame, hsame, if_pos rfl]
      · rw [if_neg hsame, if_neg fun heq => hsame (Option.some.inj heq)]

theorem cancel_other (h : Registered s) (message : Cancel) {number : Nat} {stream : Stream}
    (hstream : s.streams[number]? = some stream) (hother : stream.query.queryId ≠ message.queryId) :
    (s.receive services (.cancel message)).streams[number]? = some stream := by
  change ((s.note message.queryId).cancel message.queryId).streams[number]? = _
  rw [getElem?_cancel, hstream]
  apply congrArg some
  dsimp only
  rw [if_neg hother, if_neg]
  intro htoken
  obtain ⟨own, hown, hid, -⟩ := h.tokens htoken
  rw [hstream] at hown
  cases hown
  exact hother hid

theorem requests_cancel (hregistered : Registered s) (h : Requests s) {message : Cancel}
    (hreaches : Reaches s (.receive (.cancel message))) :
    Requests ((s.note message.queryId).cancel message.queryId) := by
  intro number stream' pulled hstream' hrequest
  rw [getElem?_cancel, Option.map_eq_some_iff] at hstream'
  obtain ⟨stream, hstream, hnew⟩ := hstream'
  dsimp only at hnew
  -- What was noted before, and what is noted now.
  have hnoted : ∀ {noted : Stream}, noted = stream ∨ noted = stream.requested ∧
        stream.query.queryId = message.queryId → noted.request = some pulled →
      noted.produced ≤ pulled ∧ noted.left ≤ 5 ∧
        (noted.cancelled = true ∨ s.tokens message.queryId = some number) := by
    rintro noted (rfl | ⟨rfl, hid⟩) hpulled
    · obtain ⟨hcancelled, hproduced, hleft⟩ := h hstream hpulled
      exact ⟨hproduced, hleft, .inl hcancelled⟩
    · unfold Stream.requested at hpulled ⊢
      cases hended : stream.ended with
      | true =>
        rw [hended, if_pos rfl] at hpulled
        rw [if_pos rfl]
        obtain ⟨hcancelled, hproduced, hleft⟩ := h hstream hpulled
        exact ⟨hproduced, hleft, .inl hcancelled⟩
      | false =>
        rw [hended, if_neg Bool.false_ne_true] at hpulled
        rw [if_neg Bool.false_ne_true]
        have htoken := hreaches number stream hstream hid hended
        obtain ⟨own, hown, -, hleft⟩ := hregistered.tokens htoken
        rw [hstream] at hown
        cases hown
        refine ⟨?_, hleft, .inr htoken⟩
        cases hold : stream.request with
        | none =>
          rw [hold] at hpulled
          cases hpulled
          exact (hregistered.counted hstream).1.produced_le
        | some earlier =>
          rw [hold] at hpulled
          cases hpulled
          exact (h hstream hold).2.1
  have hcase : ∃ noted, (noted = stream ∨ noted = stream.requested ∧
      stream.query.queryId = message.queryId) ∧
      (if s.tokens message.queryId = some number then { noted with cancelled := true } else noted) =
        stream' := by
    by_cases hid : stream.query.queryId = message.queryId
    · rw [if_pos hid] at hnew
      exact ⟨_, .inr ⟨rfl, hid⟩, hnew⟩
    · rw [if_neg hid] at hnew
      exact ⟨_, .inl rfl, hnew⟩
  obtain ⟨noted, hwhich, rfl⟩ := hcase
  split at hrequest
  · rename_i htoken
    rw [if_pos htoken]
    obtain ⟨hproduced, hleft, -⟩ := hnoted hwhich hrequest
    exact ⟨rfl, hproduced, hleft⟩
  · rename_i htoken
    rw [if_neg htoken]
    obtain ⟨hproduced, hleft, hcancelled⟩ := hnoted hwhich hrequest
    exact ⟨hcancelled.resolve_right htoken, hproduced, hleft⟩

/-! ### Runs -/

theorem registered_receive (h : Registered s) (message : Message) :
    Registered (s.receive services message) := by
  cases message with
  | cancel message =>
    have hmarks := (marks_note s message.queryId).trans (marks_cancel (s.note message.queryId)
      message.queryId)
    refine registered_marks hmarks ?_ (sameQueues_cancel _ _).2 h
    change (EngineSession.cancel _ _).tokens = _
    unfold cancel
    cases (s.note message.queryId).tokens message.queryId with
    | none => rfl
    | some token => rfl
  | query query =>
    constructor
    · intro id number htoken
      obtain ⟨stream, hstream, hid, hleft⟩ := h.tokens htoken
      have hlt := (List.getElem?_eq_some_iff.1 hstream).1
      refine ⟨stream, ?_, hid, hleft⟩
      exact (List.getElem?_append_left hlt).trans hstream
    · intro number stream hstream
      change (s.streams ++ [({ query } : Stream)])[number]? = _ at hstream
      by_cases hlt : number < s.streams.length
      · rw [List.getElem?_append_left hlt] at hstream
        exact h.counted hstream
      · rw [List.getElem?_append_right (Nat.le_of_not_lt hlt)] at hstream
        rw [List.mem_singleton.1 (List.mem_of_getElem? hstream)]
        refine ⟨Nat.le_refl 0, ?_⟩
        have hlog : (s.receive services (.query query)).log number = [] := h.fresh (Nat.le_of_not_lt hlt)
        rw [framed, hlog]
        exact Nat.le_refl 0
    · intro number hle
      change (s.streams ++ [({ query } : Stream)]).length ≤ number at hle
      rw [List.length_append] at hle
      exact h.fresh (Nat.le_of_add_right_le hle)
  | _ => exact ⟨h.tokens, h.counted, h.fresh⟩

theorem registered_step {action : Action} (hqueues : Queues s) (h : Registered s)
    (hstep : s.step services action = some s') : Registered s' := by
  cases action with
  | receive message =>
    obtain ⟨-, rfl⟩ := step_receive hstep
    exact registered_receive h message
  | take =>
    obtain ⟨message, inbox, -, -, rfl⟩ := step_take hstep
    exact ⟨h.tokens, h.counted, h.fresh⟩
  | handle outcomes =>
    obtain ⟨message, -, rfl⟩ := step_handle hstep
    exact registered_handle hqueues (handles_handle outcomes message) h
  | worker number =>
    obtain ⟨stream, hstream, hrun⟩ := step_worker hstep
    exact registered_worker h hstream hrun
  | grant index =>
    obtain ⟨id, frames, -, rfl⟩ := step_grant hstep
    exact ⟨h.tokens, h.counted, h.fresh⟩
  | close =>
    cases hstep
    exact ⟨h.tokens, h.counted, h.fresh⟩
  | disconnect =>
    cases hstep
    exact ⟨h.tokens, h.counted, h.fresh⟩
  | finish =>
    obtain ⟨-, -, rfl⟩ := step_finish hstep
    exact registered_marks (marks_finish s) rfl rfl h

theorem requests_receive (hregistered : Registered s) (h : Requests s) {message : Message}
    (hreaches : Reaches s (.receive message)) : Requests (s.receive services message) := by
  cases message with
  | cancel message => exact requests_cancel hregistered h hreaches
  | query query =>
    intro number stream pulled hstream hrequest
    change (s.streams ++ [({ query } : Stream)])[number]? = _ at hstream
    by_cases hlt : number < s.streams.length
    · rw [List.getElem?_append_left hlt] at hstream
      exact h hstream hrequest
    · rw [List.getElem?_append_right (Nat.le_of_not_lt hlt)] at hstream
      rw [List.mem_singleton.1 (List.mem_of_getElem? hstream)] at hrequest
      cases hrequest
  | _ => exact h

theorem requests_worker {number : Nat} {stream : Stream} (h : Requests s)
    (hstream : s.streams[number]? = some stream)
    (hrun : s.runQuery services number stream = some s') : Requests s' := by
  obtain ⟨message, stream', hworks⟩ := works_runQuery hrun
  have hrequest' : stream'.request = stream.request := request_streamStep hworks.step
  intro other old pulled hold hrequest
  rw [hworks.streams, List.getElem?_set] at hold
  split at hold
  · rename_i heq
    subst heq
    split at hold
    · cases hold
      rw [hrequest'] at hrequest
      obtain ⟨hcancelled, hproduced, -⟩ := h hstream hrequest
      obtain ⟨hcancelled', -, hsame, -⟩ := left_streamStep hworks.step hcancelled
      exact ⟨hcancelled', hsame ▸ hproduced, left_le_streamStep hworks.step⟩
    · cases hold
  · exact h hold hrequest

theorem requests_finish (h : Requests s) : Requests (s.finish services) := by
  intro number stream' pulled hstream' hrequest
  change (s.streams.mapIdx _)[number]? = _ at hstream'
  rw [List.getElem?_mapIdx, Option.map_eq_some_iff] at hstream'
  obtain ⟨stream, hstream, rfl⟩ := hstream'
  split at hrequest
  · rename_i htoken
    rw [if_pos htoken]
    obtain ⟨-, hproduced, hleft⟩ := h hstream hrequest
    exact ⟨rfl, hproduced, hleft⟩
  · rename_i htoken
    rw [if_neg htoken]
    exact h hstream hrequest

theorem requests_step {action : Action} (hqueues : Queues s) (hregistered : Registered s)
    (h : Requests s) (hreaches : Reaches s action) (hstep : s.step services action = some s') :
    Requests s' := by
  cases action with
  | receive message =>
    obtain ⟨-, rfl⟩ := step_receive hstep
    exact requests_receive hregistered h hreaches
  | take =>
    obtain ⟨message, inbox, -, -, rfl⟩ := step_take hstep
    exact h
  | handle outcomes =>
    obtain ⟨message, -, rfl⟩ := step_handle hstep
    intro number stream' pulled hstream' hrequest
    obtain ⟨stream, hstream, -, -, -, hsame, -, -, hleave⟩ :=
      (handles_handle outcomes message).stream hqueues hstream'
    rw [hsame] at hrequest
    obtain ⟨hcancelled, hproduced, hleft⟩ := h hstream hrequest
    rw [hleave hleft]
    exact ⟨hcancelled, hproduced, hleft⟩
  | worker number =>
    obtain ⟨stream, hstream, hrun⟩ := step_worker hstep
    exact requests_worker h hstream hrun
  | grant index =>
    obtain ⟨id, frames, -, rfl⟩ := step_grant hstep
    exact h
  | close =>
    cases hstep
    exact h
  | disconnect =>
    cases hstep
    exact h
  | finish =>
    obtain ⟨-, -, rfl⟩ := step_finish hstep
    exact requests_finish h

theorem registered_run {condition : EngineSession → Action → Prop} {actions : List Action}
    (hrun : Run services condition {} actions s) : Registered s :=
  (@Run.inv _ _ _ _ _ (fun s => Queues s ∧ Registered s) hrun ⟨queues_init, registered_init⟩
    fun hmid _ hstep => ⟨queues_step hmid.1 hstep, registered_step hmid.1 hmid.2 hstep⟩).2

theorem requests_run {actions : List Action} (hrun : Run services Reaches {} actions s) :
    Requests s :=
  (@Run.inv _ _ _ _ _ (fun s => Queues s ∧ Registered s ∧ Requests s) hrun
    ⟨queues_init, registered_init, nofun⟩ fun hmid hreaches hstep =>
      ⟨queues_step hmid.1 hstep, registered_step hmid.1 hmid.2.1 hstep,
        requests_step hmid.1 hmid.2.1 hmid.2.2 hreaches hstep⟩).2.2

/-! ### The end of a cancelled stream -/

def Action.isWorker (number : Nat) : Action → Bool
  | .worker other => other = number
  | _ => false

/-- A stream that is cancelled and has its worker is no farther from its end after a step, and nearer
after one of its worker. -/
structure Nearer (s' : EngineSession) (number : Nat) (stream : Stream) (steps : Nat) (stream' : Stream) :
    Prop where
  found : s'.streams[number]? = some stream'
  cancelled : stream'.cancelled = true
  left_le : stream'.left ≤ 5
  nearer : stream'.ended = true ∨ stream'.left + steps ≤ stream.left

theorem nearer_marks {number : Nat} {stream : Stream} (hmarks : Marks s s')
    (hstream : s.streams[number]? = some stream) (hcancelled : stream.cancelled = true)
    (hleft : stream.left ≤ 5) : ∃ stream', Nearer s' number stream 0 stream' := by
  have hlt := (List.getElem?_eq_some_iff.1 hstream).1
  rw [← hmarks.length] at hlt
  have hget := List.getElem?_eq_getElem hlt
  obtain ⟨old, hold, cancelled, request, hsame, hkept⟩ := hmarks.each hget
  rw [hstream] at hold
  cases hold
  have hcancelled' : cancelled = true := by
    cases cancelled with
    | true => rfl
    | false =>
      rw [hkept rfl] at hcancelled
      cases hcancelled
  refine ⟨_, hget, ?_, ?_, .inr ?_⟩
  · rw [hsame]
    exact hcancelled'
  · rw [hsame]
    exact hleft
  · rw [hsame]
    exact Nat.le_refl _

theorem nearer_step {action : Action} {number : Nat} {stream : Stream} (hqueues : Queues s)
    (hstream : s.streams[number]? = some stream) (hcancelled : stream.cancelled = true)
    (hleft : stream.left ≤ 5) (hstep : s.step services action = some s') :
    ∃ stream', Nearer s' number stream (if action.isWorker number then 1 else 0) stream' := by
  have hsame : s'.streams[number]? = some stream → ∃ stream', Nearer s' number stream 0 stream' :=
    fun hget => ⟨stream, hget, hcancelled, hleft, .inr (Nat.le_refl _)⟩
  cases action with
  | receive message =>
    obtain ⟨-, rfl⟩ := step_receive hstep
    cases message with
    | cancel message =>
      exact nearer_marks ((marks_note s message.queryId).trans (marks_cancel _ _)) hstream hcancelled
        hleft
    | query query =>
      apply hsame
      exact (List.getElem?_append_left (List.getElem?_eq_some_iff.1 hstream).1).trans hstream
    | _ => exact hsame hstream
  | take =>
    obtain ⟨message, inbox, -, -, rfl⟩ := step_take hstep
    exact hsame hstream
  | handle outcomes =>
    obtain ⟨message, -, rfl⟩ := step_handle hstep
    have hhandles := @handles_handle services s outcomes message
    apply hsame
    have hlength : ({ s with handling := none }.handle services outcomes message).streams.length =
        s.streams.length := by
      rcases hhandles.streams with hstreams | ⟨stream, phase, source, -, -, hstreams⟩
      · rw [hstreams]
      · rw [hstreams, List.length_set]
    have hlt := (List.getElem?_eq_some_iff.1 hstream).1
    rw [← hlength] at hlt
    have hget := List.getElem?_eq_getElem hlt
    obtain ⟨old, hold, -, -, -, -, -, -, hleave⟩ := hhandles.stream hqueues hget
    rw [hstream] at hold
    cases hold
    rw [hget, hleave hleft]
  | worker other =>
    obtain ⟨own, hown, hrun⟩ := step_worker hstep
    obtain ⟨message, own', hworks⟩ := works_runQuery hrun
    by_cases hother : other = number
    · subst hother
      rw [hstream] at hown
      cases hown
      obtain ⟨hcancelled', -, -, hnearer⟩ := left_streamStep hworks.step hcancelled
      refine ⟨own', ?_, hcancelled', left_le_streamStep hworks.step, ?_⟩
      · rw [hworks.streams, List.getElem?_set_self (List.getElem?_eq_some_iff.1 hstream).1]
      · rw [Action.isWorker, decide_eq_true rfl, if_pos rfl]
        exact hnearer
    · rw [Action.isWorker, decide_eq_false hother, if_neg Bool.false_ne_true]
      apply hsame
      rw [hworks.streams, List.getElem?_set_ne hother]
      exact hstream
  | grant index =>
    obtain ⟨id, frames, -, rfl⟩ := step_grant hstep
    exact hsame hstream
  | close =>
    cases hstep
    exact hsame hstream
  | disconnect =>
    cases hstep
    exact hsame hstream
  | finish =>
    obtain ⟨-, -, rfl⟩ := step_finish hstep
    exact nearer_marks (marks_finish s) hstream hcancelled hleft

theorem nearer_run {condition : EngineSession → Action → Prop} {last : EngineSession}
    {actions : List Action} {number : Nat} {stream : Stream} (hqueues : Queues s)
    (hstream : s.streams[number]? = some stream) (hcancelled : stream.cancelled = true)
    (hleft : stream.left ≤ 5) (hrun : Run services condition s actions last) :
    Queues last ∧
      ∃ stream', Nearer last number stream (actions.countP (Action.isWorker number)) stream' := by
  induction hrun with
  | refl => exact ⟨hqueues, stream, hstream, hcancelled, hleft, .inr (Nat.le_refl _)⟩
  | @tail mid last actions action hrun hmeets hstep ih =>
    obtain ⟨hmid, stream', hnearer⟩ := ih
    obtain ⟨stream'', hnext⟩ := nearer_step hmid hnearer.found hnearer.cancelled hnearer.left_le hstep
    refine ⟨queues_step hmid hstep, stream'', hnext.found, hnext.cancelled, hnext.left_le, ?_⟩
    rcases hnext.nearer with hended | hle
    · exact .inl hended
    · rcases hnearer.nearer with hended | hle'
      · have hzero := left_eq_zero_iff.2 hended
        rw [hzero] at hle
        exact .inl (left_eq_zero_iff.1 (Nat.eq_zero_of_add_eq_zero_right (Nat.le_zero.1 hle)))
      · right
        rw [List.countP_append, List.countP_singleton]
        omega

theorem ended_of_steps {condition : EngineSession → Action → Prop} {last : EngineSession}
    {actions : List Action} {number : Nat} {stream : Stream} (hqueues : Queues s)
    (hstream : s.streams[number]? = some stream) (hcancelled : stream.cancelled = true)
    (hleft : stream.left ≤ 5) (hrun : Run services condition s actions last)
    (hsteps : 5 ≤ actions.countP (Action.isWorker number)) :
    ∃ stream', last.streams[number]? = some stream' ∧ stream'.ended = true := by
  obtain ⟨-, stream', hnearer⟩ := nearer_run hqueues hstream hcancelled hleft hrun
  refine ⟨stream', hnearer.found, ?_⟩
  rcases hnearer.nearer with hended | hle
  · exact hended
  · apply left_eq_zero_iff.1
    omega

/-- Where each `Cancel` finds the tokens of the streams it is meant for, each of them is cancelled: it
sends no object that is asked for afterwards, and it ends after five more steps of its worker, which
waits for nothing but credit. In every run, a `Cancel` leaves the streams with other ids alone. -/
theorem cancelled_run {actions : List Action} (hrun : Run services Reaches {} actions s) :
    (∀ number stream pulled, s.streams[number]? = some stream → stream.request = some pulled →
      s.framed number ≤ pulled ∧
      (stream.ended = false → s.step services (.worker number) = none →
        s.waits services stream.query.queryId = true) ∧
      ∀ more last, Run services (fun _ _ => True) s more last →
        5 ≤ more.countP (Action.isWorker number) →
        ∃ stream', last.streams[number]? = some stream' ∧ stream'.ended = true) ∧
    (∀ any last, Run services (fun _ _ => True) {} any last → ∀ (message : Cancel)
      (number : Nat) (stream : Stream),
      last.streams[number]? = some stream → stream.query.queryId ≠ message.queryId →
      (last.receive services (.cancel message)).streams[number]? = some stream) := by
  have hqueues := queues_run hrun
  have hregistered := registered_run hrun
  constructor
  · intro number stream pulled hstream hrequest
    obtain ⟨hcancelled, hproduced, hleft⟩ := requests_run hrun hstream hrequest
    refine ⟨?_, ?_, ?_⟩
    · exact (Nat.le_of_add_right_le (hregistered.counted hstream).2).trans hproduced
    · intro hunended hnone
      rw [step, hstream] at hnone
      rcases runQuery_eq_none hnone with hqueued | hfinished | ⟨-, hwaits⟩
      · rw [Stream.left, hqueued] at hleft
        exact absurd hleft (by decide)
      · rw [Stream.ended, hfinished] at hunended
        cases hunended
      · exact hwaits
    · intro more last hmore hsteps
      exact ended_of_steps hqueues hstream hcancelled hleft hmore hsteps
  · intro any last hany message number stream hstream hother
    exact cancel_other (registered_run hany) message hstream hother

/-! ### A `Cancel` in time, and one before its query is handled -/

def query : Message := .query { queryId := 5 }

def queryCancel : Message := .cancel { queryId := 5 }

theorem cancelled_query : ∃ s, Run {} Reaches {} [.receive query, .take,
      .handle { queryObjects := [.ok { objectId := 1 }, .ok { objectId := 2 }] }, .worker 0, .worker 0,
      .worker 0, .receive queryCancel, .worker 0] s ∧
    (∃ stream, s.streams[0]? = some stream ∧ stream.request = some 1) ∧ s.framed 0 ≤ 1 := by
  have hreached : ∃ s, Run {} Reaches {} [.receive query, .take,
      .handle { queryObjects := [.ok { objectId := 1 }, .ok { objectId := 2 }] }, .worker 0, .worker 0,
      .worker 0, .receive queryCancel, .worker 0] s ∧
      ∃ stream, s.streams[0]? = some stream ∧ stream.request = some 1 := by
    refine ⟨_, .tail (.tail (.tail (.tail (.tail (.tail (.tail (.tail (.refl _) trivial rfl) trivial rfl)
      trivial rfl) trivial rfl) trivial rfl) trivial rfl) ?_ rfl) trivial rfl, _, rfl, rfl⟩
    intro number stream hstream hid hunended
    cases number with
    | zero => rfl
    | succ number => cases hstream
  obtain ⟨s, hrun, stream, hstream, hrequest⟩ := hreached
  exact ⟨s, hrun, ⟨stream, hstream, hrequest⟩, ((cancelled_run hrun).1 0 stream 1 hstream hrequest).1⟩

/-- The `Cancel` overtakes its query in the inbox, and is lost. -/
theorem lost_cancel : ∃ s, Run {} (fun _ _ => True) {} [.receive query, .receive queryCancel, .take,
      .handle { queryObjects := [.ok { objectId := 1 }] }, .worker 0, .worker 0, .worker 0, .worker 0,
      .worker 0, .worker 0] s ∧
    (∃ stream, s.streams[0]? = some stream ∧ stream.request = some 0) ∧ s.framed 0 = 1 := by
  refine ⟨_, .tail (.tail (.tail (.tail (.tail (.tail (.tail (.tail (.tail (.tail (.refl _) trivial rfl)
    trivial rfl) trivial rfl) trivial rfl) trivial rfl) trivial rfl) trivial rfl) trivial rfl) trivial rfl)
    trivial rfl, ⟨_, rfl, rfl⟩, ?_⟩
  decide +kernel

end EngineSession

end MoDb.Net
