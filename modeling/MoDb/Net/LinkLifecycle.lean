import MoDb.Net.LinkProgress

/-!
# The life of a link

As long as no worker takes the session of another one out of the table, the messages of a session are
handled one by one, nobody closes it but its peer and itself, and the link returns once it has ended.
-/

namespace MoDb.Net.Link

variable {M : Type} {link : Link M} {place : Nat → Place} {urgent : M → Bool}

/-- The workers that `handle_link` starts. -/
def linkWorkers (link_workers hardware_concurrency : Nat) : Nat :=
  if link_workers ≠ 0 then link_workers else max 2 hardware_concurrency

/-- What the sessions of a link and the thread that serves it may rely on. -/
structure Lifecycle (urgent : M → Bool) (link : Link M) : Prop where
  one_at_a_time : ∀ i j session, (link.workers i).session = some session →
    (link.workers j).session = some session → i = j
  in_order : ∀ session, session < link.opened →
    (link.sessions session).handled <+: (link.sessions session).arrived
  finished : ∀ session, session < link.opened → (link.sessions session).finished ≤ 1
  /-- Nobody else closes a session. -/
  untouched : ∀ session, session < link.opened → (link.sessions session).asked = false →
    (link.sessions session).failed = false → ¬Over link.reader → link.InTable session ∧
      (link.sessions session).closing = false ∧ (link.sessions session).sinkClosed = false ∧
      (link.sessions session).finished = 0
  returns : Over link.reader → Returns urgent link
  returned : link.reader = .returned → link.live = 0 ∧
    ∀ session, session < link.opened → (link.sessions session).finished = 1

theorem Inv.fresh (workerCount : Nat) : (fresh M workerCount).Inv fun _ => .free := by
  refine ⟨⟨fun index session => iff_of_false nofun nofun,
    fun session => iff_of_false List.not_mem_nil nofun, List.nodup_nil,
    fun session => iff_of_false id nofun, fun _ hopen => absurd hopen (Nat.not_lt_zero _),
    fun _ hopen => absurd hopen (Nat.not_lt_zero _), fun _ _ => rfl, fun _ _ => rfl⟩,
    fun _ hopen => absurd hopen (Nat.not_lt_zero _), nofun, fun _ htarget => htarget.elim, rfl,
    fun hover => hover.elim⟩

theorem reader_onFrame (hreader : link.reader = .reading) (urgent : M → Bool) (id : Nat)
    (frame : LinkFrame M) : (link.onFrame urgent id frame).reader ≠ .returned := by
  have hreading : link.reader ≠ .returned := by
    rw [hreader]
    exact nofun
  unfold Link.onFrame
  cases htable : link.table id with
  | none =>
    cases frame with
    | sessionOpen => exact hreading
    | _ => exact hreading
  | some session =>
    cases frame with
    | sessionOpen => exact hreading
    | message message =>
      dsimp only
      split
      · exact hreading
      · exact fun hreturned : Reader.scheduling session message = .returned => by cases hreturned
    | sessionClose => exact fun hreturned : Reader.closing session none = .returned => by cases hreturned
    | streamCredit query frames => exact hreading

theorem returned_step (urgent : M → Bool) (h : link.reader = .returned → link.live = 0)
    (action : LinkAction M) :
    (link.step urgent action).reader = .returned → (link.step urgent action).live = 0 := by
  unfold Link.step
  cases action with
  | frame id frame =>
    cases hreader : link.reader with
    | reading =>
      exact fun hreturned => absurd hreturned (reader_onFrame hreader urgent id frame)
    | _ => exact h
  | linkEnd =>
    cases hreader : link.reader with
    | reading => exact nofun
    | _ => exact h
  | reader =>
    have hnext : ∀ rest : Option (List Nat), next rest ≠ (.returned : Reader M) := by
      intro rest
      cases rest with
      | none => exact nofun
      | some sessions =>
        cases sessions with
        | nil => exact nofun
        | cons session rest => exact nofun
    dsimp only
    unfold Link.readerStep
    cases hreader : link.reader with
    | reading => exact h
    | scheduling session message =>
      dsimp only
      split
      · exact nofun
      · split
        · exact nofun
        · exact nofun
    | closing session rest => exact nofun
    | sinking session post rest =>
      dsimp only
      split
      · exact nofun
      · exact fun hreturned => absurd hreturned (hnext rest)
    | posting session rest => exact fun hreturned => absurd hreturned (hnext rest)
    | ended => exact fun hreturned => absurd hreturned (hnext _)
    | waiting =>
      dsimp only
      split
      · rename_i hlive
        exact fun _ => hlive
      · exact h
    | returned => exact h
  | worker index ok =>
    obtain ⟨hreader, hlive⟩ := reader_workerStep link index ok
    dsimp only
    split
    · rw [hreader]
      intro hreturned
      exact Nat.le_zero.1 (hlive.trans (Nat.le_of_eq (h hreturned)))
    · exact h

theorem Inv.lifecycle (h : link.Inv place) (hworkers : 0 < link.workerCount)
    (hreturned : link.reader = .returned → link.live = 0) : Lifecycle urgent link where
  one_at_a_time i j session hi hj := by
    have hplace := (h.placed.worker_iff i session).1 hi
    rw [(h.placed.worker_iff j session).1 hj] at hplace
    exact (Place.worker.inj hplace).symm
  in_order session hopen := (h.sessions session hopen).handled
  finished session hopen := by
    have hlocal := h.sessions session hopen
    cases hcounted : (link.sessions session).counted with
    | true => exact Nat.le_of_eq (hlocal.counted hcounted).2
    | false =>
      cases hcounting : isCounting (link.phase place session) with
      | true => exact Nat.le_of_eq (hlocal.counting hcounting)
      | false =>
        rw [hlocal.unfinished hcounted hcounting]
        exact Nat.zero_le _
  untouched session hopen := (h.sessions session hopen).untouched
  returns hover := h.returns urgent hover hworkers
  returned hreader := by
    have hlive := hreturned hreader
    refine ⟨hlive, fun session hopen => ?_⟩
    rw [h.live, Finset.card_eq_zero] at hlive
    have hcounted : (link.sessions session).counted = true := by
      by_contra hnot
      have hmem : session ∈ (Finset.range link.opened).filter fun session =>
          (link.sessions session).counted = false :=
        Finset.mem_filter.2 ⟨Finset.mem_range.2 hopen, Bool.eq_false_iff.2 hnot⟩
      rw [hlive] at hmem
      exact absurd hmem (Finset.notMem_empty _)
    exact ((h.sessions session hopen).counted hcounted).2

/-- In each step of the run, a worker whose handler has failed does not take another session out of the
table. -/
def Meets (urgent : M → Bool) (link : Link M) : List (LinkAction M) → Prop
  | [] => True
  | action :: actions => link.Spares action ∧ Meets urgent (link.step urgent action) actions

theorem Inv.run (h : link.Inv place) (hreturned : link.reader = .returned → link.live = 0)
    {actions : List (LinkAction M)} (hmeets : Meets urgent link actions) :
    (∃ place', (link.run urgent actions).Inv place') ∧
      ((link.run urgent actions).reader = .returned → (link.run urgent actions).live = 0) ∧
      (link.run urgent actions).workerCount = link.workerCount := by
  induction actions generalizing link place with
  | nil => exact ⟨⟨place, h⟩, hreturned, rfl⟩
  | cons action actions ih =>
    obtain ⟨hspares, hrest⟩ := hmeets
    obtain ⟨place', hstep⟩ := h.step urgent action hspares
    obtain ⟨hinv, hafter, hcount⟩ := ih hstep (returned_step urgent hreturned action) hrest
    exact ⟨hinv, hafter, hcount.trans (workerCount_step urgent link action)⟩

theorem lifecycle_run (urgent : M → Bool) (link_workers hardware_concurrency : Nat)
    (actions : List (LinkAction M))
    (h : Meets urgent (fresh M (linkWorkers link_workers hardware_concurrency)) actions) :
    Lifecycle urgent
      ((fresh M (linkWorkers link_workers hardware_concurrency)).run urgent actions) := by
  have hworkers : 0 < linkWorkers link_workers hardware_concurrency := by
    unfold linkWorkers
    split
    · exact Nat.pos_of_ne_zero ‹_›
    · exact Nat.lt_of_lt_of_le Nat.two_pos (Nat.le_max_left _ _)
  obtain ⟨⟨place, hinv⟩, hreturned, hcount⟩ :=
    (Inv.fresh (linkWorkers link_workers hardware_concurrency)).run nofun h
  exact hinv.lifecycle (hcount ▸ hworkers) hreturned

/-! ### Two runs -/

instance (link : Link M) (action : LinkAction M) : Decidable (link.Spares action) :=
  match action with
  | .worker index _ =>
    match hworker : link.workers index with
    | .taking session =>
      decidable_of_iff (link.table (link.sessions session).id = some session ∨
          link.table (link.sessions session).id = none)
        ⟨fun hspares _ htaking => Worker.taking.inj (hworker.symm.trans htaking) ▸ hspares,
          fun hspares => hspares session hworker⟩
    | .idle => .isTrue fun _ htaking => Worker.noConfusion (hworker.symm.trans htaking)
    | .running _ _ => .isTrue fun _ htaking => Worker.noConfusion (hworker.symm.trans htaking)
    | .handling _ _ => .isTrue fun _ htaking => Worker.noConfusion (hworker.symm.trans htaking)
    | .failing _ => .isTrue fun _ htaking => Worker.noConfusion (hworker.symm.trans htaking)
    | .leaving _ => .isTrue fun _ htaking => Worker.noConfusion (hworker.symm.trans htaking)
    | .finishing _ => .isTrue fun _ htaking => Worker.noConfusion (hworker.symm.trans htaking)
    | .counting _ => .isTrue fun _ htaking => Worker.noConfusion (hworker.symm.trans htaking)
  | .frame _ _ => .isTrue trivial
  | .linkEnd => .isTrue trivial
  | .reader => .isTrue trivial

instance decidableMeets (urgent : M → Bool) : (link : Link M) → (actions : List (LinkAction M)) →
    Decidable (Meets urgent link actions)
  | _, [] => .isTrue trivial
  | link, action :: actions =>
    have := decidableMeets urgent (link.step urgent action) actions
    inferInstanceAs (Decidable (link.Spares action ∧ Meets urgent (link.step urgent action) actions))

/-- The peer opens session 7, sends a message and closes the session, and the link ends. -/
def closedRun : List (LinkAction Unit) :=
  [.frame 7 .sessionOpen, .frame 7 (.message ()), .reader, .reader, .worker 0 true, .worker 0 true,
    .worker 0 true, .worker 0 true, .frame 7 .sessionClose, .reader, .reader, .reader, .worker 1 true,
    .worker 1 true, .worker 1 true, .worker 1 true, .worker 1 true, .linkEnd, .reader, .reader]

theorem lifecycle_closedRun :
    ((fresh Unit (linkWorkers 0 2)).run (fun _ => false) closedRun).reader = .returned ∧
      Lifecycle (fun _ => false) ((fresh Unit (linkWorkers 0 2)).run (fun _ => false) closedRun) :=
  ⟨rfl, lifecycle_run (fun _ => false) 0 2 closedRun (by decide)⟩

/-- Session 7 is closed and opened again while its message is handled. Then the handler fails, and the
worker takes the new session out of the table. -/
def reopenedRun : List (LinkAction Unit) :=
  [.frame 7 .sessionOpen, .frame 7 (.message ()), .reader, .reader, .worker 0 true, .worker 0 true,
    .frame 7 .sessionClose, .reader, .reader, .frame 7 .sessionOpen, .worker 0 false, .worker 0 true,
    .worker 0 true, .worker 0 true, .worker 0 true, .linkEnd, .reader]

theorem not_returns (hreader : link.reader = .waiting) (hlive : link.live ≠ 0) (hready : link.ready = [])
    (hidle : ∀ index, index < link.workerCount → link.workers index = .idle) : ¬Returns urgent link := by
  have hstuck : ∀ action, link.step urgent action = link := by
    intro action
    unfold Link.step
    cases action with
    | frame id frame => simp only [hreader]
    | linkEnd => simp only [hreader]
    | reader =>
      simp only [Link.readerStep, hreader]
      rw [if_neg hlive]
    | worker index ok =>
      dsimp only
      split
      · rename_i hindex
        unfold Link.workerStep
        simp only [hidle index hindex, hready]
      · rfl
  intro hreturns
  cases hreturns with
  | returned _ hreturned =>
    rw [hreader] at hreturned
    cases hreturned
  | step _ hpossible _ =>
    obtain ⟨action, -, hmoves⟩ := hpossible
    exact hmoves (hstuck action)

/-- The new session was closed by another one, and the link does not return. -/
theorem not_lifecycle_reopenedRun :
    ¬Lifecycle (fun _ => false)
      ((fresh Unit (linkWorkers 0 2)).run (fun _ => false) reopenedRun) := by
  intro hlifecycle
  have hwaiting : ((fresh Unit (linkWorkers 0 2)).run (fun _ => false) reopenedRun).reader = .waiting := by
    decide +kernel
  apply not_returns hwaiting (by decide +kernel) (by decide +kernel) (by decide +kernel)
  apply hlifecycle.returns
  rw [hwaiting]
  trivial

end MoDb.Net.Link
