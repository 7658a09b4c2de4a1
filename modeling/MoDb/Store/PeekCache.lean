import MoDb.Store.Collection

/-!
# The record that was peeked

`peek_type` keeps the record it has read, one for each thread, and `get` of the same object takes it from
there. A record counts where it comes from this store, was read at the epoch of the store, and no
transaction is running.
-/

namespace MoDb.Store

open Effect Storage Mvcc

variable {H Id : Type}

/-- `PeekedRecord`; a record stands for the object that it decodes to. -/
structure Peeked where
  store : Nat
  epoch : Nat
  id : ObjectId
  record : DecodedObject

/-- A database with what its threads have peeked. -/
structure PeekingEngine (H Id : Type) where
  engine : Engine H Id
  /-- `cache_tag_` of the store. -/
  tag : Nat
  /-- The counter of `next_cache_tag`, which all stores of the process share. -/
  nextTag : Nat
  /-- `t_peeked`. -/
  peeked : Nat → Option Peeked

/-- What happens to a database and to the threads that use it. The page file does not begin to refuse
pages. -/
inductive Call
  | database (action : Action) (faultless : ∀ entries trees, action ≠ .fault entries trees)
  | peekType (thread : Nat) (id : ObjectId)
  /-- Another store of the process is opened. -/
  | openOther
  /-- The thread peeks at an object of another store. -/
  | peekOther (thread : Nat) (peeked : Peeked)

namespace Engine

variable [DecidableEq Id] [RecordStore H Id DecodedObject Error NotFound]

/-- The action reads the store again from the file, and the file opens. -/
def reopens [PageSize] (engine : Engine H Id) (action : Action) : Bool :=
  !(engine.step action).rootLost &&
    match action with
    | .rollback _ => engine.store.inTransaction
    | .collectGarbage commits _ =>
      if engine.store.inTransaction then false
      else
        match ObjectStore.collectGarbage engine.oldest engine.begin.store with
        | .error _ _ => true
        | .ok collected _ => collected = 0 || !commits
    | .reopen => true
    | _ => false

end Engine

namespace PeekingEngine

variable [DecidableEq Id] [RecordStore H Id DecodedObject Error NotFound]

def opened (engine : Engine H Id) : PeekingEngine H Id := ⟨engine, 1, 2, fun _ => none⟩

def serves (state : PeekingEngine H Id) (peeked : Peeked) (id : ObjectId) : Bool :=
  peeked.store = state.tag ∧ peeked.id = id ∧ peeked.epoch = state.engine.store.epoch ∧
    state.engine.store.inTransaction = false

/-- `ObjectStore::get`. -/
def get (state : PeekingEngine H Id) (thread : Nat) (id : ObjectId) : Except Error DecodedObject :=
  match state.peeked thread with
  | some peeked => if state.serves peeked id then .ok peeked.record else state.engine.store.get id
  | none => state.engine.store.get id

/-- `ObjectStore::peek_type`. -/
def peekType (state : PeekingEngine H Id) (thread : Nat) (id : ObjectId) :
    Except Error TypeDefinitionId × PeekingEngine H Id :=
  match state.engine.store.get id with
  | .error error => (.error error, state)
  | .ok object =>
    (.ok object.type,
      { state with
        peeked := Function.update state.peeked thread
          (some ⟨state.tag, state.engine.store.epoch, id, object⟩) })

variable [PageSize]

def step (state : PeekingEngine H Id) : Call → PeekingEngine H Id
  | .database action _ =>
    let engine := state.engine.step action
    if state.engine.reopens action then
      { state with engine := engine, tag := state.nextTag, nextTag := state.nextTag + 1 }
    else { state with engine := engine }
  | .peekType thread id => (state.peekType thread id).2
  | .openOther => { state with nextTag := state.nextTag + 1 }
  | .peekOther thread peeked =>
    if peeked.store ≠ state.tag ∧ peeked.store < state.nextTag then
      { state with peeked := Function.update state.peeked thread (some peeked) }
    else state

def run (state : PeekingEngine H Id) (calls : List Call) : PeekingEngine H Id := calls.foldl step state

/-! ### What is peeked is what is there -/

omit [PageSize] in
/-- What is peeked of this store comes from no later epoch, and at this epoch and outside a transaction it
is what the store reads. -/
structure Reads (state : PeekingEngine H Id) (peeked : Peeked) : Prop where
  tag : peeked.store < state.nextTag
  epoch : peeked.store = state.tag → peeked.epoch ≤ state.engine.store.epoch
  record : peeked.store = state.tag → peeked.epoch = state.engine.store.epoch →
    state.engine.store.inTransaction = false → state.engine.store.get peeked.id = .ok peeked.record

structure Coherent (state : PeekingEngine H Id) : Prop where
  sound : state.engine.Sound
  settled : state.engine.Settled
  tag : state.tag < state.nextTag
  peeked : ∀ thread peeked, state.peeked thread = some peeked → state.Reads peeked

variable {state : PeekingEngine H Id}

theorem step_cases {engine : Engine H Id} (h : engine.Sound) {action : Action}
    (hrestores : engine.Restores action) (hfaultless : ∀ entries trees, action ≠ .fault entries trees)
    (hreopens : engine.reopens action = false) :
    (engine.step action).store = engine.store ∨
      ((engine.step action).store.inTransaction = true ∧
        engine.store.epoch ≤ (engine.step action).store.epoch) ∨
      engine.store.epoch < (engine.step action).store.epoch := by
  unfold Engine.reopens at hreopens
  rw [(Engine.sound_step h hrestores).rootKept, Bool.not_false, Bool.true_and] at hreopens
  rw [h.step_eq]
  rcases engine.act_cases action with hact | ⟨hcomes, hact⟩
  · exact .inl (congrArg Engine.store hact)
  rw [hact]
  cases action with
  | begin => exact .inr (.inl ⟨rfl, Nat.le_refl _⟩)
  | write write =>
    obtain ⟨hstays, hepoch⟩ := Engine.keeps_write h.store hcomes write
    exact .inr (.inl ⟨hstays, Nat.le_of_eq hepoch.symm⟩)
  | createIndex type field =>
    obtain ⟨hstays, hepoch⟩ := Engine.keeps_createIndex h.store hcomes type field
    exact .inr (.inl ⟨hstays, Nat.le_of_eq hepoch.symm⟩)
  | registerType definition =>
    obtain ⟨next, types, -, hafter⟩ := ObjectStore.after_registerType definition engine.store
    simp only [Engine.perform, Engine.onStore, hafter]
    exact .inr (.inl ⟨hcomes, Nat.le_refl _⟩)
  | commit => exact .inr (.inr (Nat.lt_succ_self _))
  | commitFailed => exact .inr (.inl ⟨hcomes, Nat.le_succ _⟩)
  | rollback due => cases hcomes.symm.trans hreopens
  | collectGarbage commits due =>
    have hidle : ¬engine.store.inTransaction = true := Bool.eq_false_iff.1 hcomes
    simp only [if_neg hidle] at hreopens
    rcases Engine.collectGarbage_cases h hcomes commits due with
      ⟨-, hfound⟩ | ⟨count, store, -, -, -, hcollected, hcommit⟩
    · cases hrun : ObjectStore.collectGarbage engine.oldest engine.begin.store with
      | error error store =>
        rw [hrun] at hreopens
        cases hreopens
      | ok count store =>
        rw [hrun] at hreopens
        simp only [Bool.or_eq_false_iff, decide_eq_false_iff_not, Bool.not_eq_false'] at hreopens
        rcases hfound count store hrun with hzero | hfails
        · exact absurd hzero hreopens.1
        · rw [hfails] at hreopens
          cases hreopens.2
    · have hepoch : store.epoch = engine.store.epoch := hcollected.epoch_eq
      rw [Engine.perform, hcommit]
      exact .inr (.inr (hepoch ▸ Nat.lt_succ_self _))
  | openSnapshot | shareSnapshot | closeSnapshot => exact .inl rfl
  | reopen => cases hreopens
  | fault entries trees => exact absurd rfl (hfaultless entries trees)

theorem Coherent.reads_of_step (h : state.Coherent) {action : Action}
    (hrestores : state.engine.Restores action)
    (hfaultless : ∀ entries trees, action ≠ .fault entries trees)
    (hreopens : state.engine.reopens action = false) {peeked : Peeked} (hreads : state.Reads peeked) :
    ({ state with engine := state.engine.step action } : PeekingEngine H Id).Reads peeked := by
  obtain hsame | ⟨htx, hle⟩ | hlt := step_cases h.sound hrestores hfaultless hreopens
  · constructor
    · exact hreads.tag
    · dsimp only
      rw [hsame]
      exact hreads.epoch
    · dsimp only
      rw [hsame]
      exact hreads.record
  · refine ⟨hreads.tag, fun htag => Nat.le_trans (hreads.epoch htag) hle, fun _ _ hidle => ?_⟩
    rw [htx] at hidle
    cases hidle
  · refine ⟨hreads.tag, fun htag => Nat.le_trans (hreads.epoch htag) (Nat.le_of_lt hlt), ?_⟩
    intro htag heq
    have hle := hreads.epoch htag
    dsimp only at heq
    omega

theorem Coherent.step_database (h : state.Coherent) {action : Action}
    (hrestores : state.engine.Restores action)
    (hfaultless : ∀ entries trees, action ≠ .fault entries trees) :
    (state.step (.database action hfaultless)).Coherent := by
  have hsound := Engine.sound_step h.sound hrestores
  have hsettled := Engine.settled_step h.sound h.settled hrestores
  unfold step
  dsimp only
  by_cases hreopens : state.engine.reopens action = true
  · rw [if_pos hreopens]
    refine ⟨hsound, hsettled, Nat.lt_succ_self _, fun thread peeked hpeeked => ?_⟩
    -- What was peeked is of an earlier store.
    have hlt := (h.peeked thread peeked hpeeked).tag
    exact ⟨Nat.lt_succ_of_lt hlt, fun htag => absurd htag (Nat.ne_of_lt hlt),
      fun htag => absurd htag (Nat.ne_of_lt hlt)⟩
  · rw [if_neg hreopens]
    refine ⟨hsound, hsettled, h.tag, fun thread peeked hpeeked => ?_⟩
    exact h.reads_of_step hrestores hfaultless (Bool.not_eq_true _ ▸ hreopens) (h.peeked thread peeked hpeeked)

omit [PageSize] in
theorem Coherent.peek (h : state.Coherent) (thread : Nat) {peeked : Peeked}
    (hreads : state.Reads peeked) :
    ({ state with peeked := Function.update state.peeked thread (some peeked) } :
      PeekingEngine H Id).Coherent where
  sound := h.sound
  settled := h.settled
  tag := h.tag
  peeked other found hfound := by
    have hof : state.Reads found := by
      dsimp only at hfound
      by_cases hother : other = thread
      · rw [hother, Function.update_self] at hfound
        exact Option.some.inj hfound ▸ hreads
      · rw [Function.update_of_ne hother] at hfound
        exact h.peeked other found hfound
    exact ⟨hof.tag, hof.epoch, hof.record⟩

def Restores (state : PeekingEngine H Id) : Call → Prop
  | .database action _ => state.engine.Restores action
  | _ => True

theorem Coherent.step (h : state.Coherent) {call : Call} (hrestores : state.Restores call) :
    (state.step call).Coherent := by
  cases call with
  | database action hfaultless => exact h.step_database hrestores hfaultless
  | peekType thread id =>
    unfold PeekingEngine.step peekType
    dsimp only
    cases hget : state.engine.store.get id with
    | error error => exact h
    | ok object => exact h.peek thread ⟨h.tag, fun _ => Nat.le_refl _, fun _ _ _ => hget⟩
  | openOther =>
    refine ⟨h.sound, h.settled, Nat.lt_succ_of_lt h.tag, fun thread peeked hpeeked => ?_⟩
    have hreads := h.peeked thread peeked hpeeked
    exact ⟨Nat.lt_succ_of_lt hreads.tag, hreads.epoch, hreads.record⟩
  | peekOther thread peeked =>
    unfold PeekingEngine.step
    dsimp only
    split
    · rename_i hother
      exact h.peek thread ⟨hother.2, fun htag => absurd htag hother.1, fun htag => absurd htag hother.1⟩
    · exact h

omit [PageSize] in
theorem Coherent.get_eq (h : state.Coherent) (thread : Nat) (id : ObjectId) :
    state.get thread id = state.engine.store.get id := by
  unfold get
  cases hpeeked : state.peeked thread with
  | none => rfl
  | some peeked =>
    dsimp only
    split
    · rename_i hserves
      rw [serves, decide_eq_true_iff] at hserves
      obtain ⟨htag, hid, hepoch, hidle⟩ := hserves
      have hrecord := (h.peeked thread peeked hpeeked).record htag hepoch hidle
      rw [← hid, hrecord]
    · rfl

omit [PageSize] in
theorem Coherent.get_committed (h : state.Coherent) (hidle : state.engine.store.inTransaction = false)
    (id : ObjectId) : state.engine.store.get id = state.engine.committed.get id :=
  ((h.settled hidle).readsNow h.sound.committed h.sound.store).get_eq id

/-! ### Runs -/

omit [PageSize] in
theorem coherent_opened {engine : Engine H Id} (hfresh : engine.Fresh) : (opened engine).Coherent where
  sound := Engine.sound_fresh hfresh
  settled _ := hfresh.committed ▸ ObjectStore.SameData.refl _
  tag := Nat.lt_succ_self _
  peeked _ _ hpeeked := by cases hpeeked

def databaseActions : List Call → List Action
  | [] => []
  | .database action _ :: calls => action :: databaseActions calls
  | _ :: calls => databaseActions calls

theorem engine_step (state : PeekingEngine H Id) (call : Call) :
    (state.step call).engine = state.engine.run (databaseActions [call]) := by
  cases call with
  | database action hfaultless =>
    unfold step
    dsimp only
    split <;> rfl
  | peekType thread id =>
    unfold step peekType
    dsimp only
    split <;> rfl
  | openOther => rfl
  | peekOther thread peeked =>
    unfold step
    dsimp only
    split <;> rfl

theorem engine_run (state : PeekingEngine H Id) (calls : List Call) :
    (state.run calls).engine = state.engine.run (databaseActions calls) := by
  induction calls generalizing state with
  | nil => rfl
  | cons call rest ih =>
    refine (ih (state.step call)).trans ?_
    rw [engine_step]
    cases call <;> rfl

theorem Coherent.run (h : state.Coherent) {calls : List Call}
    (hmeets : Engine.Meets Engine.Restores (databaseActions calls) state.engine) :
    (state.run calls).Coherent := by
  induction calls generalizing state with
  | nil => exact h
  | cons call rest ih =>
    have hsplit : state.Restores call ∧
        Engine.Meets Engine.Restores (databaseActions rest) (state.step call).engine := by
      rw [engine_step]
      cases call with
      | database action hfaultless => exact hmeets
      | _ => exact ⟨trivial, hmeets⟩
    exact ih (h.step hsplit.1) hsplit.2

/-- Every thread gets what the database reads without the records that were peeked; outside a transaction
this is what was committed last. -/
def Invisible (state : PeekingEngine H Id) : Prop :=
  ∀ thread id, state.get thread id = state.engine.store.get id ∧
    (state.engine.store.inTransaction = false → state.get thread id = state.engine.committed.get id)

/-- What is peeked is invisible in every run whose rollbacks restore the store, and the database goes
through the run as if nothing was peeked. -/
theorem invisible_run {engine : Engine H Id} (hfresh : engine.Fresh) {calls : List Call}
    (hmeets : Engine.Meets Engine.Restores (databaseActions calls) engine) :
    ((opened engine).run calls).Invisible ∧
      ((opened engine).run calls).engine = engine.run (databaseActions calls) := by
  have hcoherent := (coherent_opened hfresh).run hmeets
  refine ⟨fun thread id => ?_, engine_run (opened engine) calls⟩
  rw [hcoherent.get_eq]
  exact ⟨rfl, fun hidle => hcoherent.get_committed hidle id⟩

end PeekingEngine

/-! ### An account that is updated after it was peeked -/

section DefaultBuild

attribute [local instance] PageSize.default Statement.ledgerStore

/-- A type is registered and the account updated and peeked in a transaction that is rolled back. -/
def updatePeeked : List Call :=
  [.database .begin nofun,
    .database (.registerType ⟨0, "Account", [{ id := 1, name := "balance", type := .int64 }]⟩) nofun,
    .database (.write (.create 1024 [(1, .int64 10)])) nofun,
    .database .commit nofun,
    .database .begin nofun,
    .database (.registerType ⟨0, "Branch", [{ id := 1, name := "code", type := .int64 }]⟩) nofun,
    .database (.write (.update 1026 1024 [(1, .int64 20)])) nofun,
    .peekType 0 1026,
    .database (.rollback true) nofun]

/-- The thread gets the record that was rolled back. -/
theorem not_invisible_of_updatePeeked :
    ¬((PeekingEngine.opened Engine.empty).run updatePeeked).Invisible := by
  intro hinvisible
  have hget : ((PeekingEngine.opened Engine.empty).run updatePeeked).get 0 1026 =
      .ok ⟨1026, 1024, [(1, .int64 20)]⟩ := rfl
  have hstore : ((PeekingEngine.opened Engine.empty).run updatePeeked).engine.store.get 1026 =
      .ok ⟨1026, 1024, [(1, .int64 10)]⟩ := rfl
  have hsame := (hinvisible 0 1026).1
  rw [hget, hstore] at hsame
  cases hsame

/-- The account is peeked before the transaction that updates it, and in it. An update that is peeked is
rolled back first. -/
def accountPeeked : List Call :=
  [.database .begin nofun,
    .database (.registerType ⟨0, "Account", [{ id := 1, name := "balance", type := .int64 }]⟩) nofun,
    .database (.write (.create 1024 [(1, .int64 10)])) nofun,
    .database .commit nofun,
    .database .begin nofun,
    .database (.write (.update 1026 1024 [(1, .int64 30)])) nofun,
    .peekType 0 1026,
    .database (.rollback true) nofun,
    .peekType 0 1026,
    .database .begin nofun,
    .peekType 0 1026,
    .database (.write (.update 1026 1024 [(1, .int64 20)])) nofun,
    .database .commit nofun]

theorem invisible_accountPeeked :
    ((PeekingEngine.opened Engine.empty).run accountPeeked).Invisible ∧
      ((PeekingEngine.opened Engine.empty).run accountPeeked).get 0 1026 =
        .ok ⟨1026, 1024, [(1, .int64 20)]⟩ := by
  have hmeets : Engine.Meets Engine.Restores (PeekingEngine.databaseActions accountPeeked)
      Engine.empty :=
    ⟨trivial, trivial, trivial, trivial, trivial, trivial, fun _ => by decide, trivial, trivial,
      trivial, trivial⟩
  exact ⟨(PeekingEngine.invisible_run Engine.fresh_empty hmeets).1, rfl⟩

end DefaultBuild

end MoDb.Store
