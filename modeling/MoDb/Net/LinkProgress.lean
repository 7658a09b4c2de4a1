import MoDb.Net.LinkInvariant
import Mathlib.Algebra.Order.BigOperators.Group.Finset

/-!
# A link that has ended

What the thread of the link and the workers have still to do when the link has ended becomes less with
each step. Until the link returns, one of them can go on.
-/

namespace MoDb.Net.Link

variable {M : Type} {link link' : Link M} {place : Nat → Place} {index session : Nat} {worker : Worker}
  {urgent : M → Bool}

/-! ### What is left to do -/

/-- What a worker has still to do with its session; `closing` says which sessions are closed. -/
def weight (closing : Nat → Bool) : Worker → Nat
  | .idle => 0
  | .running _ _ => 4
  | .handling _ _ => 7
  | .failing _ => 4
  | .taking _ => 3
  | .leaving session => if closing session then 3 else 6
  | .finishing _ => 2
  | .counting _ => 1

def readerWeight (opened : Nat) : Reader M → Nat
  | .closing _ rest => 10 + 9 * (rest.getD []).length
  | .sinking _ _ rest => 9 + 9 * (rest.getD []).length
  | .posting _ rest => 8 + 9 * (rest.getD []).length
  | .ended => 9 * opened + 2
  | .waiting => 1
  | _ => 0

def load (link : Link M) : Nat :=
  ∑ session ∈ Finset.range link.opened, 4 * (link.sessions session).inbox.length

def work (link : Link M) : Nat :=
  ∑ index ∈ Finset.range link.workerCount,
    weight (fun session => (link.sessions session).closing) (link.workers index)

def left (link : Link M) : Nat :=
  link.load + 5 * link.ready.length + link.work + readerWeight link.opened link.reader

theorem sum_update {α : Type} (f : α → Nat) (values : Nat → α) {n i : Nat} (hi : i < n) (value : α) :
    ∑ j ∈ Finset.range n, f (Function.update values i value j) + f (values i) =
      ∑ j ∈ Finset.range n, f (values j) + f value := by
  have hmem : i ∈ Finset.range n := Finset.mem_range.2 hi
  have hrest : ∑ j ∈ (Finset.range n).erase i, f (Function.update values i value j) =
      ∑ j ∈ (Finset.range n).erase i, f (values j) := by
    apply Finset.sum_congr rfl
    intro j hj
    rw [Function.update_of_ne (Finset.ne_of_mem_erase hj)]
  rw [← Finset.add_sum_erase _ _ hmem, ← Finset.add_sum_erase _ (fun j => f (values j)) hmem, hrest,
    Function.update_self]
  omega

theorem weight_le {closing closing' : Nat → Bool}
    (h : ∀ session, closing session = true → closing' session = true) (worker : Worker) :
    weight closing' worker ≤ weight closing worker := by
  cases worker with
  | leaving session =>
    change (if closing' session = true then 3 else 6) ≤ if closing session = true then 3 else 6
    by_cases hclosing : closing session = true
    · rw [if_pos hclosing, if_pos (h session hclosing)]
    · rw [if_neg hclosing]
      split
      · omega
      · exact Nat.le_refl _
  | _ => exact Nat.le_refl _

theorem load_update (hopened : link'.opened = link.opened) {entry : LinkSession M}
    (hsessions : link'.sessions = Function.update link.sessions session entry)
    (hopen : session < link.opened) :
    link'.load + 4 * (link.sessions session).inbox.length = link.load + 4 * entry.inbox.length := by
  unfold load
  rw [hopened, hsessions]
  exact sum_update (fun entry : LinkSession M => 4 * entry.inbox.length) link.sessions hopen entry

theorem work_update (hcount : link'.workerCount = link.workerCount)
    (hworkers : link'.workers = Function.update link.workers index worker)
    (hindex : index < link.workerCount) (hclosing : ∀ other,
      (link.sessions other).closing = true → (link'.sessions other).closing = true) :
    link'.work + weight (fun other => (link'.sessions other).closing) (link.workers index) ≤
      link.work + weight (fun other => (link'.sessions other).closing) worker := by
  have hle : ∑ other ∈ Finset.range link.workerCount,
      weight (fun other => (link'.sessions other).closing) (link.workers other) ≤ link.work :=
    Finset.sum_le_sum fun other _ => weight_le hclosing _
  unfold work at *
  rw [hcount, hworkers]
  have hsum := sum_update (weight fun other => (link'.sessions other).closing) link.workers hindex worker
  omega

theorem left_lt_worker (hopen : session < link.opened) {entry : LinkSession M}
    (hindex : index < link.workerCount)
    (hsame : link'.opened = link.opened ∧ link'.workerCount = link.workerCount ∧
      link'.reader = link.reader)
    (hworkers : link'.workers = Function.update link.workers index worker)
    (hsessions : link'.sessions = Function.update link.sessions session entry)
    (hclosing : (link.sessions session).closing = true → entry.closing = true)
    (hless : 4 * entry.inbox.length + 5 * link'.ready.length +
        weight (fun other => (link'.sessions other).closing) worker <
      4 * (link.sessions session).inbox.length + 5 * link.ready.length +
        weight (fun other => (link'.sessions other).closing) (link.workers index)) :
    link'.left < link.left := by
  obtain ⟨hopened, hcount, hreader⟩ := hsame
  have hload := load_update hopened hsessions hopen
  have hwork := work_update hcount hworkers hindex fun other hother => by
    rw [hsessions]
    by_cases heq : other = session
    · rw [heq, Function.update_self]
      exact hclosing (heq ▸ hother)
    · rw [Function.update_of_ne heq]
      exact hother
  unfold left
  rw [hopened, hreader]
  omega

theorem left_lt_reader (hopen : session < link.opened) {entry : LinkSession M}
    (hsame : link'.opened = link.opened ∧ link'.workerCount = link.workerCount ∧
      link'.workers = link.workers)
    (hsessions : link'.sessions = Function.update link.sessions session entry)
    (hclosing : (link.sessions session).closing = true → entry.closing = true)
    (hless : 4 * entry.inbox.length + 5 * link'.ready.length + readerWeight link.opened link'.reader <
      4 * (link.sessions session).inbox.length + 5 * link.ready.length +
        readerWeight link.opened link.reader) :
    link'.left < link.left := by
  obtain ⟨hopened, hcount, hworkers⟩ := hsame
  have hload := load_update hopened hsessions hopen
  have hwork : link'.work ≤ link.work := by
    unfold work
    rw [hcount, hworkers]
    apply Finset.sum_le_sum
    intro other _
    apply weight_le
    intro s hs
    rw [hsessions]
    by_cases heq : s = session
    · rw [heq, Function.update_self]
      exact hclosing (heq ▸ hs)
    · rw [Function.update_of_ne heq]
      exact hs
  unfold left
  rw [hopened]
  omega

theorem readerWeight_next (opened : Nat) (rest : List Nat) :
    readerWeight opened (next (some rest) : Reader M) = 1 + 9 * rest.length := by
  cases rest with
  | nil => rfl
  | cons session rest =>
    change 10 + 9 * rest.length = 1 + 9 * (rest.length + 1)
    omega

theorem weight_leaving (closing : Nat → Bool) (session : Nat) :
    3 ≤ weight closing (.leaving session) ∧ weight closing (.leaving session) ≤ 6 := by
  simp only [weight]
  split
  · omega
  · omega

theorem Inv.worker_less (h : link.Inv place) (ok : Bool) (hindex : index < link.workerCount) :
    link.workerStep index ok = link ∨ (link.workerStep index ok).left < link.left := by
  have hscheduled : ∀ session, (link.workers index).session = some session → session < link.opened :=
    fun _ hsession => (h.placed.scheduled hsession).1
  unfold Link.workerStep
  cases hworker : link.workers index with
  | idle =>
    cases hready : link.ready with
    | nil => exact .inl rfl
    | cons session rest =>
      right
      have hopen : session < link.opened := h.placed.lt_opened (by
        rw [(h.placed.ready_iff session).1 (hready ▸ List.mem_cons_self)]
        exact nofun)
      refine left_lt_worker hopen hindex ⟨rfl, rfl, rfl⟩ rfl (Function.update_eq_self session _).symm id ?_
      simp only [hworker, hready, weight, onWorker, List.length_cons]
      omega
  | running session handled =>
    have hopen := hscheduled session (by rw [hworker]; rfl)
    right
    by_cases hclosing : (link.sessions session).closing = true
    · simp only [if_pos hclosing]
      refine left_lt_worker hopen hindex ⟨rfl, rfl, rfl⟩ rfl (Function.update_eq_self session _).symm id ?_
      simp only [hworker, weight, onWorker, hclosing, if_true]
      omega
    · simp only [if_neg hclosing]
      cases hinbox : (link.sessions session).inbox with
      | nil =>
        refine left_lt_worker hopen hindex ⟨rfl, rfl, rfl⟩ rfl rfl id ?_
        simp only [hworker, weight, onWorker, onSession]
        omega
      | cons message inbox =>
        refine left_lt_worker hopen hindex ⟨rfl, rfl, rfl⟩ rfl rfl id ?_
        simp only [hworker, hinbox, weight, onWorker, onSession, List.length_cons]
        omega
  | handling session handled =>
    have hopen := hscheduled session (by rw [hworker]; rfl)
    right
    cases ok with
    | true =>
      simp only [if_true]
      refine left_lt_worker hopen hindex ⟨rfl, rfl, rfl⟩ rfl (Function.update_eq_self session _).symm id ?_
      have hleaving := weight_leaving (fun other => (link.sessions other).closing) session
      rw [hworker]
      split
      · simp only [weight, onWorker]
        omega
      · simp only [onWorker]
        change _ < _ + 7
        omega
    | false =>
      simp only [Bool.false_eq_true, if_false]
      refine left_lt_worker hopen hindex ⟨rfl, rfl, rfl⟩ rfl rfl id ?_
      simp only [hworker, weight, onWorker, onSession]
      omega
  | failing session =>
    have hopen := hscheduled session (by rw [hworker]; rfl)
    right
    refine left_lt_worker hopen hindex ⟨rfl, rfl, rfl⟩ rfl rfl (fun _ => rfl) ?_
    simp only [hworker, weight, onWorker, onSession, List.length_nil]
    omega
  | taking session =>
    have hopen := hscheduled session (by rw [hworker]; rfl)
    right
    refine left_lt_worker hopen hindex ⟨rfl, rfl, rfl⟩ rfl (Function.update_eq_self session _).symm id ?_
    simp only [hworker, weight, onWorker]
    omega
  | leaving session =>
    have hopen := hscheduled session (by rw [hworker]; rfl)
    right
    by_cases hclosing : (link.sessions session).closing = true
    · simp only [if_pos hclosing]
      refine left_lt_worker hopen hindex ⟨rfl, rfl, rfl⟩ rfl (Function.update_eq_self session _).symm id ?_
      simp only [hworker, weight, onWorker, hclosing, if_true]
      omega
    · simp only [if_neg hclosing]
      cases hinbox : (link.sessions session).inbox with
      | nil =>
        refine left_lt_worker hopen hindex ⟨rfl, rfl, rfl⟩ rfl rfl id ?_
        have hleaving := weight_leaving (fun other => ((link.onSession session
          fun entry => { entry with scheduled := false }).sessions other).closing) session
        rw [hworker]
        change 4 * (link.sessions session).inbox.length + 5 * link.ready.length + 0 < _ +
          weight (fun other => ((link.onSession session
            fun entry => { entry with scheduled := false }).sessions other).closing) (.leaving session)
        omega
      | cons message inbox =>
        refine left_lt_worker hopen hindex ⟨rfl, rfl, rfl⟩ rfl (Function.update_eq_self session _).symm id ?_
        simp only [hworker, weight, onWorker, hclosing, Bool.false_eq_true, if_false,
          List.length_append, List.length_singleton]
        omega
  | finishing session =>
    have hopen := hscheduled session (by rw [hworker]; rfl)
    right
    refine left_lt_worker hopen hindex ⟨rfl, rfl, rfl⟩ rfl rfl id ?_
    simp only [hworker, weight, onWorker, onSession]
    omega
  | counting session =>
    have hopen := hscheduled session (by rw [hworker]; rfl)
    right
    refine left_lt_worker hopen hindex ⟨rfl, rfl, rfl⟩ rfl rfl id ?_
    simp only [hworker, weight, onWorker, onSession]
    omega

theorem length_remaining_le (link : Link M) : link.remaining.length ≤ link.opened := by
  have hle := List.length_filter_le (fun session => decide (link.table (link.sessions session).id =
    some session)) (List.range link.opened)
  rw [List.length_range] at hle
  exact hle

theorem Inv.reader_less (h : link.Inv place) (hover : Over link.reader) :
    link.readerStep = link ∨ link.readerStep.left < link.left := by
  unfold Link.readerStep
  cases hreader : link.reader with
  | reading =>
    rw [hreader] at hover
    exact hover.elim
  | scheduling session message =>
    rw [hreader] at hover
    exact hover.elim
  | closing session rest =>
    right
    have hopen := h.targets session (by rw [hreader]; exact .inl rfl)
    refine left_lt_reader hopen ⟨rfl, rfl, rfl⟩ rfl (fun _ => rfl) ?_
    simp only [hreader, readerWeight, onSession, List.length_nil]
    omega
  | sinking session post rest =>
    right
    have hopen := h.targets session (by rw [hreader]; exact .inl rfl)
    refine left_lt_reader hopen ⟨rfl, rfl, rfl⟩ rfl id ?_
    rw [hreader] at hover ⊢
    cases rest with
    | none => exact absurd hover Bool.false_ne_true
    | some rest =>
      cases post with
      | true =>
        simp only [if_true, readerWeight, onSession]
        omega
      | false =>
        simp only [Bool.false_eq_true, if_false, readerWeight_next, onSession]
        simp only [readerWeight, Option.getD_some]
        omega
  | posting session rest =>
    right
    have hplace := (h.placed.posts_iff session).1 (by rw [hreader]; exact rfl)
    have hopen : session < link.opened := h.placed.lt_opened (by
      intro heq
      rw [hplace] at heq
      cases heq)
    refine left_lt_reader hopen ⟨rfl, rfl, rfl⟩ (Function.update_eq_self session _).symm id ?_
    rw [hreader] at hover ⊢
    cases rest with
    | none => exact absurd hover Bool.false_ne_true
    | some rest =>
      simp only [readerWeight_next, List.length_append, List.length_singleton]
      simp only [readerWeight, Option.getD_some]
      omega
  | ended =>
    right
    have hlength := length_remaining_le link
    have hnext : readerWeight link.opened (next (some link.remaining) : Reader M) =
        1 + 9 * link.remaining.length := readerWeight_next link.opened link.remaining
    change link.load + 5 * link.ready.length + link.work +
      readerWeight link.opened (next (some link.remaining) : Reader M) <
        link.load + 5 * link.ready.length + link.work + readerWeight link.opened link.reader
    rw [hreader, hnext]
    simp only [readerWeight]
    omega
  | waiting =>
    dsimp only
    split
    · right
      change link.load + 5 * link.ready.length + link.work + 0 <
        link.load + 5 * link.ready.length + link.work + readerWeight link.opened link.reader
      rw [hreader]
      exact Nat.lt_succ_self _
    · exact .inl rfl
  | returned => exact .inl rfl

theorem Inv.step_less (h : link.Inv place) (urgent : M → Bool) (hover : Over link.reader)
    (action : LinkAction M) :
    link.step urgent action = link ∨ (link.step urgent action).left < link.left := by
  have hnot : link.reader ≠ .reading := by
    intro hreader
    rw [hreader] at hover
    exact hover
  cases action with
  | frame id frame =>
    left
    unfold Link.step
    cases hreader : link.reader with
    | reading => exact absurd hreader hnot
    | _ => rfl
  | linkEnd =>
    left
    unfold Link.step
    cases hreader : link.reader with
    | reading => exact absurd hreader hnot
    | _ => rfl
  | reader => exact h.reader_less hover
  | worker index ok =>
    change (if index < link.workerCount then link.workerStep index ok else link) = link ∨
      (if index < link.workerCount then link.workerStep index ok else link).left < link.left
    split
    · rename_i hindex
      exact h.worker_less ok hindex
    · exact .inl rfl

theorem reader_workerStep (link : Link M) (index : Nat) (ok : Bool) :
    (link.workerStep index ok).reader = link.reader ∧ (link.workerStep index ok).live ≤ link.live := by
  unfold Link.workerStep
  split
  · split
    · exact ⟨rfl, Nat.le_refl _⟩
    · exact ⟨rfl, Nat.le_refl _⟩
  · dsimp only
    split
    · exact ⟨rfl, Nat.le_refl _⟩
    · split
      · exact ⟨rfl, Nat.le_refl _⟩
      · exact ⟨rfl, Nat.le_refl _⟩
  · split
    · exact ⟨rfl, Nat.le_refl _⟩
    · exact ⟨rfl, Nat.le_refl _⟩
  · exact ⟨rfl, Nat.le_refl _⟩
  · exact ⟨rfl, Nat.le_refl _⟩
  · dsimp only
    split
    · exact ⟨rfl, Nat.le_refl _⟩
    · split
      · exact ⟨rfl, Nat.le_refl _⟩
      · exact ⟨rfl, Nat.le_refl _⟩
  · exact ⟨rfl, Nat.le_refl _⟩
  · exact ⟨rfl, Nat.sub_le _ _⟩

theorem over_step (urgent : M → Bool) (hover : Over link.reader) (action : LinkAction M) :
    Over (link.step urgent action).reader := by
  unfold Link.step
  cases action with
  | frame id frame =>
    cases hreader : link.reader with
    | reading =>
      rw [hreader] at hover
      exact hover.elim
    | _ => exact hover
  | linkEnd =>
    cases hreader : link.reader with
    | reading => exact trivial
    | _ => exact hover
  | reader =>
    dsimp only
    unfold Link.readerStep
    cases hreader : link.reader with
    | reading => exact hover
    | scheduling session message =>
      rw [hreader] at hover
      exact hover.elim
    | closing session rest =>
      rw [hreader] at hover
      exact hover
    | sinking session post rest =>
      rw [hreader] at hover
      dsimp only
      split
      · exact hover
      · exact (over_next rest).2 hover
    | posting session rest =>
      rw [hreader] at hover
      exact (over_next rest).2 hover
    | ended => exact (over_next (some link.remaining)).2 rfl
    | waiting =>
      dsimp only
      split
      · exact trivial
      · exact hover
    | returned => exact hover
  | worker index ok =>
    dsimp only
    split
    · rw [(reader_workerStep link index ok).1]
      exact hover
    · exact hover

/-! ### Somebody can go on -/

theorem worker_moves (ok : Bool) (hworker : link.workers index ≠ .idle) :
    link.workerStep index ok ≠ link := by
  suffices hmoves : (link.workerStep index ok).workers index ≠ link.workers index by
    intro heq
    rw [heq] at hmoves
    exact hmoves rfl
  unfold Link.workerStep
  cases hat : link.workers index with
  | idle => exact absurd hat hworker
  | running session handled =>
    dsimp only
    split
    · simp [onWorker]
    · split
      · simp [onWorker]
      · simp [onWorker]
  | handling session handled =>
    dsimp only
    split
    · split
      · simp [onWorker]
      · simp [onWorker]
    · simp [onWorker]
  | failing session => simp [onWorker]
  | taking session => simp [onWorker]
  | leaving session =>
    dsimp only
    split
    · simp [onWorker]
    · split
      · simp [onWorker]
      · simp [onWorker]
  | finishing session => simp [onWorker]
  | counting session => simp [onWorker]

theorem pick_moves (ok : Bool) (hworker : link.workers index = .idle) (hready : link.ready ≠ []) :
    link.workerStep index ok ≠ link := by
  intro heq
  have hlength : (link.workerStep index ok).ready.length = link.ready.length := by rw [heq]
  unfold Link.workerStep at hlength
  cases hrest : link.ready with
  | nil => exact hready hrest
  | cons session rest =>
    rw [hworker, hrest] at hlength
    exact absurd hlength (Nat.ne_of_lt (Nat.lt_succ_self _))

theorem reader_moves (hover : Over link.reader)
    (hreader : link.reader ≠ .waiting ∧ link.reader ≠ .returned) : link.readerStep ≠ link := by
  suffices hmoves : link.readerStep.reader ≠ link.reader by
    intro heq
    rw [heq] at hmoves
    exact hmoves rfl
  have hnext : ∀ rest : Option (List Nat), next rest ≠ (.ended : Reader M) ∧
      (∀ session post rest', next rest ≠ (.sinking session post rest' : Reader M)) ∧
      ∀ session rest', next rest ≠ (.posting session rest' : Reader M) := by
    intro rest
    cases rest with
    | none => exact ⟨nofun, nofun, nofun⟩
    | some sessions =>
      cases sessions with
      | nil => exact ⟨nofun, nofun, nofun⟩
      | cons session rest => exact ⟨nofun, nofun, nofun⟩
  unfold Link.readerStep
  cases hat : link.reader with
  | reading =>
    rw [hat] at hover
    exact hover.elim
  | scheduling session message =>
    rw [hat] at hover
    exact hover.elim
  | closing session rest => exact nofun
  | sinking session post rest =>
    dsimp only
    split
    · exact nofun
    · exact (hnext rest).2.1 session post rest
  | posting session rest => exact (hnext rest).2.2 session rest
  | ended => exact (hnext _).1
  | waiting => exact absurd hat hreader.1
  | returned => exact absurd hat hreader.2

theorem Inv.spares_worker (h : link.Inv place) (hover : Over link.reader) (hended : link.reader ≠ .ended)
    (index : Nat) (ok : Bool) : link.Spares (.worker index ok) :=
  fun _ _ => .inr (h.drained hover hended _)

theorem Inv.worker_progress (h : link.Inv place) (hreader : link.reader = .waiting)
    (hworkers : 0 < link.workerCount) (hlive : link.live ≠ 0) :
    ∃ index, index < link.workerCount ∧ link.workerStep index true ≠ link := by
  have hover : Over link.reader := by
    rw [hreader]
    trivial
  have hended : link.reader ≠ .ended := by
    rw [hreader]
    exact nofun
  rw [h.live] at hlive
  obtain ⟨session, hmem⟩ := Finset.card_ne_zero.1 hlive
  obtain ⟨hrange, hcounted⟩ := Finset.mem_filter.1 hmem
  have hopen := Finset.mem_range.1 hrange
  have hlocal := h.sessions session hopen
  cases hplace : place session with
  | pool =>
    have hready := (h.placed.ready_iff session).2 hplace
    by_cases hidle : link.workers 0 = .idle
    · exact ⟨0, hworkers, pick_moves true hidle (List.ne_nil_of_mem hready)⟩
    · exact ⟨0, hworkers, worker_moves true hidle⟩
  | worker index =>
    have hsession := (h.placed.worker_iff index session).2 hplace
    have hbusy : link.workers index ≠ .idle := by
      intro hidle
      rw [hidle] at hsession
      cases hsession
    exact ⟨index, h.placed.lt_workerCount hbusy, worker_moves true hbusy⟩
  | thread =>
    have hposts := (h.placed.posts_iff session).2 hplace
    rw [hreader] at hposts
    exact hposts.elim
  | done =>
    have htrue := (h.placed.done_iff session hopen).1 hplace
    rw [hcounted] at htrue
    cases htrue
  | free =>
    -- A free session is not closed, and then it is in the table.
    have hquiet := (hlocal.quiet ((h.placed.free_iff session hopen).1 hplace)).2
    have hphase : link.phase place session = .idle := by
      unfold Link.phase
      rw [hplace]
    rcases hlocal.whereabouts hquiet with hin | hcloses | hfailing
    · unfold InTable at hin
      rw [h.drained hover hended] at hin
      cases hin
    · rw [hreader] at hcloses
      exact hcloses.elim
    · rw [hphase] at hfailing
      cases hfailing

theorem Inv.progress (h : link.Inv place) (urgent : M → Bool) (hover : Over link.reader)
    (hworkers : 0 < link.workerCount) (hreader : link.reader ≠ .returned) :
    ∃ action, link.Spares action ∧ link.step urgent action ≠ link := by
  by_cases hwaiting : link.reader = .waiting
  · by_cases hlive : link.live = 0
    · refine ⟨.reader, trivial, fun heq => ?_⟩
      have hreturned : link.readerStep.reader = .returned := by
        unfold Link.readerStep
        simp only [hwaiting, if_pos hlive]
      have hsame : link.readerStep.reader = link.reader := congrArg Link.reader heq
      rw [hreturned] at hsame
      exact hreader hsame.symm
    · obtain ⟨index, hindex, hmoves⟩ := h.worker_progress hwaiting hworkers hlive
      refine ⟨.worker index true, h.spares_worker hover (by rw [hwaiting]; exact nofun) index true, ?_⟩
      unfold Link.step
      dsimp only
      rw [if_pos hindex]
      exact hmoves
  · exact ⟨.reader, trivial, reader_moves hover ⟨hwaiting, hreader⟩⟩

/-! ### The link returns -/

/-- However the steps are scheduled, the link returns: as long as it has not, a step is possible, and
each that changes something comes closer. -/
inductive Returns (urgent : M → Bool) : Link M → Prop
  | returned (link : Link M) (h : link.reader = .returned) : Returns urgent link
  | step (link : Link M)
      (hpossible : ∃ action, link.Spares action ∧ link.step urgent action ≠ link)
      (hreturns : ∀ action, link.Spares action → link.step urgent action ≠ link →
        Returns urgent (link.step urgent action)) : Returns urgent link

theorem workerCount_workerStep (link : Link M) (index : Nat) (ok : Bool) :
    (link.workerStep index ok).workerCount = link.workerCount := by
  unfold Link.workerStep
  split
  · split
    · rfl
    · rfl
  · dsimp only
    split
    · rfl
    · split
      · rfl
      · rfl
  · split
    · rfl
    · rfl
  · rfl
  · rfl
  · dsimp only
    split
    · rfl
    · split
      · rfl
      · rfl
  · rfl
  · rfl

theorem workerCount_step (urgent : M → Bool) (link : Link M) (action : LinkAction M) :
    (link.step urgent action).workerCount = link.workerCount := by
  unfold Link.step
  cases action with
  | frame id frame =>
    dsimp only
    split
    · unfold Link.onFrame
      split
      · split
        · rfl
        · rfl
      · split
        · rfl
        · split
          · rfl
          · rfl
      · split
        · rfl
        · rfl
      · split
        · rfl
        · rfl
    · rfl
  | linkEnd =>
    dsimp only
    split
    · rfl
    · rfl
  | reader =>
    dsimp only
    unfold Link.readerStep
    split
    · rfl
    · dsimp only
      split
      · rfl
      · rfl
    · rfl
    · rfl
    · rfl
    · rfl
    · split
      · rfl
      · rfl
    · rfl
  | worker index ok =>
    dsimp only
    split
    · exact workerCount_workerStep link index ok
    · rfl

theorem Inv.returns (h : link.Inv place) (urgent : M → Bool) (hover : Over link.reader)
    (hworkers : 0 < link.workerCount) : Returns urgent link := by
  induction hleft : link.left using Nat.strong_induction_on generalizing link place with
  | _ n ih =>
    by_cases hreturned : link.reader = .returned
    · exact .returned link hreturned
    · refine .step link (h.progress urgent hover hworkers hreturned) fun action hspares hmoves => ?_
      obtain ⟨place', hstep⟩ := h.step urgent action hspares
      have hless := (h.step_less urgent hover action).resolve_left hmoves
      exact ih _ (hleft ▸ hless) hstep (over_step urgent hover action)
        (by rw [workerCount_step]; exact hworkers) rfl

end MoDb.Net.Link
