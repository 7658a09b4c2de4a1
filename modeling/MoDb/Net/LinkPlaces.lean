import MoDb.Net.LinkSession
import Mathlib.Data.List.Nodup

/-!
# Where a session is

A session that is scheduled is in one place: the pool, a worker, or the thread of the link that is
about to post it. So no two workers run it.
-/

namespace MoDb.Net.Link

variable {M : Type} {link link' : Link M}

/-- Where a session is. -/
inductive Place
  | free
  | pool
  | worker (index : Nat)
  | thread
  /-- The session was counted out. -/
  | done
  deriving DecidableEq

def Posts (session : Nat) : Reader M → Prop
  | .sinking other post _ => other = session ∧ post = true
  | .posting other _ => other = session
  | _ => False

/-- Every session is in one place. -/
structure Placed (link : Link M) (place : Nat → Place) : Prop where
  worker_iff : ∀ index session,
    (link.workers index).session = some session ↔ place session = .worker index
  ready_iff : ∀ session, session ∈ link.ready ↔ place session = .pool
  ready_nodup : link.ready.Nodup
  posts_iff : ∀ session, Posts session link.reader ↔ place session = .thread
  free_iff : ∀ session, session < link.opened →
    (place session = .free ↔ (link.sessions session).scheduled = false)
  done_iff : ∀ session, session < link.opened →
    (place session = .done ↔ (link.sessions session).counted = true)
  unopened : ∀ session, link.opened ≤ session → place session = .free
  idle : ∀ index, link.workerCount ≤ index → link.workers index = .idle

variable {place : Nat → Place} {index session : Nat} {worker : Worker}

theorem Placed.lt_opened (h : link.Placed place) (hplace : place session ≠ .free) :
    session < link.opened := by
  by_contra hnot
  exact hplace (h.unopened session (Nat.not_lt.1 hnot))

theorem Placed.lt_workerCount (h : link.Placed place) (hworker : link.workers index ≠ .idle) :
    index < link.workerCount := by
  by_contra hnot
  exact hworker (h.idle index (Nat.not_lt.1 hnot))

theorem Placed.phase (h : link.Placed place) (hsession : (link.workers index).session = some session)
    (hworker : worker.session = some session)
    (hworkers : link'.workers = Function.update link.workers index worker)
    (hsessions : ∀ other, (link'.sessions other).scheduled = (link.sessions other).scheduled ∧
      (link'.sessions other).counted = (link.sessions other).counted)
    (hsame : link'.opened = link.opened ∧ link'.ready = link.ready ∧ link'.reader = link.reader ∧
      link'.workerCount = link.workerCount) : link'.Placed place := by
  obtain ⟨hopened, hready, hreader, hcount⟩ := hsame
  have hat : ∀ other, (link'.workers other).session = (link.workers other).session := by
    intro other
    rw [hworkers]
    by_cases hother : other = index
    · rw [hother, Function.update_self, hworker, hsession]
    · rw [Function.update_of_ne hother]
  refine ⟨fun other s => by rw [hat, h.worker_iff], fun s => by rw [hready, h.ready_iff],
    hready ▸ h.ready_nodup, fun s => by rw [hreader, h.posts_iff], ?_, ?_, ?_, ?_⟩
  · intro s hs
    rw [(hsessions s).1]
    exact h.free_iff s (hopened ▸ hs)
  · intro s hs
    rw [(hsessions s).2]
    exact h.done_iff s (hopened ▸ hs)
  · exact fun s hs => h.unopened s (hopened ▸ hs)
  · intro other hother
    have hne : other ≠ index := by
      rintro rfl
      rw [h.idle _ (hcount ▸ hother)] at hsession
      cases hsession
    rw [hworkers, Function.update_of_ne hne]
    exact h.idle other (hcount ▸ hother)

theorem Placed.moved (h : link.Placed place) (target : Place) (hopen : session < link.opened)
    (hworkers : ∀ index other, (link'.workers index).session = some other ↔
      if other = session then target = .worker index else (link.workers index).session = some other)
    (hready : ∀ other, other ∈ link'.ready ↔
      if other = session then target = .pool else other ∈ link.ready)
    (hnodup : link'.ready.Nodup)
    (hposts : ∀ other, Posts other link'.reader ↔
      if other = session then target = .thread else Posts other link.reader)
    (hself : (target = .free ↔ (link'.sessions session).scheduled = false) ∧
      (target = .done ↔ (link'.sessions session).counted = true))
    (hothers : ∀ other, other ≠ session →
      (link'.sessions other).scheduled = (link.sessions other).scheduled ∧
        (link'.sessions other).counted = (link.sessions other).counted)
    (hopened : link'.opened = link.opened)
    (hidle : ∀ index, link'.workerCount ≤ index → link'.workers index = .idle) :
    link'.Placed (Function.update place session target) := by
  have hplace : ∀ other place', Function.update place session target other = place' ↔
      if other = session then target = place' else place other = place' := by
    intro other place'
    rw [Function.update_apply]
    split
    · rfl
    · rfl
  refine ⟨fun index other => ?_, fun other => ?_, hnodup, fun other => ?_, fun other hother => ?_,
    fun other hother => ?_, fun other hother => ?_, hidle⟩
  · rw [hworkers, hplace, h.worker_iff]
  · rw [hready, hplace, h.ready_iff]
  · rw [hposts, hplace, h.posts_iff]
  · rw [hplace]
    split
    · rename_i heq
      rw [heq]
      exact hself.1
    · rename_i hne
      rw [(hothers other hne).1]
      exact h.free_iff other (hopened ▸ hother)
  · rw [hplace]
    split
    · rename_i heq
      rw [heq]
      exact hself.2
    · rename_i hne
      rw [(hothers other hne).2]
      exact h.done_iff other (hopened ▸ hother)
  · rw [hplace, if_neg (by omega)]
    exact h.unopened other (hopened ▸ hother)

theorem Placed.session_idle (h : link.Placed place)
    (hsession : (link.workers index).session = some session) (other worker : Nat) :
    (Function.update link.workers index .idle worker).session = some other ↔
      if other = session then False else (link.workers worker).session = some other := by
  have halone : ∀ i, (link.workers i).session = some session → i = index := by
    intro i hi
    have hplace := (h.worker_iff i session).1 hi
    rw [(h.worker_iff index session).1 hsession] at hplace
    injection hplace with heq
    exact heq.symm
  by_cases hworker : worker = index
  · subst hworker
    rw [Function.update_self, hsession]
    split
    · exact ⟨nofun, nofun⟩
    · rename_i hne
      exact ⟨nofun, fun heq => absurd (Option.some.inj heq).symm hne⟩
  · rw [Function.update_of_ne hworker]
    split
    · rename_i heq
      subst heq
      exact ⟨fun hat => hworker (halone worker hat), False.elim⟩
    · rfl

theorem Placed.idle_update (h : link.Placed place) (hindex : index < link.workerCount) :
    ∀ other, link.workerCount ≤ other → Function.update link.workers index worker other = .idle := by
  intro other hother
  rw [Function.update_of_ne (by omega)]
  exact h.idle other hother

theorem Placed.release (h : link.Placed place)
    (hsession : (link.workers index).session = some session) {target : Place}
    (htarget : target = .free ∨ target = .done)
    (hworkers : link'.workers = Function.update link.workers index .idle)
    (hself : (target = .free ↔ (link'.sessions session).scheduled = false) ∧
      (target = .done ↔ (link'.sessions session).counted = true))
    (hothers : ∀ other, other ≠ session →
      (link'.sessions other).scheduled = (link.sessions other).scheduled ∧
        (link'.sessions other).counted = (link.sessions other).counted)
    (hsame : link'.opened = link.opened ∧ link'.ready = link.ready ∧ link'.reader = link.reader ∧
      link'.workerCount = link.workerCount) :
    link'.Placed (Function.update place session target) := by
  obtain ⟨hopened, hready, hreader, hcount⟩ := hsame
  have hplace := (h.worker_iff index session).1 hsession
  have hne : target ≠ .pool ∧ target ≠ .thread ∧ ∀ index, target ≠ .worker index := by
    rcases htarget with rfl | rfl
    · exact ⟨nofun, nofun, nofun⟩
    · exact ⟨nofun, nofun, nofun⟩
  have hindex : index < link.workerCount := by
    apply h.lt_workerCount
    intro hidle
    rw [hidle] at hsession
    cases hsession
  apply h.moved target (h.lt_opened (by rw [hplace]; exact nofun)) _ _ (hready ▸ h.ready_nodup) _
    hself hothers hopened
  · rw [hworkers, hcount]
    exact h.idle_update hindex
  · intro worker other
    rw [hworkers, h.session_idle hsession other worker]
    by_cases hother : other = session
    · rw [if_pos hother, if_pos hother]
      exact iff_of_false id (hne.2.2 worker)
    · rw [if_neg hother, if_neg hother]
  · intro other
    rw [hready]
    split
    · rename_i heq
      rw [heq, h.ready_iff, hplace]
      exact iff_of_false nofun hne.1
    · rfl
  · intro other
    rw [hreader]
    split
    · rename_i heq
      rw [heq, h.posts_iff, hplace]
      exact iff_of_false nofun hne.2.1
    · rfl

theorem Placed.repost (h : link.Placed place)
    (hsession : (link.workers index).session = some session) :
    Placed { link.onWorker index .idle with ready := link.ready ++ [session] }
      (Function.update place session .pool) := by
  have hplace := (h.worker_iff index session).1 hsession
  have hopen : session < link.opened := h.lt_opened (by rw [hplace]; exact nofun)
  have hindex : index < link.workerCount := by
    apply h.lt_workerCount
    intro hidle
    rw [hidle] at hsession
    cases hsession
  have hnot : session ∉ link.ready := by
    rw [h.ready_iff, hplace]
    exact nofun
  refine h.moved .pool hopen ?_ ?_ ?_ ?_ ?_ (fun _ _ => ⟨rfl, rfl⟩) rfl ?_
  · intro worker other
    refine (h.session_idle hsession other worker).trans ?_
    by_cases hother : other = session
    · rw [if_pos hother, if_pos hother]
      exact iff_of_false id nofun
    · rw [if_neg hother, if_neg hother]
  · intro other
    change other ∈ link.ready ++ [session] ↔ _
    rw [List.mem_append, List.mem_singleton]
    split
    · rename_i heq
      exact iff_of_true (.inr heq) rfl
    · rename_i hne
      exact or_iff_left hne
  · change (link.ready ++ [session]).Nodup
    rw [List.nodup_append]
    refine ⟨h.ready_nodup, List.nodup_singleton _, fun a ha b hb heq => ?_⟩
    rw [List.mem_singleton.1 hb] at heq
    exact hnot (heq ▸ ha)
  · intro other
    change Posts other link.reader ↔ _
    split
    · rename_i heq
      rw [heq, h.posts_iff, hplace]
      exact iff_of_false nofun nofun
    · rfl
  · change (_ ↔ (link.sessions session).scheduled = false) ∧
      (_ ↔ (link.sessions session).counted = true)
    rw [← h.free_iff session hopen, ← h.done_iff session hopen, hplace]
    exact ⟨iff_of_false nofun nofun, iff_of_false nofun nofun⟩
  · exact h.idle_update hindex

theorem Placed.pick (h : link.Placed place) (hidle : link.workers index = .idle)
    (hindex : index < link.workerCount) {rest : List Nat} (hready : link.ready = session :: rest)
    (hworker : worker.session = some session) :
    Placed { link.onWorker index worker with ready := rest }
      (Function.update place session (.worker index)) := by
  have hplace : place session = .pool := by
    rw [← h.ready_iff, hready]
    exact List.mem_cons_self
  have hopen : session < link.opened := h.lt_opened (by rw [hplace]; exact nofun)
  have hnodup := h.ready_nodup
  rw [hready, List.nodup_cons] at hnodup
  refine h.moved (.worker index) hopen ?_ ?_ hnodup.2 ?_ ?_ (fun _ _ => ⟨rfl, rfl⟩) rfl ?_
  · intro other s
    change (Function.update link.workers index worker other).session = some s ↔ _
    by_cases hother : other = index
    · subst hother
      rw [Function.update_self, hworker, hidle]
      split
      · rename_i heq
        exact iff_of_true (congrArg some heq.symm) rfl
      · rename_i hne
        exact iff_of_false (fun heq => hne (Option.some.inj heq).symm) nofun
    · rw [Function.update_of_ne hother]
      split
      · rename_i heq
        rw [heq, h.worker_iff, hplace]
        refine iff_of_false nofun fun heq => ?_
        injection heq with heq
        exact hother heq.symm
      · rfl
  · intro other
    change other ∈ rest ↔ _
    rw [hready, List.mem_cons]
    split
    · rename_i heq
      exact iff_of_false (heq ▸ hnodup.1) nofun
    · rename_i hne
      exact (or_iff_right hne).symm
  · intro other
    change Posts other link.reader ↔ _
    split
    · rename_i heq
      rw [heq, h.posts_iff, hplace]
      exact iff_of_false nofun nofun
    · rfl
  · change (_ ↔ (link.sessions session).scheduled = false) ∧
      (_ ↔ (link.sessions session).counted = true)
    rw [← h.free_iff session hopen, ← h.done_iff session hopen, hplace]
    exact ⟨iff_of_false nofun nofun, iff_of_false nofun nofun⟩
  · exact h.idle_update hindex

theorem Placed.stay (h : link.Placed place)
    (hposts : ∀ session, Posts session link'.reader ↔ Posts session link.reader)
    (hsessions : ∀ other, (link'.sessions other).scheduled = (link.sessions other).scheduled ∧
      (link'.sessions other).counted = (link.sessions other).counted)
    (hsame : link'.opened = link.opened ∧ link'.ready = link.ready ∧ link'.workers = link.workers ∧
      link'.workerCount = link.workerCount) : link'.Placed place := by
  obtain ⟨hopened, hready, hworkers, hcount⟩ := hsame
  refine ⟨fun index s => by rw [hworkers, h.worker_iff], fun s => by rw [hready, h.ready_iff],
    hready ▸ h.ready_nodup, fun s => by rw [hposts, h.posts_iff], ?_, ?_, ?_, ?_⟩
  · intro s hs
    rw [(hsessions s).1]
    exact h.free_iff s (hopened ▸ hs)
  · intro s hs
    rw [(hsessions s).2]
    exact h.done_iff s (hopened ▸ hs)
  · exact fun s hs => h.unopened s (hopened ▸ hs)
  · intro index hindex
    rw [hworkers]
    exact h.idle index (hcount ▸ hindex)

theorem Placed.claim (h : link.Placed place) (hopen : session < link.opened)
    (hfree : (link.sessions session).scheduled = false)
    (hposts : ∀ other, Posts other link'.reader ↔ other = session)
    (hbefore : ∀ other, ¬Posts other link.reader)
    (hself : (link'.sessions session).scheduled = true ∧
      (link'.sessions session).counted = (link.sessions session).counted)
    (hothers : ∀ other, other ≠ session →
      (link'.sessions other).scheduled = (link.sessions other).scheduled ∧
        (link'.sessions other).counted = (link.sessions other).counted)
    (hsame : link'.opened = link.opened ∧ link'.ready = link.ready ∧ link'.workers = link.workers ∧
      link'.workerCount = link.workerCount) :
    link'.Placed (Function.update place session .thread) := by
  obtain ⟨hopened, hready, hworkers, hcount⟩ := hsame
  have hplace : place session = .free := (h.free_iff session hopen).2 hfree
  refine h.moved .thread hopen ?_ ?_ (hready ▸ h.ready_nodup) ?_ ?_ hothers hopened ?_
  · intro index other
    rw [hworkers]
    split
    · rename_i heq
      rw [heq, h.worker_iff, hplace]
      exact iff_of_false nofun nofun
    · rfl
  · intro other
    rw [hready]
    split
    · rename_i heq
      rw [heq, h.ready_iff, hplace]
      exact iff_of_false nofun nofun
    · rfl
  · intro other
    rw [hposts]
    split
    · rename_i heq
      exact iff_of_true heq rfl
    · rename_i hne
      exact iff_of_false hne (hbefore other)
  · rw [hself.1, hself.2, ← h.done_iff session hopen, hplace]
    exact ⟨iff_of_false nofun nofun, iff_of_false nofun nofun⟩
  · intro index hindex
    rw [hworkers]
    exact h.idle index (hcount ▸ hindex)

theorem Placed.post (h : link.Placed place) {rest : Option (List Nat)}
    (hreader : link.reader = .posting session rest) :
    Placed { link with ready := link.ready ++ [session], reader := next rest }
      (Function.update place session .pool) := by
  have hplace : place session = .thread := by
    rw [← h.posts_iff, hreader]
    rfl
  have hopen : session < link.opened := h.lt_opened (by rw [hplace]; exact nofun)
  have hnot : session ∉ link.ready := by
    rw [h.ready_iff, hplace]
    exact nofun
  have hnext : ∀ other, ¬Posts other (next rest : Reader M) := by
    intro other
    cases rest with
    | none => exact id
    | some sessions =>
      cases sessions with
      | nil => exact id
      | cons first others => exact id
  refine h.moved .pool hopen ?_ ?_ ?_ ?_ ?_ (fun _ _ => ⟨rfl, rfl⟩) rfl h.idle
  · intro index other
    split
    · rename_i heq
      rw [heq, h.worker_iff, hplace]
      exact iff_of_false nofun nofun
    · rfl
  · intro other
    change other ∈ link.ready ++ [session] ↔ _
    rw [List.mem_append, List.mem_singleton]
    split
    · rename_i heq
      exact iff_of_true (.inr heq) rfl
    · rename_i hne
      exact or_iff_left hne
  · change (link.ready ++ [session]).Nodup
    rw [List.nodup_append]
    refine ⟨h.ready_nodup, List.nodup_singleton _, fun a ha b hb heq => ?_⟩
    rw [List.mem_singleton.1 hb] at heq
    exact hnot (heq ▸ ha)
  · intro other
    refine iff_of_false (hnext other) ?_
    split
    · exact nofun
    · rename_i hne
      rw [hreader]
      exact fun heq => hne heq.symm
  · change (_ ↔ (link.sessions session).scheduled = false) ∧
      (_ ↔ (link.sessions session).counted = true)
    rw [← h.free_iff session hopen, ← h.done_iff session hopen, hplace]
    exact ⟨iff_of_false nofun nofun, iff_of_false nofun nofun⟩

theorem Placed.openSession (h : link.Placed place) {id live : Nat} {table : Nat → Option Nat} :
    Placed { link with
      sessions := Function.update link.sessions link.opened { id := id }
      opened := link.opened + 1
      table := table
      live := live } place := by
  refine ⟨h.worker_iff, h.ready_iff, h.ready_nodup, h.posts_iff, ?_, ?_, ?_, h.idle⟩
  · intro other hother
    by_cases heq : other = link.opened
    · subst heq
      simp only [Function.update_self]
      exact iff_of_true (h.unopened _ (Nat.le_refl _)) trivial
    · simp only [Function.update_of_ne heq]
      exact h.free_iff other (by dsimp only at hother; omega)
  · intro other hother
    by_cases heq : other = link.opened
    · subst heq
      simp only [Function.update_self]
      rw [h.unopened _ (Nat.le_refl _)]
      exact iff_of_false nofun nofun
    · simp only [Function.update_of_ne heq]
      exact h.done_iff other (by dsimp only at hother; omega)
  · exact fun other hother => h.unopened other (by dsimp only at hother; omega)

end MoDb.Net.Link
