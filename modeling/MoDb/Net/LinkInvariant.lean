import MoDb.Net.LinkPlaces
import Mathlib.Data.Finset.Card

/-!
# What holds of a session

A session that is not closed is in the table, or somebody is about to close it. Who closes a session
makes sure that it is in a place, and the worker that finds it closed there finishes it.
-/

namespace MoDb.Net.Link

variable {M : Type} {link link' : Link M} {place : Nat → Place} {index session : Nat} {worker : Worker}

/-! ### A session -/

def Closes (session : Nat) : Reader M → Prop
  | .closing other rest => other = session ∨ session ∈ rest.getD []
  | .sinking _ _ rest => session ∈ rest.getD []
  | .posting _ rest => session ∈ rest.getD []
  | _ => False

/-- The thread of the link closes the session because the peer wants it. -/
def Asks (session : Nat) : Reader M → Prop
  | .closing other none => other = session
  | .sinking other _ none => other = session
  | _ => False

def Over : Reader M → Prop
  | .reading => False
  | .scheduling _ _ => False
  | .closing _ rest => rest.isSome = true
  | .sinking _ _ rest => rest.isSome = true
  | .posting _ rest => rest.isSome = true
  | .ended => True
  | .waiting => True
  | .returned => True

def InTable (link : Link M) (session : Nat) : Prop :=
  link.table (link.sessions session).id = some session

/-- The worker is past the point where it has seen that the session is closed. -/
def ends : Worker → Bool
  | .taking _ => true
  | .finishing _ => true
  | .counting _ => true
  | _ => false

def isFailing : Worker → Bool
  | .failing _ => true
  | _ => false

def isTaking : Worker → Bool
  | .taking _ => true
  | _ => false

def isCounting : Worker → Bool
  | .counting _ => true
  | _ => false

/-- What holds of a session, of the worker that runs it, and of what the thread of the link is about
to do with it. -/
structure Local (session : LinkSession M) (worker : Worker) (inTable closes asks past : Prop) : Prop where
  quiet : session.scheduled = false → session.inbox = [] ∧ session.closing = false
  ends : ends worker = true → session.closing = true
  failed : isFailing worker = true ∨ isTaking worker = true → session.failed = true
  counted : session.counted = true → session.closing = true ∧ session.finished = 1
  counting : isCounting worker = true → session.finished = 1
  unfinished : session.counted = false → isCounting worker = false → session.finished = 0
  whereabouts : session.closing = false → inTable ∨ closes ∨ isFailing worker = true
  untouched : session.asked = false → session.failed = false → ¬past →
    inTable ∧ session.closing = false ∧ session.sinkClosed = false ∧ session.finished = 0
  asked : asks → session.asked = true
  inbox : session.closing = true → session.inbox = []
  order : session.closing = false → session.handled ++ session.inbox = session.arrived
  handled : session.handled <+: session.arrived

namespace Local

variable {entry : LinkSession M} {inTable inTable' closes closes' asks asks' past past' : Prop}
  {handled : Nat}

theorem mono (h : Local entry worker inTable closes asks past) (htable : inTable → inTable')
    (hcloses : closes → inTable' ∨ closes') (hasks : asks' → asks) (hover : past → past') :
    Local entry worker inTable' closes' asks' past' where
  quiet := h.quiet
  ends := h.ends
  failed := h.failed
  counted := h.counted
  counting := h.counting
  unfinished := h.unfinished
  whereabouts hclosing := by
    rcases h.whereabouts hclosing with hin | hcloser | hfailing
    · exact .inl (htable hin)
    · exact (hcloses hcloser).imp_right .inl
    · exact .inr (.inr hfailing)
  untouched hasked hfailed hnot :=
    (h.untouched hasked hfailed fun hafter => hnot (hover hafter)).imp_left htable
  asked hask := h.asked (hasks hask)
  inbox := h.inbox
  order := h.order
  handled := h.handled

theorem ofOver (h : Local entry worker inTable closes asks past)
    (hwhere : inTable ∨ closes → inTable' ∨ closes') (hasks : asks' → asks) (hover : past') :
    Local entry worker inTable' closes' asks' past' where
  quiet := h.quiet
  ends := h.ends
  failed := h.failed
  counted := h.counted
  counting := h.counting
  unfinished := h.unfinished
  whereabouts hclosing := by
    rcases h.whereabouts hclosing with hin | hcloser | hfailing
    · exact or_assoc.1 (.inl (hwhere (.inl hin)))
    · exact or_assoc.1 (.inl (hwhere (.inr hcloser)))
    · exact .inr (.inr hfailing)
  untouched _ _ hnot := absurd hover hnot
  asked hask := h.asked (hasks hask)
  inbox := h.inbox
  order := h.order
  handled := h.handled

theorem goOn (h : Local entry worker inTable closes asks past) {worker' : Worker}
    (hbefore : isFailing worker = false ∧ isCounting worker = false)
    (hafter : Link.ends worker' = false ∧ isFailing worker' = false) :
    Local entry worker' inTable closes asks past := by
  have htaking : isTaking worker' = false ∧ isCounting worker' = false := by
    cases worker' with
    | taking _ => cases hafter.1
    | finishing _ => cases hafter.1
    | counting _ => cases hafter.1
    | _ => exact ⟨rfl, rfl⟩
  exact {
    quiet := h.quiet
    ends := fun hends => by rw [hafter.1] at hends; cases hends
    failed := fun hfails => by rw [hafter.2, htaking.1] at hfails; simp at hfails
    counted := h.counted
    counting := fun hcounts => by rw [htaking.2] at hcounts; cases hcounts
    unfinished := fun hcounted _ => h.unfinished hcounted hbefore.2
    whereabouts := fun hclosing => by
      have hwhere := h.whereabouts hclosing
      rw [hbefore.1] at hwhere
      rw [hafter.2]
      exact hwhere
    untouched := h.untouched
    asked := h.asked
    inbox := h.inbox
    order := h.order
    handled := h.handled }

theorem pop (h : Local entry (.running index handled) inTable closes asks past) {message : M}
    {inbox : List M} (hinbox : entry.inbox = message :: inbox) :
    Local { entry with inbox := inbox, handled := entry.handled ++ [message] }
      (.handling index handled) inTable closes asks past := by
  have hopen : entry.closing = false := by
    by_contra hnot
    rw [h.inbox (Bool.not_eq_false _ ▸ hnot)] at hinbox
    cases hinbox
  have horder := h.order hopen
  rw [hinbox] at horder
  exact {
    quiet := fun hscheduled => by
      rw [(h.quiet hscheduled).1] at hinbox
      cases hinbox
    ends := nofun
    failed := by simp [isFailing, isTaking]
    counted := h.counted
    counting := nofun
    unfinished := h.unfinished
    whereabouts := h.whereabouts
    untouched := h.untouched
    asked := h.asked
    inbox := fun hclosing => by
      rw [show entry.closing = false from hopen] at hclosing
      cases hclosing
    order := fun _ => by
      dsimp only
      rw [List.append_assoc]
      exact horder
    handled := ⟨inbox, by dsimp only; rw [List.append_assoc]; exact horder⟩ }

theorem rest (h : Local entry worker inTable closes asks past) (hinbox : entry.inbox = [])
    (hclosing : entry.closing = false) (hbefore : isFailing worker = false ∧ isCounting worker = false) :
    Local { entry with scheduled := false } .idle inTable closes asks past :=
  { h.goOn hbefore (show Link.ends .idle = false ∧ isFailing .idle = false from ⟨rfl, rfl⟩) with
    quiet := fun _ => ⟨hinbox, hclosing⟩ }

theorem fail (h : Local entry (.handling index handled) inTable closes asks past) :
    Local { entry with failed := true } (.failing index) inTable closes asks past where
  quiet := h.quiet
  ends := nofun
  failed _ := rfl
  counted := h.counted
  counting := nofun
  unfinished := h.unfinished
  whereabouts _ := .inr (.inr rfl)
  untouched _ hfailed := by cases hfailed
  asked := h.asked
  inbox := h.inbox
  order := h.order
  handled := h.handled

theorem close (h : Local entry (.failing index) inTable closes asks past)
    (hscheduled : entry.scheduled = true) :
    Local { entry with closing := true, inbox := [] } (.taking index) inTable closes asks past where
  quiet hnot := by
    rw [show entry.scheduled = true from hscheduled] at hnot
    cases hnot
  ends _ := rfl
  failed _ := h.failed (.inl rfl)
  counted hcounted := ⟨rfl, (h.counted hcounted).2⟩
  counting := nofun
  unfinished hcounted _ := h.unfinished hcounted rfl
  whereabouts := nofun
  untouched _ hfailed := by
    rw [show entry.failed = true from h.failed (.inl rfl)] at hfailed
    cases hfailed
  asked := h.asked
  inbox _ := rfl
  order := nofun
  handled := h.handled

theorem finishing (h : Local entry worker inTable closes asks past) (hclosing : entry.closing = true)
    (hbefore : isCounting worker = false) :
    Local entry (.finishing index) inTable' closes asks past where
  quiet := h.quiet
  ends _ := hclosing
  failed := by simp [isFailing, isTaking]
  counted := h.counted
  counting := nofun
  unfinished hcounted _ := h.unfinished hcounted hbefore
  whereabouts hnot := by
    rw [hclosing] at hnot
    cases hnot
  untouched hasked hfailed hnot := by
    rw [(h.untouched hasked hfailed hnot).2.1] at hclosing
    cases hclosing
  asked := h.asked
  inbox := h.inbox
  order := h.order
  handled := h.handled

theorem finish (h : Local entry (.finishing index) inTable closes asks past)
    (hcounted : entry.counted = false) :
    Local { entry with sinkClosed := true, finished := entry.finished + 1 } (.counting index) inTable
      closes asks past where
  quiet := h.quiet
  ends _ := h.ends rfl
  failed := by simp [isFailing, isTaking]
  counted hnot := by
    rw [show entry.counted = false from hcounted] at hnot
    cases hnot
  counting _ := by
    dsimp only
    rw [h.unfinished hcounted rfl]
  unfinished _ := nofun
  whereabouts hnot := by
    rw [show entry.closing = true from h.ends rfl] at hnot
    cases hnot
  untouched hasked hfailed hnot := by
    have hopen := (h.untouched hasked hfailed hnot).2.1
    rw [h.ends rfl] at hopen
    cases hopen
  asked := h.asked
  inbox := h.inbox
  order := h.order
  handled := h.handled

theorem count (h : Local entry (.counting index) inTable closes asks past) :
    Local { entry with counted := true } .idle inTable closes asks past where
  quiet := h.quiet
  ends := nofun
  failed := by simp [isFailing, isTaking]
  counted _ := ⟨h.ends rfl, h.counting rfl⟩
  counting := nofun
  unfinished := nofun
  whereabouts hnot := by
    rw [show entry.closing = true from h.ends rfl] at hnot
    cases hnot
  untouched := h.untouched
  asked := h.asked
  inbox := h.inbox
  order := h.order
  handled := h.handled

theorem arrive (h : Local entry worker inTable closes asks past) (hopen : entry.closing = false)
    (message : M) : Local { entry with
      inbox := entry.inbox ++ [message]
      scheduled := true
      arrived := entry.arrived ++ [message] } worker inTable closes asks past where
  quiet := nofun
  ends := h.ends
  failed := h.failed
  counted := h.counted
  counting := h.counting
  unfinished := h.unfinished
  whereabouts := h.whereabouts
  untouched := h.untouched
  asked := h.asked
  inbox hclosing := by
    rw [show entry.closing = false from hopen] at hclosing
    cases hclosing
  order _ := by
    dsimp only
    rw [← List.append_assoc, h.order hopen]
  handled := h.handled.trans (List.prefix_append _ _)

theorem beginClose (h : Local entry worker inTable closes asks past) (hwhy : asks ∨ past) :
    Local { entry with closing := true, inbox := [], scheduled := true } worker inTable' closes' asks
      past where
  quiet := nofun
  ends _ := rfl
  failed := h.failed
  counted hcounted := ⟨rfl, (h.counted hcounted).2⟩
  counting := h.counting
  unfinished := h.unfinished
  whereabouts := nofun
  untouched hasked _ hnot := by
    have htrue := h.asked (hwhy.resolve_right hnot)
    rw [show entry.asked = true from htrue] at hasked
    cases hasked
  asked := h.asked
  inbox _ := rfl
  order := nofun
  handled := h.handled

theorem closeSink (h : Local entry worker inTable closes asks past) (hwhy : asks ∨ past) :
    Local { entry with sinkClosed := true } worker inTable closes asks past :=
  { h with
    untouched := fun hasked _ hnot => by
      have htrue := h.asked (hwhy.resolve_right hnot)
      rw [show entry.asked = true from htrue] at hasked
      cases hasked }

theorem ask (h : Local entry worker inTable closes asks past) (hclose : closes') :
    Local { entry with asked := true } worker inTable' closes' True past where
  quiet := h.quiet
  ends := h.ends
  failed := h.failed
  counted := h.counted
  counting := h.counting
  unfinished := h.unfinished
  whereabouts _ := .inr (.inl hclose)
  untouched := nofun
  asked _ := rfl
  inbox := h.inbox
  order := h.order
  handled := h.handled

theorem granted (h : Local entry worker inTable closes asks past) (query frames : Nat) :
    Local (grant query frames entry) worker inTable closes asks past :=
  ⟨h.quiet, h.ends, h.failed, h.counted, h.counting, h.unfinished, h.whereabouts, h.untouched, h.asked,
    h.inbox, h.order, h.handled⟩

theorem opened (id : Nat) (htable : inTable) (hasks : ¬asks) :
    Local ({ id := id } : LinkSession M) .idle inTable closes asks past where
  quiet _ := ⟨rfl, rfl⟩
  ends := nofun
  failed := by simp [isFailing, isTaking]
  counted := nofun
  counting := nofun
  unfinished _ _ := rfl
  whereabouts _ := .inl htable
  untouched _ _ _ := ⟨htable, rfl, rfl, rfl⟩
  asked hask := absurd hask hasks
  inbox := nofun
  order _ := rfl
  handled := List.prefix_refl _

end Local

/-! ### The invariant -/

def phase (link : Link M) (place : Nat → Place) (session : Nat) : Worker :=
  match place session with
  | .worker index => link.workers index
  | _ => .idle

/-- What the thread of the link is about to do is about sessions that were opened. -/
def Targets (session : Nat) : Reader M → Prop
  | .scheduling other _ => other = session
  | .closing other rest => other = session ∨ session ∈ rest.getD []
  | .sinking other _ rest => other = session ∨ session ∈ rest.getD []
  | .posting _ rest => session ∈ rest.getD []
  | _ => False

structure Inv (link : Link M) (place : Nat → Place) : Prop where
  placed : link.Placed place
  sessions : ∀ session, session < link.opened → Local (link.sessions session)
    (link.phase place session) (link.InTable session) (Closes session link.reader)
    (Asks session link.reader) (Over link.reader)
  table : ∀ id session, link.table id = some session →
    session < link.opened ∧ (link.sessions session).id = id
  targets : ∀ session, Targets session link.reader → session < link.opened
  live : link.live = ((Finset.range link.opened).filter fun session =>
    (link.sessions session).counted = false).card
  drained : Over link.reader → link.reader ≠ .ended → ∀ id, link.table id = none

theorem Placed.phase_eq (h : link.Placed place) (hsession : (link.workers index).session = some session) :
    link.phase place session = link.workers index := by
  unfold Link.phase
  rw [(h.worker_iff index session).1 hsession]

theorem Placed.phase_other (h : link.Placed place) {other : Nat} (hother : other ≠ session)
    (hindex : (link.workers index).session = some session ∨ link.workers index = .idle)
    (hworkers : link'.workers = Function.update link.workers index worker)
    {place' : Nat → Place} (hplace : place' other = place other) :
    link'.phase place' other = link.phase place other := by
  unfold Link.phase
  rw [hplace]
  cases hat : place other with
  | worker at_ =>
    have hsession := (h.worker_iff at_ other).2 hat
    have hne : at_ ≠ index := by
      rintro rfl
      rcases hindex with hindex | hindex
      · rw [hsession] at hindex
        exact hother (Option.some.inj hindex)
      · rw [hindex] at hsession
        cases hsession
    rw [hworkers]
    exact Function.update_of_ne hne _ _
  | _ => rfl

theorem Inv.atWork (h : link.Inv place) (hopen : session < link.opened)
    (hindex : (link.workers index).session = some session ∨ link.workers index = .idle)
    {entry : LinkSession M} {place' : Nat → Place}
    (hplaced : link'.Placed place') (hplace : ∀ other, other ≠ session → place' other = place other)
    (hworkers : link'.workers = Function.update link.workers index worker)
    (hsessions : link'.sessions = Function.update link.sessions session entry)
    (hid : entry.id = (link.sessions session).id)
    (htable : ∀ id other, link'.table id = some other → link.table id = some other)
    (hkept : ∀ other, other ≠ session → link.InTable other → link'.InTable other)
    (hsame : link'.opened = link.opened ∧ link'.reader = link.reader)
    (hlocal : Local entry (link'.phase place' session) (link'.InTable session)
      (Closes session link.reader) (Asks session link.reader) (Over link.reader))
    (hlive : link'.live = ((Finset.range link.opened).filter fun other =>
      (link'.sessions other).counted = false).card) : link'.Inv place' := by
  obtain ⟨hopened, hreader⟩ := hsame
  have hids : ∀ other, (link'.sessions other).id = (link.sessions other).id := by
    intro other
    rw [hsessions]
    by_cases hother : other = session
    · rw [hother, Function.update_self, hid]
    · rw [Function.update_of_ne hother]
  refine ⟨hplaced, fun other hother => ?_, fun id other hin => ?_, fun other hother => ?_, ?_, ?_⟩
  · rw [hreader]
    by_cases heq : other = session
    · subst heq
      rw [hsessions, Function.update_self]
      exact hlocal
    · rw [hsessions, Function.update_of_ne heq,
        h.placed.phase_other heq hindex hworkers (hplace other heq)]
      exact (h.sessions other (hopened ▸ hother)).mono (hkept other heq) .inr id id
  · rw [hopened, hids]
    exact h.table id other (htable id other hin)
  · rw [hreader] at hother
    rw [hopened]
    exact h.targets other hother
  · rw [hopened]
    exact hlive
  · rw [hreader]
    intro hover hne id
    cases hin : link'.table id with
    | none => rfl
    | some other =>
      have hbefore := htable id other hin
      rw [h.drained hover hne id] at hbefore
      cases hbefore

theorem Inv.live_of_atWork (h : link.Inv place) (hsessions : ∀ other,
    (link'.sessions other).counted = (link.sessions other).counted) (hlive : link'.live = link.live) :
    link'.live = ((Finset.range link.opened).filter fun other =>
      (link'.sessions other).counted = false).card := by
  rw [hlive, h.live]
  simp only [hsessions]

theorem Inv.phase (h : link.Inv place) (hsession : (link.workers index).session = some session)
    (hsession' : worker.session = some session) {entry : LinkSession M}
    (hworkers : link'.workers = Function.update link.workers index worker)
    (hsessions : link'.sessions = Function.update link.sessions session entry)
    (hentry : entry.id = (link.sessions session).id ∧
      entry.scheduled = (link.sessions session).scheduled ∧
      entry.counted = (link.sessions session).counted)
    (htable : ∀ id other, link'.table id = some other → link.table id = some other)
    (hkept : ∀ other, other ≠ session → link.InTable other → link'.InTable other)
    (hsame : link'.opened = link.opened ∧ link'.ready = link.ready ∧ link'.reader = link.reader ∧
      link'.workerCount = link.workerCount ∧ link'.live = link.live)
    (hlocal : ∀ {closes asks past : Prop},
      Local (link.sessions session) (link.workers index) (link.InTable session) closes asks past →
        Local entry worker (link'.InTable session) closes asks past) : link'.Inv place := by
  obtain ⟨hopened, hready, hreader, hcount, hlive⟩ := hsame
  obtain ⟨hid, hscheduled, hcounted⟩ := hentry
  have hsame : ∀ other, (link'.sessions other).scheduled = (link.sessions other).scheduled ∧
      (link'.sessions other).counted = (link.sessions other).counted := by
    intro other
    rw [hsessions]
    by_cases hother : other = session
    · rw [hother, Function.update_self]
      exact ⟨hscheduled, hcounted⟩
    · rw [Function.update_of_ne hother]
      exact ⟨rfl, rfl⟩
  have hplaced : link'.Placed place :=
    h.placed.phase hsession hsession' hworkers hsame ⟨hopened, hready, hreader, hcount⟩
  have hplace := (h.placed.worker_iff index session).1 hsession
  have hopen : session < link.opened := h.placed.lt_opened (by rw [hplace]; exact nofun)
  have hat : link'.workers index = worker := by rw [hworkers, Function.update_self]
  refine h.atWork hopen (.inl hsession) hplaced (fun _ _ => rfl) hworkers hsessions hid htable hkept
    ⟨hopened, hreader⟩ ?_ (h.live_of_atWork (fun other => (hsame other).2) hlive)
  rw [hplaced.phase_eq (hat ▸ hsession'), hat]
  have hbefore := h.sessions session hopen
  rw [h.placed.phase_eq hsession] at hbefore
  exact hlocal hbefore

theorem Inv.release (h : link.Inv place) (hsession : (link.workers index).session = some session)
    {target : Place} (htarget : target = .free ∨ target = .done) {entry : LinkSession M}
    (hworkers : link'.workers = Function.update link.workers index .idle)
    (hsessions : link'.sessions = Function.update link.sessions session entry)
    (hid : entry.id = (link.sessions session).id)
    (hself : (target = .free ↔ entry.scheduled = false) ∧ (target = .done ↔ entry.counted = true))
    (hsame : link'.opened = link.opened ∧ link'.ready = link.ready ∧ link'.reader = link.reader ∧
      link'.workerCount = link.workerCount ∧ link'.table = link.table)
    (hlive : link'.live = ((Finset.range link.opened).filter fun other =>
      (link'.sessions other).counted = false).card)
    (hlocal : ∀ {closes asks past : Prop},
      Local (link.sessions session) (link.workers index) (link.InTable session) closes asks past →
        Local entry .idle (link.InTable session) closes asks past) :
    ∃ place', link'.Inv place' := by
  obtain ⟨hopened, hready, hreader, hcount, htable⟩ := hsame
  have hplace := (h.placed.worker_iff index session).1 hsession
  have hopen : session < link.opened := h.placed.lt_opened (by rw [hplace]; exact nofun)
  have hat : link'.sessions session = entry := by rw [hsessions, Function.update_self]
  have hids : ∀ other, (link'.sessions other).id = (link.sessions other).id := by
    intro other
    rw [hsessions]
    by_cases hother : other = session
    · rw [hother, Function.update_self, hid]
    · rw [Function.update_of_ne hother]
  have hin : ∀ other, link'.InTable other ↔ link.InTable other := by
    intro other
    unfold InTable
    rw [htable, hids]
  have hplaced : link'.Placed (Function.update place session target) := by
    apply h.placed.release hsession htarget hworkers (hat ▸ hself) _ ⟨hopened, hready, hreader, hcount⟩
    intro other hother
    rw [hsessions, Function.update_of_ne hother]
    exact ⟨rfl, rfl⟩
  refine ⟨_, h.atWork hopen (.inl hsession) hplaced
    (fun other hother => Function.update_of_ne hother _ _) hworkers hsessions hid
    (fun id other hother => by rw [htable] at hother; exact hother) (fun other _ => (hin other).2)
    ⟨hopened, hreader⟩ ?_ hlive⟩
  have hidle : link'.phase (Function.update place session target) session = .idle := by
    unfold Link.phase
    rw [Function.update_self]
    rcases htarget with rfl | rfl
    · rfl
    · rfl
  have hbefore := h.sessions session hopen
  rw [h.placed.phase_eq hsession] at hbefore
  rw [hidle]
  exact (hlocal hbefore).mono (hin session).2 .inr id id

/-- A worker whose handler has failed does not take another session out of the table. -/
def Spares (link : Link M) : LinkAction M → Prop
  | .worker index _ => ∀ session, link.workers index = .taking session →
    link.table (link.sessions session).id = some session ∨
      link.table (link.sessions session).id = none
  | _ => True

theorem Placed.scheduled (h : link.Placed place)
    (hsession : (link.workers index).session = some session) :
    session < link.opened ∧ (link.sessions session).scheduled = true ∧
      (link.sessions session).counted = false := by
  have hplace := (h.worker_iff index session).1 hsession
  have hopen : session < link.opened := h.lt_opened (by rw [hplace]; exact nofun)
  refine ⟨hopen, ?_, ?_⟩
  · rw [← Bool.not_eq_false, ← h.free_iff session hopen, hplace]
    exact nofun
  · rw [← Bool.not_eq_true, ← h.done_iff session hopen, hplace]
    exact nofun

theorem Inv.rest (h : link.Inv place) (hsession : (link.workers index).session = some session)
    (hbefore : isFailing (link.workers index) = false ∧ isCounting (link.workers index) = false)
    (hclosing : (link.sessions session).closing = false)
    (hinbox : (link.sessions session).inbox = []) : ∃ place',
      ((link.onSession session fun entry => { entry with scheduled := false }).onWorker index .idle).Inv
        place' := by
  obtain ⟨-, -, hcounted⟩ := h.placed.scheduled hsession
  refine h.release hsession (.inl rfl) rfl rfl rfl ⟨iff_of_true rfl rfl, iff_of_false nofun ?_⟩
    ⟨rfl, rfl, rfl, rfl, rfl⟩ (h.live_of_atWork (fun other => ?_) rfl)
    fun hlocal => hlocal.rest hinbox hclosing hbefore
  · dsimp only
    rw [hcounted]
    exact Bool.false_ne_true
  · by_cases hother : other = session
    · subst hother
      simp only [onWorker, onSession, Function.update_self]
    · simp only [onWorker, onSession, Function.update_of_ne hother]

theorem card_live_counted {sessions : Nat → LinkSession M} {opened : Nat} {entry : LinkSession M}
    (hopen : session < opened) (hbefore : (sessions session).counted = false)
    (hafter : entry.counted = true) :
    ((Finset.range opened).filter fun other =>
      (Function.update sessions session entry other).counted = false).card =
        ((Finset.range opened).filter fun other => (sessions other).counted = false).card - 1 := by
  have hmem : session ∈ (Finset.range opened).filter fun other => (sessions other).counted = false :=
    Finset.mem_filter.2 ⟨Finset.mem_range.2 hopen, hbefore⟩
  rw [← Finset.card_erase_of_mem hmem]
  congr 1
  ext other
  rw [Finset.mem_erase, Finset.mem_filter, Finset.mem_filter]
  by_cases hother : other = session
  · rw [hother, Function.update_self, hafter]
    simp
  · rw [Function.update_of_ne hother]
    simp [hother]

theorem card_live_opened {sessions : Nat → LinkSession M} {opened : Nat} {entry : LinkSession M}
    (hentry : entry.counted = false) :
    ((Finset.range (opened + 1)).filter fun other =>
      (Function.update sessions opened entry other).counted = false).card =
        ((Finset.range opened).filter fun other => (sessions other).counted = false).card + 1 := by
  rw [Finset.range_add_one, Finset.filter_insert, if_pos (by rw [Function.update_self, hentry]),
    Finset.card_insert_of_notMem (by simp)]
  congr 2
  apply Finset.filter_congr
  intro other hother
  rw [Function.update_of_ne (Nat.ne_of_lt (Finset.mem_range.1 hother))]

theorem Inv.workerStep (h : link.Inv place) (ok : Bool) (hindex : index < link.workerCount)
    (hspares : link.Spares (.worker index ok)) : ∃ place', (link.workerStep index ok).Inv place' := by
  unfold Link.workerStep
  cases hworker : link.workers index with
  | idle =>
    cases hready : link.ready with
    | nil => exact ⟨place, h⟩
    | cons session rest =>
      have hplaced := @Placed.pick M link place index session (.running session 0) h.placed hworker
        hindex rest hready rfl
      have hplace : place session = .pool := by
        rw [← h.placed.ready_iff, hready]
        exact List.mem_cons_self
      have hopen : session < link.opened := h.placed.lt_opened (by rw [hplace]; exact nofun)
      refine ⟨_, h.atWork hopen (.inr hworker) hplaced (fun other hother => Function.update_of_ne hother _ _)
        rfl (Function.update_eq_self session link.sessions).symm rfl (fun _ _ => id) (fun _ _ => id)
        ⟨rfl, rfl⟩ ?_ (h.live_of_atWork (fun _ => rfl) rfl)⟩
      have hbefore := h.sessions session hopen
      have hphase : link.phase place session = .idle := by
        unfold Link.phase
        rw [hplace]
      rw [hphase] at hbefore
      unfold Link.phase
      simp only [Function.update_self, onWorker]
      exact hbefore.goOn ⟨rfl, rfl⟩ ⟨rfl, rfl⟩
  | running session handled =>
    have hsession : (link.workers index).session = some session := by rw [hworker]; rfl
    by_cases hclosing : (link.sessions session).closing = true
    · simp only [if_pos hclosing]
      refine ⟨place, h.phase hsession (show (Worker.leaving session).session = some session from rfl) rfl
        (Function.update_eq_self session link.sessions).symm ⟨rfl, rfl, rfl⟩ (fun _ _ => id)
        (fun _ _ => id) ⟨rfl, rfl, rfl, rfl, rfl⟩ fun hlocal => ?_⟩
      rw [hworker] at hlocal
      exact hlocal.goOn ⟨rfl, rfl⟩ ⟨rfl, rfl⟩
    · simp only [if_neg hclosing]
      cases hinbox : (link.sessions session).inbox with
      | nil => exact h.rest hsession (by rw [hworker]; exact ⟨rfl, rfl⟩) (Bool.eq_false_iff.2 hclosing) hinbox
      | cons message inbox =>
        refine ⟨place, h.phase hsession
          (show (Worker.handling session handled).session = some session from rfl) rfl rfl
          ⟨rfl, rfl, rfl⟩ (fun _ _ => id) (fun other hother => ?_) ⟨rfl, rfl, rfl, rfl, rfl⟩
          fun hlocal => ?_⟩
        · unfold InTable
          simp only [onWorker, onSession, Function.update_of_ne hother]
          exact id
        · rw [hworker] at hlocal
          refine (hlocal.pop hinbox).mono (fun hin => ?_) .inr id id
          unfold InTable
          simp only [onWorker, onSession, Function.update_self]
          exact hin
  | handling session handled =>
    have hsession : (link.workers index).session = some session := by rw [hworker]; rfl
    cases ok with
    | true =>
      by_cases hbudget : handled + 1 < k_strand_budget
      · simp only [if_true, if_pos hbudget]
        refine ⟨place, h.phase hsession
          (show (Worker.running session (handled + 1)).session = some session from rfl) rfl
          (Function.update_eq_self session link.sessions).symm ⟨rfl, rfl, rfl⟩ (fun _ _ => id)
          (fun _ _ => id) ⟨rfl, rfl, rfl, rfl, rfl⟩ fun hlocal => ?_⟩
        rw [hworker] at hlocal
        exact hlocal.goOn ⟨rfl, rfl⟩ ⟨rfl, rfl⟩
      · simp only [if_true, if_neg hbudget]
        refine ⟨place, h.phase hsession
          (show (Worker.leaving session).session = some session from rfl) rfl
          (Function.update_eq_self session link.sessions).symm ⟨rfl, rfl, rfl⟩ (fun _ _ => id)
          (fun _ _ => id) ⟨rfl, rfl, rfl, rfl, rfl⟩ fun hlocal => ?_⟩
        rw [hworker] at hlocal
        exact hlocal.goOn ⟨rfl, rfl⟩ ⟨rfl, rfl⟩
    | false =>
      simp only [Bool.false_eq_true, if_false]
      refine ⟨place, h.phase hsession
        (show (Worker.failing session).session = some session from rfl) rfl rfl ⟨rfl, rfl, rfl⟩
        (fun _ _ => id) (fun other hother => ?_) ⟨rfl, rfl, rfl, rfl, rfl⟩ fun hlocal => ?_⟩
      · unfold InTable
        simp only [onWorker, onSession, Function.update_of_ne hother]
        exact id
      · rw [hworker] at hlocal
        refine hlocal.fail.mono (fun hin => ?_) .inr id id
        unfold InTable
        simp only [onWorker, onSession, Function.update_self]
        exact hin
  | failing session =>
    have hsession : (link.workers index).session = some session := by rw [hworker]; rfl
    obtain ⟨-, hscheduled, -⟩ := h.placed.scheduled hsession
    refine ⟨place, h.phase hsession
      (show (Worker.taking session).session = some session from rfl) rfl rfl ⟨rfl, rfl, rfl⟩
      (fun _ _ => id) (fun other hother => ?_) ⟨rfl, rfl, rfl, rfl, rfl⟩ fun hlocal => ?_⟩
    · unfold InTable
      simp only [onWorker, onSession, Function.update_of_ne hother]
      exact id
    · rw [hworker] at hlocal
      refine (hlocal.close hscheduled).mono (fun hin => ?_) .inr id id
      unfold InTable
      simp only [onWorker, onSession, Function.update_self]
      exact hin
  | taking session =>
    have hsession : (link.workers index).session = some session := by rw [hworker]; rfl
    refine ⟨place, h.phase hsession
      (show (Worker.finishing session).session = some session from rfl) rfl
      (Function.update_eq_self session link.sessions).symm ⟨rfl, rfl, rfl⟩ (fun id other hin => ?_)
      (fun other hother hin => ?_) ⟨rfl, rfl, rfl, rfl, rfl⟩ fun hlocal => ?_⟩
    · by_cases hid : id = (link.sessions session).id
      · simp only [hid, Function.update_self] at hin
        cases hin
      · simp only [Function.update_of_ne hid] at hin
        exact hin
    · -- The entry that is taken out is that of this session, or there is none.
      have hne : (link.sessions other).id ≠ (link.sessions session).id := by
        intro heq
        unfold InTable at hin
        rw [heq] at hin
        rcases hspares session hworker with hself | hnone
        · rw [hself] at hin
          exact hother (Option.some.inj hin).symm
        · rw [hnone] at hin
          cases hin
      unfold InTable
      simp only [onWorker, Function.update_of_ne hne]
      exact hin
    · rw [hworker] at hlocal
      exact hlocal.finishing (hlocal.ends rfl) rfl
  | leaving session =>
    have hsession : (link.workers index).session = some session := by rw [hworker]; rfl
    by_cases hclosing : (link.sessions session).closing = true
    · simp only [if_pos hclosing]
      refine ⟨place, h.phase hsession
        (show (Worker.finishing session).session = some session from rfl) rfl
        (Function.update_eq_self session link.sessions).symm ⟨rfl, rfl, rfl⟩ (fun _ _ => id)
        (fun _ _ => id) ⟨rfl, rfl, rfl, rfl, rfl⟩ fun hlocal => ?_⟩
      rw [hworker] at hlocal
      exact hlocal.finishing hclosing rfl
    · simp only [if_neg hclosing]
      cases hinbox : (link.sessions session).inbox with
      | nil => exact h.rest hsession (by rw [hworker]; exact ⟨rfl, rfl⟩) (Bool.eq_false_iff.2 hclosing) hinbox
      | cons message inbox =>
        obtain ⟨hopen, -, -⟩ := h.placed.scheduled hsession
        refine ⟨_, h.atWork hopen (.inl hsession) (h.placed.repost hsession)
          (fun other hother => Function.update_of_ne hother _ _) rfl
          (Function.update_eq_self session link.sessions).symm rfl (fun _ _ => id) (fun _ _ => id)
          ⟨rfl, rfl⟩ ?_ (h.live_of_atWork (fun _ => rfl) rfl)⟩
        have hlocal := h.sessions session hopen
        rw [h.placed.phase_eq hsession, hworker] at hlocal
        unfold Link.phase
        simp only [Function.update_self]
        exact hlocal.goOn ⟨rfl, rfl⟩ ⟨rfl, rfl⟩
  | finishing session =>
    have hsession : (link.workers index).session = some session := by rw [hworker]; rfl
    obtain ⟨-, -, hcounted⟩ := h.placed.scheduled hsession
    refine ⟨place, h.phase hsession
      (show (Worker.counting session).session = some session from rfl) rfl rfl ⟨rfl, rfl, rfl⟩
      (fun _ _ => id) (fun other hother => ?_) ⟨rfl, rfl, rfl, rfl, rfl⟩ fun hlocal => ?_⟩
    · unfold InTable
      simp only [onWorker, onSession, Function.update_of_ne hother]
      exact id
    · rw [hworker] at hlocal
      refine (hlocal.finish hcounted).mono (fun hin => ?_) .inr id id
      unfold InTable
      simp only [onWorker, onSession, Function.update_self]
      exact hin
  | counting session =>
    have hsession : (link.workers index).session = some session := by rw [hworker]; rfl
    obtain ⟨hopen, hscheduled, hcounted⟩ := h.placed.scheduled hsession
    refine h.release hsession (.inr rfl) rfl rfl rfl
      ⟨iff_of_false nofun ?_, iff_of_true rfl rfl⟩ ⟨rfl, rfl, rfl, rfl, rfl⟩ ?_ fun hlocal => ?_
    · dsimp only
      rw [hscheduled]
      exact nofun
    · change link.live - 1 = _
      rw [h.live]
      exact (card_live_counted hopen hcounted rfl).symm
    · rw [hworker] at hlocal
      exact hlocal.count

/-! ### The thread of the link -/

theorem closes_next (session : Nat) (rest : Option (List Nat)) :
    Closes session (next rest : Reader M) ↔ session ∈ rest.getD [] := by
  cases rest with
  | none => simp [next, Closes]
  | some sessions =>
    cases sessions with
    | nil => simp [next, Closes]
    | cons first others => simp [next, Closes, eq_comm]

theorem not_asks_next (session : Nat) (rest : Option (List Nat)) :
    ¬Asks session (next rest : Reader M) := by
  cases rest with
  | none => exact id
  | some sessions =>
    cases sessions with
    | nil => exact id
    | cons first others => exact id

theorem not_posts_next (session : Nat) (rest : Option (List Nat)) :
    ¬Posts session (next rest : Reader M) := by
  cases rest with
  | none => exact id
  | some sessions =>
    cases sessions with
    | nil => exact id
    | cons first others => exact id

theorem over_next (rest : Option (List Nat)) : Over (next rest : Reader M) ↔ rest.isSome = true := by
  cases rest with
  | none => simp [next, Over]
  | some sessions =>
    cases sessions with
    | nil => simp [next, Over]
    | cons first others => simp [next, Over]

theorem targets_next (session : Nat) (rest : Option (List Nat)) :
    Targets session (next rest : Reader M) ↔ session ∈ rest.getD [] := by
  cases rest with
  | none => simp [next, Targets]
  | some sessions =>
    cases sessions with
    | nil => simp [next, Targets]
    | cons first others => simp [next, Targets, eq_comm]

theorem next_ne_ended (rest : Option (List Nat)) : (next rest : Reader M) ≠ .ended := by
  cases rest with
  | none => exact nofun
  | some sessions =>
    cases sessions with
    | nil => exact nofun
    | cons first others => exact nofun

theorem phase_congr (hworkers : link'.workers = link.workers) {place' : Nat → Place}
    (hplace : ∀ other, place' other = place other ∨
      ∀ index, place' other ≠ .worker index ∧ place other ≠ .worker index) (session : Nat) :
    link'.phase place' session = link.phase place session := by
  unfold Link.phase
  rw [hworkers]
  rcases hplace session with heq | hne
  · rw [heq]
  · cases hat : place session with
    | worker index => exact absurd hat (hne index).2
    | _ =>
      cases hat' : place' session with
      | worker index => exact absurd hat' (hne index).1
      | _ => rfl

theorem Inv.thread (h : link.Inv place) (hopen : session < link.opened) {entry : LinkSession M}
    {place' : Nat → Place} (hplaced : link'.Placed place')
    (hplace : ∀ other, place' other = place other ∨
      ∀ index, place' other ≠ .worker index ∧ place other ≠ .worker index)
    (hsessions : link'.sessions = Function.update link.sessions session entry)
    (hentry : entry.id = (link.sessions session).id ∧
      entry.counted = (link.sessions session).counted)
    (htable : ∀ id other, link'.table id = some other → link.table id = some other)
    (hsame : link'.opened = link.opened ∧ link'.workers = link.workers ∧ link'.live = link.live)
    (hothers : ∀ other, other ≠ session → (link.InTable other → link'.InTable other) ∧
      (Closes other link.reader → Closes other link'.reader) ∧
      (Asks other link'.reader → Asks other link.reader))
    (hover : Over link.reader → Over link'.reader)
    (hself : Local (link.sessions session) (link.phase place session) (link.InTable session)
      (Closes session link.reader) (Asks session link.reader) (Over link.reader) →
        Local entry (link.phase place session) (link'.InTable session) (Closes session link'.reader)
          (Asks session link'.reader) (Over link'.reader))
    (htargets : ∀ other, Targets other link'.reader → Targets other link.reader ∨ other = session)
    (hdrained : Over link'.reader → link'.reader ≠ .ended → Over link.reader ∧ link.reader ≠ .ended) :
    link'.Inv place' := by
  obtain ⟨hopened, hworkers, hlive⟩ := hsame
  obtain ⟨hid, hcounted⟩ := hentry
  have hsame : ∀ other, (link'.sessions other).id = (link.sessions other).id ∧
      (link'.sessions other).counted = (link.sessions other).counted := by
    intro other
    rw [hsessions]
    by_cases hother : other = session
    · rw [hother, Function.update_self]
      exact ⟨hid, hcounted⟩
    · rw [Function.update_of_ne hother]
      exact ⟨rfl, rfl⟩
  refine ⟨hplaced, fun other hother => ?_, fun id other hin => ?_, fun other hother => ?_, ?_, ?_⟩
  · rw [phase_congr hworkers hplace other]
    by_cases heq : other = session
    · subst heq
      rw [hsessions, Function.update_self]
      exact hself (h.sessions other hopen)
    · rw [hsessions, Function.update_of_ne heq]
      obtain ⟨hin, hcloses, hasks⟩ := hothers other heq
      exact (h.sessions other (hopened ▸ hother)).mono hin (fun hc => .inr (hcloses hc)) hasks hover
  · rw [hopened, (hsame other).1]
    exact h.table id other (htable id other hin)
  · rw [hopened]
    rcases htargets other hother with htarget | rfl
    · exact h.targets other htarget
    · exact hopen
  · rw [hopened]
    exact h.live_of_atWork (fun other => (hsame other).2) hlive
  · intro hafter hne id
    obtain ⟨hbefore, hne⟩ := hdrained hafter hne
    cases hin : link'.table id with
    | none => rfl
    | some other =>
      have hin := htable id other hin
      rw [h.drained hbefore hne id] at hin
      cases hin

theorem Inv.onReader (h : link.Inv place) {place' : Nat → Place} (hplaced : link'.Placed place')
    (hplace : ∀ other, place' other = place other ∨
      ∀ index, place' other ≠ .worker index ∧ place other ≠ .worker index)
    (hsame : link'.sessions = link.sessions ∧ link'.table = link.table ∧ link'.opened = link.opened ∧
      link'.workers = link.workers ∧ link'.live = link.live)
    (hcloses : ∀ other, Closes other link.reader → Closes other link'.reader)
    (hasks : ∀ other, ¬Asks other link'.reader) (hover : Over link.reader → Over link'.reader)
    (htargets : ∀ other, Targets other link'.reader → Targets other link.reader)
    (hdrained : Over link'.reader → link'.reader ≠ .ended → Over link.reader ∧ link.reader ≠ .ended) :
    link'.Inv place' := by
  obtain ⟨hsessions, htable, hopened, hworkers, hlive⟩ := hsame
  refine ⟨hplaced, fun other hother => ?_, ?_, fun other hother => ?_, ?_, fun hafter hne => ?_⟩
  · rw [phase_congr hworkers hplace other, hsessions]
    refine (h.sessions other (hopened ▸ hother)).mono ?_ (fun hc => .inr (hcloses other hc))
      (fun ha => absurd ha (hasks other)) hover
    unfold InTable
    rw [hsessions, htable]
    exact id
  · rw [htable, hopened, hsessions]
    exact h.table
  · rw [hopened]
    exact h.targets other (htargets other hother)
  · rw [hlive, hopened, hsessions]
    exact h.live
  · rw [htable]
    obtain ⟨hbefore, hne⟩ := hdrained hafter hne
    exact h.drained hbefore hne

theorem Inv.scheduling (h : link.Inv place) {message : M}
    (hreader : link.reader = .scheduling session message) : ∃ place', link.readerStep.Inv place' := by
  have hopen : session < link.opened := h.targets session (by rw [hreader]; rfl)
  have hposts : ∀ other, ¬Posts other link.reader := by
    rw [hreader]
    exact fun _ => id
  unfold Link.readerStep
  simp only [hreader]
  by_cases hclosing : (link.sessions session).closing = true
  · rw [if_pos hclosing]
    refine ⟨place, h.onReader (h.placed.stay (fun other => iff_of_false id (hposts other))
      (fun _ => ⟨rfl, rfl⟩) ⟨rfl, rfl, rfl, rfl⟩) (fun _ => .inl rfl) ⟨rfl, rfl, rfl, rfl, rfl⟩ ?_
      (fun _ => id) ?_ (fun _ => False.elim) nofun⟩
    · rw [hreader]
      exact fun _ => False.elim
    · rw [hreader]
      exact False.elim
  rw [if_neg hclosing]
  have hclosing := Bool.eq_false_iff.2 hclosing
  have hsessions : ∀ other, other ≠ session → ∀ (entry : LinkSession M),
      Function.update link.sessions session entry other = link.sessions other :=
    fun other hother entry => Function.update_of_ne hother entry link.sessions
  have hcounted := h.placed.done_iff session hopen
  obtain ⟨place', hplaced, hplace⟩ : ∃ place', Placed
      { link.onSession session fun entry => { entry with
          inbox := entry.inbox ++ [message]
          scheduled := true
          arrived := entry.arrived ++ [message] } with
        reader := if (link.sessions session).scheduled then .reading else .posting session none }
      place' ∧ ∀ other, place' other = place other ∨
        ∀ index, place' other ≠ .worker index ∧ place other ≠ .worker index := by
    cases hscheduled : (link.sessions session).scheduled with
    | true =>
      refine ⟨place, h.placed.stay (fun other => iff_of_false id (hposts other)) (fun other => ?_)
        ⟨rfl, rfl, rfl, rfl⟩, fun _ => .inl rfl⟩
      by_cases hother : other = session
      · rw [hother]
        simp only [onSession, Function.update_self]
        exact ⟨hscheduled.symm, trivial⟩
      · simp only [onSession, hsessions other hother]
        exact ⟨trivial, trivial⟩
    | false =>
      refine ⟨_, h.placed.claim hopen hscheduled (fun other => ?_) hposts ?_ (fun other hother => ?_)
        ⟨rfl, rfl, rfl, rfl⟩, fun other => ?_⟩
      · exact eq_comm
      · simp only [onSession, Function.update_self]
        exact ⟨trivial, trivial⟩
      · simp only [onSession, hsessions other hother]
        exact ⟨trivial, trivial⟩
      · by_cases hother : other = session
        · rw [hother, Function.update_self, (h.placed.free_iff session hopen).2 hscheduled]
          exact .inr fun _ => ⟨nofun, nofun⟩
        · exact .inl (Function.update_of_ne hother _ _)
  have hafter : ∀ other, ¬Closes other (if (link.sessions session).scheduled = true then
      (.reading : Reader M) else .posting session none) ∧ ¬Asks other (if
      (link.sessions session).scheduled = true then (.reading : Reader M) else .posting session none) ∧
      ¬Targets other (if (link.sessions session).scheduled = true then (.reading : Reader M) else
        .posting session none) ∧ ¬Over (if (link.sessions session).scheduled = true then
        (.reading : Reader M) else .posting session none) := by
    intro other
    split
    · exact ⟨id, id, id, id⟩
    · exact ⟨List.not_mem_nil, id, List.not_mem_nil, Bool.false_ne_true⟩
  refine ⟨place', h.thread hopen hplaced hplace rfl ⟨rfl, rfl⟩ (fun _ _ => id) ⟨rfl, rfl, rfl⟩
    (fun other hother => ⟨?_, ?_, fun hasks => absurd hasks (hafter other).2.1⟩) ?_ (fun hlocal => ?_)
    (fun other htarget => absurd htarget (hafter other).2.2.1)
    fun hover => absurd hover (hafter session).2.2.2⟩
  · unfold InTable
    simp only [onSession, hsessions other hother]
    exact id
  · rw [hreader]
    exact False.elim
  · rw [hreader]
    exact False.elim
  · refine (hlocal.arrive hclosing message).mono (fun hin => ?_) ?_
      (fun hasks => absurd hasks (hafter session).2.1) ?_
    · unfold InTable
      simp only [onSession, Function.update_self]
      exact hin
    · rw [hreader]
      exact False.elim
    · rw [hreader]
      exact False.elim

theorem Inv.closing (h : link.Inv place) {rest : Option (List Nat)}
    (hreader : link.reader = .closing session rest) : ∃ place', link.readerStep.Inv place' := by
  have hopen : session < link.opened := h.targets session (by rw [hreader]; exact .inl rfl)
  have hposts : ∀ other, ¬Posts other link.reader := by
    rw [hreader]
    exact fun _ => id
  have hwhy : Asks session link.reader ∨ Over link.reader := by
    rw [hreader]
    cases rest with
    | none => exact .inl rfl
    | some sessions => exact .inr rfl
  have hasks : ∀ other post, Asks other (.sinking session post rest : Reader M) ↔
      Asks other (.closing session rest : Reader M) := by
    intro other post
    cases rest with
    | none => exact Iff.rfl
    | some sessions => exact Iff.rfl
  unfold Link.readerStep
  simp only [hreader]
  have hsessions : ∀ other, other ≠ session → ∀ (entry : LinkSession M),
      Function.update link.sessions session entry other = link.sessions other :=
    fun other hother entry => Function.update_of_ne hother entry link.sessions
  obtain ⟨place', hplaced, hplace⟩ : ∃ place', Placed
      { link.onSession session fun entry => { entry with
          closing := true, inbox := [], scheduled := true } with
        reader := .sinking session (!(link.sessions session).scheduled) rest }
      place' ∧ ∀ other, place' other = place other ∨
        ∀ index, place' other ≠ .worker index ∧ place other ≠ .worker index := by
    cases hscheduled : (link.sessions session).scheduled with
    | true =>
      refine ⟨place, h.placed.stay (fun other => iff_of_false (fun hpost => ?_) (hposts other))
        (fun other => ?_) ⟨rfl, rfl, rfl, rfl⟩, fun _ => .inl rfl⟩
      · exact Bool.false_ne_true hpost.2
      · by_cases hother : other = session
        · rw [hother]
          simp only [onSession, Function.update_self]
          exact ⟨hscheduled.symm, trivial⟩
        · simp only [onSession, hsessions other hother]
          exact ⟨trivial, trivial⟩
    | false =>
      refine ⟨_, h.placed.claim hopen hscheduled (fun other => ?_) hposts ?_ (fun other hother => ?_)
        ⟨rfl, rfl, rfl, rfl⟩, fun other => ?_⟩
      · exact (and_iff_left rfl).trans eq_comm
      · simp only [onSession, Function.update_self]
        exact ⟨trivial, trivial⟩
      · simp only [onSession, hsessions other hother]
        exact ⟨trivial, trivial⟩
      · by_cases hother : other = session
        · rw [hother, Function.update_self, (h.placed.free_iff session hopen).2 hscheduled]
          exact .inr fun _ => ⟨nofun, nofun⟩
        · exact .inl (Function.update_of_ne hother _ _)
  refine ⟨place', h.thread hopen hplaced hplace rfl ⟨rfl, rfl⟩ (fun _ _ => id) ⟨rfl, rfl, rfl⟩
    (fun other hother => ⟨?_, ?_, ?_⟩) ?_ (fun hlocal => ?_) (fun other htarget => ?_) fun hover _ => ?_⟩
  · unfold InTable
    simp only [onSession, hsessions other hother]
    exact id
  · rw [hreader]
    exact fun hcloses => hcloses.resolve_left fun heq => hother heq.symm
  · rw [hreader]
    exact (hasks other _).1
  · rw [hreader]
    exact id
  · have hclosed : Local _ _ (link.InTable session)
        (Closes session (.sinking session (!(link.sessions session).scheduled) rest : Reader M)) _ _ :=
      hlocal.beginClose hwhy
    refine hclosed.mono (fun hin => ?_) .inr ?_ ?_
    · unfold InTable
      simp only [onSession, Function.update_self]
      exact hin
    · rw [hreader]
      exact (hasks session _).1
    · rw [hreader]
      exact id
  · rw [hreader]
    exact .inl htarget
  · rw [hreader]
    exact ⟨hover, nofun⟩

theorem Inv.sinking (h : link.Inv place) {post : Bool} {rest : Option (List Nat)}
    (hreader : link.reader = .sinking session post rest) : link.readerStep.Inv place := by
  have hopen : session < link.opened := h.targets session (by rw [hreader]; exact .inl rfl)
  have hwhy : Asks session link.reader ∨ Over link.reader := by
    rw [hreader]
    cases rest with
    | none => exact .inl rfl
    | some sessions => exact .inr rfl
  have hsessions : ∀ other, other ≠ session → ∀ (entry : LinkSession M),
      Function.update link.sessions session entry other = link.sessions other :=
    fun other hother entry => Function.update_of_ne hother entry link.sessions
  obtain ⟨reader, hreader', hposts, hcloses, hasks, hover, htargets, hended⟩ : ∃ reader : Reader M,
      reader = (if post then .posting session rest else next rest) ∧
      (∀ other, Posts other reader ↔ session = other ∧ post = true) ∧
      (∀ other, Closes other reader ↔ other ∈ rest.getD []) ∧ (∀ other, ¬Asks other reader) ∧
      (Over reader ↔ rest.isSome = true) ∧ (∀ other, Targets other reader ↔ other ∈ rest.getD []) ∧
      reader ≠ .ended := by
    refine ⟨_, rfl, ?_⟩
    cases post with
    | true =>
      exact ⟨fun _ => (and_iff_left rfl).symm, fun _ => Iff.rfl, fun _ => id, Iff.rfl, fun _ => Iff.rfl,
        nofun⟩
    | false =>
      exact ⟨fun other => iff_of_false (not_posts_next other rest) fun hpost => Bool.false_ne_true hpost.2,
        fun other => closes_next other rest, fun other => not_asks_next other rest, over_next rest,
        fun other => targets_next other rest, next_ne_ended rest⟩
  unfold Link.readerStep
  simp only [hreader]
  rw [← hreader']
  refine h.thread hopen (h.placed.stay (fun other => ?_) (fun other => ?_) ⟨rfl, rfl, rfl, rfl⟩)
    (fun _ => .inl rfl) rfl ⟨rfl, rfl⟩ (fun _ _ => id) ⟨rfl, rfl, rfl⟩
    (fun other hother => ⟨?_, ?_, fun ha => absurd ha (hasks other)⟩) ?_ (fun hlocal => ?_)
    (fun other htarget => ?_) fun hafter _ => ?_
  · rw [hreader]
    exact hposts other
  · by_cases hother : other = session
    · rw [hother]
      simp only [onSession, Function.update_self]
      exact ⟨trivial, trivial⟩
    · simp only [onSession, hsessions other hother]
      exact ⟨trivial, trivial⟩
  · unfold InTable
    simp only [onSession, hsessions other hother]
    exact id
  · rw [hreader]
    exact (hcloses other).2
  · rw [hreader]
    exact hover.2
  · refine (hlocal.closeSink hwhy).mono (fun hin => ?_) ?_ (fun ha => absurd ha (hasks session)) ?_
    · unfold InTable
      simp only [onSession, Function.update_self]
      exact hin
    · rw [hreader]
      exact fun hc => .inr ((hcloses session).2 hc)
    · rw [hreader]
      exact hover.2
  · rw [hreader]
    exact .inl (.inr ((htargets other).1 htarget))
  · rw [hreader]
    exact ⟨hover.1 hafter, nofun⟩

theorem Inv.posting (h : link.Inv place) {rest : Option (List Nat)}
    (hreader : link.reader = .posting session rest) : ∃ place', link.readerStep.Inv place' := by
  unfold Link.readerStep
  simp only [hreader]
  refine ⟨_, h.onReader (h.placed.post hreader) (fun other => ?_) ⟨rfl, rfl, rfl, rfl, rfl⟩
    (fun other => ?_) (fun other => not_asks_next other rest) ?_ (fun other => ?_) fun hafter _ => ?_⟩
  · by_cases hother : other = session
    · have hplace : place session = .thread := by
        rw [← h.placed.posts_iff, hreader]
        rfl
      rw [hother, Function.update_self, hplace]
      exact .inr fun _ => ⟨nofun, nofun⟩
    · exact .inl (Function.update_of_ne hother _ _)
  · rw [hreader]
    exact (closes_next other rest).2
  · rw [hreader]
    exact (over_next rest).2
  · rw [hreader]
    exact (targets_next other rest).1
  · rw [hreader]
    exact ⟨(over_next rest).1 hafter, nofun⟩

theorem mem_remaining (hopen : session < link.opened) :
    session ∈ link.remaining ↔ link.InTable session := by
  unfold remaining InTable
  rw [List.mem_filter, List.mem_range, decide_eq_true_iff]
  exact and_iff_right hopen

theorem Inv.ended (h : link.Inv place) (hreader : link.reader = .ended) :
    link.readerStep.Inv place := by
  have hposts : ∀ other, ¬Posts other link.reader := by
    rw [hreader]
    exact fun _ => id
  unfold Link.readerStep
  simp only [hreader]
  refine ⟨h.placed.stay (fun other => iff_of_false (not_posts_next other _) (hposts other))
    (fun _ => ⟨rfl, rfl⟩) ⟨rfl, rfl, rfl, rfl⟩, fun other hother => ?_, nofun, fun other hother => ?_,
    h.live, fun _ _ _ => rfl⟩
  · have hlocal := h.sessions other hother
    rw [hreader] at hlocal
    refine hlocal.ofOver (fun hwhere => .inr ?_) (fun ha => absurd ha (not_asks_next other _))
      ((over_next _).2 rfl)
    rw [closes_next]
    have hmem : other ∈ link.remaining ↔ link.InTable other := mem_remaining hother
    exact hmem.2 (hwhere.resolve_right id)
  · rw [targets_next] at hother
    exact List.mem_range.1 (List.mem_filter.1 hother).1

theorem Inv.readerStep (h : link.Inv place) : ∃ place', link.readerStep.Inv place' := by
  cases hreader : link.reader with
  | reading =>
    unfold Link.readerStep
    simp only [hreader]
    exact ⟨place, h⟩
  | returned =>
    unfold Link.readerStep
    simp only [hreader]
    exact ⟨place, h⟩
  | waiting =>
    unfold Link.readerStep
    simp only [hreader]
    split
    · refine ⟨place, h.onReader (h.placed.stay (fun other => ?_) (fun _ => ⟨rfl, rfl⟩)
        ⟨rfl, rfl, rfl, rfl⟩) (fun _ => .inl rfl) ⟨rfl, rfl, rfl, rfl, rfl⟩ ?_ (fun _ => id)
        (fun _ => trivial) (fun _ => False.elim) fun _ _ => ?_⟩
      · rw [hreader]
        exact Iff.rfl
      · rw [hreader]
        exact fun _ => id
      · rw [hreader]
        exact ⟨trivial, nofun⟩
    · exact ⟨place, h⟩
  | ended => exact ⟨place, h.ended hreader⟩
  | posting session rest => exact h.posting hreader
  | sinking session post rest => exact ⟨place, h.sinking hreader⟩
  | closing session rest => exact h.closing hreader
  | scheduling session message => exact h.scheduling hreader

theorem id_ne {number other : Nat}
    (htable : link.table number = some session) (hother : other ≠ session) (hin : link.InTable other) :
    (link.sessions other).id ≠ number := by
  rintro rfl
  unfold InTable at hin
  rw [htable] at hin
  exact hother (Option.some.inj hin).symm

theorem Inv.sessionOpen (h : link.Inv place) (hreader : link.reader = .reading) {number : Nat}
    (htable : link.table number = none) : Inv { link with
      sessions := Function.update link.sessions link.opened { id := number }
      opened := link.opened + 1
      table := Function.update link.table number (some link.opened)
      live := link.live + 1 } place := by
  refine ⟨h.placed.openSession, fun other hother => ?_, fun id other hin => ?_, fun other htarget => ?_,
    ?_, fun hover => ?_⟩
  · dsimp only at hother ⊢
    by_cases heq : other = link.opened
    · have hidle : Link.phase { link with
          sessions := Function.update link.sessions link.opened { id := number }
          opened := link.opened + 1
          table := Function.update link.table number (some link.opened)
          live := link.live + 1 } place other = .idle := by
        unfold Link.phase
        rw [h.placed.unopened other (Nat.le_of_eq heq.symm)]
      rw [hidle, heq, Function.update_self]
      apply Local.opened number
      · unfold InTable
        simp only [Function.update_self]
      · rw [hreader]
        exact fun hasks => hasks
    · rw [Function.update_of_ne heq]
      refine (h.sessions other (by omega)).mono (fun hin => ?_) .inr (fun hasks => hasks) fun hover => hover
      have hne : (link.sessions other).id ≠ number := by
        intro hid
        unfold InTable at hin
        rw [hid, htable] at hin
        cases hin
      unfold InTable
      simp only [Function.update_of_ne heq, Function.update_of_ne hne]
      exact hin
  · dsimp only at hin ⊢
    by_cases hid : id = number
    · rw [hid, Function.update_self] at hin
      rw [← Option.some.inj hin, Function.update_self]
      exact ⟨Nat.lt_succ_self _, hid.symm⟩
    · rw [Function.update_of_ne hid] at hin
      obtain ⟨hlt, hsession⟩ := h.table id other hin
      rw [Function.update_of_ne (Nat.ne_of_lt hlt)]
      exact ⟨Nat.lt_succ_of_lt hlt, hsession⟩
  · dsimp only at htarget
    rw [hreader] at htarget
    exact htarget.elim
  · dsimp only
    rw [h.live]
    exact (card_live_opened rfl).symm
  · dsimp only at hover
    rw [hreader] at hover
    exact hover.elim

theorem Inv.onFrame (h : link.Inv place) (hreader : link.reader = .reading) (urgent : M → Bool)
    (number : Nat) (frame : LinkFrame M) : (link.onFrame urgent number frame).Inv place := by
  have hposts : ∀ other, ¬Posts other link.reader := by
    rw [hreader]
    exact fun _ hpost => hpost
  have hcloses : ∀ other, ¬Closes other link.reader := by
    rw [hreader]
    exact fun _ hclose => hclose
  have hasks : ∀ other, ¬Asks other link.reader := by
    rw [hreader]
    exact fun _ hask => hask
  have hover : ¬Over link.reader := by
    rw [hreader]
    exact fun hover => hover
  unfold Link.onFrame
  cases htable : link.table number with
  | none =>
    cases frame with
    | sessionOpen => exact h.sessionOpen hreader htable
    | _ => exact h
  | some session =>
    obtain ⟨hopen, hid⟩ := h.table number session htable
    have hsessions : ∀ other, other ≠ session → ∀ (entry : LinkSession M),
        Function.update link.sessions session entry other = link.sessions other :=
      fun other hother entry => Function.update_of_ne hother entry link.sessions
    cases frame with
    | sessionOpen => exact h
    | message message =>
      dsimp only
      split
      · exact h
      · refine ⟨h.placed.stay (fun other => iff_of_false (fun hpost => hpost) (hposts other))
          (fun _ => ⟨rfl, rfl⟩) ⟨rfl, rfl, rfl, rfl⟩, fun other hother => ?_, h.table,
          fun other htarget => ?_, h.live, fun hover => hover.elim⟩
        · exact (h.sessions other hother).mono (fun hin => hin) (fun hc => absurd hc (hcloses other))
            (fun hask => hask.elim) fun ho => absurd ho hover
        · have heq : session = other := htarget
          exact heq ▸ hopen
    | sessionClose =>
      have hkept : ∀ other, other ≠ session → link.InTable other →
          InTable { link.onSession session fun entry => { entry with asked := true } with
            table := Function.update link.table number none, reader := .closing session none } other := by
        intro other hother hin
        unfold InTable
        simp only [onSession, hsessions other hother,
          Function.update_of_ne (id_ne htable hother hin)]
        exact hin
      refine h.thread hopen (h.placed.stay (fun other => iff_of_false (fun hpost => hpost) (hposts other))
        (fun other => ?_) ⟨rfl, rfl, rfl, rfl⟩) (fun _ => .inl rfl) rfl ⟨rfl, rfl⟩
        (fun id other hin => ?_) ⟨rfl, rfl, rfl⟩ (fun other hother => ⟨hkept other hother, ?_, ?_⟩) ?_
        (fun hlocal => ?_) (fun other htarget => ?_) fun hafter => ?_
      · by_cases hother : other = session
        · rw [hother]
          simp only [onSession, Function.update_self]
          exact ⟨trivial, trivial⟩
        · simp only [onSession, hsessions other hother]
          exact ⟨trivial, trivial⟩
      · dsimp only at hin
        by_cases heq : id = number
        · rw [heq, Function.update_self] at hin
          cases hin
        · rw [Function.update_of_ne heq] at hin
          exact hin
      · exact fun hc => absurd hc (hcloses other)
      · exact fun hask => absurd hask.symm hother
      · exact fun ho => absurd ho hover
      · have hclosing : Closes session (.closing session none : Reader M) := .inl rfl
        exact (hlocal.ask hclosing).mono (fun hin => hin) .inr (fun _ => trivial)
          fun ho => absurd ho hover
      · exact .inr (htarget.resolve_right List.not_mem_nil).symm
      · exact absurd hafter Bool.false_ne_true
    | streamCredit query frames =>
      have hin : ∀ other, InTable (link.onSession session (grant query frames)) other ↔
          link.InTable other := by
        intro other
        unfold InTable
        by_cases hother : other = session
        · rw [hother]
          simp only [onSession, Function.update_self, grant]
        · simp only [onSession, hsessions other hother]
      refine h.thread hopen (h.placed.stay (fun other => Iff.rfl)
        (fun other => ?_) ⟨rfl, rfl, rfl, rfl⟩) (fun _ => .inl rfl) rfl ⟨rfl, rfl⟩
        (fun _ _ hin => hin) ⟨rfl, rfl, rfl⟩ (fun other _ => ⟨(hin other).2, fun hc => hc, fun ha => ha⟩)
        (fun ho => ho) (fun hlocal => ?_) (fun _ htarget => .inl htarget) fun ho hne => ⟨ho, hne⟩
      · by_cases hother : other = session
        · rw [hother]
          simp only [onSession, Function.update_self, grant]
          exact ⟨trivial, trivial⟩
        · simp only [onSession, hsessions other hother]
          exact ⟨trivial, trivial⟩
      · exact (hlocal.granted query frames).mono (hin session).2 .inr (fun ha => ha) fun ho => ho

theorem Inv.linkEnd (h : link.Inv place) (hreader : link.reader = .reading) :
    Inv { link with reader := .ended } place := by
  refine ⟨h.placed.stay (fun other => ?_) (fun _ => ⟨rfl, rfl⟩) ⟨rfl, rfl, rfl, rfl⟩,
    fun other hother => ?_, h.table, fun _ htarget => htarget.elim, h.live,
    fun _ hne => absurd rfl hne⟩
  · rw [hreader]
    exact Iff.rfl
  · have hlocal := h.sessions other hother
    rw [hreader] at hlocal
    exact hlocal.ofOver (fun hwhere => hwhere) (fun hask => hask) trivial

theorem Inv.step (h : link.Inv place) (urgent : M → Bool) (action : LinkAction M)
    (hspares : link.Spares action) : ∃ place', (link.step urgent action).Inv place' := by
  unfold Link.step
  cases action with
  | frame id frame =>
    cases hreader : link.reader with
    | reading => exact ⟨place, h.onFrame hreader urgent id frame⟩
    | _ => exact ⟨place, h⟩
  | linkEnd =>
    cases hreader : link.reader with
    | reading => exact ⟨place, h.linkEnd hreader⟩
    | _ => exact ⟨place, h⟩
  | reader => exact h.readerStep
  | worker index ok =>
    dsimp only
    split
    · rename_i hindex
      exact h.workerStep ok hindex hspares
    · exact ⟨place, h⟩

end MoDb.Net.Link
