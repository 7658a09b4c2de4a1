import Mathlib.Algebra.Group.Int.Defs
import Mathlib.Algebra.GroupWithZero.Nat
import Mathlib.Logic.Function.Basic
import Mathlib.Data.List.Range

/-!
# The sessions of a link

A proxy talks to the engine over one link with many sessions. One thread reads the frames of the link
and puts each message into the inbox of its session; the workers of a pool run the sessions that have
something to do, one worker a session at a time.

A step is what a thread does while it holds one lock, or between two of them. What a handler does with
a message is left open but for whether it fails. `M` are the messages.
-/

namespace MoDb.Net

/-- `k_strand_budget`. -/
def k_strand_budget : Nat := 16

/-- A session of the link. The fields after `credits` record what has happened: the messages that were
put into the inbox and those that were taken out of it to be handled, how often `finish` was called
and whether the session was counted out, whether the peer has closed it, and whether its handler has
failed. -/
structure LinkSession (M : Type) where
  id : Nat := 0
  inbox : List M := []
  /-- The session is in the pool, or a worker runs it. -/
  scheduled : Bool := false
  closing : Bool := false
  /-- `closed_` of the sink. -/
  sinkClosed : Bool := false
  credits : Nat → Nat := fun _ => 0
  arrived : List M := []
  handled : List M := []
  finished : Nat := 0
  counted : Bool := false
  asked : Bool := false
  failed : Bool := false

/-- Where a worker is in `run`. -/
inductive Worker
  | idle
  /-- In the loop, before it looks into the inbox. -/
  | running (session : Nat) (handled : Nat)
  | handling (session : Nat) (handled : Nat)
  /-- The handler has failed. -/
  | failing (session : Nat)
  /-- Before `take`. -/
  | taking (session : Nat)
  /-- After the loop. -/
  | leaving (session : Nat)
  /-- In `finish`. -/
  | finishing (session : Nat)
  /-- In `finish`, before the session is counted out. -/
  | counting (session : Nat)
  deriving DecidableEq

/-- Where the thread of the link is. `rest` is what it does then: read the next frame, or close the
sessions that were left when the link ended. -/
inductive Reader (M : Type)
  | reading
  /-- In `schedule`. -/
  | scheduling (session : Nat) (message : M)
  /-- In `begin_close`. -/
  | closing (session : Nat) (rest : Option (List Nat))
  /-- In `begin_close`, before the sink is closed; and whether the session is posted then. -/
  | sinking (session : Nat) (post : Bool) (rest : Option (List Nat))
  | posting (session : Nat) (rest : Option (List Nat))
  /-- After the last frame. -/
  | ended
  /-- Until no session is live. -/
  | waiting
  | returned
  deriving DecidableEq

structure Link (M : Type) where
  /-- By the order in which they were opened. -/
  sessions : Nat → LinkSession M := fun _ => {}
  opened : Nat := 0
  /-- `sessions`, by the number that the peer gave. -/
  table : Nat → Option Nat := fun _ => none
  /-- `ready_` of the pool. -/
  ready : List Nat := []
  workers : Nat → Worker := fun _ => .idle
  workerCount : Nat
  reader : Reader M := .reading
  live : Nat := 0

inductive LinkFrame (M : Type)
  | sessionOpen
  | message (message : M)
  | sessionClose
  | streamCredit (query frames : Nat)

inductive LinkAction (M : Type)
  /-- A frame for the session with that number is read. -/
  | frame (id : Nat) (frame : LinkFrame M)
  /-- No frame is read any more: the connection is closed, or the peer broke the protocol. -/
  | linkEnd
  /-- The thread of the link goes on. -/
  | reader
  /-- A worker goes on; `ok` is what its handler returns, if it is in one. -/
  | worker (index : Nat) (ok : Bool)

def Worker.session : Worker → Option Nat
  | .idle => none
  | .running session _ => some session
  | .handling session _ => some session
  | .failing session => some session
  | .taking session => some session
  | .leaving session => some session
  | .finishing session => some session
  | .counting session => some session

namespace Link

variable {M : Type}

def onSession (link : Link M) (session : Nat) (change : LinkSession M → LinkSession M) : Link M :=
  { link with sessions := Function.update link.sessions session (change (link.sessions session)) }

def onWorker (link : Link M) (index : Nat) (worker : Worker) : Link M :=
  { link with workers := Function.update link.workers index worker }

def next : Option (List Nat) → Reader M
  | none => .reading
  | some [] => .waiting
  | some (session :: rest) => .closing session (some rest)

def remaining (link : Link M) : List Nat :=
  (List.range link.opened).filter fun session => link.table (link.sessions session).id = some session

/-- `LinkSink::grant`. -/
def grant (query frames : Nat) (session : LinkSession M) : LinkSession M :=
  { session with
    credits := Function.update session.credits query
      (min (session.credits query + frames) (2 ^ 32 - 1)) }

/-- One round of the loop of `handle_link`. `urgent` are the messages that `handle_urgent` takes. -/
def onFrame (urgent : M → Bool) (link : Link M) (id : Nat) : LinkFrame M → Link M
  | .sessionOpen =>
    match link.table id with
    | some _ => link
    | none =>
      { link with
        sessions := Function.update link.sessions link.opened { id := id }
        opened := link.opened + 1
        table := Function.update link.table id (some link.opened)
        live := link.live + 1 }
  | .message message =>
    match link.table id with
    | none => link
    | some session =>
      if urgent message then link else { link with reader := .scheduling session message }
  | .sessionClose =>
    match link.table id with
    | none => link
    | some session =>
      { link.onSession session fun entry => { entry with asked := true } with
        table := Function.update link.table id none
        reader := .closing session none }
  | .streamCredit query frames =>
    match link.table id with
    | none => link
    | some session => link.onSession session (grant query frames)

/-- The rest of what the thread of the link does with a frame, and what it does when the link has
ended. -/
def readerStep (link : Link M) : Link M :=
  match link.reader with
  | .reading => link
  | .scheduling session message =>
    let entry := link.sessions session
    if entry.closing then { link with reader := .reading }
    else
      { link.onSession session fun entry => { entry with
          inbox := entry.inbox ++ [message]
          scheduled := true
          arrived := entry.arrived ++ [message] } with
        reader := if entry.scheduled then .reading else .posting session none }
  | .closing session rest =>
    { link.onSession session fun entry => { entry with closing := true, inbox := [], scheduled := true } with
      reader := .sinking session (!(link.sessions session).scheduled) rest }
  | .sinking session post rest =>
    { link.onSession session fun entry => { entry with sinkClosed := true } with
      reader := if post then .posting session rest else next rest }
  | .posting session rest =>
    { link with ready := link.ready ++ [session], reader := next rest }
  | .ended => { link with table := fun _ => none, reader := next (some link.remaining) }
  | .waiting => if link.live = 0 then { link with reader := .returned } else link
  | .returned => link

/-- `StrandPool::loop` and `LinkState::run`. -/
def workerStep (link : Link M) (index : Nat) (ok : Bool) : Link M :=
  match link.workers index with
  | .idle =>
    match link.ready with
    | [] => link
    | session :: rest => { link.onWorker index (.running session 0) with ready := rest }
  | .running session handled =>
    let entry := link.sessions session
    if entry.closing then link.onWorker index (.leaving session)
    else
      match entry.inbox with
      | [] => (link.onSession session fun entry => { entry with scheduled := false }).onWorker index .idle
      | message :: inbox =>
        (link.onSession session fun entry => { entry with
          inbox := inbox, handled := entry.handled ++ [message] }).onWorker index (.handling session handled)
  | .handling session handled =>
    if ok then
      link.onWorker index
        (if handled + 1 < k_strand_budget then .running session (handled + 1) else .leaving session)
    else (link.onSession session fun entry => { entry with failed := true }).onWorker index (.failing session)
  | .failing session =>
    (link.onSession session fun entry => { entry with closing := true, inbox := [] }).onWorker index
      (.taking session)
  | .taking session =>
    { link.onWorker index (.finishing session) with
      table := Function.update link.table (link.sessions session).id none }
  | .leaving session =>
    let entry := link.sessions session
    if entry.closing then link.onWorker index (.finishing session)
    else
      match entry.inbox with
      | [] => (link.onSession session fun entry => { entry with scheduled := false }).onWorker index .idle
      | _ :: _ => { link.onWorker index .idle with ready := link.ready ++ [session] }
  | .finishing session =>
    (link.onSession session fun entry => { entry with
      sinkClosed := true, finished := entry.finished + 1 }).onWorker index (.counting session)
  | .counting session =>
    { (link.onSession session fun entry => { entry with counted := true }).onWorker index .idle with
      live := link.live - 1 }

def step (urgent : M → Bool) (link : Link M) : LinkAction M → Link M
  | .frame id frame =>
    match link.reader with
    | .reading => link.onFrame urgent id frame
    | _ => link
  | .linkEnd =>
    match link.reader with
    | .reading => { link with reader := .ended }
    | _ => link
  | .reader => link.readerStep
  | .worker index ok => if index < link.workerCount then link.workerStep index ok else link

def run (urgent : M → Bool) (link : Link M) (actions : List (LinkAction M)) : Link M :=
  actions.foldl (step urgent) link

def fresh (M : Type) (workerCount : Nat) : Link M := { workerCount := workerCount }

end Link

end MoDb.Net
