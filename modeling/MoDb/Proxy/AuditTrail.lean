import MoDb.Proxy.Mediation
import MoDb.Proxy.Books

/-!
# One record for each request

What became of the requests of a session is in its records, but for what is pending; and a session that is
closed has nothing pending. A request that takes the place of another one in a table, or that a policy
makes something else of, leaves no record.
-/

namespace MoDb.Proxy

open Storage (Bytes)
open Net

variable {σ ι : Type} {policy : Policy σ ι} {input : ι} {s s' : State σ ι}

/-! ### What is accounted for -/

/-- A request is in the records or pending. -/
structure Accounted (books : Books) : Prop where
  exact : books.asked.Perm (books.noted.map AuditRecord.verdict ++ books.pending.map Pending.verdict)
  unique : ∀ kind, (books.table kind).Unique
  kinds : ∀ entry ∈ books.pending, entry.kind ≠ .authenticate
  era : books.pending ≠ [] → books.era = .during

theorem accounted_empty : Accounted {} := by
  refine ⟨.refl _, ?_, nofun, fun h => absurd rfl h⟩
  intro kind
  cases kind with
  | _ => exact List.nodup_nil

theorem Accounted.quietly {books books' : Books} (hquietly : books.Quietly books') (h : Accounted books) :
    Accounted books' := by
  obtain ⟨hsame, hera⟩ := hquietly
  rw [hsame]
  refine ⟨h.exact, h.unique, h.kinds, ?_⟩
  intro hpending
  have hduring := h.era hpending
  rcases hera with hsame | hbefore
  · exact hsame.trans hduring
  · rw [hbefore] at hduring
    cases hduring

theorem Accounted.running {books : Books} (h : Accounted books) (running : List (UInt32 × Caller)) :
    Accounted { books with running } :=
  ⟨h.exact, h.unique, h.kinds, h.era⟩

theorem unique_setTable {books : Books} (h : ∀ kind, (books.table kind).Unique) {kind : RequestKind}
    {table : Table} (htable : table.Unique) (kind' : RequestKind) :
    ((books.setTable kind table).table kind').Unique := by
  rcases books.table_setTable kind kind' table with hnew | hold
  · rw [hnew]
    exact htable
  · rw [hold]
    exact h kind'

theorem Accounted.close {books : Books} (h : Accounted books) {kind : RequestKind} {id : UInt32}
    {done : Pending} {record : AuditRecord} (hfind : (books.table kind).find id = some done)
    (hverdict : record.verdict = done.verdict) :
    Accounted { books.setTable kind ((books.table kind).erase id) with noted := books.noted ++ [record] } := by
  have hpending := Books.perm_pending (Table.perm_erase (h.unique kind) hfind)
  refine ⟨?_, unique_setTable h.unique (Table.unique_erase (h.unique kind) id), ?_, ?_⟩
  · calc books.asked
      _ |>.Perm (books.noted.map AuditRecord.verdict ++ books.pending.map Pending.verdict) := h.exact
      _ |>.Perm (books.noted.map AuditRecord.verdict ++ (done.verdict ::
            (books.setTable kind ((books.table kind).erase id)).pending.map Pending.verdict)) :=
        (hpending.map Pending.verdict).append_left _
      _ = (books.noted ++ [record]).map AuditRecord.verdict ++
            (books.setTable kind ((books.table kind).erase id)).pending.map Pending.verdict := by
        rw [List.map_append, List.append_assoc, ← hverdict]
        rfl
  · exact fun entry hentry => h.kinds entry (hpending.mem_iff.2 (List.mem_cons_of_mem _ hentry))
  · exact fun _ => h.era fun hnone => by
      rw [hnone] at hpending
      exact List.cons_ne_nil _ _ hpending.symm.eq_nil

theorem Accounted.refuse {books : Books} (h : Accounted books) (record : AuditRecord) :
    Accounted { books with asked := books.asked ++ [record.verdict], noted := books.noted ++ [record] } := by
  refine ⟨?_, h.unique, h.kinds, h.era⟩
  calc books.asked ++ [record.verdict]
    _ |>.Perm (books.noted.map AuditRecord.verdict ++ books.pending.map Pending.verdict ++ [record.verdict]) :=
      h.exact.append_right _
    _ |>.Perm (books.noted.map AuditRecord.verdict ++ ([record.verdict] ++ books.pending.map Pending.verdict)) := by
      rw [List.append_assoc]
      exact List.perm_append_comm.append_left _
    _ = (books.noted ++ [record]).map AuditRecord.verdict ++ books.pending.map Pending.verdict := by
      rw [List.map_append, List.append_assoc]
      rfl

theorem Accounted.pend {books : Books} (h : Accounted books) {kind : RequestKind} {id : UInt32}
    {entry : Pending} (hfind : (books.table kind).find id = none) (hkind : entry.kind ≠ .authenticate)
    (hera : books.era = .during) :
    Accounted { books.setTable kind ((books.table kind).insert id entry) with
                asked := books.asked ++ [entry.verdict] } := by
  have hset : ∀ table : Table, (books.setTable kind table).table kind = table ∧
      (books.setTable kind table).setTable kind (books.table kind) = books := by
    intro table
    cases kind with
    | _ => exact ⟨rfl, rfl⟩
  have hunique := Table.unique_insert (h.unique kind) id entry
  rw [Table.insert_of_find_none hfind] at hunique ⊢
  have hpending : (books.setTable kind ((id, entry) :: books.table kind)).pending.Perm
      (entry :: books.pending) := by
    have hperm := @Books.perm_pending (books.setTable kind ((id, entry) :: books.table kind)) kind
      (books.table kind) id entry
    rw [(hset _).1, (hset _).2] at hperm
    exact hperm (.refl _)
  refine ⟨?_, unique_setTable h.unique hunique, ?_, fun _ => hera⟩
  · calc books.asked ++ [entry.verdict]
      _ |>.Perm (books.noted.map AuditRecord.verdict ++ books.pending.map Pending.verdict ++ [entry.verdict]) :=
        h.exact.append_right _
      _ |>.Perm (books.noted.map AuditRecord.verdict ++ (entry :: books.pending).map Pending.verdict) := by
        rw [List.append_assoc]
        exact List.perm_append_comm.append_left _
      _ |>.Perm (books.noted.map AuditRecord.verdict ++
            (books.setTable kind ((id, entry) :: books.table kind)).pending.map Pending.verdict) :=
        (hpending.symm.map _).append_left _
  · intro entry' hentry'
    rcases List.mem_cons.1 (hpending.mem_iff.1 hentry') with rfl | hold
    · exact hkind
    · exact h.kinds entry' hold

/-! ### Rounds -/

theorem Accounted.complete {state : σ} {session : Session σ ι} {kind : RequestKind} {id : UInt32} {ok : Bool}
    {code : WireCode} {message : Bytes} (h : Accounted session.books) :
    Accounted (Proxy.complete policy input state session kind id ok code message).2.books := by
  rcases @complete_cases _ _ policy input state session kind id ok code message with
    ⟨-, hnone⟩ | ⟨done, record, hfind, hverdict, -, hbooks⟩
  · rw [hnone]
    exact h
  · have hpending := Books.perm_pending (Table.perm_erase (h.unique kind) hfind)
    rw [hbooks (h.kinds done (hpending.mem_iff.2 List.mem_cons_self))]
    exact h.close hfind hverdict

theorem Accounted.count {books : Books} (h : Accounted books) (id : UInt32) (objects : Nat) :
    Accounted { books with queries := books.queries.count id objects } := by
  have hverdicts : (books.queries.count id objects).map (fun pair => pair.2.verdict) =
      books.queries.map fun pair => pair.2.verdict := by
    unfold Table.count
    rw [List.map_map]
    apply List.map_congr_left
    intro pair _
    dsimp only [Function.comp_apply]
    split
    · rfl
    · rfl
  have hpending : ({ books with queries := books.queries.count id objects : Books }).pending.map
      Pending.verdict = books.pending.map Pending.verdict := by
    unfold Books.pending
    rw [List.map_map, List.map_map, List.map_append, List.map_append, List.map_append, List.map_append]
    exact congrArg (fun verdicts => _ ++ verdicts ++ _) hverdicts
  refine ⟨?_, ?_, ?_, ?_⟩
  · rw [hpending]
    exact h.exact
  · intro kind
    have hkind := h.unique kind
    cases kind with
    | query => exact Table.unique_count hkind id objects
    | _ => exact hkind
  · intro entry hentry
    have hmem : entry.verdict ∈ books.pending.map Pending.verdict :=
      hpending ▸ List.mem_map_of_mem hentry
    obtain ⟨entry', hentry', hsame⟩ := List.mem_map.1 hmem
    have hkind : entry'.kind = entry.kind := congrArg Verdict.kind hsame
    exact hkind ▸ h.kinds entry' hentry'
  · intro hne
    apply h.era
    intro hnone
    rw [hnone] at hpending
    exact hne (List.map_eq_nil_iff.1 hpending)

theorem Accounted.settle {state : σ} {session : Session σ ι} {message : Message}
    (h : Accounted session.books) :
    Accounted (Proxy.settle policy input state session message).2.books := by
  unfold Proxy.settle
  split
  · exact h.count _ _
  · exact h.complete
  · exact h.complete
  · exact h.complete
  · exact h.complete
  · exact h.complete
  · exact h

theorem Accounted.writeOut {state : σ} {session : Session σ ι} {delivered : Bool}
    {result : σ × Session σ ι} (h : Accounted session.books)
    (hwrite : Proxy.writeOut policy input delivered state session = some result) :
    Accounted result.2.books := by
  obtain ⟨origin, response, out, -, -, hbooks⟩ := writeOut_cases hwrite
  rw [hbooks]
  apply Accounted.settle
  unfold Session.finish
  split
  · exact h.running _
  · exact h

theorem Accounted.closeSession {state : σ} {session : Session σ ι} (h : Accounted session.books) :
    Accounted (Proxy.closeSession policy input state session).2.books := by
  obtain ⟨records, hverdicts, -, hbooks⟩ := @closeSession_cases _ _ policy input state session h.kinds
  rw [hbooks]
  refine ⟨?_, accounted_empty.unique, nofun, fun hne => absurd rfl hne⟩
  calc session.asked
    _ |>.Perm (session.books.noted.map AuditRecord.verdict ++ session.books.pending.map Pending.verdict) :=
      h.exact
    _ = (session.books.noted ++ records).map AuditRecord.verdict ++ [] := by
      rw [List.map_append, hverdicts, List.append_nil]

/-- There is one record of the request: the policy leaves it a request that is audited, and no other of
its table has the id if it is let through. On a ring it is to be a call. -/
def OneRecord (policy : Policy σ ι) (s : State σ ι) : Action ι → Prop
  | .read i request _ _ input => ∀ session, s.sessions[i]? = some session → session.stage = .reading →
      (requestKey request).isSome = true →
      ∃ key, requestKey (decide policy input s.policy session request).2.1 = some key ∧
        ((decide policy input s.policy session request).1.allowed = true →
          (session.table key.kind).find key.id = none)
  | .readRing i (some request) input => ∀ session, s.sessions[i]? = some session →
      session.stage = .reading → (requestKey request).isSome = true →
      ∃ call call', request = .opCall call ∧
        (decide policy input s.policy session request).2.1 = .opCall call' ∧
        ((decide policy input s.policy session request).1.allowed = true →
          session.calls.find call'.callId = none)
  | _ => True

def AllAccounted (s : State σ ι) : Prop := ∀ books ∈ s.books, Accounted books

theorem AllAccounted.get (h : AllAccounted s) {i : Nat} {session : Session σ ι}
    (hsession : s.sessions[i]? = some session) : Accounted session.books :=
  h _ (List.mem_of_getElem? (getElem?_books hsession))

theorem AllAccounted.setSession (h : AllAccounted s) {i : Nat} {session : Session σ ι}
    (hset : s'.sessions = s.sessions.set i session) (haccounted : Accounted session.books) :
    AllAccounted s' := by
  intro books hbooks
  obtain ⟨other, hother, rfl⟩ := List.mem_map.1 hbooks
  rw [hset] at hother
  rcases List.mem_or_eq_of_mem_set hother with hold | rfl
  · exact h _ (List.mem_map_of_mem hold)
  · exact haccounted

theorem AllAccounted.sendEngine (h : AllAccounted s) {i : Nat} {message : Message}
    {session failed : Session σ ι} (hsession : Accounted session.books) (hfailed : Accounted failed.books) :
    AllAccounted (s.sendEngine i message session failed) := by
  rcases s.sendEngine_cases i message session failed with ⟨-, hsent⟩ | ⟨-, hsent⟩
  · rw [hsent]
    exact h.setSession rfl hfailed
  · rw [hsent]
    exact h.setSession rfl hsession

theorem verdict_of_key {request message : Message} {caller : Caller} {allowed : Bool} {key : RequestKey}
    (hkey : requestKey message = some key) :
    verdict request message caller allowed = [⟨key.kind, key.target, caller, !allowed⟩] := by
  unfold verdict
  rw [hkey]
  rfl

theorem AllAccounted.handleRequest (h : AllAccounted s) {i : Nat} {session : Session σ ι}
    {request : Message} {key : RequestKey} (hsession : s.sessions[i]? = some session)
    (hstage : session.stage = .reading)
    (hkey : requestKey (decide policy input s.policy session request).2.1 = some key)
    (hfind : (decide policy input s.policy session request).1.allowed = true →
      (session.table key.kind).find key.id = none) :
    AllAccounted (s.handleRequest policy input i session request) := by
  have haccounted := h.get hsession
  have hera : session.books.era = .during := by
    change session.stage.era = .during
    rw [hstage]
    rfl
  unfold State.handleRequest
  generalize decide policy input s.policy session request = decided at hkey hfind
  obtain ⟨decision, message, effective, state⟩ := decided
  dsimp only
  rw [verdict_of_key hkey]
  split
  · rename_i hrefused
    rw [hrefused]
    obtain ⟨record, hverdict, -, hbooks⟩ := @refuse_cases _ _ policy input state
      (session.note [⟨key.kind, key.target, effective, !false⟩]) decision message effective key hkey
    apply h.setSession rfl
    rw [hbooks]
    have hasked := haccounted.refuse record
    rw [hverdict] at hasked
    exact hasked
  · rename_i hallowed
    have hallowed := eq_true_of_ne_false hallowed
    rw [hallowed]
    have hpend := books_pend (session.note [⟨key.kind, key.target, effective, !true⟩]) effective hkey
    have hfree := hfind hallowed
    rw [← table_books] at hfree
    have hpending : Accounted ((session.note [⟨key.kind, key.target, effective, !true⟩]).pend message
        effective).books := by
      rw [hpend]
      exact @Accounted.pend _ haccounted key.kind key.id ⟨key.kind, key.target, effective, 0⟩ hfree
        (kind_requestKey hkey) hera
    have hsame : AllAccounted { s with policy := state } := h
    apply hsame.sendEngine
    · exact hpending.running _
    · exact ⟨hpending.exact, hpending.unique, hpending.kinds, fun _ => rfl⟩

theorem AllAccounted.readRing (h : AllAccounted s) {i : Nat} {session : Session σ ι}
    {request : Option Message} (hmeets : OneRecord policy s (.readRing i request input))
    (hsession : s.sessions[i]? = some session) (hstage : session.stage = .reading) :
    AllAccounted (s.readRing policy input i session request) := by
  have haccounted := h.get hsession
  have hera : session.books.era = .during := by
    change session.stage.era = .during
    rw [hstage]
    rfl
  -- What is no request that is audited is answered, and that is all.
  have hnote : ∀ message, Accounted (({ session with asked := session.asked ++ [] } : Session σ ι).push
      .proxy message).books := by
    intro message
    rw [books_push, List.append_nil]
    exact haccounted
  cases request with
  | none => exact h.setSession rfl (hnote _)
  | some request =>
    cases hkeyed : requestKey request with
    | none =>
      have hverdict : verdict request request session.caller false = [] := by
        unfold verdict
        rw [hkeyed]
        rfl
      have hother : s.readRing policy input i session (some request) =
          s.setSession i ((session.note (verdict request request session.caller false)).push .proxy
            (.opResult { ok := false, code := protocolErrorCode,
                         message := text "only OpCall travels over the shared-memory ring" })) := by
        cases request with
        | opCall call => cases hkeyed
        | _ => rfl
      rw [hother, hverdict]
      exact h.setSession rfl (hnote _)
    | some key =>
      obtain ⟨call, call', rfl, hmessage, hfind⟩ := hmeets session hsession hstage (by rw [hkeyed]; rfl)
      unfold State.readRing
      dsimp only
      generalize decide policy input s.policy session (.opCall call) = decided at hmessage hfind ⊢
      obtain ⟨⟨allowed, code, message⟩, request, effective, state⟩ := decided
      dsimp only at hmessage hfind ⊢
      subst hmessage
      have hkey : requestKey (.opCall call') = some ⟨.call, call'.callId, call'.operationId⟩ := rfl
      rw [verdict_of_key hkey]
      cases allowed with
      | false =>
        obtain ⟨record, hdenied, hkind, hcaller, htarget, -, hbooks⟩ := @refuseRing_cases _ _ policy input state
          (session.note [⟨.call, call'.operationId, effective, !false⟩]) ⟨false, code, message⟩ (.opCall call')
          effective
        apply h.setSession rfl
        rw [hbooks]
        have hverdict : record.verdict = ⟨.call, call'.operationId, effective, true⟩ := by
          unfold AuditRecord.verdict
          rw [hdenied, hkind, hcaller, htarget call' rfl]
        have hasked := haccounted.refuse record
        rw [hverdict] at hasked
        exact hasked
      | true =>
        have hpending : Accounted ((session.note [⟨.call, call'.operationId, effective, !true⟩]).pend
            (.opCall call') effective).books := by
          rw [books_pend _ effective hkey]
          exact @Accounted.pend _ haccounted .call call'.callId ⟨.call, call'.operationId, effective, 0⟩
            (hfind rfl) nofun hera
        have hsame : AllAccounted { s with policy := state } := h
        apply hsame.sendEngine hpending
        have hleft : ∀ session' : Session σ ι, Accounted session'.books →
            Accounted ({ session' with stage := .left } : Session σ ι).books := fun session' h' =>
          ⟨h'.exact, h'.unique, h'.kinds, fun _ => rfl⟩
        apply hleft
        rw [books_push]
        exact hpending

theorem AllAccounted.closeClient (h : AllAccounted s) {i : Nat} {session : Session σ ι}
    (hsession : s.sessions[i]? = some session) :
    AllAccounted (s.closeClient policy input i session) := by
  unfold State.closeClient
  dsimp only
  split
  · rename_i j ring hring
    obtain ⟨k, -, hget⟩ := Option.bind_eq_some_iff.1 hring
    obtain ⟨ring', hring', hpair⟩ := Option.map_eq_some_iff.1 hget
    cases hpair
    have hput : AllAccounted (s.put j (closeSession policy input s.policy ring)) :=
      h.setSession rfl (h.get hring').closeSession
    exact hput.setSession rfl (h.get hsession).closeSession
  · exact h.setSession rfl (h.get hsession).closeSession

theorem accounted_step {action : Action ι} (h : AllAccounted s) (hmeets : OneRecord policy s action)
    (hstep : s.step policy action = some s') : AllAccounted s' := by
  cases round_of_step hstep with
  | quiet hquiet => exact hquiet.all (fun hquietly h => h.quietly hquietly) accounted_empty h
  | request hsession _ hstage hkey =>
    obtain ⟨key, hkey, hfind⟩ := hmeets _ hsession hstage hkey
    exact h.handleRequest hsession hstage hkey hfind
  | ring hsession _ hstage => exact h.readRing hmeets hsession hstage
  | write hsession hwrite => exact h.setSession rfl ((h.get hsession).writeOut hwrite)
  | close hsession => exact h.closeClient hsession

def Session.noted (session : Session σ ι) : List AuditRecord := session.books.noted

/-- In every run in which there is one record of each request, what a session was asked is what its records
say and what is pending; and nothing is pending when it is closed. -/
theorem audited_run (policy : Policy σ ι) (state : σ) (engineMinor : UInt16) (actions : List (Action ι))
    (s : State σ ι) (hrun : Run policy (OneRecord policy) (.init state engineMinor) actions s) :
    ∀ session ∈ s.sessions,
      session.asked.Perm (session.noted.map AuditRecord.verdict ++ session.pending.map Pending.verdict) ∧
      (session.stage = .closed → session.asked.Perm (session.noted.map AuditRecord.verdict)) := by
  have h : AllAccounted s := hrun.inv (fun _ hmem => absurd hmem List.not_mem_nil)
    fun h hmeets hstep => accounted_step h hmeets hstep
  intro session hmem
  have haccounted : Accounted session.books := h _ (List.mem_map_of_mem hmem)
  have hexact : session.asked.Perm
      (session.noted.map AuditRecord.verdict ++ session.pending.map Pending.verdict) := haccounted.exact
  refine ⟨hexact, ?_⟩
  intro hclosed
  have hnone : session.pending = [] := by
    by_contra hne
    have hera : session.stage.era = .during := haccounted.era hne
    rw [hclosed] at hera
    cases hera
  rw [hnone, List.map_nil, List.append_nil] at hexact
  exact hexact

/-! ### A call that is answered, and two with one id -/

def plainResult : Message := .opResult { callId := 1 }

theorem audited_plainCall : ∃ s : State Unit Unit, ∃ session,
    s.sessions[0]? = some session ∧ session.stage = .closed ∧ session.asked.length = 1 ∧
    session.asked.Perm (session.noted.map AuditRecord.verdict) := by
  obtain ⟨s, session, hrun, hsession, hclosed, hasked⟩ : ∃ s : State Unit Unit, ∃ session,
      Run Policy.passThrough (OneRecord Policy.passThrough) (.init () 3)
        [.accept {}, .hello 0 hello (some (3, Compression.none)) (), .opened 0 true (),
          .read 0 plainCall (.error ⟨0, [], []⟩) false (), .engine 0 plainResult, .write 0 true (),
          .leave 0, .close 0 ()] s ∧
      s.sessions[0]? = some session ∧ session.stage = .closed ∧ session.asked.length = 1 := by
    refine ⟨_, _, .tail (.tail (.tail (.tail (.tail (.tail (.tail (.tail (.refl _) trivial rfl) trivial rfl)
      trivial rfl) ?_ rfl) trivial rfl) trivial rfl) trivial rfl) trivial rfl, rfl, rfl, rfl⟩
    intro session hsession _ _
    cases hsession
    exact ⟨_, rfl, fun _ => rfl⟩
  exact ⟨s, session, hsession, hclosed, hasked,
    (audited_run _ _ _ _ s hrun session (List.mem_of_getElem? hsession)).2 hclosed⟩

/-- The second call takes the place of the first one, of which there is no record. -/
theorem unaudited_repeatedCall : ∃ s : State Unit Unit, ∃ session,
    Run Policy.passThrough (fun _ _ => True) (.init () 3)
      [.accept {}, .hello 0 hello (some (3, Compression.none)) (), .opened 0 true (),
        .read 0 plainCall (.error ⟨0, [], []⟩) false (), .read 0 plainCall (.error ⟨0, [], []⟩) false (),
        .engine 0 plainResult, .write 0 true (), .engine 0 plainResult, .write 0 true (), .leave 0,
        .close 0 ()] s ∧
    s.sessions[0]? = some session ∧ session.stage = .closed ∧ s.forwarded.length = 2 ∧
    session.asked.length = 2 ∧ session.noted.length = 1 ∧
    ¬ session.asked.Perm (session.noted.map AuditRecord.verdict) := by
  refine ⟨_, _, .tail (.tail (.tail (.tail (.tail (.tail (.tail (.tail (.tail (.tail (.tail (.refl _)
    trivial rfl) trivial rfl) trivial rfl) trivial rfl) trivial rfl) trivial rfl) trivial rfl) trivial rfl)
    trivial rfl) trivial rfl) trivial rfl, rfl, rfl, rfl, rfl, rfl, ?_⟩
  intro hperm
  exact absurd hperm.length_eq (by decide)

end MoDb.Proxy
