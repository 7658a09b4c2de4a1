import MoDb.Proxy.AuditTrail
import Mathlib.Algebra.Order.BigOperators.Group.List
import Mathlib.Algebra.Order.Group.Nat

/-!
# The streams of an account

A limit counts the queries that it lets through, and counts down when one has its record. The two belong
together as long as each query that it lets through is passed on, under an id of its own, and no other query
is.
-/

namespace MoDb.Proxy

open Storage (Bytes)
open Net
open RateLimit (Accounts)

/-! ### Queries that run -/

def Books.streams (books : Books) (key : Bytes) : Nat := books.running.countP fun query => keyOf query.2 = key

def Verdict.stream (verdict : Verdict) (key : Bytes) : Bool :=
  verdict.kind = .query ∧ verdict.denied = false ∧ keyOf verdict.caller = key

/-- What runs is what is pending. -/
structure Streaming (books : Books) : Prop where
  running : books.running.Perm (books.queries.map fun pair => (pair.1, pair.2.caller))
  unique : books.queries.Unique
  queries : ∀ pair ∈ books.queries, pair.2.kind = .query
  calls : ∀ pair ∈ books.calls, pair.2.kind = .call
  facades : ∀ pair ∈ books.facades, pair.2.kind = .facadeList ∨ pair.2.kind = .facadeOpen

theorem streaming_empty : Streaming {} :=
  ⟨.refl _, List.nodup_nil, nofun, nofun, nofun⟩

theorem Streaming.quietly {books books' : Books} (hquietly : books.Quietly books') (h : Streaming books) :
    Streaming books' := by
  rw [hquietly.1]
  exact ⟨h.running, h.unique, h.queries, h.calls, h.facades⟩

theorem Streaming.kinds {books : Books} (h : Streaming books) :
    ∀ entry ∈ books.pending, entry.kind ≠ .authenticate := by
  intro entry hentry
  obtain ⟨pair, hpair, rfl⟩ := List.mem_map.1 hentry
  rcases List.mem_append.1 hpair with hmore | hfacade
  · rcases List.mem_append.1 hmore with hcall | hquery
    · rw [h.calls pair hcall]
      exact nofun
    · rw [h.queries pair hquery]
      exact nofun
  · rcases h.facades pair hfacade with hkind | hkind
    · rw [hkind]
      exact nofun
    · rw [hkind]
      exact nofun

theorem Streaming.countP_pending {books : Books} (h : Streaming books) (key : Bytes) :
    (books.pending.map Pending.verdict).countP (fun verdict => verdict.stream key) = books.streams key := by
  have hnone : ∀ {table : Table}, (∀ pair ∈ table, pair.2.kind ≠ .query) →
      (table.map Prod.snd).countP (fun entry => entry.verdict.stream key) = 0 := by
    intro table hkinds
    rw [List.countP_eq_zero]
    intro entry hentry
    obtain ⟨pair, hpair, rfl⟩ := List.mem_map.1 hentry
    unfold Verdict.stream Pending.verdict
    simp only [hkinds pair hpair, false_and, decide_false, Bool.false_eq_true, not_false_eq_true]
  have hcalls : (books.calls.map Prod.snd).countP (fun entry => entry.verdict.stream key) = 0 := by
    apply hnone
    intro pair hpair
    rw [h.calls pair hpair]
    exact nofun
  have hfacades : (books.facades.map Prod.snd).countP (fun entry => entry.verdict.stream key) = 0 := by
    apply hnone
    intro pair hpair
    rcases h.facades pair hpair with hkind | hkind
    · rw [hkind]
      exact nofun
    · rw [hkind]
      exact nofun
  have hqueries : (books.queries.map Prod.snd).countP (fun entry => entry.verdict.stream key) =
      books.streams key := by
    unfold Books.streams
    rw [h.running.countP_eq, List.countP_map, List.countP_map]
    apply List.countP_congr
    intro pair hpair
    unfold Verdict.stream Pending.verdict
    simp only [Function.comp_apply, h.queries pair hpair, true_and]
  calc (books.pending.map Pending.verdict).countP (fun verdict => verdict.stream key)
    _ = books.pending.countP (fun entry => entry.verdict.stream key) := List.countP_map
    _ = (books.calls.map Prod.snd).countP (fun entry => entry.verdict.stream key) +
        (books.queries.map Prod.snd).countP (fun entry => entry.verdict.stream key) +
        (books.facades.map Prod.snd).countP (fun entry => entry.verdict.stream key) := by
      unfold Books.pending
      rw [List.map_append, List.map_append, List.countP_append, List.countP_append]
    _ = books.streams key := by rw [hcalls, hfacades, hqueries, zero_add, add_zero]

/-! ### A limit in a chain -/

section Chain

variable {σ τ ι κ : Type} (before : Policy σ ι) (limits : RateLimit) (after : Policy τ κ)

def limited : Policy (σ × Accounts × τ) (ι × Tokens × κ) := before.andThen (limits.policy.andThen after)

variable {before limits after}

theorem accounts_audit (hlimits : 0 < limits.streamsPerPrincipal) (state : σ × Accounts × τ)
    (input : ι × Tokens × κ) (record : AuditRecord) (key : Bytes) :
    ((limited before limits after).audit state input record).2.1 key =
      state.2.1 key - (if record.verdict.stream key then 1 else 0) := by
  change limits.audit state.2.1 record key = _
  unfold RateLimit.audit
  split
  · rename_i hother
    have hnone : record.verdict.stream key = false := by
      unfold Verdict.stream AuditRecord.verdict
      rcases hother with hkind | hdenied | hzero
      · simp only [hkind, false_and, decide_false]
      · simp only [hdenied, Bool.true_eq_false, false_and, and_false, decide_false]
      · omega
    rw [hnone]
    rfl
  · rename_i hstream
    have hkind : record.kind = .query := by
      by_contra hkind
      exact hstream (.inl hkind)
    have hdenied : record.denied = false := by
      by_contra hdenied
      exact hstream (.inr (.inl (eq_true_of_ne_false hdenied)))
    unfold Verdict.stream AuditRecord.verdict
    simp only [hkind, hdenied, true_and, decide_eq_true_eq]
    by_cases hkey : keyOf record.caller = key
    · rw [if_pos hkey, ← hkey, Function.update_self]
    · rw [if_neg hkey, Function.update_of_ne (Ne.symm hkey)]
      rfl

theorem accounts_calm {state state' : σ × Accounts × τ} (hlimits : 0 < limits.streamsPerPrincipal)
    (hcalm : Calm (limited before limits after) state state') : state'.2.1 = state.2.1 := by
  induction hcalm with
  | refl => rfl
  | authenticate input client credentials =>
    unfold limited Policy.andThen
    dsimp only
    split
    · rfl
    · split
      · split
        · rfl
        · rfl
      · rfl
  | audit hcalm input record hkind ih =>
    funext key
    rw [accounts_audit hlimits, ih]
    have hnone : record.verdict.stream key = false := by
      unfold Verdict.stream AuditRecord.verdict
      rw [hkind]
      rfl
    rw [hnone]
    rfl
  | onEngine => rfl

/-! ### The account of all sessions -/

def State.streams {σ ι : Type} (s : State σ ι) (key : Bytes) : Nat :=
  (s.books.map fun books => books.streams key).sum

/-- The limit has counted the queries that run. -/
structure Exact (s : State (σ × Accounts × τ) (ι × Tokens × κ)) : Prop where
  streaming : ∀ books ∈ s.books, Streaming books
  count : ∀ key, s.policy.2.1 key = s.streams key

variable {s s' : State (σ × Accounts × τ) (ι × Tokens × κ)} {input : ι × Tokens × κ}

theorem exact_quiet (h : Exact s) (hlimits : 0 < limits.streamsPerPrincipal)
    (hquiet : Quiet (limited before limits after) s s') : Exact s' := by
  refine ⟨hquiet.all (fun hquietly h => h.quietly hquietly) streaming_empty h.streaming, ?_⟩
  intro key
  rw [accounts_calm hlimits hquiet.policy, h.count key]
  obtain ⟨kept, more, hbooks, hquietly, hmore⟩ := hquiet.books
  have hkept : ∀ {old kept : List Books}, old.Forall₂ Books.Quietly kept →
      kept.map (fun books => books.streams key) = old.map fun books => books.streams key := by
    intro old kept hquietly
    induction hquietly with
    | nil => rfl
    | cons hfirst hrest ih =>
      rw [List.map_cons, List.map_cons, ih, hfirst.1]
      rfl
  have hnew : ∀ {more : List Books}, (∀ books ∈ more, ({} : Books).Quietly books) →
      (more.map fun books => books.streams key).sum = 0 := by
    intro more hmore
    apply List.sum_eq_zero
    intro streams hstreams
    obtain ⟨books, hbooks, rfl⟩ := List.mem_map.1 hstreams
    rw [(hmore books hbooks).1]
    rfl
  unfold State.streams
  rw [hbooks, List.map_append, List.sum_append, hkept hquietly, hnew hmore, add_zero]

theorem sum_map_set {α : Type} (f : α → Nat) {l : List α} {i : Nat} {a : α} (a' : α) (hget : l[i]? = some a) :
    ((l.set i a').map f).sum + f a = (l.map f).sum + f a' := by
  induction l generalizing i with
  | nil => cases hget
  | cons first l ih =>
    cases i with
    | zero =>
      cases hget
      rw [List.set_cons_zero, List.map_cons, List.map_cons, List.sum_cons, List.sum_cons]
      omega
    | succ i =>
      have hrest := ih hget
      rw [List.set_cons_succ, List.map_cons, List.map_cons, List.sum_cons, List.sum_cons]
      omega

theorem Exact.set (h : Exact s) {i : Nat} {session session' : Session (σ × Accounts × τ) (ι × Tokens × κ)}
    (hsession : s.sessions[i]? = some session) (hset : s'.sessions = s.sessions.set i session')
    (hstreaming : Streaming session'.books)
    (hcount : ∀ key, session.books.streams key ≤ s.policy.2.1 key →
      s'.policy.2.1 key + session.books.streams key = s.policy.2.1 key + session'.books.streams key) :
    Exact s' := by
  have hbooks : s'.books = s.books.set i session'.books := by
    unfold State.books
    rw [hset, List.map_set]
  refine ⟨?_, ?_⟩
  · intro books hmem
    rw [hbooks] at hmem
    rcases List.mem_or_eq_of_mem_set hmem with hold | rfl
    · exact h.streaming books hold
    · exact hstreaming
  · intro key
    have hsum := sum_map_set (fun books => books.streams key) session'.books (getElem?_books hsession)
    have hle : session.books.streams key ≤ s.streams key :=
      List.le_sum_of_mem
        (List.mem_map_of_mem (List.mem_of_getElem? (getElem?_books hsession)))
    have hcount := hcount key ((h.count key).symm ▸ hle)
    rw [h.count key] at hcount
    change s'.policy.2.1 key = (s'.books.map fun books => books.streams key).sum
    rw [hbooks]
    change _ = s.streams key + _ at hsum
    omega

theorem accounts_foldl (hlimits : 0 < limits.streamsPerPrincipal) (records : List AuditRecord)
    (state : σ × Accounts × τ) (key : Bytes) :
    (records.foldl (fun state record => (limited before limits after).audit state input record) state).2.1 key =
      state.2.1 key - (records.map AuditRecord.verdict).countP fun verdict => verdict.stream key := by
  induction records generalizing state with
  | nil => rfl
  | cons record records ih =>
    rw [List.foldl_cons, ih, accounts_audit hlimits, List.map_cons, List.countP_cons, Nat.sub_sub,
      Nat.add_comm]

theorem Exact.closeSession (h : Exact s) (hlimits : 0 < limits.streamsPerPrincipal) {i : Nat}
    {session : Session (σ × Accounts × τ) (ι × Tokens × κ)} (hsession : s.sessions[i]? = some session) :
    Exact (s.put i (Proxy.closeSession (limited before limits after) input s.policy session)) := by
  have hstreaming := h.streaming _ (List.mem_of_getElem? (getElem?_books hsession))
  obtain ⟨records, hverdicts, hstate, hbooks⟩ :=
    @closeSession_cases _ _ (limited before limits after) input s.policy session hstreaming.kinds
  apply h.set hsession rfl
  · rw [hbooks]
    exact ⟨.refl _, List.nodup_nil, nofun, nofun, nofun⟩
  · intro key hle
    change (Proxy.closeSession (limited before limits after) input s.policy session).1.2.1 key + _ = _
    rw [hstate, accounts_foldl hlimits, hverdicts, hstreaming.countP_pending, hbooks,
      Nat.sub_add_cancel hle]
    rfl

theorem Exact.closeClient (h : Exact s) (hlimits : 0 < limits.streamsPerPrincipal) {i : Nat}
    {session : Session (σ × Accounts × τ) (ι × Tokens × κ)} (hsession : s.sessions[i]? = some session)
    (howner : session.owner = none) :
    Exact (s.closeClient (limited before limits after) input i session) := by
  unfold State.closeClient
  dsimp only
  split
  · rename_i j ring hring
    obtain ⟨k, hk, hget⟩ := Option.bind_eq_some_iff.1 hring
    obtain ⟨ring', hring', hpair⟩ := Option.map_eq_some_iff.1 hget
    cases hpair
    -- The ring is another session, which has an owner.
    have hne : j ≠ i := by
      rintro rfl
      rw [hsession] at hring'
      cases hring'
      obtain ⟨hlt, howned, -⟩ := List.findIdx?_eq_some_iff_getElem.1 hk
      have hsame : s.sessions[j] = session := (List.getElem?_eq_some_iff.1 hsession).2
      rw [hsame, howner] at howned
      cases howned
    have hput : Exact (s.put j (Proxy.closeSession (limited before limits after) input s.policy ring)) :=
      h.closeSession hlimits hring'
    apply hput.closeSession hlimits
    exact (List.getElem?_set_ne hne).trans hsession
  · exact h.closeSession hlimits hsession

/-! ### Answers -/

theorem stream_of_kind {verdict : Verdict} (hkind : verdict.kind ≠ .query) (key : Bytes) :
    verdict.stream key = false := by
  unfold Verdict.stream
  simp only [hkind, false_and, decide_false]

theorem streaming_complete (hlimits : 0 < limits.streamsPerPrincipal) {state : σ × Accounts × τ}
    {session : Session (σ × Accounts × τ) (ι × Tokens × κ)} {kind : RequestKind} {id : UInt32} {ok : Bool}
    {code : WireCode} {message : Bytes} (h : Streaming session.books) (hkind : kind ≠ .query) :
    Streaming (complete (limited before limits after) input state session kind id ok code message).2.books ∧
      ∀ key, (complete (limited before limits after) input state session kind id ok code message).1.2.1 key +
        session.books.streams key = state.2.1 key +
          (complete (limited before limits after) input state session kind id ok code message).2.books.streams
            key := by
  rcases @complete_cases _ _ (limited before limits after) input state session kind id ok code message with
    ⟨-, hnone⟩ | ⟨done, record, hfind, hverdict, hstate, hbooks⟩
  · rw [hnone]
    exact ⟨h, fun key => rfl⟩
  · obtain ⟨pair, hpair, rfl⟩ := Option.map_eq_some_iff.1 hfind
    have hmem := List.mem_of_find?_eq_some hpair
    have herase : ∀ {table : Table}, ∀ pair ∈ table.erase id, pair ∈ table :=
      fun pair hpair => List.mem_of_mem_filter hpair
    obtain ⟨hdone, hauthenticate, hstreaming⟩ : pair.2.kind ≠ .query ∧ pair.2.kind ≠ .authenticate ∧
        Streaming { session.books.setTable kind ((session.books.table kind).erase id) with
          noted := session.books.noted ++ [record] } := by
      cases kind with
      | query => exact absurd rfl hkind
      | call =>
        refine ⟨?_, ?_, h.running, h.unique, h.queries, fun pair hpair => h.calls pair (herase pair hpair),
          h.facades⟩
        · rw [h.calls pair hmem]
          exact nofun
        · rw [h.calls pair hmem]
          exact nofun
      | facadeList | facadeOpen | authenticate =>
        refine ⟨?_, ?_, h.running, h.unique, h.queries, h.calls,
          fun pair hpair => h.facades pair (herase pair hpair)⟩
        · rcases h.facades pair hmem with hfacade | hfacade
          · rw [hfacade]
            exact nofun
          · rw [hfacade]
            exact nofun
        · rcases h.facades pair hmem with hfacade | hfacade
          · rw [hfacade]
            exact nofun
          · rw [hfacade]
            exact nofun
    rw [hbooks hauthenticate, hstate]
    refine ⟨hstreaming, fun key => ?_⟩
    have hkind : record.verdict.kind ≠ .query := by
      rw [hverdict]
      exact hdone
    rw [accounts_audit hlimits, stream_of_kind hkind]
    rfl

theorem Streaming.finish {books : Books} (h : Streaming books) {id : UInt32} {done : Pending}
    (hfind : books.queries.find id = some done) :
    (books.running.eraseP fun query => query.1 = id).Perm
        ((books.queries.erase id).map fun pair => (pair.1, pair.2.caller)) ∧
      ∀ key, books.streams key = (books.running.eraseP fun query => query.1 = id).countP
        (fun query => keyOf query.2 = key) + if keyOf done.caller = key then 1 else 0 := by
  have hperm : books.running.Perm
      ((id, done.caller) :: (books.queries.erase id).map fun pair => (pair.1, pair.2.caller)) :=
    h.running.trans ((Table.perm_erase h.unique hfind).map fun pair => (pair.1, pair.2.caller))
  have hunique : (books.running.map Prod.fst).Nodup := by
    rw [(h.running.map Prod.fst).nodup_iff, List.map_map]
    exact h.unique
  have hrest : (books.running.eraseP fun query => query.1 = id).Perm
      ((books.queries.erase id).map fun pair => (pair.1, pair.2.caller)) := by
    have herase := List.Perm.eraseP (fun query : UInt32 × Caller => query.1 = id) ?_ hperm
    · rwa [List.eraseP_cons_of_pos (by simp)] at herase
    · refine (List.pairwise_map.1 hunique).imp ?_
      intro query query' hne hquery hquery'
      exact hne ((of_decide_eq_true hquery).trans (of_decide_eq_true hquery').symm)
  refine ⟨hrest, fun key => ?_⟩
  unfold Books.streams
  rw [hrest.countP_eq, hperm.countP_eq, List.countP_cons]
  simp only [decide_eq_true_eq]

theorem Streaming.eraseP_none {books : Books} (h : Streaming books) {id : UInt32}
    (hfind : books.queries.find id = none) :
    (books.running.eraseP fun query => query.1 = id) = books.running := by
  apply List.eraseP_of_forall_not
  intro query hquery
  obtain ⟨pair, hpair, rfl⟩ := List.mem_map.1 (h.running.mem_iff.1 hquery)
  exact List.find?_eq_none.1 (Option.map_eq_none_iff.1 hfind) pair hpair

theorem streaming_end (hlimits : 0 < limits.streamsPerPrincipal) {state : σ × Accounts × τ}
    {session : Session (σ × Accounts × τ) (ι × Tokens × κ)} {id : UInt32} {ok : Bool} {code : WireCode}
    {message : Bytes} (h : Streaming session.books)
    {ended : Session (σ × Accounts × τ) (ι × Tokens × κ)}
    (hended : ended.books =
      { session.books with running := session.books.running.eraseP fun query => query.1 = id }) :
    Streaming (complete (limited before limits after) input state ended .query id ok code message).2.books ∧
      ∀ key, session.books.streams key ≤ state.2.1 key →
        (complete (limited before limits after) input state ended .query id ok code message).1.2.1 key +
          session.books.streams key = state.2.1 key +
            (complete (limited before limits after) input state ended .query id ok code message).2.books.streams
              key := by
  rcases @complete_cases _ _ (limited before limits after) input state ended .query id ok code message with
    ⟨hfind, hnone⟩ | ⟨done, record, hfind, hverdict, hstate, hbooks⟩
  · rw [hended] at hfind
    have hsame : ended.books = session.books := by
      rw [hended, h.eraseP_none hfind]
    rw [hnone, hsame]
    exact ⟨h, fun key _ => rfl⟩
  · rw [hended] at hfind
    obtain ⟨hrunning, hcount⟩ := h.finish hfind
    obtain ⟨pair, hpair, rfl⟩ := Option.map_eq_some_iff.1 hfind
    have hdone := h.queries pair (List.mem_of_find?_eq_some hpair)
    have hauthenticate : pair.2.kind ≠ .authenticate := by
      rw [hdone]
      exact nofun
    rw [hbooks hauthenticate, hstate, hended]
    refine ⟨⟨hrunning, Table.unique_erase h.unique id,
      fun pair hpair => h.queries pair (List.mem_of_mem_filter hpair), h.calls, h.facades⟩, ?_⟩
    intro key hle
    have hstream : record.verdict.stream key = Decidable.decide (keyOf pair.2.caller = key) := by
      rw [hverdict]
      unfold Verdict.stream Pending.verdict
      simp only [hdone, true_and]
    rw [accounts_audit hlimits, hstream]
    have hsplit := hcount key
    simp only [decide_eq_true_eq]
    change _ = _ + (session.books.running.eraseP fun query => query.1 = id).countP _
    split
    · rename_i hkey
      rw [if_pos hkey] at hsplit
      omega
    · rename_i hkey
      rw [if_neg hkey] at hsplit
      omega

theorem endedQuery_shown {σ ι : Type} (session : Session σ ι) (message : Message) :
    endedQuery (shown session message) = endedQuery message := by
  cases message with
  | _ => rfl

theorem streaming_settle (hlimits : 0 < limits.streamsPerPrincipal) {state : σ × Accounts × τ}
    {session : Session (σ × Accounts × τ) (ι × Tokens × κ)} {origin : Origin} {message : Message}
    (h : Streaming session.books)
    (hproxy : origin = .proxy → ∀ id, endedQuery message = some id → session.queries.find id = none) :
    Streaming (settle (limited before limits after) input state (session.finish origin message) message).2.books ∧
      ∀ key, session.books.streams key ≤ state.2.1 key →
        (settle (limited before limits after) input state (session.finish origin message) message).1.2.1 key +
          session.books.streams key = state.2.1 key +
            (settle (limited before limits after) input state (session.finish origin message) message).2.books.streams
              key := by
  -- A query ends: for the engine it no longer runs, and the proxy has none with that id.
  have hended : ∀ (id : UInt32) (ok : Bool) (code : WireCode) (text : Bytes), endedQuery message = some id →
      Streaming (complete (limited before limits after) input state (session.finish origin message) .query id ok
        code text).2.books ∧
      ∀ key, session.books.streams key ≤ state.2.1 key →
        (complete (limited before limits after) input state (session.finish origin message) .query id ok code
          text).1.2.1 key + session.books.streams key = state.2.1 key +
            (complete (limited before limits after) input state (session.finish origin message) .query id ok code
              text).2.books.streams key := by
    intro id ok code text hid
    apply streaming_end hlimits h
    unfold Session.finish
    rw [hid]
    cases origin with
    | engine => rfl
    | proxy =>
      have hnone := h.eraseP_none (hproxy rfl id hid)
      dsimp only
      rw [hnone]
  have hother : endedQuery message = none → session.finish origin message = session := by
    intro hnone
    unfold Session.finish
    rw [hnone]
    cases origin with
    | _ => rfl
  cases message with
  | streamEnd body => exact hended _ _ _ _ rfl
  | streamError body => exact hended _ _ _ _ rfl
  | objectFrame frame =>
    rw [hother rfl]
    have hids : (session.queries.count frame.queryId frame.records.length).map
        (fun pair => (pair.1, pair.2.caller)) = session.queries.map fun pair => (pair.1, pair.2.caller) := by
      unfold Table.count
      rw [List.map_map]
      apply List.map_congr_left
      intro pair _
      dsimp only [Function.comp_apply]
      split
      · rfl
      · rfl
    refine ⟨⟨?_, Table.unique_count h.unique _ _, ?_, h.calls, h.facades⟩, fun key _ => rfl⟩
    · change session.running.Perm ((session.queries.count frame.queryId frame.records.length).map _)
      rw [hids]
      exact h.running
    · intro pair hpair
      obtain ⟨old, hold, rfl⟩ := List.mem_map.1 hpair
      split
      · exact h.queries old hold
      · exact h.queries old hold
  | opResult result =>
    rw [hother rfl]
    obtain ⟨hstreaming, hcount⟩ := @streaming_complete _ _ _ _ before limits after input hlimits state session
      .call result.callId result.ok result.code result.message h nofun
    exact ⟨hstreaming, fun key _ => hcount key⟩
  | facadeListOk list =>
    rw [hother rfl]
    obtain ⟨hstreaming, hcount⟩ := @streaming_complete _ _ _ _ before limits after input hlimits state session
      .facadeList list.requestId true invalidArgumentCode [] h nofun
    exact ⟨hstreaming, fun key _ => hcount key⟩
  | facadeOpenOk facade =>
    rw [hother rfl]
    obtain ⟨hstreaming, hcount⟩ := @streaming_complete _ _ _ _ before limits after input hlimits state session
      .facadeOpen facade.requestId facade.ok facade.code facade.message h nofun
    exact ⟨hstreaming, fun key _ => hcount key⟩
  | _ =>
    rw [hother rfl]
    exact ⟨h, fun key _ => rfl⟩

def OwnAnswers (before : Policy σ ι) (limits : RateLimit) (after : Policy τ κ)
    (s : State (σ × Accounts × τ) (ι × Tokens × κ)) (session : Session (σ × Accounts × τ) (ι × Tokens × κ))
    (input : ι × Tokens × κ) : Prop :=
  ∀ response out id, session.out = (.proxy, response) :: out →
    endedQuery ((limited before limits after).onResponse s.policy input session.caller response).1 = some id →
    session.queries.find id = none

theorem Exact.writeOut (h : Exact s) (hlimits : 0 < limits.streamsPerPrincipal) {i : Nat}
    {session : Session (σ × Accounts × τ) (ι × Tokens × κ)} {delivered : Bool}
    {result : (σ × Accounts × τ) × Session (σ × Accounts × τ) (ι × Tokens × κ)}
    (hsession : s.sessions[i]? = some session) (hown : OwnAnswers before limits after s session input)
    (hwrite : Proxy.writeOut (limited before limits after) input delivered s.policy session = some result) :
    Exact (s.put i result) := by
  have hstreaming := h.streaming _ (List.mem_of_getElem? (getElem?_books hsession))
  obtain ⟨origin, response, out, hout, hstate, hbooks⟩ := writeOut_cases hwrite
  have hproxy : origin = .proxy → ∀ id, endedQuery (shown session
      ((limited before limits after).onResponse s.policy input session.caller response).1) = some id →
      ({ session with out } : Session (σ × Accounts × τ) (ι × Tokens × κ)).queries.find id = none := by
    rintro rfl id hid
    rw [endedQuery_shown] at hid
    exact hown response out id hout hid
  obtain ⟨hsettled, hcount⟩ := @streaming_settle _ _ _ _ before limits after input hlimits
    ((limited before limits after).onResponse s.policy input session.caller response).2
    { session with out } origin _ hstreaming hproxy
  rw [← hbooks] at hsettled
  apply h.set hsession rfl hsettled
  intro key hle
  have hcount := hcount key hle
  rw [← hbooks, ← hstate] at hcount
  exact hcount

/-! ### Requests -/

def isQuery : Message → Bool
  | .query _ => true
  | _ => false

theorem limits_authorize (hlimits : 0 < limits.streamsPerPrincipal) (streams : Accounts) (tokens : Tokens)
    (caller : Caller) (request : Message) :
    (limits.authorize streams tokens caller request).2.1 = request ∧
      ((isQuery request = true ∧ (limits.authorize streams tokens caller request).1.allowed = true ∧
          (limits.authorize streams tokens caller request).2.2 =
            Function.update streams (keyOf caller) (streams (keyOf caller) + 1)) ∨
        ((isQuery request = false ∨ (limits.authorize streams tokens caller request).1.allowed = false) ∧
          (limits.authorize streams tokens caller request).2.2 = streams)) := by
  unfold RateLimit.authorize
  split
  · split
    · exact ⟨rfl, .inr ⟨.inl rfl, rfl⟩⟩
    · split
      · exact ⟨rfl, .inr ⟨.inl rfl, rfl⟩⟩
      · exact ⟨rfl, .inr ⟨.inl rfl, rfl⟩⟩
  · split
    · omega
    · split
      · exact ⟨rfl, .inr ⟨.inr rfl, rfl⟩⟩
      · exact ⟨rfl, .inl ⟨rfl, rfl, rfl⟩⟩
  · rename_i hcall hquery
    refine ⟨rfl, .inr ⟨.inl ?_, rfl⟩⟩
    cases request with
    | query query => exact absurd rfl (hquery query)
    | _ => rfl

/-- Each query that the limit lets through is passed on, under an id that no other query of the session
has, and no other query is. -/
def PassedOn (before : Policy σ ι) (limits : RateLimit) (after : Policy τ κ)
    (s : State (σ × Accounts × τ) (ι × Tokens × κ)) (session : Session (σ × Accounts × τ) (ι × Tokens × κ))
    (input : ι × Tokens × κ) (request : Message) : Prop :=
  ∀ effective, checkDelegation session.caller request session.engineMinor = (none, effective) →
    let first := before.authorize s.policy.1 input.1 effective request
    let limit := limits.authorize s.policy.2.1 input.2.1 effective first.2.1
    let last := after.authorize s.policy.2.2 input.2.2 effective first.2.1
    first.1.allowed = true → limit.1.allowed = true →
      (isQuery first.2.1 = true → s.link.isSome = true ∧ last.1.allowed = true ∧ isQuery last.2.1 = true) ∧
      (last.1.allowed = true → ∀ query, last.2.1 = .query query →
        isQuery first.2.1 = true ∧ session.queries.find query.queryId = none)

def NoQuery (before : Policy σ ι) (limits : RateLimit)
    (s : State (σ × Accounts × τ) (ι × Tokens × κ)) (session : Session (σ × Accounts × τ) (ι × Tokens × κ))
    (input : ι × Tokens × κ) (request : Message) : Prop :=
  ∀ effective, checkDelegation session.caller request session.engineMinor = (none, effective) →
    let first := before.authorize s.policy.1 input.1 effective request
    let limit := limits.authorize s.policy.2.1 input.2.1 effective first.2.1
    first.1.allowed = true → limit.1.allowed = true → isQuery first.2.1 = false

theorem andThen_authorize {first : Policy σ ι} {rest : Policy τ κ} (state : σ × τ) (input : ι × κ)
    (caller : Caller) (request : Message) :
    ((first.authorize state.1 input.1 caller request).1.allowed = false ∧
      (first.andThen rest).authorize state input caller request =
        ((first.authorize state.1 input.1 caller request).1, (first.authorize state.1 input.1 caller request).2.1,
          (first.authorize state.1 input.1 caller request).2.2, state.2)) ∨
    ((first.authorize state.1 input.1 caller request).1.allowed = true ∧
      (first.andThen rest).authorize state input caller request =
        ((rest.authorize state.2 input.2 caller (first.authorize state.1 input.1 caller request).2.1).1,
          (rest.authorize state.2 input.2 caller (first.authorize state.1 input.1 caller request).2.1).2.1,
          (first.authorize state.1 input.1 caller request).2.2,
          (rest.authorize state.2 input.2 caller (first.authorize state.1 input.1 caller request).2.1).2.2)) := by
  cases hallowed : (first.authorize state.1 input.1 caller request).1.allowed with
  | false => exact .inl ⟨rfl, if_pos hallowed⟩
  | true => exact .inr ⟨rfl, if_neg (by rw [hallowed]; exact nofun)⟩

theorem decide_limited (hlimits : 0 < limits.streamsPerPrincipal)
    {session : Session (σ × Accounts × τ) (ι × Tokens × κ)} {request : Message} :
    ((decide (limited before limits after) input s.policy session request).1.allowed = false ∧
      (decide (limited before limits after) input s.policy session request).2.2.2.2.1 = s.policy.2.1) ∨
    ∃ effective, checkDelegation session.caller request session.engineMinor = (none, effective) ∧
      (decide (limited before limits after) input s.policy session request).2.2.1 = effective ∧
      (before.authorize s.policy.1 input.1 effective request).1.allowed = true ∧
      (limits.authorize s.policy.2.1 input.2.1 effective
        (before.authorize s.policy.1 input.1 effective request).2.1).1.allowed = true ∧
      (decide (limited before limits after) input s.policy session request).1 =
        (after.authorize s.policy.2.2 input.2.2 effective
          (before.authorize s.policy.1 input.1 effective request).2.1).1 ∧
      (decide (limited before limits after) input s.policy session request).2.1 =
        (after.authorize s.policy.2.2 input.2.2 effective
          (before.authorize s.policy.1 input.1 effective request).2.1).2.1 ∧
      (decide (limited before limits after) input s.policy session request).2.2.2.2.1 =
        if isQuery (before.authorize s.policy.1 input.1 effective request).2.1 = true then
          Function.update s.policy.2.1 (keyOf effective) (s.policy.2.1 (keyOf effective) + 1)
        else s.policy.2.1 := by
  cases hcheck : checkDelegation session.caller request session.engineMinor with
  | mk refusal effective =>
    cases refusal with
    | some refusal =>
      left
      refine ⟨?_, ?_⟩
      · by_contra hallowed
        obtain ⟨other, hnone, -⟩ := decide_allowed (eq_true_of_ne_false hallowed)
        rw [hcheck] at hnone
        cases hnone
      · unfold decide
        rw [hcheck]
    | none =>
      have hdecide : decide (limited before limits after) input s.policy session request =
          (((limited before limits after).authorize s.policy input effective request).1,
            ((limited before limits after).authorize s.policy input effective request).2.1, effective,
            ((limited before limits after).authorize s.policy input effective request).2.2) := by
        unfold decide
        rw [hcheck]
      rw [hdecide]
      obtain ⟨hsame, hcount⟩ := limits_authorize hlimits s.policy.2.1 input.2.1 effective
        (before.authorize s.policy.1 input.1 effective request).2.1
      rcases @andThen_authorize _ _ _ _ before (limits.policy.andThen after) s.policy input effective request with
        ⟨hdenied, hchain⟩ | ⟨hfirst, hchain⟩
      · unfold limited
        rw [hchain]
        exact .inl ⟨hdenied, rfl⟩
      · rcases @andThen_authorize _ _ _ _ limits.policy after s.policy.2 input.2 effective
          (before.authorize s.policy.1 input.1 effective request).2.1 with ⟨hdenied, hrest⟩ | ⟨hlimit, hrest⟩
        · unfold limited
          rw [hchain, hrest]
          refine .inl ⟨hdenied, ?_⟩
          rcases hcount with ⟨-, hallowed, -⟩ | ⟨-, hstreams⟩
          · exact absurd (hallowed.symm.trans hdenied) nofun
          · exact hstreams
        · unfold limited
          rw [hchain, hrest]
          have hleft : (limits.policy.authorize s.policy.2.1 input.2.1 effective
              (before.authorize s.policy.1 input.1 effective request).2.1).2.1 =
                (before.authorize s.policy.1 input.1 effective request).2.1 := hsame
          rw [hleft]
          refine .inr ⟨effective, rfl, rfl, hfirst, hlimit, rfl, rfl, ?_⟩
          rcases hcount with ⟨hquery, -, hstreams⟩ | ⟨hnone, hstreams⟩
          · rw [if_pos hquery]
            exact hstreams
          · rcases hnone with hquery | hdenied
            · rw [hquery]
              exact hstreams
            · exact absurd (Eq.trans (Eq.symm hlimit) hdenied) nofun

theorem decide_passedOn (hlimits : 0 < limits.streamsPerPrincipal)
    {session : Session (σ × Accounts × τ) (ι × Tokens × κ)} {request : Message}
    (hpassed : PassedOn before limits after s session input request) :
    ((decide (limited before limits after) input s.policy session request).1.allowed = false ∧
      (decide (limited before limits after) input s.policy session request).2.2.2.2.1 = s.policy.2.1) ∨
    ((decide (limited before limits after) input s.policy session request).1.allowed = true ∧
      isQuery (decide (limited before limits after) input s.policy session request).2.1 = false ∧
      (decide (limited before limits after) input s.policy session request).2.2.2.2.1 = s.policy.2.1) ∨
    ∃ query, (decide (limited before limits after) input s.policy session request).1.allowed = true ∧
      (decide (limited before limits after) input s.policy session request).2.1 = .query query ∧
      session.queries.find query.queryId = none ∧ s.link.isSome = true ∧
      (decide (limited before limits after) input s.policy session request).2.2.2.2.1 =
        Function.update s.policy.2.1
          (keyOf (decide (limited before limits after) input s.policy session request).2.2.1)
          (s.policy.2.1
            (keyOf (decide (limited before limits after) input s.policy session request).2.2.1) + 1) := by
  rcases @decide_limited _ _ _ _ before limits after s input hlimits session request with
    hdenied | ⟨effective, hcheck, heffective, hfirst, hlimit, hdecision, hmessage, hcount⟩
  · exact .inl hdenied
  · obtain ⟨hquery, hother⟩ := hpassed effective hcheck hfirst hlimit
    rw [hdecision, hmessage, hcount, heffective]
    by_cases hkind : isQuery (before.authorize s.policy.1 input.1 effective request).2.1 = true
    · obtain ⟨hlink, hallowed, hlast⟩ := hquery hkind
      rw [if_pos hkind]
      cases hm : (after.authorize s.policy.2.2 input.2.2 effective
          (before.authorize s.policy.1 input.1 effective request).2.1).2.1 with
      | query query => exact .inr (.inr ⟨query, hallowed, rfl, (hother hallowed query hm).2, hlink, rfl⟩)
      | _ =>
        rw [hm] at hlast
        cases hlast
    · rw [if_neg hkind]
      cases hallowed : (after.authorize s.policy.2.2 input.2.2 effective
          (before.authorize s.policy.1 input.1 effective request).2.1).1.allowed with
      | false => exact .inl ⟨rfl, rfl⟩
      | true =>
        refine .inr (.inl ⟨rfl, ?_, rfl⟩)
        cases hm : (after.authorize s.policy.2.2 input.2.2 effective
            (before.authorize s.policy.1 input.1 effective request).2.1).2.1 with
        | query query => exact absurd (hother hallowed query hm).1 hkind
        | _ => rfl

theorem Streaming.pend {session : Session (σ × Accounts × τ) (ι × Tokens × κ)} (h : Streaming session.books)
    {message : Message} (hother : isQuery message = false) (effective : Caller) :
    Streaming (session.pend message effective).books ∧
      (session.pend message effective).running = session.running := by
  have hinsert : ∀ (kinds : RequestKind → Prop) {table : Table} {id : UInt32} {entry : Pending},
      (∀ pair ∈ table, kinds pair.2.kind) → kinds entry.kind →
      ∀ pair ∈ table.insert id entry, kinds pair.2.kind := by
    intro kinds table id entry htable hentry pair hpair
    rcases List.mem_cons.1 hpair with rfl | hold
    · exact hentry
    · exact htable pair (List.mem_of_mem_filter hold)
  cases message with
  | query query => cases hother
  | opCall call => exact ⟨⟨h.running, h.unique, h.queries, hinsert (fun kind => kind = .call) h.calls rfl,
    h.facades⟩, rfl⟩
  | facadeList list =>
    exact ⟨⟨h.running, h.unique, h.queries, h.calls, hinsert
      (fun kind => kind = .facadeList ∨ kind = .facadeOpen) h.facades (.inl rfl)⟩, rfl⟩
  | facadeOpen facade =>
    exact ⟨⟨h.running, h.unique, h.queries, h.calls, hinsert
      (fun kind => kind = .facadeList ∨ kind = .facadeOpen) h.facades (.inr rfl)⟩, rfl⟩
  | _ => exact ⟨h, rfl⟩

theorem Streaming.start {session : Session (σ × Accounts × τ) (ι × Tokens × κ)} (h : Streaming session.books)
    {query : Query} (hfree : session.queries.find query.queryId = none) (effective : Caller) :
    Streaming ((session.pend (.query query) effective).start (.query query) effective).books := by
  have hinsert : (session.queries.insert query.queryId
      ⟨.query, text (toString query.description.type.toNat), effective, 0⟩) =
        (query.queryId, ⟨.query, text (toString query.description.type.toNat), effective, 0⟩) ::
          session.queries := Table.insert_of_find_none hfree
  refine ⟨?_, Table.unique_insert h.unique _ _, ?_, h.calls, h.facades⟩
  · change (session.running ++ [(query.queryId, effective)]).Perm
      ((session.queries.insert query.queryId
        ⟨.query, text (toString query.description.type.toNat), effective, 0⟩).map _)
    rw [hinsert]
    exact (List.perm_append_comm).trans (h.running.cons _)
  · intro pair hpair
    rcases List.mem_cons.1 hpair with rfl | hold
    · rfl
    · exact h.queries pair (List.mem_of_mem_filter hold)

theorem Exact.refuse (h : Exact s) (hlimits : 0 < limits.streamsPerPrincipal) {i : Nat}
    {session : Session (σ × Accounts × τ) (ι × Tokens × κ)} {state : σ × Accounts × τ} {decision : Decision}
    {message : Message} {effective : Caller} {verdicts : List Verdict}
    (hsession : s.sessions[i]? = some session) (hstate : state.2.1 = s.policy.2.1) :
    Exact (s.put i (Proxy.refuse (limited before limits after) input state (session.note verdicts) decision
      message effective)) := by
  have hstreaming := h.streaming _ (List.mem_of_getElem? (getElem?_books hsession))
  cases hkey : requestKey message with
  | none =>
    have hrefuse : ∃ session', Proxy.refuse (limited before limits after) input state (session.note verdicts)
        decision message effective = (state, session') ∧ session'.books = (session.note verdicts).books := by
      unfold Proxy.refuse
      rw [hkey]
      dsimp only
      split
      · exact ⟨_, rfl, books_push _ _ _⟩
      · exact ⟨_, rfl, rfl⟩
    obtain ⟨session', hrefuse, hbooks⟩ := hrefuse
    rw [hrefuse]
    apply h.set hsession rfl
    · rw [hbooks]
      exact ⟨hstreaming.running, hstreaming.unique, hstreaming.queries, hstreaming.calls, hstreaming.facades⟩
    · intro key _
      rw [hbooks]
      change state.2.1 key + _ = _
      rw [hstate]
      rfl
  | some key =>
    obtain ⟨record, hverdict, hpolicy, hbooks⟩ := @refuse_cases _ _ (limited before limits after) input state
      (session.note verdicts) decision message effective key hkey
    apply h.set hsession rfl
    · rw [hbooks]
      exact ⟨hstreaming.running, hstreaming.unique, hstreaming.queries, hstreaming.calls, hstreaming.facades⟩
    · intro account _
      rw [hbooks]
      change (Proxy.refuse (limited before limits after) input state (session.note verdicts) decision message
        effective).1.2.1 account + _ = _
      have hnone : record.verdict.stream account = false := by
        rw [hverdict]
        unfold Verdict.stream
        simp only [Bool.true_eq_false, false_and, and_false, decide_false]
      rw [hpolicy, accounts_audit hlimits, hnone, hstate]
      rfl

theorem Exact.handleRequest (h : Exact s) (hlimits : 0 < limits.streamsPerPrincipal) {i : Nat}
    {session : Session (σ × Accounts × τ) (ι × Tokens × κ)} {request : Message}
    (hsession : s.sessions[i]? = some session)
    (hpassed : PassedOn before limits after s session input request) :
    Exact (s.handleRequest (limited before limits after) input i session request) := by
  have hstreaming := h.streaming _ (List.mem_of_getElem? (getElem?_books hsession))
  have hdecided := decide_passedOn hlimits hpassed
  unfold State.handleRequest
  generalize decide (limited before limits after) input s.policy session request = decided at hdecided
  obtain ⟨decision, message, effective, state⟩ := decided
  dsimp only at hdecided ⊢
  rcases hdecided with ⟨hdenied, hstate⟩ | ⟨hallowed, hother, hstate⟩ |
    ⟨query, hallowed, rfl, hfree, hlink, hstate⟩
  · rw [if_pos hdenied]
    exact h.refuse hlimits hsession hstate
  · have hnoted : Streaming (session.note (verdict request message effective decision.allowed)).books :=
      ⟨hstreaming.running, hstreaming.unique, hstreaming.queries, hstreaming.calls, hstreaming.facades⟩
    obtain ⟨hpend, hrunning⟩ := hnoted.pend hother effective
    have hnothing : startedQuery message effective = [] := by
      cases message with
      | query query => cases hother
      | _ => rfl
    rw [if_neg (by rw [hallowed]; exact nofun)]
    have hstreams : ∀ key, ((session.note (verdict request message effective decision.allowed)).pend message
        effective).books.streams key = session.books.streams key :=
      fun key => congrArg (List.countP fun query : UInt32 × Caller => keyOf query.2 = key) hrunning
    have hkept : ∀ session' : Session (σ × Accounts × τ) (ι × Tokens × κ),
        session'.books.running = ((session.note (verdict request message effective decision.allowed)).pend
          message effective).running →
        ∀ key, session.books.streams key ≤ s.policy.2.1 key →
          state.2.1 key + session.books.streams key = s.policy.2.1 key + session'.books.streams key := by
      intro session' hsame key _
      rw [hstate, ← hstreams key]
      exact congrArg (fun running => s.policy.2.1 key + List.countP _ running) hsame.symm
    rcases State.sendEngine_cases { s with policy := state } i message
      (((session.note (verdict request message effective decision.allowed)).pend message effective).start
        message effective)
      { (session.note (verdict request message effective decision.allowed)).pend message effective with
        stage := .left } with ⟨-, hsent⟩ | ⟨-, hsent⟩
    · rw [hsent]
      apply h.set hsession rfl
      · exact ⟨hpend.running, hpend.unique, hpend.queries, hpend.calls, hpend.facades⟩
      · exact hkept _ rfl
    · rw [hsent]
      have hstart : ((session.note (verdict request message effective decision.allowed)).pend message
          effective).start message effective =
          (session.note (verdict request message effective decision.allowed)).pend message effective := by
        unfold Session.start
        rw [hnothing, List.append_nil]
      rw [hstart]
      apply h.set hsession rfl
      · exact hpend
      · exact hkept _ rfl
  · have hnoted : Streaming (session.note (verdict request (.query query) effective decision.allowed)).books :=
      ⟨hstreaming.running, hstreaming.unique, hstreaming.queries, hstreaming.calls, hstreaming.facades⟩
    rw [if_neg (by rw [hallowed]; exact nofun)]
    rcases State.sendEngine_cases { s with policy := state } i (.query query)
      (((session.note (verdict request (.query query) effective decision.allowed)).pend (.query query)
        effective).start (.query query) effective)
      { (session.note (verdict request (.query query) effective decision.allowed)).pend (.query query)
          effective with stage := .left } with ⟨hdown, -⟩ | ⟨-, hsent⟩
    · change s.link = none at hdown
      rw [hdown] at hlink
      cases hlink
    · rw [hsent]
      apply h.set hsession rfl
      · exact hnoted.start hfree effective
      · intro key _
        have hstreams : (((session.note (verdict request (.query query) effective decision.allowed)).pend
            (.query query) effective).start (.query query) effective).books.streams key =
            session.books.streams key + if keyOf effective = key then 1 else 0 := by
          change (session.running ++ [(query.queryId, effective)]).countP _ = _
          rw [List.countP_append, List.countP_singleton]
          simp only [decide_eq_true_eq]
          rfl
        change state.2.1 key + _ = _
        rw [hstreams, hstate]
        by_cases hkey : keyOf effective = key
        · rw [hkey, Function.update_self, if_pos rfl]
          omega
        · rw [Function.update_of_ne (Ne.symm hkey), if_neg hkey]
          rfl

theorem Exact.readRing (h : Exact s) (hlimits : 0 < limits.streamsPerPrincipal) {i : Nat}
    {session : Session (σ × Accounts × τ) (ι × Tokens × κ)} {request : Option Message}
    (hsession : s.sessions[i]? = some session)
    (hnone : ∀ message, request = some message → NoQuery before limits s session input message) :
    Exact (s.readRing (limited before limits after) input i session request) := by
  have hstreaming := h.streaming _ (List.mem_of_getElem? (getElem?_books hsession))
  have hnoted : ∀ verdicts, Streaming (session.note verdicts).books := fun verdicts =>
    ⟨hstreaming.running, hstreaming.unique, hstreaming.queries, hstreaming.calls, hstreaming.facades⟩
  -- What is no call is answered, and that is all.
  have hanswer : ∀ verdicts message, Exact (s.setSession i ((session.note verdicts).push .proxy message)) := by
    intro verdicts message
    apply h.set hsession rfl
    · rw [books_push]
      exact hnoted verdicts
    · intro key _
      rw [books_push]
      rfl
  unfold State.readRing
  split
  · rename_i call
    have hstate : (decide (limited before limits after) input s.policy session (.opCall call)).2.2.2.2.1 =
        s.policy.2.1 := by
      rcases @decide_limited _ _ _ _ before limits after s input hlimits session (.opCall call) with
        ⟨-, hsame⟩ | ⟨effective, hcheck, -, hfirst, hlimit, -, -, hcount⟩
      · exact hsame
      · rw [hcount, hnone _ rfl effective hcheck hfirst hlimit]
        rfl
    generalize decide (limited before limits after) input s.policy session (.opCall call) = decided at hstate
    obtain ⟨decision, message, effective, state⟩ := decided
    dsimp only at hstate ⊢
    have hrefuse : ∀ message, Exact (s.put i (Proxy.refuseRing (limited before limits after) input state
        (session.note (verdict (.opCall call) message effective decision.allowed)) decision message
        effective)) := by
      intro message
      obtain ⟨record, hdenied, -, -, -, hpolicy, hbooks⟩ := @refuseRing_cases _ _ (limited before limits after)
        input state (session.note (verdict (.opCall call) message effective decision.allowed)) decision message
        effective
      apply h.set hsession rfl
      · rw [hbooks]
        exact ⟨hstreaming.running, hstreaming.unique, hstreaming.queries, hstreaming.calls, hstreaming.facades⟩
      · intro account _
        rw [hbooks]
        have hnone : record.verdict.stream account = false := by
          unfold Verdict.stream AuditRecord.verdict
          simp only [hdenied, Bool.true_eq_false, false_and, and_false, decide_false]
        change (Proxy.refuseRing (limited before limits after) input state _ decision message
          effective).1.2.1 account + _ = _
        rw [hpolicy, accounts_audit hlimits, hnone, hstate]
        rfl
    split
    · rename_i _ call' _
      obtain ⟨hpend, hrunning⟩ := (hnoted (verdict (.opCall call) (.opCall call') effective
        decision.allowed)).pend (rfl : isQuery (.opCall call') = false) effective
      have hpushed : ∀ message, (((session.note (verdict (.opCall call) (.opCall call') effective
          decision.allowed)).pend (.opCall call') effective).push .proxy message).books =
          ((session.note (verdict (.opCall call) (.opCall call') effective decision.allowed)).pend
            (.opCall call') effective).books := fun message => books_push _ _ _
      -- The loop may end; that is no matter for the books.
      have hleft : ∀ session' : Session (σ × Accounts × τ) (ι × Tokens × κ), Streaming session'.books →
          Streaming ({ session' with stage := .left } : Session (σ × Accounts × τ) (ι × Tokens × κ)).books :=
        fun session' h => ⟨h.running, h.unique, h.queries, h.calls, h.facades⟩
      have hkept : ∀ session' : Session (σ × Accounts × τ) (ι × Tokens × κ),
          session'.running = session.running → ∀ key, session.books.streams key ≤ s.policy.2.1 key →
          state.2.1 key + session.books.streams key = s.policy.2.1 key + session'.books.streams key := by
        intro session' hsame key _
        rw [hstate]
        exact congrArg (fun running => s.policy.2.1 key + List.countP _ running) hsame.symm
      rcases State.sendEngine_cases { s with policy := state } i (.opCall call')
        ((session.note (verdict (.opCall call) (.opCall call') effective decision.allowed)).pend
          (.opCall call') effective) _ with ⟨-, hsent⟩ | ⟨-, hsent⟩
      · rw [hsent]
        apply h.set hsession rfl
        · apply hleft
          rw [hpushed]
          exact hpend
        · exact hkept _ (congrArg Books.running (hpushed _))
      · rw [hsent]
        exact h.set hsession rfl hpend (hkept _ rfl)
    · exact hrefuse _
  · exact hanswer _ _

/-! ### Runs -/

/-- A query that the limit counts is passed on, and is the only one of its session with its id; and only the
engine ends it. -/
def EachCounted (before : Policy σ ι) (limits : RateLimit) (after : Policy τ κ)
    (s : State (σ × Accounts × τ) (ι × Tokens × κ)) : Action (ι × Tokens × κ) → Prop
  | .read i request _ _ input => ∀ session, s.sessions[i]? = some session → session.stage = .reading →
      PassedOn before limits after s session input request
  | .readRing i (some request) input => ∀ session, s.sessions[i]? = some session →
      session.stage = .reading → NoQuery before limits s session input request
  | .write i _ input => ∀ session, s.sessions[i]? = some session →
      OwnAnswers before limits after s session input
  | _ => True

theorem exact_step {action : Action (ι × Tokens × κ)} (h : Exact s)
    (hlimits : 0 < limits.streamsPerPrincipal) (hmeets : EachCounted before limits after s action)
    (hstep : s.step (limited before limits after) action = some s') : Exact s' := by
  cases round_of_step hstep with
  | quiet hquiet => exact exact_quiet h hlimits hquiet
  | request hsession _ hstage _ => exact h.handleRequest hlimits hsession (hmeets _ hsession hstage)
  | @ring i session request input hsession _ hstage =>
    apply h.readRing hlimits hsession
    rintro message rfl
    exact hmeets session hsession hstage
  | write hsession hwrite => exact h.writeOut hlimits hsession (hmeets _ hsession) hwrite
  | close hsession howner _ => exact h.closeClient hlimits hsession howner

/-- In every run in which each query that is counted is passed on, an account is the number of its queries
that the engine has and that have not ended. -/
theorem openStreams_run (before : Policy σ ι) (limits : RateLimit) (after : Policy τ κ) (first : σ) (last : τ)
    (engineMinor : UInt16) (actions : List (Action (ι × Tokens × κ)))
    (s : State (σ × Accounts × τ) (ι × Tokens × κ)) (hlimits : 0 < limits.streamsPerPrincipal)
    (hrun : Run (limited before limits after) (EachCounted before limits after)
      (.init (first, fun _ => 0, last) engineMinor) actions s) (caller : Caller) :
    s.policy.2.1 (keyOf caller) =
      (s.sessions.map fun session =>
        session.running.countP fun query => keyOf query.2 = keyOf caller).sum := by
  have hstart : Exact (.init (first, fun _ => 0, last) engineMinor : State (σ × Accounts × τ) (ι × Tokens × κ)) :=
    ⟨fun _ hmem => absurd hmem List.not_mem_nil, fun key => rfl⟩
  have h : Exact s := hrun.inv hstart fun h hmeets hstep => exact_step h hlimits hmeets hstep
  rw [h.count]
  unfold State.streams State.books
  rw [List.map_map]
  rfl

end Chain

/-! ### A query that runs, and two with one id -/

def twoStreams : Policy (Unit × Accounts × Unit) (Unit × Tokens × Unit) :=
  limited Policy.passThrough { callsPerSecond := 0, streamsPerPrincipal := 2 } Policy.passThrough

def plainQuery : Message := .query { queryId := 1 }

def somebody : Caller := Policy.anonymousCaller {}

theorem openStreams_plainQuery : ∃ s : State (Unit × Accounts × Unit) (Unit × Tokens × Unit),
    s.forwarded = [(0, plainQuery)] ∧ s.policy.2.1 (keyOf somebody) = 1 := by
  obtain ⟨s, hrun, hforwarded, hrunning⟩ : ∃ s : State (Unit × Accounts × Unit) (Unit × Tokens × Unit),
      Run twoStreams
        (EachCounted Policy.passThrough { callsPerSecond := 0, streamsPerPrincipal := 2 } Policy.passThrough)
        (.init ((), fun _ => 0, ()) 3)
        [.accept {}, .hello 0 hello (some (3, Compression.none)) ((), {}, ()), .opened 0 true ((), {}, ()),
          .read 0 plainQuery (.error ⟨0, [], []⟩) false ((), {}, ())] s ∧
      s.forwarded = [(0, plainQuery)] ∧
      (s.sessions.map fun session =>
        session.running.countP fun query => keyOf query.2 = keyOf somebody).sum = 1 := by
    refine ⟨_, .tail (.tail (.tail (.tail (.refl _) trivial rfl) trivial rfl) trivial rfl) ?_ rfl, rfl, ?_⟩
    · intro session hsession _
      cases hsession
      intro effective _ first limit last _ _
      refine ⟨fun _ => ⟨rfl, rfl, rfl⟩, ?_⟩
      intro _ query hquery
      cases hquery
      exact ⟨rfl, rfl⟩
    · decide +kernel
  exact ⟨s, hforwarded, (openStreams_run _ _ _ _ _ _ _ s (by decide) hrun somebody).trans hrunning⟩

def plainEnd : Message := .streamEnd { queryId := 1 }

def twoQueries : List (Action (Unit × Tokens × Unit)) :=
  [.accept {}, .hello 0 hello (some (3, Compression.none)) ((), {}, ()), .opened 0 true ((), {}, ()),
    .read 0 plainQuery (.error ⟨0, [], []⟩) false ((), {}, ()),
    .read 0 plainQuery (.error ⟨0, [], []⟩) false ((), {}, ()),
    .engine 0 plainEnd, .write 0 true ((), {}, ()), .engine 0 plainEnd, .write 0 true ((), {}, ())]

/-- Both queries have ended, and one is still counted. -/
theorem openStreams_repeatedQuery : ∃ s : State (Unit × Accounts × Unit) (Unit × Tokens × Unit),
    Run twoStreams (fun _ _ => True) (.init ((), fun _ => 0, ()) 3) twoQueries s ∧
    s.forwarded = [(0, plainQuery), (0, plainQuery)] ∧ s.sessions.map Session.running = [[]] ∧
    s.policy.2.1 (keyOf somebody) = 1 := by
  have hresult : (twoQueries.foldlM (State.step twoStreams) (.init ((), fun _ => 0, ()) 3)).map
      (fun s => (s.forwarded, s.sessions.map Session.running, s.policy.2.1 (keyOf somebody))) =
      some ([(0, plainQuery), (0, plainQuery)], [[]], 1) := by decide +kernel
  obtain ⟨s, hrun, hseen⟩ := Option.map_eq_some_iff.1 hresult
  obtain ⟨hforwarded, hmore⟩ := Prod.mk.inj hseen
  obtain ⟨hrunning, hcount⟩ := Prod.mk.inj hmore
  exact ⟨s, (Run.refl _).append hrun, hforwarded, hrunning, hcount⟩

end MoDb.Proxy
