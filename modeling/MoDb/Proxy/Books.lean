import MoDb.Proxy.Sessions
import Mathlib.Data.List.Forall2
import Mathlib.Data.List.Perm.Basic

/-!
# The books of a proxy

What a session has pending, what became of its requests and which records it has: most rounds leave these
alone. A request comes in, is refused, is answered, or is given up.
-/

namespace MoDb.Proxy

open Storage (Bytes)
open Net

variable {σ ι : Type} {policy : Policy σ ι} {input : ι} {s s' : State σ ι}

/-! ### Tables -/

namespace Table

variable {table : Table} {id : UInt32} {entry : Pending}

def Unique (table : Table) : Prop := (table.map Prod.fst).Nodup

theorem unique_erase (h : table.Unique) (id : UInt32) : (table.erase id).Unique :=
  h.sublist (List.filter_sublist.map Prod.fst)

theorem unique_insert (h : table.Unique) (id : UInt32) (entry : Pending) : (table.insert id entry).Unique := by
  refine List.nodup_cons.2 ⟨?_, unique_erase h id⟩
  intro hmem
  obtain ⟨pair, hpair, hid⟩ := List.mem_map.1 hmem
  have hne := (List.mem_filter.1 hpair).2
  rw [hid] at hne
  simp only [ne_eq, not_true_eq_false, decide_false, Bool.false_eq_true] at hne

theorem unique_count (h : table.Unique) (id : UInt32) (objects : Nat) : (table.count id objects).Unique := by
  have hids : (table.count id objects).map Prod.fst = table.map Prod.fst := by
    unfold count
    rw [List.map_map]
    apply List.map_congr_left
    intro pair _
    dsimp only [Function.comp_apply]
    split
    · rfl
    · rfl
  unfold Unique
  rw [hids]
  exact h

theorem insert_of_find_none (h : table.find id = none) : table.insert id entry = (id, entry) :: table := by
  have hnone : table.find? (fun pair => pair.1 = id) = none := Option.map_eq_none_iff.1 h
  unfold insert
  rw [List.filter_eq_self.2]
  intro pair hpair
  have hne := List.find?_eq_none.1 hnone pair hpair
  simpa using hne

theorem perm_erase (h : table.Unique) (hfind : table.find id = some entry) :
    table.Perm ((id, entry) :: table.erase id) := by
  induction table with
  | nil => cases hfind
  | cons pair table ih =>
    have hunique := List.nodup_cons.1 h
    by_cases hid : pair.1 = id
    · have hentry : pair.2 = entry := by
        unfold find at hfind
        rw [List.find?_cons_of_pos (by simpa using hid)] at hfind
        exact Option.some.inj hfind
      have hnone : Table.erase table id = table := by
        apply List.filter_eq_self.2
        intro other hother
        have hne : other.1 ≠ id := by
          rintro rfl
          exact hunique.1 (List.mem_map.2 ⟨other, hother, hid.symm⟩)
        simpa using hne
      have herase : Table.erase (pair :: table) id = table := by
        unfold erase
        rw [List.filter_cons_of_neg (by simpa using hid)]
        exact hnone
      rw [herase, ← hid, ← hentry]
    · have hrest : Table.find table id = some entry := by
        unfold find at hfind ⊢
        rwa [List.find?_cons_of_neg (by simpa using hid)] at hfind
      have herase : Table.erase (pair :: table) id = pair :: Table.erase table id := by
        unfold erase
        rw [List.filter_cons_of_pos (by simpa using hid)]
      rw [herase]
      exact ((ih hunique.2 hrest).cons pair).trans (List.Perm.swap _ _ _)

end Table

/-! ### Books -/

inductive Era
  | before
  | during
  | after
  deriving DecidableEq

def Stage.era : Stage → Era
  | .greeting | .authenticating _ | .opening _ => .before
  | .reading | .left => .during
  | .closed => .after

/-- `noted` are the records of requests. -/
structure Books where
  era : Era := .before
  calls : Table := []
  queries : Table := []
  facades : Table := []
  asked : List Verdict := []
  noted : List AuditRecord := []
  running : List (UInt32 × Caller) := []

def Session.books (session : Session σ ι) : Books where
  era := session.stage.era
  calls := session.calls
  queries := session.queries
  facades := session.facades
  asked := session.asked
  noted := session.records.filter fun record => record.kind ≠ .authenticate
  running := session.running

namespace Books

variable (books : Books)

def table : RequestKind → Table
  | .call => books.calls
  | .query => books.queries
  | _ => books.facades

def setTable (kind : RequestKind) (table : Table) : Books :=
  { books with
    calls := match kind with
      | .call => table
      | _ => books.calls
    queries := match kind with
      | .query => table
      | _ => books.queries
    facades := match kind with
      | .call | .query => books.facades
      | _ => table }

def pending : List Pending := (books.calls ++ books.queries ++ books.facades).map Prod.snd

theorem table_setTable (kind kind' : RequestKind) (table : Table) :
    (books.setTable kind table).table kind' = table ∨
      (books.setTable kind table).table kind' = books.table kind' := by
  cases kind with
  | _ =>
    cases kind' with
    | _ => first | exact .inl rfl | exact .inr rfl

theorem perm_pending {books : Books} {kind : RequestKind} {table : Table} {id : UInt32} {entry : Pending}
    (hperm : (books.table kind).Perm ((id, entry) :: table)) :
    books.pending.Perm (entry :: (books.setTable kind table).pending) := by
  have hmap : ∀ {entries entries' : Table}, entries.Perm ((id, entry) :: entries') →
      (entries.map Prod.snd).Perm (entry :: entries'.map Prod.snd) := fun hperm => hperm.map Prod.snd
  cases kind with
  | call => exact hmap ((hperm.append_right _).append_right _)
  | query => exact hmap (((hperm.append_left _).trans List.perm_middle).append_right _)
  | facadeList | facadeOpen | authenticate =>
    exact hmap ((hperm.append_left _).trans List.perm_middle)

end Books

theorem books_setTable (session : Session σ ι) (kind : RequestKind) (table : Table) :
    (session.setTable kind table).books = session.books.setTable kind table := by
  cases kind with
  | _ => rfl

theorem table_books (session : Session σ ι) (kind : RequestKind) :
    session.books.table kind = session.table kind := by
  cases kind with
  | _ => rfl

/-- Nothing changes, but a session may begin or end that has had no requests. -/
def Books.Quietly (books books' : Books) : Prop :=
  books' = { books with era := books'.era } ∧ (books'.era = books.era ∨ books.era = .before)

theorem Books.Quietly.refl (books : Books) : books.Quietly books := ⟨rfl, .inl rfl⟩

theorem quietly_of_eq {books books' : Books} (h : books' = books) : books.Quietly books' := h ▸ .refl _

def State.books (s : State σ ι) : List Books := s.sessions.map Session.books

/-- What a policy is told when no request is handled. -/
inductive Calm (policy : Policy σ ι) : σ → σ → Prop
  | refl (state : σ) : Calm policy state state
  | authenticate (state : σ) (input : ι) (client : ClientInfo) (credentials : Credentials) :
      Calm policy state (policy.authenticate state input client credentials).2
  | audit {state state' : σ} (h : Calm policy state state') (input : ι) (record : AuditRecord)
      (hkind : record.kind = .authenticate) : Calm policy state (policy.audit state' input record)
  | onEngine (state : σ) (input : ι) (info : EngineInfo) : Calm policy state (policy.onEngine state input info)

/-- A step that handles no request; sessions may come in. -/
structure Quiet (policy : Policy σ ι) (s s' : State σ ι) : Prop where
  books : ∃ kept more, s'.books = kept ++ more ∧ s.books.Forall₂ Books.Quietly kept ∧
    ∀ books ∈ more, ({} : Books).Quietly books
  policy : Calm policy s.policy s'.policy

theorem Quiet.refl (s : State σ ι) : Quiet policy s s :=
  ⟨⟨s.books, [], (List.append_nil _).symm, List.forall₂_same.2 fun books _ => .refl books,
    fun _ hmem => absurd hmem List.not_mem_nil⟩, .refl _⟩

theorem Quiet.all {P : Books → Prop} (h : Quiet policy s s')
    (hkeep : ∀ {books books' : Books}, books.Quietly books' → P books → P books') (hempty : P {})
    (hall : ∀ books ∈ s.books, P books) : ∀ books ∈ s'.books, P books := by
  obtain ⟨kept, more, hbooks, hquietly, hmore⟩ := h.books
  rw [hbooks]
  intro books hmem
  rcases List.mem_append.1 hmem with hkept | hnew
  · obtain ⟨k, hk⟩ := List.mem_iff_getElem?.1 hkept
    have hlength := hquietly.length_eq
    have hlt : k < kept.length := (List.getElem?_eq_some_iff.1 hk).1
    have hget := (List.forall₂_iff_get.1 hquietly).2 k (by omega) hlt
    have hsame : books = kept.get ⟨k, hlt⟩ := (List.getElem?_eq_some_iff.1 hk).2.symm
    rw [hsame]
    exact hkeep hget (hall _ (List.get_mem _ _))
  · exact hkeep (hmore books hnew) hempty

theorem forall₂_set {α : Type} {R : α → α → Prop} (hrefl : ∀ a, R a a) {l : List α} {i : Nat} {a a' : α}
    (hget : l[i]? = some a) (hrel : R a a') : List.Forall₂ R l (l.set i a') := by
  induction l generalizing i with
  | nil => cases hget
  | cons first l ih =>
    cases i with
    | zero =>
      cases hget
      exact .cons hrel (List.forall₂_same.2 fun a _ => hrefl a)
    | succ i => exact .cons (hrefl first) (ih hget)

theorem getElem?_books {i : Nat} {session : Session σ ι} (hsession : s.sessions[i]? = some session) :
    s.books[i]? = some session.books := by
  unfold State.books
  rw [List.getElem?_map, hsession]
  rfl

theorem quiet_of_set {i : Nat} {session session' : Session σ ι} (hsession : s.sessions[i]? = some session)
    (hset : s'.sessions = s.sessions.set i session') (hquietly : session.books.Quietly session'.books)
    (hcalm : Calm policy s.policy s'.policy) : Quiet policy s s' := by
  refine ⟨⟨s'.books, [], (List.append_nil _).symm, ?_, fun _ hmem => absurd hmem List.not_mem_nil⟩, hcalm⟩
  have hbooks : s'.books = s.books.set i session'.books := by
    unfold State.books
    rw [hset, List.map_set]
  rw [hbooks]
  exact forall₂_set Books.Quietly.refl (getElem?_books hsession) hquietly

theorem quiet_setSession {i : Nat} {session session' : Session σ ι} (hsession : s.sessions[i]? = some session)
    (hquietly : session.books.Quietly session'.books) : Quiet policy s (s.setSession i session') :=
  quiet_of_set hsession rfl hquietly (.refl _)

theorem quiet_put {i : Nat} {session : Session σ ι} {result : σ × Session σ ι}
    (hsession : s.sessions[i]? = some session) (hquietly : session.books.Quietly result.2.books)
    (hcalm : Calm policy s.policy result.1) : Quiet policy s (s.put i result) :=
  quiet_of_set hsession rfl hquietly hcalm

/-! ### Quiet rounds -/

theorem books_push (session : Session σ ι) (origin : Origin) (message : Message) :
    (session.push origin message).books = session.books := by
  unfold Session.push
  split
  · rfl
  · rfl

theorem quietly_before {session session' : Session σ ι} (hera : session.stage.era = .before)
    (hbooks : session'.books = { session.books with era := session'.stage.era }) :
    session.books.Quietly session'.books := by
  refine ⟨?_, .inr hera⟩
  rw [hbooks]

theorem books_authenticated (state : σ) (session : Session σ ι) (record : AuditRecord)
    (hkind : record.kind = .authenticate) :
    (audit policy input state session record).2.books = session.books := by
  have hnoted : (session.records ++ [record]).filter (fun record => record.kind ≠ .authenticate) =
      session.records.filter fun record => record.kind ≠ .authenticate := by
    rw [List.filter_append, List.filter_cons_of_neg (by simpa using hkind), List.filter_nil,
      List.append_nil]
  unfold audit Session.books
  dsimp only
  rw [hnoted]

theorem books_unavailable (session : Session σ ι) (request : Option UInt32) :
    (State.unavailable session request).books = { session.books with era := .after } := by
  unfold State.unavailable
  cases request with
  | none => rfl
  | some request => rfl

theorem noted_append {records : List AuditRecord} {record : AuditRecord} (hkind : record.kind ≠ .authenticate) :
    (records ++ [record]).filter (fun record => record.kind ≠ .authenticate) =
      records.filter (fun record => record.kind ≠ .authenticate) ++ [record] := by
  rw [List.filter_append, List.filter_cons_of_pos (by simpa using hkind), List.filter_nil]

theorem books_audit (state : σ) (session : Session σ ι) (record : AuditRecord)
    (hkind : record.kind ≠ .authenticate) :
    (audit policy input state session record).2.books =
      { session.books with noted := session.books.noted ++ [record] } := by
  unfold audit Session.books
  dsimp only
  rw [noted_append hkind]

section Quiet

variable {i : Nat} {session : Session σ ι} {message : Message}

theorem quiet_engine (hsession : s.sessions[i]? = some session) :
    Quiet policy s (s.setSession i (session.push .engine message)) :=
  quiet_setSession hsession (quietly_of_eq (books_push session _ _))

theorem quiet_openSession {state : σ} {session' failed : Session σ ι} {request : Option UInt32}
    (hsession : s.sessions[i]? = some session) (hera : session.stage.era = .before)
    (hbooks : session'.books = session.books) (hfailed : failed.books = { session.books with era := .after })
    (hcalm : Calm policy s.policy state) :
    Quiet policy s ({ s with policy := state }.openSession i session' request failed) := by
  unfold State.openSession
  split
  · apply quiet_of_set hsession rfl _ hcalm
    rw [hfailed]
    exact ⟨rfl, .inr hera⟩
  · apply quiet_of_set hsession rfl _ hcalm
    have hsame : { session' with stage := .opening request, registered := true : Session σ ι }.books =
        { session'.books with era := .before } := rfl
    rw [hsame, hbooks]
    exact ⟨rfl, .inr hera⟩

theorem quiet_authenticate {session' : Session σ ι} {request : Option UInt32} {credentials : Credentials}
    {refuse : Failure → σ × Session σ ι → σ × Session σ ι} (hsession : s.sessions[i]? = some session)
    (hera : session.stage.era = .before) (hbooks : session'.books = session.books)
    (hrefuse : ∀ failure state, Calm policy s.policy state →
      Calm policy s.policy (refuse failure (state, session')).1 ∧
        session.books.Quietly (refuse failure (state, session')).2.books) :
    Quiet policy s (s.authenticate policy input i session' request credentials refuse) := by
  have hcalm := @Calm.authenticate _ _ policy s.policy input session'.client credentials
  unfold State.authenticate
  cases hanswer : policy.authenticate s.policy input session'.client credentials with
  | mk answer state =>
    rw [hanswer] at hcalm
    cases answer with
    | error failure =>
      obtain ⟨hstate, hquietly⟩ := hrefuse failure state hcalm
      exact quiet_put hsession hquietly hstate
    | ok caller =>
      apply quiet_openSession hsession hera _ _ hcalm
      · exact hbooks
      · rw [books_unavailable, ← hbooks]
        rfl

theorem quiet_greet {negotiated : Option (UInt16 × Compression)} (hsession : s.sessions[i]? = some session)
    (hstage : session.stage = .greeting) :
    Quiet policy s (s.greet policy input i session message negotiated) := by
  have hera : session.stage.era = .before := by
    rw [hstage]
    rfl
  unfold State.greet
  split
  · dsimp only
    split
    · apply quiet_authenticate hsession hera
      · rfl
      · exact fun failure state hcalm => ⟨hcalm, quietly_before hera rfl⟩
    · exact quiet_setSession hsession (quietly_before hera rfl)
  · exact quiet_setSession hsession (quietly_before hera rfl)

theorem quiet_readCredentials {refused : Nat} (hsession : s.sessions[i]? = some session)
    (hstage : session.stage = .authenticating refused) :
    Quiet policy s (s.readCredentials policy input i session refused message) := by
  have hera : session.stage.era = .before := by
    rw [hstage]
    rfl
  have hsame : ∀ session' : Session σ ι, session'.books = session.books →
      Quiet policy s (s.setSession i session') := fun session' hbooks =>
    quiet_setSession hsession (quietly_of_eq hbooks)
  unfold State.readCredentials
  split
  · exact .refl s
  · rename_i message
    apply quiet_authenticate hsession hera rfl
    intro failure state hcalm
    refine ⟨hcalm.audit input _ rfl, quietly_before hera ?_⟩
    have hbooks := @books_authenticated _ _ policy input state session
      (session.record session.caller .authenticate message.mechanism false failure.code failure.message 0 true)
      rfl
    calc (State.refuseCredential policy input refused message failure (state, session)).2.books
      _ = { (audit policy input state session (session.record session.caller .authenticate message.mechanism
              false failure.code failure.message 0 true)).2.books with
            era := (State.refuseCredential policy input refused message failure
              (state, session)).2.stage.era } := rfl
      _ = _ := by rw [hbooks]
  · split
    · exact quiet_setSession hsession (quietly_before hera rfl)
    · split
      · exact hsame _ rfl
      · exact .refl s

theorem quiet_opened {request : Option UInt32} {ok : Bool} (hsession : s.sessions[i]? = some session)
    (hstage : session.stage = .opening request) :
    Quiet policy s (s.opened policy input i session request ok) := by
  have hera : session.stage.era = .before := by
    rw [hstage]
    rfl
  unfold State.opened
  split
  · apply quiet_setSession hsession
    rw [books_unavailable]
    exact ⟨rfl, .inr hera⟩
  · dsimp only
    split
    · exact quiet_setSession hsession (quietly_before hera rfl)
    · apply quiet_put hsession _ ((Calm.refl _).audit input _ rfl)
      have hbooks := @books_authenticated _ _ policy input s.policy
        { session with stage := .reading }
        (session.record session.caller .authenticate
          ((session.proof.map fun proof => proof.2.2.mechanism).getD []) true invalidArgumentCode [] 0 false)
        rfl
      exact quietly_before hera (hbooks.trans rfl)

theorem quiet_attachRing {attach : ShmAttach} {region : Except Failure ShmRegion} {opened : Bool}
    (hsession : s.sessions[i]? = some session) :
    Quiet policy s (s.attachRing i session attach region opened) := by
  have hpush : ∀ message : Message, Quiet policy s (s.setSession i (session.push .proxy message)) :=
    fun message => quiet_setSession hsession (quietly_of_eq (books_push session _ _))
  unfold State.attachRing
  dsimp only
  split
  · exact hpush _
  · split
    · exact hpush _
    · split
      · exact hpush _
      · obtain ⟨⟨kept, more, hbooks, hkept, hmore⟩, -⟩ := hpush (.shmAttachOk _)
        refine ⟨⟨kept, more ++ [{ era := .during }], ?_, hkept, ?_⟩, .refl _⟩
        · rw [← List.append_assoc, ← hbooks]
          exact List.map_append
        · intro books hmem
          rcases List.mem_append.1 hmem with hold | hring
          · exact hmore books hold
          · rw [List.mem_singleton.1 hring]
            exact ⟨rfl, .inr rfl⟩

theorem quiet_left (hsession : s.sessions[i]? = some session) (hstage : session.stage = .reading) :
    Quiet policy s (s.setSession i { session with stage := .left }) := by
  have hera : session.books.era = .during := by
    change session.stage.era = .during
    rw [hstage]
    rfl
  have hsame : { session with stage := .left : Session σ ι }.books = { session.books with era := .during } :=
    rfl
  apply quiet_setSession hsession
  rw [hsame, ← hera]
  exact .refl _

theorem quiet_cancel (hsession : s.sessions[i]? = some session) (hstage : session.stage = .reading) :
    Quiet policy s (s.sendEngine i message session { session with stage := .left }) := by
  rcases s.sendEngine_cases i message session { session with stage := .left } with ⟨-, hsent⟩ | ⟨-, hsent⟩
  · rw [hsent]
    exact quiet_left hsession hstage
  · rw [hsent]
    exact quiet_of_set hsession rfl (.refl _) (.refl _)

theorem Quiet.of_books_eq (hbooks : s'.books = s.books) (hcalm : Calm policy s.policy s'.policy) :
    Quiet policy s s' := by
  obtain ⟨kept, more, hkept, hquietly, hmore⟩ := (@Quiet.refl _ _ policy s).books
  exact ⟨⟨kept, more, hbooks.trans hkept, hquietly, hmore⟩, hcalm⟩

theorem quiet_linkDown (hstep : s.step policy .linkDown = some s') : Quiet policy s s' := by
  cases hstep
  refine .of_books_eq ?_ (.refl s.policy)
  unfold State.books
  dsimp only
  rw [List.map_map]
  apply List.map_congr_left
  intro session _
  dsimp only [Function.comp_apply]
  split
  · rfl
  · rfl

end Quiet

/-! ### Answers -/

def AuditRecord.verdict (record : AuditRecord) : Verdict :=
  ⟨record.kind, record.target, record.caller, record.denied⟩

def Pending.verdict (entry : Pending) : Verdict := ⟨entry.kind, entry.target, entry.caller, false⟩

theorem complete_cases (state : σ) (session : Session σ ι) (kind : RequestKind) (id : UInt32) (ok : Bool)
    (code : WireCode) (message : Bytes) :
    (session.books.table kind).find id = none ∧
        complete policy input state session kind id ok code message = (state, session) ∨
      ∃ done record, (session.books.table kind).find id = some done ∧ record.verdict = done.verdict ∧
        (complete policy input state session kind id ok code message).1 = policy.audit state input record ∧
        (done.kind ≠ .authenticate →
          (complete policy input state session kind id ok code message).2.books =
            { session.books.setTable kind ((session.books.table kind).erase id) with
              noted := session.books.noted ++ [record] }) := by
  rw [table_books]
  unfold complete
  cases hfind : (session.table kind).find id with
  | none => exact .inl ⟨rfl, rfl⟩
  | some done =>
    refine .inr ⟨done, _, rfl, rfl, rfl, fun hkind => ?_⟩
    rw [books_audit _ _ _ hkind, books_setTable]
    rfl

theorem writeOut_cases {delivered : Bool} {state : σ} {session : Session σ ι} {result : σ × Session σ ι}
    (h : writeOut policy input delivered state session = some result) :
    ∃ origin response out, session.out = (origin, response) :: out ∧
      result.1 = (settle policy input (policy.onResponse state input session.caller response).2
        ({ session with out }.finish origin
          (shown session (policy.onResponse state input session.caller response).1))
        (shown session (policy.onResponse state input session.caller response).1)).1 ∧
      result.2.books = (settle policy input (policy.onResponse state input session.caller response).2
        ({ session with out }.finish origin
          (shown session (policy.onResponse state input session.caller response).1))
        (shown session (policy.onResponse state input session.caller response).1)).2.books := by
  unfold writeOut at h
  split at h
  · rename_i origin response out _ hout
    cases h
    refine ⟨origin, response, out, hout, rfl, ?_⟩
    cases delivered with
    | _ => rfl
  · cases h

theorem abandon_cases (result : σ × Session σ ι) {entry : Pending} (hkind : entry.kind ≠ .authenticate) :
    ∃ record : AuditRecord, record.verdict = entry.verdict ∧
      (abandon policy input result entry).1 = policy.audit result.1 input record ∧
      (abandon policy input result entry).2.books =
        { result.2.books with noted := result.2.books.noted ++ [record] } :=
  ⟨result.2.record entry.caller entry.kind entry.target false connectionClosedCode
    (text "client left before the answer") entry.objects false, rfl, rfl, books_audit _ _ _ hkind⟩

theorem abandoned (entries : List Pending) (result : σ × Session σ ι)
    (hkinds : ∀ entry ∈ entries, entry.kind ≠ .authenticate) :
    ∃ records : List AuditRecord, records.map AuditRecord.verdict = entries.map Pending.verdict ∧
      (entries.foldl (abandon policy input) result).1 =
        records.foldl (fun state record => policy.audit state input record) result.1 ∧
      (entries.foldl (abandon policy input) result).2.books =
        { result.2.books with noted := result.2.books.noted ++ records } := by
  induction entries generalizing result with
  | nil => exact ⟨[], rfl, rfl, by rw [List.append_nil]; rfl⟩
  | cons entry entries ih =>
    obtain ⟨record, hverdict, hstate, hbooks⟩ :=
      @abandon_cases _ _ policy input result entry (hkinds entry List.mem_cons_self)
    obtain ⟨records, hverdicts, hlast, hmore⟩ := ih (abandon policy input result entry)
      fun entry hentry => hkinds entry (List.mem_cons_of_mem _ hentry)
    refine ⟨record :: records, ?_, ?_, hmore.trans ?_⟩
    · rw [List.map_cons, List.map_cons, hverdict, hverdicts]
    · rw [List.foldl_cons, List.foldl_cons, hlast, hstate]
    · rw [hbooks, List.append_assoc]
      rfl

theorem closeSession_cases (state : σ) (session : Session σ ι)
    (hkinds : ∀ entry ∈ session.books.pending, entry.kind ≠ .authenticate) :
    ∃ records : List AuditRecord,
      records.map AuditRecord.verdict = session.books.pending.map Pending.verdict ∧
      (closeSession policy input state session).1 =
        records.foldl (fun state record => policy.audit state input record) state ∧
      (closeSession policy input state session).2.books =
        { era := .after, asked := session.asked, noted := session.books.noted ++ records } :=
  abandoned session.pending _ hkinds

/-! ### Requests -/

theorem kind_requestKey {message : Message} {key : RequestKey} (h : requestKey message = some key) :
    key.kind ≠ .authenticate := by
  unfold requestKey at h
  split at h
  · cases h
    exact nofun
  · cases h
    exact nofun
  · cases h
    exact nofun
  · cases h
    exact nofun
  · cases h

theorem refuse_cases (state : σ) (session : Session σ ι) (decision : Decision) {message : Message}
    (effective : Caller) {key : RequestKey} (hkey : requestKey message = some key) :
    ∃ record : AuditRecord, record.verdict = ⟨key.kind, key.target, effective, true⟩ ∧
      (refuse policy input state session decision message effective).1 = policy.audit state input record ∧
      (refuse policy input state session decision message effective).2.books =
        { session.books with noted := session.books.noted ++ [record] } := by
  unfold refuse
  rw [hkey]
  refine ⟨session.record effective key.kind key.target false decision.code decision.message 0 true,
    rfl, rfl, ?_⟩
  have hbooks := @books_audit _ _ policy input state session
    (session.record effective key.kind key.target false decision.code decision.message 0 true)
    (kind_requestKey hkey)
  dsimp only
  split
  · exact (books_push _ _ _).trans hbooks
  · exact hbooks

theorem books_pend (session : Session σ ι) {message : Message} (effective : Caller) {key : RequestKey}
    (hkey : requestKey message = some key) :
    (session.pend message effective).books =
      session.books.setTable key.kind
        ((session.books.table key.kind).insert key.id ⟨key.kind, key.target, effective, 0⟩) := by
  unfold Session.pend
  rw [hkey, table_books]
  exact books_setTable session key.kind _

theorem refuseRing_cases (state : σ) (session : Session σ ι) (decision : Decision) (message : Message)
    (effective : Caller) : ∃ record : AuditRecord, record.denied = true ∧ record.kind = .call ∧
      record.caller = effective ∧ (∀ call, message = .opCall call → record.target = call.operationId) ∧
      (refuseRing policy input state session decision message effective).1 = policy.audit state input record ∧
      (refuseRing policy input state session decision message effective).2.books =
        { session.books with noted := session.books.noted ++ [record] } := by
  have hbooks : ∀ target, (audit policy input state session
      (session.record effective .call target false decision.code decision.message 0 true)).2.books =
        { session.books with noted := session.books.noted ++
            [session.record effective .call target false decision.code decision.message 0 true] } :=
    fun target => books_audit state session _ nofun
  cases message with
  | opCall call =>
    refine ⟨session.record effective .call call.operationId false decision.code decision.message 0 true,
      rfl, rfl, rfl, ?_, rfl, (books_push _ _ _).trans (hbooks _)⟩
    intro call' hsame
    cases hsame
    rfl
  | _ =>
    exact ⟨session.record effective .call [] false decision.code decision.message 0 true,
      rfl, rfl, rfl, nofun, rfl, (books_push _ _ _).trans (hbooks _)⟩

/-! ### All rounds -/

/-- The rounds that handle a request or an answer; the others are quiet. -/
inductive Round (policy : Policy σ ι) (s : State σ ι) : Action ι → State σ ι → Prop
  | quiet {s' : State σ ι} {action : Action ι} (hquiet : Quiet policy s s') : Round policy s action s'
  | request {i : Nat} {session : Session σ ι} {message : Message} {region : Except Failure ShmRegion}
      {opened : Bool} {input : ι} (hsession : s.sessions[i]? = some session) (howner : session.owner = none)
      (hstage : session.stage = .reading) (hkey : (requestKey message).isSome = true) :
      Round policy s (.read i message region opened input) (s.handleRequest policy input i session message)
  | ring {i : Nat} {session : Session σ ι} {request : Option Message} {input : ι}
      (hsession : s.sessions[i]? = some session) (howner : session.owner.isSome = true)
      (hstage : session.stage = .reading) :
      Round policy s (.readRing i request input) (s.readRing policy input i session request)
  | write {i : Nat} {session : Session σ ι} {delivered : Bool} {input : ι} {result : σ × Session σ ι}
      (hsession : s.sessions[i]? = some session)
      (hwrite : writeOut policy input delivered s.policy session = some result) :
      Round policy s (.write i delivered input) (s.put i result)
  | close {i : Nat} {session : Session σ ι} {input : ι} (hsession : s.sessions[i]? = some session)
      (howner : session.owner = none) (hstage : session.stage = .left) :
      Round policy s (.close i input) (s.closeClient policy input i session)

theorem round_of_step {action : Action ι} (hstep : s.step policy action = some s') :
    Round policy s action s' := by
  cases action with
  | accept client =>
    cases hstep
    refine .quiet ⟨⟨s.books, [{}], List.map_append, List.forall₂_same.2 fun books _ => .refl books, ?_⟩,
      .refl _⟩
    intro books hmem
    rw [List.mem_singleton.1 hmem]
    exact .refl _
  | hello i message negotiated input =>
    obtain ⟨session, hsession, hstage, rfl⟩ := step_hello hstep
    exact .quiet (quiet_greet hsession hstage)
  | read i message region opened input =>
    obtain ⟨session, hsession, howner, ⟨refused, hstage, rfl⟩ | ⟨hstage, rfl⟩⟩ := step_read hstep
    · exact .quiet (quiet_readCredentials hsession hstage)
    · unfold State.readClient
      split
      · exact .quiet (quiet_cancel hsession hstage)
      · exact .quiet (quiet_setSession hsession (quietly_of_eq (books_push session _ _)))
      · exact .quiet (quiet_attachRing hsession)
      · split
        · exact .quiet (quiet_left hsession hstage)
        · rename_i hcancel hauthenticate hattach hrequest
          refine .request hsession howner hstage ?_
          cases message with
          | cancel cancel => exact absurd rfl (hcancel cancel)
          | authenticate body => exact absurd rfl (hauthenticate body)
          | shmAttach attach => exact absurd rfl (hattach attach)
          | opCall | query | facadeList | facadeOpen => rfl
          | _ => exact absurd rfl hrequest
  | readRing i request input =>
    obtain ⟨session, hsession, howner, hstage, rfl⟩ := step_readRing hstep
    exact .ring hsession howner hstage
  | opened i ok input =>
    obtain ⟨session, request, hsession, hstage, rfl⟩ := step_opened hstep
    exact .quiet (quiet_opened hsession hstage)
  | engine i message =>
    obtain ⟨session, hsession, -, rfl⟩ := step_engine hstep
    exact .quiet (quiet_engine hsession)
  | engineClose i =>
    obtain ⟨session, hsession, -, rfl⟩ := step_engineClose hstep
    exact .quiet (quiet_setSession hsession (quietly_of_eq rfl))
  | write i delivered input =>
    obtain ⟨session, result, hsession, hwrite, rfl⟩ := step_write hstep
    exact .write hsession hwrite
  | leave i =>
    obtain ⟨session, stage, hsession, rfl, ⟨rfl, hstage⟩ | ⟨rfl, hstage⟩⟩ := step_leave hstep
    · refine .quiet (quiet_setSession hsession (quietly_before ?_ rfl))
      rcases hstage with hstage | ⟨refused, hstage⟩
      · rw [hstage]
        rfl
      · rw [hstage]
        rfl
    · exact .quiet (quiet_left hsession hstage)
  | close i input =>
    obtain ⟨session, hsession, howner, hstage, rfl⟩ := step_close hstep
    exact .close hsession howner hstage
  | linkDown => exact .quiet (quiet_linkDown hstep)
  | linkUp minor info input =>
    obtain ⟨-, rfl⟩ := step_linkUp hstep
    exact .quiet (.of_books_eq rfl (.onEngine _ input info))

end MoDb.Proxy
