import MoDb.Lib.Effect
import Mathlib.Logic.Function.Basic
import Mathlib.Data.List.Nodup
import Mathlib.Data.List.Perm.Basic

/-!
# Stores of records

A store keeps records under ids that it picks itself. `content` is what it holds: the record under
each id in use. An insertion uses an id that was not in use, and nothing but an erasure of that id
takes the record away; an operation that fails leaves the content as it was. `absent` are the errors
that say that an id is not in use.
-/

class RecordStore (H : Type) (Id R ε : outParam Type) (absent : outParam (ε → Prop))
    [DecidableEq Id] where
  insert : R → EStateM ε H Id
  read : Id → H → Except ε R
  erase : Id → EStateM ε H Unit
  /-- The records in the order of a scan. -/
  records : H → Except ε (List (Id × R))
  /-- Close the store and open it again. -/
  reopen : H → H
  /-- The handle of the first store over what the second keeps: pages were dropped, and it does not know. -/
  discard : H → H → H
  Valid : H → Prop
  content : H → Id → Option R
  insert_ok : ∀ {h h' r id}, Valid h → insert r h = .ok id h' →
    Valid h' ∧ content h id = none ∧ content h' = Function.update (content h) id (some r)
  insert_error : ∀ {h h' r e}, Valid h → insert r h = .error e h' →
    Valid h' ∧ content h' = content h
  read_of_some : ∀ {h id r}, Valid h → content h id = some r → read id h = .ok r
  read_of_none : ∀ {h id}, Valid h → content h id = none → ∃ e, read id h = .error e ∧ absent e
  erase_ok : ∀ {h h' id}, Valid h → erase id h = .ok () h' →
    Valid h' ∧ content h' = Function.update (content h) id none
  erase_error : ∀ {h h' id e}, Valid h → erase id h = .error e h' →
    Valid h' ∧ content h' = content h ∧ (absent e → content h id = none)
  records_eq : ∀ {h}, Valid h → ∃ list, records h = .ok list ∧ (list.map Prod.fst).Nodup ∧
    ∀ id r, (id, r) ∈ list ↔ content h id = some r
  reopen_eq : ∀ {h}, Valid h → Valid (reopen h) ∧ content (reopen h) = content h

namespace RecordStore

variable {H Id R ε : Type} {absent : ε → Prop} [DecidableEq Id] [RecordStore H Id R ε absent]

theorem records_filter_perm {h h' : H} (hvalid : Valid h) (hvalid' : Valid h') (p : Id × R → Bool)
    (hsame : ∀ id r, p (id, r) = true → (content h id = some r ↔ content h' id = some r)) :
    ∃ list list', records h = .ok list ∧ records h' = .ok list' ∧
      (list'.filter p).Perm (list.filter p) := by
  obtain ⟨list, hlist, hnodup, hmem⟩ := records_eq hvalid
  obtain ⟨list', hlist', hnodup', hmem'⟩ := records_eq hvalid'
  refine ⟨list, list', hlist, hlist', ?_⟩
  apply (List.perm_ext_iff_of_nodup (hnodup'.of_map _ |>.filter p) (hnodup.of_map _ |>.filter p)).2
  rintro ⟨id, r⟩
  rw [List.mem_filter, List.mem_filter, hmem', hmem]
  constructor
  · rintro ⟨hcontent, hp⟩
    exact ⟨(hsame id r hp).2 hcontent, hp⟩
  · rintro ⟨hcontent, hp⟩
    exact ⟨(hsame id r hp).1 hcontent, hp⟩

end RecordStore

/-- The least a store does: a list of records, numbered as they come. -/
structure Ledger (R : Type) where
  entries : List (Nat × R) := []
  next : Nat := 0

namespace Ledger

variable {R ε : Type}

def insert (r : R) : EStateM ε (Ledger R) Nat := fun ledger =>
  .ok ledger.next { entries := ledger.entries ++ [(ledger.next, r)], next := ledger.next + 1 }

def content (ledger : Ledger R) (id : Nat) : Option R :=
  (ledger.entries.find? fun entry => entry.1 = id).map Prod.snd

def read (missing : ε) (id : Nat) (ledger : Ledger R) : Except ε R :=
  match ledger.content id with
  | some r => .ok r
  | none => .error missing

def erase (missing : ε) (id : Nat) : EStateM ε (Ledger R) Unit := fun ledger =>
  match ledger.content id with
  | some _ => .ok () { ledger with entries := ledger.entries.filter fun entry => entry.1 ≠ id }
  | none => .error missing ledger

structure Valid (ledger : Ledger R) : Prop where
  nodup : (ledger.entries.map Prod.fst).Nodup
  lt_next : ∀ entry ∈ ledger.entries, entry.1 < ledger.next

theorem content_eq_some {ledger : Ledger R} (h : ledger.Valid) (id : Nat) (r : R) :
    (id, r) ∈ ledger.entries ↔ ledger.content id = some r := by
  unfold content
  constructor
  · intro hmem
    have hsome : (ledger.entries.find? fun entry => entry.1 = id).isSome :=
      List.find?_isSome.2 ⟨(id, r), hmem, by simp⟩
    obtain ⟨entry, hfind⟩ := Option.isSome_iff_exists.1 hsome
    have hid : entry.1 = id := by simpa using List.find?_some hfind
    have heq : entry = (id, r) :=
      List.inj_on_of_nodup_map h.nodup (List.mem_of_find?_eq_some hfind) hmem hid
    rw [hfind, heq]
    rfl
  · intro hcontent
    obtain ⟨entry, hfind, hr⟩ := Option.map_eq_some_iff.1 hcontent
    have hid : entry.1 = id := by simpa using List.find?_some hfind
    rw [← hid, ← hr]
    exact List.mem_of_find?_eq_some hfind

theorem content_next {ledger : Ledger R} (h : ledger.Valid) : ledger.content ledger.next = none := by
  by_contra hsome
  obtain ⟨r, hr⟩ := Option.ne_none_iff_exists'.1 hsome
  exact absurd (h.lt_next _ ((content_eq_some h _ r).2 hr)) (Nat.lt_irrefl _)

theorem valid_insert {ledger : Ledger R} (h : ledger.Valid) (r : R) :
    Valid { entries := ledger.entries ++ [(ledger.next, r)], next := ledger.next + 1 } where
  nodup := by
    rw [List.map_append, List.nodup_append]
    refine ⟨h.nodup, List.nodup_singleton _, ?_⟩
    intro id hid id' hid' heq
    obtain ⟨entry, hentry, rfl⟩ := List.mem_map.1 hid
    have hnext : id' = ledger.next := by simpa using hid'
    have hlt := h.lt_next entry hentry
    omega
  lt_next := by
    intro entry hentry
    rcases List.mem_append.1 hentry with hold | hnew
    · exact Nat.lt_succ_of_lt (h.lt_next entry hold)
    · rw [List.mem_singleton.1 hnew]
      exact Nat.lt_succ_self _

theorem valid_erase {ledger : Ledger R} (h : ledger.Valid) (id : Nat) :
    Valid { ledger with entries := ledger.entries.filter fun entry => entry.1 ≠ id } where
  nodup := h.nodup.sublist (List.filter_sublist.map _)
  lt_next := fun entry hentry => h.lt_next entry (List.mem_filter.1 hentry).1

theorem content_congr {ledger : Ledger R} {f : Nat → Option R} (h : ledger.Valid)
    (hf : ∀ id r, (id, r) ∈ ledger.entries ↔ f id = some r) : ledger.content = f := by
  funext id
  apply Option.ext
  intro r
  rw [← hf id r, content_eq_some h id r]

theorem content_insert {ledger : Ledger R} (h : ledger.Valid) (r : R) :
    content { entries := ledger.entries ++ [(ledger.next, r)], next := ledger.next + 1 } =
      Function.update ledger.content ledger.next (some r) := by
  apply content_congr (valid_insert h r)
  intro id r'
  by_cases hid : id = ledger.next
  · have habsent : (id, r') ∉ ledger.entries := by
      rw [content_eq_some h, hid, content_next h]
      exact Option.not_mem_none r'
    rw [hid, Function.update_self, List.mem_append]
    rw [hid] at habsent
    simp [habsent, eq_comm]
  · rw [Function.update_of_ne hid, ← content_eq_some h, List.mem_append]
    simp [hid]

theorem content_erase {ledger : Ledger R} (h : ledger.Valid) (id : Nat) :
    content { ledger with entries := ledger.entries.filter fun entry => entry.1 ≠ id } =
      Function.update ledger.content id none := by
  apply content_congr (valid_erase h id)
  intro id' r
  by_cases hid : id' = id
  · simp [hid]
  · rw [Function.update_of_ne hid, ← content_eq_some h, List.mem_filter]
    simp [hid]

/-- The ledger is a store; `missing` is what it says of an id it does not hold. -/
@[reducible]
def recordStore (absent : ε → Prop) (missing : ε) (hmissing : absent missing) :
    RecordStore (Ledger R) Nat R ε absent where
  insert := insert
  read := read missing
  erase := erase missing
  records := fun ledger => .ok ledger.entries
  reopen := id
  discard := fun ledger saved => { saved with next := ledger.next }
  Valid := Valid
  content := content
  insert_ok := by
    intro ledger ledger' r id h hrun
    injection hrun with hid hledger
    rw [← hid, ← hledger]
    exact ⟨valid_insert h r, content_next h, content_insert h r⟩
  insert_error := fun _ hrun => by injection hrun
  read_of_some := fun _ hsome => by rw [read, hsome]
  read_of_none := fun _ hnone => ⟨missing, by rw [read, hnone], hmissing⟩
  erase_ok := by
    intro ledger ledger' id h hrun
    unfold erase at hrun
    split at hrun
    · injection hrun with _ hledger
      exact hledger ▸ ⟨valid_erase h id, content_erase h id⟩
    · injection hrun
  erase_error := by
    intro ledger ledger' id e h hrun
    unfold erase at hrun
    split at hrun
    · injection hrun
    · rename_i hnone
      injection hrun with _ hledger
      exact hledger ▸ ⟨h, rfl, fun _ => hnone⟩
  records_eq := fun h => ⟨_, rfl, h.nodup, content_eq_some h⟩
  reopen_eq := fun h => ⟨h, rfl⟩

end Ledger
