import MoDb.Storage.Page

/-!
# Index keys

Keys are byte strings compared byte by byte, a prefix first. An index entry is a key and the id of
an object with that key; entries are compared by key and then by id.
-/

namespace MoDb.Index

open Storage

/-- `bytes_less`, and `operator<` of byte vectors. -/
def bytesLess : Bytes → Bytes → Bool
  | _, [] => false
  | [], _ :: _ => true
  | a :: as, b :: bs => if a = b then bytesLess as bs else a < b

@[simp]
theorem bytesLess_irrefl (key : Bytes) : bytesLess key key = false := by
  induction key with
  | nil => rfl
  | cons a as ih => simp [bytesLess, ih]

theorem bytesLess_cons {a b : UInt8} {as bs : Bytes} :
    bytesLess (a :: as) (b :: bs) = true ↔ a < b ∨ a = b ∧ bytesLess as bs = true := by
  rw [bytesLess]
  split
  · rename_i hab
    simp [hab, UInt8.lt_irrefl]
  · rename_i hab
    simp [hab]

theorem bytesLess_trans {a b c : Bytes} (hab : bytesLess a b = true) (hbc : bytesLess b c = true) :
    bytesLess a c = true := by
  induction a generalizing b c with
  | nil =>
    cases c with
    | nil => cases b <;> simp [bytesLess] at hbc
    | cons => rfl
  | cons x a ih =>
    cases b with
    | nil => simp [bytesLess] at hab
    | cons y b =>
      cases c with
      | nil => simp [bytesLess] at hbc
      | cons z c =>
        rw [bytesLess_cons] at hab hbc ⊢
        rcases hab with hxy | ⟨rfl, hab⟩
        · rcases hbc with hyz | ⟨rfl, -⟩
          · exact .inl (UInt8.lt_trans hxy hyz)
          · exact .inl hxy
        · rcases hbc with hyz | ⟨rfl, hbc⟩
          · exact .inl hyz
          · exact .inr ⟨rfl, ih hab hbc⟩

theorem bytesLess_asymm {a b : Bytes} (hab : bytesLess a b = true) : bytesLess b a = false := by
  cases hba : bytesLess b a with
  | false => rfl
  | true => simpa using bytesLess_trans hab hba

theorem eq_of_not_bytesLess {a b : Bytes} (hab : bytesLess a b = false)
    (hba : bytesLess b a = false) : a = b := by
  induction a generalizing b with
  | nil =>
    cases b with
    | nil => rfl
    | cons => simp [bytesLess] at hab
  | cons x a ih =>
    cases b with
    | nil => simp [bytesLess] at hba
    | cons y b =>
      rw [← Bool.not_eq_true, bytesLess_cons, not_or, not_and] at hab hba
      have hxy : x = y := UInt8.le_antisymm (UInt8.not_lt.1 hba.1) (UInt8.not_lt.1 hab.1)
      have hle := ih (Bool.not_eq_true _ ▸ hab.2 hxy) (Bool.not_eq_true _ ▸ hba.2 hxy.symm)
      rw [hxy, hle]

/-- A key and an object id. -/
abbrev Entry := Bytes × Nat

/-- `cmp_composite(a, b) < 0`. -/
def entryLess (a b : Entry) : Bool :=
  bytesLess a.1 b.1 || (!bytesLess b.1 a.1 && decide (a.2 < b.2))

theorem entryLess_iff {a b : Entry} :
    entryLess a b = true ↔ bytesLess a.1 b.1 = true ∨ a.1 = b.1 ∧ a.2 < b.2 := by
  unfold entryLess
  cases hab : bytesLess a.1 b.1 with
  | true => simp
  | false =>
    cases hba : bytesLess b.1 a.1 with
    | true =>
      have hne : a.1 ≠ b.1 := fun heq => by simp [heq] at hba
      simp [hne]
    | false => simp [eq_of_not_bytesLess hab hba]

@[simp]
theorem entryLess_irrefl (a : Entry) : entryLess a a = false := by
  simp [entryLess]

theorem entryLess_trans {a b c : Entry} (hab : entryLess a b = true) (hbc : entryLess b c = true) :
    entryLess a c = true := by
  rw [entryLess_iff] at hab hbc ⊢
  rcases hab with hab | ⟨hab, hid⟩
  · rcases hbc with hbc | ⟨hbc, -⟩
    · exact .inl (bytesLess_trans hab hbc)
    · exact .inl (hbc ▸ hab)
  · rcases hbc with hbc | ⟨hbc, hid'⟩
    · exact .inl (hab ▸ hbc)
    · exact .inr ⟨hab.trans hbc, Nat.lt_trans hid hid'⟩

theorem entryLess_asymm {a b : Entry} (hab : entryLess a b = true) : entryLess b a = false := by
  cases hba : entryLess b a with
  | false => rfl
  | true => simpa using entryLess_trans hab hba

theorem eq_of_not_entryLess {a b : Entry} (hab : entryLess a b = false)
    (hba : entryLess b a = false) : a = b := by
  rw [← Bool.not_eq_true, entryLess_iff, not_or, not_and] at hab hba
  have hkey : a.1 = b.1 :=
    eq_of_not_bytesLess (Bool.not_eq_true _ ▸ hab.1) (Bool.not_eq_true _ ▸ hba.1)
  have hle := hab.2 hkey
  have hge := hba.2 hkey.symm
  exact Prod.ext hkey (by omega)

def inBounds (lo hi key : Bytes) : Bool := !bytesLess key lo && !bytesLess hi key

/-! ### Entries in order -/

def Sorted (entries : List Entry) : Prop :=
  entries.Pairwise fun a b => entryLess a b = true

theorem Sorted.ext {l l' : List Entry} (h : Sorted l) (h' : Sorted l')
    (hmem : ∀ e, e ∈ l ↔ e ∈ l') : l = l' := by
  induction l generalizing l' with
  | nil =>
    cases l' with
    | nil => rfl
    | cons e l' => exact absurd ((hmem e).2 List.mem_cons_self) List.not_mem_nil
  | cons e l ih =>
    cases l' with
    | nil => exact absurd ((hmem e).1 List.mem_cons_self) List.not_mem_nil
    | cons e' l' =>
      obtain ⟨hhead, htail⟩ := List.pairwise_cons.1 h
      obtain ⟨hhead', htail'⟩ := List.pairwise_cons.1 h'
      have heq : e = e' := by
        rcases List.mem_cons.1 ((hmem e).1 List.mem_cons_self) with heq | hin
        · exact heq
        · rcases List.mem_cons.1 ((hmem e').2 List.mem_cons_self) with heq | hin'
          · exact heq.symm
          · exact absurd (hhead e' hin') (by rw [entryLess_asymm (hhead' e hin)]; decide)
      subst heq
      have hnot : e ∉ l := fun hin => by simpa using hhead e hin
      have hnot' : e ∉ l' := fun hin => by simpa using hhead' e hin
      rw [ih htail htail' fun a => ?_]
      constructor
      · intro ha
        exact (List.mem_cons.1 ((hmem a).1 (List.mem_cons_of_mem e ha))).resolve_left
          fun heq => hnot (heq ▸ ha)
      · intro ha
        exact (List.mem_cons.1 ((hmem a).2 (List.mem_cons_of_mem e ha))).resolve_left
          fun heq => hnot' (heq ▸ ha)

theorem Sorted.nodup {l : List Entry} (h : Sorted l) : l.Nodup :=
  h.imp fun hless heq => by simp [heq] at hless

def insertEntry (e : Entry) : List Entry → List Entry
  | [] => [e]
  | e' :: rest => if entryLess e e' then e :: e' :: rest else e' :: insertEntry e rest

theorem mem_insertEntry {e a : Entry} {l : List Entry} : a ∈ insertEntry e l ↔ a = e ∨ a ∈ l := by
  induction l with
  | nil => simp [insertEntry]
  | cons e' l ih =>
    unfold insertEntry
    split
    · rw [List.mem_cons]
    · rw [List.mem_cons, ih, List.mem_cons]
      exact or_left_comm

theorem Sorted.insertEntry {e : Entry} {l : List Entry} (h : Sorted l) (hnot : e ∉ l) :
    Sorted (insertEntry e l) := by
  induction l with
  | nil => exact List.pairwise_singleton _ _
  | cons e' l ih =>
    obtain ⟨hhead, htail⟩ := List.pairwise_cons.1 h
    unfold Index.insertEntry
    split
    · rename_i hless
      refine List.pairwise_cons.2 ⟨fun a ha => ?_, h⟩
      rcases List.mem_cons.1 ha with rfl | ha
      · exact hless
      · exact entryLess_trans hless (hhead a ha)
    · rename_i hless
      have hne : e ≠ e' := fun heq => hnot (heq ▸ List.mem_cons_self)
      refine List.pairwise_cons.2
        ⟨fun a ha => ?_, ih htail fun hin => hnot (List.mem_cons_of_mem e' hin)⟩
      rcases mem_insertEntry.1 ha with rfl | ha
      · by_contra hge
        exact hne (eq_of_not_entryLess (Bool.not_eq_true _ ▸ hless) (Bool.not_eq_true _ ▸ hge))
      · exact hhead a ha

end MoDb.Index
