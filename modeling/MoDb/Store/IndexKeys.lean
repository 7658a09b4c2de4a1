import MoDb.Store.ObjectStore
import Mathlib.Data.List.Forall2

/-!
# Index maintenance

What one round of the loop of `index_maintain` does to an index, when it refuses, and what the loop
does to all of them.
-/

namespace MoDb.Store

open Storage Index

/-- The key under which an object with these fields is in an index on `field`. -/
def IndexedKey (fields : FieldValues) (field : FieldId) (key : Bytes) : Prop :=
  ∃ value, fieldValue fields field = some value ∧ value.isNull = false ∧ encodeKey value = .ok key

def Encodable (fields : FieldValues) (field : FieldId) : Prop :=
  ∀ value, fieldValue fields field = some value → value.isNull = false →
    ∃ key, encodeKey value = .ok key

theorem IndexedKey.unique {fields : FieldValues} {field : FieldId} {key key' : Bytes}
    (h : IndexedKey fields field key) (h' : IndexedKey fields field key') : key = key' := by
  obtain ⟨value, hvalue, -, hkey⟩ := h
  obtain ⟨value', hvalue', -, hkey'⟩ := h'
  rw [hvalue] at hvalue'
  rw [← Option.some.inj hvalue', hkey] at hkey'
  injection hkey'

namespace ObjectStore

variable {typeName : String} {id : ObjectId} {fields : FieldValues} {epoch : Nat}
  {info info' : IndexInfo}

def IsEntryOf (typeName : String) (id : ObjectId) (fields : FieldValues) (info : IndexInfo)
    (entry : Index.Entry) : Prop :=
  info.typeName = typeName ∧ ∃ key, IndexedKey fields info.fieldId key ∧ entry = (key, id)

/-- `info'` is `info` with the entry of the object. -/
structure KeyInserted (typeName : String) (id : ObjectId) (fields : FieldValues)
    (info info' : IndexInfo) : Prop where
  typeName_eq : info'.typeName = info.typeName
  fieldId_eq : info'.fieldId = info.fieldId
  fault_eq : info'.fault = info.fault
  removedEpoch_eq : info'.removedEpoch = info.removedEpoch
  mem_iff : ∀ entry, entry ∈ info'.tree.entries ↔
    entry ∈ info.tree.entries ∨ IsEntryOf typeName id fields info entry
  encodable : info.typeName = typeName → Encodable fields info.fieldId

/-- `info'` is `info` without the entry of the object; a tree that lost a key says so. -/
structure KeyRemoved (typeName : String) (id : ObjectId) (fields : FieldValues) (epoch : Nat)
    (info info' : IndexInfo) : Prop where
  typeName_eq : info'.typeName = info.typeName
  fieldId_eq : info'.fieldId = info.fieldId
  fault_eq : info'.fault = info.fault
  mem_iff : ∀ entry, entry ∈ info'.tree.entries ↔
    entry ∈ info.tree.entries ∧ ¬IsEntryOf typeName id fields info entry
  removedEpoch_eq : info' = info ∨ info'.removedEpoch = some epoch

def TakesKey [PageSize] (typeName : String) (id : ObjectId) (fields : FieldValues)
    (info : IndexInfo) : Prop :=
  info.typeName = typeName → ∀ value, fieldValue fields info.fieldId = some value →
    value.isNull = false → ∃ key, encodeKey value = .ok key ∧ keyTooLarge key = false ∧
      (key, id) ∉ info.tree.entries ∧ info.fault = none

def GivesKey (typeName : String) (fields : FieldValues) (info : IndexInfo) : Prop :=
  info.typeName = typeName → ∀ value, fieldValue fields info.fieldId = some value →
    value.isNull = false → (∃ key, encodeKey value = .ok key) ∧ info.fault = none

theorem not_isEntryOf_of_field
    (h : ∀ value, fieldValue fields info.fieldId = some value → value.isNull = true)
    (entry : Index.Entry) : ¬IsEntryOf typeName id fields info entry := by
  rintro ⟨-, key, ⟨value, hvalue, hnull, -⟩, -⟩
  rw [h value hvalue] at hnull
  cases hnull

theorem isEntryOf_iff {value : AttributeValue} {key : Bytes} (htype : info.typeName = typeName)
    (hvalue : fieldValue fields info.fieldId = some value) (hnull : value.isNull = false)
    (hkey : encodeKey value = .ok key) (entry : Index.Entry) :
    IsEntryOf typeName id fields info entry ↔ entry = (key, id) := by
  have hindexed : IndexedKey fields info.fieldId key := ⟨value, hvalue, hnull, hkey⟩
  constructor
  · rintro ⟨-, key', hindexed', rfl⟩
    rw [hindexed'.unique hindexed]
  · rintro rfl
    exact ⟨htype, key, hindexed, rfl⟩

def Untouched (typeName : String) (fields : FieldValues) (info : IndexInfo) : Prop :=
  info.typeName = typeName →
    ∀ value, fieldValue fields info.fieldId = some value → value.isNull = true

theorem Untouched.not_isEntryOf (h : Untouched typeName fields info) (entry : Index.Entry) :
    ¬IsEntryOf typeName id fields info entry := fun hentry =>
  not_isEntryOf_of_field (h hentry.1) entry hentry

theorem maintainIndex_cases [PageSize] (typeName : String) (id : ObjectId) (fields : FieldValues)
    (insert : Bool) (epoch : Nat) (info : IndexInfo) :
    (Untouched typeName fields info ∧
      maintainIndex typeName id fields insert epoch info = .ok info) ∨
    (info.typeName = typeName ∧ ∃ value, fieldValue fields info.fieldId = some value ∧
      value.isNull = false ∧ ¬((∃ key, encodeKey value = .ok key) ∧ info.fault = none) ∧
        ∃ error, maintainIndex typeName id fields insert epoch info = .error error) ∨
    (info.typeName = typeName ∧ ∃ value key, fieldValue fields info.fieldId = some value ∧
      value.isNull = false ∧ encodeKey value = .ok key ∧ info.fault = none ∧
        maintainIndex typeName id fields insert epoch info =
          if insert then
            match info.tree.insert key id with
            | .error error => .error error
            | .ok tree => .ok { info with tree := tree }
          else
            match info.tree.remove key id with
            | .ok tree => .ok { info with tree := tree, removedEpoch := some epoch }
            | .error error =>
              if error.code = .recordNotFound then .ok { info with removedEpoch := some epoch }
              else .error error) := by
  unfold maintainIndex
  by_cases htype : info.typeName = typeName
  · rw [if_neg (not_not.2 htype)]
    cases hvalue : fieldValue fields info.fieldId with
    | none =>
      refine .inl ⟨fun _ value h => ?_, rfl⟩
      rw [hvalue] at h
      cases h
    | some value =>
      cases hnull : value.isNull with
      | true =>
        refine .inl ⟨fun _ value' h => ?_, by simp only [hnull, if_true]⟩
        rw [hvalue] at h
        exact Option.some.inj h ▸ hnull
      | false =>
        cases hkey : encodeKey value with
        | error error =>
          refine .inr (.inl ⟨htype, value, rfl, hnull, ?_, error, ?_⟩)
          · rintro ⟨⟨key, hkey'⟩, -⟩
            rw [hkey] at hkey'
            cases hkey'
          · simp only [hnull, hkey, Bool.false_eq_true, if_false]
        | ok key =>
          cases hfault : info.fault with
          | some error =>
            have hnot : ¬((∃ key, encodeKey value = .ok key) ∧ some error = none) :=
              fun h => Option.some_ne_none error h.2
            refine .inr (.inl ⟨htype, value, rfl, hnull, hnot, error, ?_⟩)
            simp only [hnull, hkey, Bool.false_eq_true, if_false]
          | none =>
            refine .inr (.inr ⟨htype, value, key, rfl, hnull, hkey, rfl, ?_⟩)
            dsimp only
            rw [hnull, hkey]
            exact if_neg Bool.false_ne_true
  · exact .inl ⟨fun h => absurd h htype, if_pos htype⟩

theorem keyInserted_of_ok [PageSize]
    (h : maintainIndex typeName id fields true epoch info = .ok info') :
    KeyInserted typeName id fields info info' := by
  rcases maintainIndex_cases typeName id fields true epoch info with
    ⟨huntouched, hrun⟩ | ⟨_, _, _, _, _, _, hrun⟩ |
    ⟨htype, value, key, hvalue, hnull, hkey, hfault, hrun⟩
  · rw [hrun] at h
    injection h with heq
    subst heq
    refine ⟨rfl, rfl, rfl, rfl, fun entry => ?_, fun htype value hvalue hnull => ?_⟩
    · rw [or_iff_left (huntouched.not_isEntryOf entry)]
    · rw [huntouched htype value hvalue] at hnull
      cases hnull
  · rw [hrun] at h
    injection h
  · rw [hrun, if_pos rfl] at h
    split at h
    · injection h
    · rename_i tree htree
      injection h with heq
      subst heq
      refine ⟨rfl, rfl, rfl, rfl, fun entry => ?_, fun _ value' hvalue' hnull' => ?_⟩
      · rw [KeySet.mem_of_insert htree, isEntryOf_iff htype hvalue hnull hkey, or_comm]
      · rw [hvalue] at hvalue'
        exact ⟨key, Option.some.inj hvalue' ▸ hkey⟩

theorem keyRemoved_of_ok [PageSize]
    (h : maintainIndex typeName id fields false epoch info = .ok info') :
    KeyRemoved typeName id fields epoch info info' := by
  rcases maintainIndex_cases typeName id fields false epoch info with
    ⟨huntouched, hrun⟩ | ⟨_, _, _, _, _, _, hrun⟩ |
    ⟨htype, value, key, hvalue, hnull, hkey, hfault, hrun⟩
  · rw [hrun] at h
    injection h with heq
    subst heq
    exact ⟨rfl, rfl, rfl, fun entry => (and_iff_left (huntouched.not_isEntryOf entry)).symm, .inl rfl⟩
  · rw [hrun] at h
    injection h
  · rw [hrun, if_neg Bool.false_ne_true] at h
    split at h
    · rename_i tree htree
      injection h with heq
      subst heq
      refine ⟨rfl, rfl, rfl, fun entry => ?_, .inr rfl⟩
      rw [KeySet.mem_of_remove htree, isEntryOf_iff htype hvalue hnull hkey, and_comm]
    · rename_i error herror
      obtain ⟨hnot, hcode⟩ := KeySet.not_mem_of_remove_error herror
      rw [if_pos hcode] at h
      injection h with heq
      subst heq
      refine ⟨rfl, rfl, rfl, fun entry => ?_, .inr rfl⟩
      rw [isEntryOf_iff htype hvalue hnull hkey]
      exact ⟨fun hmem => ⟨hmem, fun heq => hnot (heq ▸ hmem)⟩, And.left⟩

theorem insert_ok_iff [PageSize] :
    (∃ info', maintainIndex typeName id fields true epoch info = .ok info') ↔
      TakesKey typeName id fields info := by
  rcases maintainIndex_cases typeName id fields true epoch info with
    ⟨huntouched, hrun⟩ | ⟨htype, value, hvalue, hnull, hnot, error, hrun⟩ |
    ⟨htype, value, key, hvalue, hnull, hkey, hfault, hrun⟩
  · rw [hrun]
    refine ⟨fun _ htype value hvalue hnull => ?_, fun _ => ⟨info, rfl⟩⟩
    rw [huntouched htype value hvalue] at hnull
    cases hnull
  · rw [hrun]
    constructor
    · rintro ⟨_, h⟩
      injection h
    · intro htakes
      obtain ⟨key, hkey, -, -, hfault⟩ := htakes htype value hvalue hnull
      exact absurd ⟨⟨key, hkey⟩, hfault⟩ hnot
  · rw [hrun, if_pos rfl]
    unfold KeySet.insert
    constructor
    · rintro ⟨info', h⟩ - value' hvalue' -
      rw [hvalue] at hvalue'
      refine ⟨key, Option.some.inj hvalue' ▸ hkey, ?_⟩
      split at h
      · injection h
      · rename_i tree htree
        split at htree
        · injection htree
        · rename_i hlarge
          split at htree
          · injection htree
          · rename_i hmem
            exact ⟨Bool.not_eq_true _ ▸ hlarge, hmem, hfault⟩
    · intro htakes
      obtain ⟨key', hkey', hlarge, hmem, -⟩ := htakes htype value hvalue hnull
      rw [hkey] at hkey'
      injection hkey' with heq
      subst heq
      rw [if_neg (by rw [hlarge]; decide), dif_neg hmem]
      exact ⟨_, rfl⟩

theorem remove_ok_iff [PageSize] :
    (∃ info', maintainIndex typeName id fields false epoch info = .ok info') ↔
      GivesKey typeName fields info := by
  rcases maintainIndex_cases typeName id fields false epoch info with
    ⟨huntouched, hrun⟩ | ⟨htype, value, hvalue, hnull, hnot, error, hrun⟩ |
    ⟨htype, value, key, hvalue, hnull, hkey, hfault, hrun⟩
  · rw [hrun]
    refine ⟨fun _ htype value hvalue hnull => ?_, fun _ => ⟨info, rfl⟩⟩
    rw [huntouched htype value hvalue] at hnull
    cases hnull
  · rw [hrun]
    constructor
    · rintro ⟨_, h⟩
      injection h
    · intro hgives
      exact absurd (hgives htype value hvalue hnull) hnot
  · rw [hrun, if_neg Bool.false_ne_true]
    constructor
    · rintro - - value' hvalue' -
      rw [hvalue] at hvalue'
      exact ⟨⟨key, Option.some.inj hvalue' ▸ hkey⟩, hfault⟩
    · intro _
      split
      · exact ⟨_, rfl⟩
      · rename_i error herror
        rw [if_pos (KeySet.not_mem_of_remove_error herror).2]
        exact ⟨_, rfl⟩

/-! ### The loop -/

theorem exists_of_forall₂_right {α β : Type} {R : α → β → Prop} {l : List α} {l' : List β}
    (h : List.Forall₂ R l l') {b : β} (hb : b ∈ l') : ∃ a ∈ l, R a b := by
  induction h with
  | nil => cases hb
  | cons hab _ ih =>
    rcases List.mem_cons.1 hb with rfl | hb
    · exact ⟨_, List.mem_cons_self, hab⟩
    · obtain ⟨a, ha, hR⟩ := ih hb
      exact ⟨a, List.mem_cons_of_mem _ ha, hR⟩

theorem exists_of_forall₂_left {α β : Type} {R : α → β → Prop} {l : List α} {l' : List β}
    (h : List.Forall₂ R l l') {a : α} (ha : a ∈ l) : ∃ b ∈ l', R a b :=
  exists_of_forall₂_right (List.Forall₂.flip h) ha

theorem forall₂_trans {α β γ : Type} {R : α → β → Prop} {S : β → γ → Prop} {T : α → γ → Prop}
    (hcomp : ∀ a b c, R a b → S b c → T a c) {l : List α} {l' : List β} {l'' : List γ}
    (h : List.Forall₂ R l l') (h' : List.Forall₂ S l' l'') : List.Forall₂ T l l'' := by
  induction h generalizing l'' with
  | nil =>
    cases h'
    exact .nil
  | cons hab _ ih =>
    obtain ⟨c, rest, hbc, hrest, rfl⟩ := List.forall₂_cons_left_iff.1 h'
    exact .cons (hcomp _ _ _ hab hbc) (ih hrest)

section Loop

variable [PageSize] {insert : Bool} {infos infos' : List IndexInfo}

theorem forall₂_of_maintainIndexes
    (h : maintainIndexes typeName id fields insert epoch infos = (infos', none)) :
    List.Forall₂ (fun info info' => maintainIndex typeName id fields insert epoch info = .ok info')
      infos infos' := by
  induction infos generalizing infos' with
  | nil =>
    cases h
    exact .nil
  | cons info rest ih =>
    unfold maintainIndexes at h
    split at h
    · cases h
    · rename_i info' hinfo
      injection h with hlist herror
      rw [← hlist]
      exact .cons hinfo (ih (Prod.ext rfl herror))

theorem maintainIndexes_error_iff :
    (maintainIndexes typeName id fields insert epoch infos).2.isSome ↔
      ∃ info ∈ infos, ¬∃ info', maintainIndex typeName id fields insert epoch info = .ok info' := by
  induction infos with
  | nil => simp [maintainIndexes]
  | cons info rest ih =>
    unfold maintainIndexes
    split
    · rename_i error hinfo
      refine ⟨fun _ => ⟨info, List.mem_cons_self, ?_⟩, fun _ => rfl⟩
      rintro ⟨info', hok⟩
      rw [hinfo] at hok
      injection hok
    · rename_i info' hinfo
      rw [List.exists_mem_cons_iff, ← ih]
      exact (or_iff_right fun hnot => hnot ⟨info', hinfo⟩).symm

end Loop

end ObjectStore

end MoDb.Store
