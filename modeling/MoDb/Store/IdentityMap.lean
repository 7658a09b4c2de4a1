import MoDb.Store.Value
import Mathlib.Logic.Function.Basic

/-!
# The identity map

Where the current version of each object is, since which epoch, and where the version before it is.
A removed object keeps its entry, without a current version, so that its id is not bound again.
-/

namespace MoDb.Store

variable {Id : Type}

structure Entry (Id : Type) where
  /-- `none` when the entry has the flag `removed`. -/
  current : Option Id
  currentEpoch : Nat
  /-- The previous version and its epoch. -/
  previous : Option (Id × Nat) := none
  deriving DecidableEq, Repr

/-- `none` where the entry is not allocated. -/
abbrev IdentityMap (Id : Type) := ObjectId → Option (Entry Id)

namespace IdentityMap

def missing (id : ObjectId) : Error := ⟨.recordNotFound, s!"no object with id {id}"⟩

/-- `IdentityMap::bind`. -/
def bind (map : IdentityMap Id) (id : ObjectId) (record : Id) (epoch : Nat) :
    Except Error (IdentityMap Id) :=
  if id = invalidObjectId then .error ⟨.invalidObjectId, "cannot bind the invalid ObjectId 0"⟩
  else
    match map id with
    | some _ => .error ⟨.invalidArgument, s!"ObjectId {id} is already bound"⟩
    | none => .ok (Function.update map id (some { current := some record, currentEpoch := epoch }))

/-- `IdentityMap::find`. -/
def find (map : IdentityMap Id) (id : ObjectId) : Except Error Id :=
  match map id with
  | some { current := some record, .. } => .ok record
  | _ => .error (missing id)

/-- `IdentityMap::find_at`: the current version if it was there at the epoch, else the previous one
if it was. -/
def findAt (map : IdentityMap Id) (id : ObjectId) (epoch : Nat) : Except Error Id :=
  match map id with
  | none => .error (missing id)
  | some entry =>
    if entry.currentEpoch ≤ epoch then
      match entry.current with
      | some record => .ok record
      | none => .error ⟨.recordNotFound, s!"object {id} was already removed at this epoch"⟩
    else
      match entry.previous with
      | some (record, previousEpoch) =>
        if previousEpoch ≤ epoch then .ok record
        else .error ⟨.recordNotFound, s!"object {id} did not exist yet at this epoch"⟩
      | none => .error ⟨.recordNotFound, s!"object {id} did not exist yet at this epoch"⟩

def live (map : IdentityMap Id) (id : ObjectId) : Except Error (Id × Entry Id) :=
  match map id with
  | some entry =>
    match entry.current with
    | some record => .ok (record, entry)
    | none => .error (missing id)
  | none => .error (missing id)

/-- `IdentityMap::current_epoch`. -/
def currentEpoch (map : IdentityMap Id) (id : ObjectId) : Except Error Nat :=
  match map.live id with
  | .ok (_, entry) => .ok entry.currentEpoch
  | .error error => .error error

/-- `IdentityMap::has_previous`. -/
def hasPrevious (map : IdentityMap Id) (id : ObjectId) : Except Error Bool :=
  match map.live id with
  | .ok (_, entry) => .ok entry.previous.isSome
  | .error error => .error error

/-- `IdentityMap::rebind`: the current version becomes the previous one. -/
def rebind (map : IdentityMap Id) (id : ObjectId) (record : Id) (epoch : Nat) :
    Except Error (IdentityMap Id) :=
  match map.live id with
  | .ok (old, entry) =>
    .ok (Function.update map id
      (some ⟨some record, epoch, some (old, entry.currentEpoch)⟩))
  | .error error => .error error

/-- `IdentityMap::erase`: the same, and there is no current version any more. -/
def erase (map : IdentityMap Id) (id : ObjectId) (epoch : Nat) : Except Error (IdentityMap Id) :=
  match map.live id with
  | .ok (old, entry) =>
    .ok (Function.update map id (some ⟨none, epoch, some (old, entry.currentEpoch)⟩))
  | .error error => .error error

/-- `IdentityMap::inspect`. -/
def inspect (map : IdentityMap Id) (id : ObjectId) : Except Error (Entry Id) :=
  match map id with
  | some entry => .ok entry
  | none => .error (missing id)

/-- `IdentityMap::clear_previous`. -/
def clearPrevious (map : IdentityMap Id) (id : ObjectId) : Except Error (IdentityMap Id) :=
  match map id with
  | some entry => .ok (Function.update map id (some { entry with previous := none }))
  | none => .error (missing id)

theorem bind_eq_ok {map : IdentityMap Id} {id : ObjectId} (hid : id ≠ invalidObjectId)
    (hfree : map id = none) (record : Id) (epoch : Nat) :
    map.bind id record epoch =
      .ok (Function.update map id (some { current := some record, currentEpoch := epoch })) := by
  unfold bind
  rw [if_neg hid, hfree]

theorem live_eq_ok {map : IdentityMap Id} {id : ObjectId} {record : Id} {entry : Entry Id} :
    map.live id = .ok (record, entry) ↔ map id = some entry ∧ entry.current = some record := by
  unfold live
  cases map id with
  | none => simp
  | some found =>
    obtain ⟨current, epoch, previous⟩ := found
    cases current with
    | none =>
      constructor
      · intro h
        injection h
      · rintro ⟨⟨⟩, h⟩
        injection h
    | some current =>
      constructor
      · intro h
        injection h with hpair
        injection hpair with hrecord hentry
        exact ⟨congrArg some hentry, hentry ▸ congrArg some hrecord⟩
      · rintro ⟨⟨⟩, ⟨⟩⟩
        rfl

theorem find_eq_live (map : IdentityMap Id) (id : ObjectId) :
    map.find id = (map.live id).map Prod.fst := by
  unfold find live
  cases map id with
  | none => rfl
  | some found =>
    obtain ⟨current, epoch, previous⟩ := found
    cases current <;> rfl

theorem find_eq_ok {map : IdentityMap Id} {id : ObjectId} {record : Id} :
    map.find id = .ok record ↔ ∃ entry, map id = some entry ∧ entry.current = some record := by
  rw [find_eq_live]
  constructor
  · intro h
    cases hlive : map.live id with
    | error error => simp [hlive, Except.map] at h
    | ok found =>
      obtain ⟨current, entry⟩ := found
      rw [hlive] at h
      injection h with hrecord
      exact ⟨entry, live_eq_ok.1 (hrecord ▸ hlive)⟩
  · rintro ⟨entry, hentry⟩
    rw [live_eq_ok.2 hentry]
    rfl

end IdentityMap

end MoDb.Store
