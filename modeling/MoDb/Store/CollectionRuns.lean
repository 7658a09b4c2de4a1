import MoDb.Store.BlobMap
import MoDb.Store.PersistentCollections

/-!
# Runs of a collection

A collection is used by one call after another, beside the value that the calls describe. Whatever the kind
of the collection, it refines its value in every state of a run if one call does, as long as no call gives
it more elements than its count can tell.
-/

namespace MoDb.Store

open Storage Effect

variable {Call Answer Value : Type}

section Ready

variable {blobs : BlobFacade} {frame : Multiset (Nat × Area)} {tx : Bool} {file : PageFile Area}
  {database : Nat}

theorem inTransaction_of_check (h : checkTransaction blobs database tx = .ok ()) : tx = true := by
  unfold checkTransaction at h
  split at h
  · cases h
  · split at h
    · cases h
    · cases tx with
      | true => rfl
      | false => cases h

theorem require_of_ok (h : checkTransaction blobs database file.inTransaction = .ok ()) :
    requireCollectionTransaction blobs database file = .ok () file := by
  rw [requireCollectionTransaction, h]
  rfl

theorem require_of_error {error : Error}
    (h : checkTransaction blobs database file.inTransaction = .error error) :
    requireCollectionTransaction blobs database file = .error error file := by
  rw [requireCollectionTransaction, h]
  rfl

theorem Held.createCollection [PageSize] (h : Held tx file frame) (database : Nat) : Outcome
    (fun id file' => ∃ blob : Blob, blob.id = id ∧ blob.data = storeCount 0 ∧
      Held tx file' (↑blob.pages + frame))
    (fun error file' => (checkTransaction blobs database file.inTransaction = .error error ∨
      error = pageCountFault ∧ file'.pageCount = 2 ^ 64 - 1) ∧ Holds file' frame)
    (Store.createCollection blobs database file) := by
  cases hcheck : checkTransaction blobs database file.inTransaction with
  | error error =>
    have hrun : Store.createCollection blobs database file = .error error file :=
      bind_of_error (require_of_error hcheck)
    rw [hrun]
    exact ⟨.inl rfl, h.holds⟩
  | ok ready =>
    have htx := inTransaction_of_check hcheck
    rw [Store.createCollection, bind_of_ok (require_of_ok hcheck)]
    rw [h.tx] at htx
    apply (h.create (fun _ => htx) _).mono (fun _ _ h => h)
    rintro error file' ⟨herror, hfull, hheld⟩
    exact ⟨.inr ⟨herror, hfull⟩, hheld.holds⟩

end Ready

/-- A kind of collection: its calls, what they make of its value, and what it shows of it. -/
structure Kind (Call Answer Value : Type) where
  run : BlobFacade → Nat → Nat → Call → PageM (Nat × Answer)
  apply : Value → Call → Except Error (Value × Answer)
  Reads : Nat → PageFile Area → Value → Prop
  size : Value → Nat
  empty : Value

/-- A collection and the value that its calls have made. -/
structure CollectionRun (Value : Type) where
  file : PageFile Area
  id : Nat
  value : Value

namespace Kind

section Run

variable (kind : Kind Call Answer Value) (blobs : BlobFacade)

/-- What a call of a transaction makes of the value, or why it is refused. -/
def answer (run : CollectionRun Value) (call : Nat × Call) : Except Error (Value × Answer) := do
  checkTransaction blobs call.1 run.file.inTransaction
  kind.apply run.value call.2

def step (run : CollectionRun Value) (call : Nat × Call) : CollectionRun Value :=
  match kind.run blobs run.id call.1 call.2 run.file with
  | .ok (id, _) file =>
    ⟨file, id, ((kind.answer blobs run call).map Prod.fst).toOption.getD run.value⟩
  | .error _ file => { run with file }

def after (run : CollectionRun Value) (calls : List (Nat × Call)) : CollectionRun Value :=
  calls.foldl (kind.step blobs) run

/-- The count has room for the elements after the call, unless it is refused. -/
def Fits (run : CollectionRun Value) (call : Nat × Call) : Prop :=
  ∀ value answer, kind.answer blobs run call = .ok (value, answer) → kind.size value < 2 ^ 32

def AllFit : CollectionRun Value → List (Nat × Call) → Prop
  | _, [] => True
  | run, call :: calls => kind.Fits blobs run call ∧ AllFit (kind.step blobs run call) calls

/-- What the collection shows, and what it does with the next call. -/
structure Refines (frame : Multiset (Nat × Area)) (run : CollectionRun Value) : Prop where
  reads : kind.Reads run.id run.file run.value
  answers : ∀ call, Outcome
    (fun result _ => result.1 = run.id ∧ ∃ value, kind.answer blobs run call = .ok (value, result.2))
    (fun error file => kind.answer blobs run call = .error error ∨
      error = pageCountFault ∧ file.pageCount = 2 ^ 64 - 1)
    (kind.run blobs run.id call.1 call.2 run.file)
  frame : Holds run.file frame

/-- Once it is created the collection refines its value over every run. -/
def RefinesFrom [PageSize] (frame : Multiset (Nat × Area)) (start : PageFile Area) : Prop :=
  ∀ database, Outcome
    (fun id file => ∀ calls, kind.AllFit blobs ⟨file, id, kind.empty⟩ calls →
      kind.Refines blobs frame (kind.after blobs ⟨file, id, kind.empty⟩ calls))
    (fun error file => (checkTransaction blobs database start.inTransaction = .error error ∨
      error = pageCountFault ∧ file.pageCount = 2 ^ 64 - 1) ∧ Holds file frame)
    (createCollection blobs database start)

end Run

variable [PageSize] {kind : Kind Call Answer Value} {Stored : Value → Bytes → Prop} {blobs : BlobFacade}
  {frame : Multiset (Nat × Area)} {tx : Bool} {file : PageFile Area}

def Done (frame : Multiset (Nat × Area)) (kind : Kind Call Answer Value) (Stored : Value → Bytes → Prop)
    (blob : Blob) (value : Value) (call : Call) (result : Nat × Answer) (file : PageFile Area) : Prop :=
  result.1 = blob.id ∧ ∃ (value' : Value) (blob' : Blob), kind.apply value call = .ok (value', result.2) ∧
    Stored value' blob'.data ∧ blob'.id = blob.id ∧ Held true file (↑blob'.pages + frame)

def Refused (frame : Multiset (Nat × Area)) (kind : Kind Call Answer Value) (blob : Blob) (value : Value)
    (call : Call) (error : Error) (file : PageFile Area) : Prop :=
  (kind.apply value call = .error error ∨ error = pageCountFault ∧ file.pageCount = 2 ^ 64 - 1) ∧
    Held true file (↑blob.pages + frame)

/-- A kind of collection whose value is `Stored` in the bytes of its blob. -/
structure Sound (kind : Kind Call Answer Value) (Stored : Value → Bytes → Prop) : Prop where
  empty : Stored kind.empty (storeCount 0) ∧ kind.size kind.empty = 0
  unready : ∀ {blobs id database call file error},
    checkTransaction blobs database file.inTransaction = .error error →
      kind.run blobs id database call file = .error error file
  reads : ∀ {frame tx file} {blob : Blob} {value}, Held tx file (↑blob.pages + frame) →
    Stored value blob.data → kind.size value < 2 ^ 32 → kind.Reads blob.id file value
  call : ∀ {frame file} {blob : Blob} {value blobs database}, Held true file (↑blob.pages + frame) →
    checkTransaction blobs database true = .ok () → Stored value blob.data → kind.size value < 2 ^ 32 →
      ∀ call, Outcome (Done frame kind Stored blob value call) (Refused frame kind blob value call)
        (kind.run blobs blob.id database call file)

def Kept (kind : Kind Call Answer Value) (Stored : Value → Bytes → Prop) (tx : Bool)
    (frame : Multiset (Nat × Area)) (run : CollectionRun Value) : Prop :=
  ∃ blob : Blob, blob.id = run.id ∧ Stored run.value blob.data ∧ kind.size run.value < 2 ^ 32 ∧
    Held tx run.file (↑blob.pages + frame)

variable {run : CollectionRun Value}

theorem Sound.outcome (hsound : kind.Sound Stored) (h : kind.Kept Stored tx frame run)
    (call : Nat × Call) : Outcome
      (fun result file => result.1 = run.id ∧ ∃ value,
        kind.answer blobs run call = .ok (value, result.2) ∧
          (kind.size value < 2 ^ 32 → kind.Kept Stored tx frame ⟨file, result.1, value⟩))
      (fun error file => (kind.answer blobs run call = .error error ∨
        error = pageCountFault ∧ file.pageCount = 2 ^ 64 - 1) ∧
          kind.Kept Stored tx frame { run with file })
      (kind.run blobs run.id call.1 call.2 run.file) := by
  obtain ⟨blob, hid, hstored, hsize, hheld⟩ := h
  unfold answer
  cases hcheck : checkTransaction blobs call.1 run.file.inTransaction with
  | error error =>
    rw [hsound.unready hcheck]
    exact ⟨.inl rfl, blob, hid, hstored, hsize, hheld⟩
  | ok ready =>
    rw [hheld.tx] at hcheck
    obtain rfl := inTransaction_of_check hcheck
    have houtcome := hsound.call hheld hcheck hstored hsize call.2
    rw [hid] at houtcome
    apply houtcome.mono
    · rintro result file ⟨hresult, value', blob', happly, hstored', hid', hheld'⟩
      exact ⟨hresult.trans hid, value', happly, fun hsize' =>
        ⟨blob', hid'.trans hresult.symm, hstored', hsize', hheld'⟩⟩
    · rintro error file ⟨herror, hheld'⟩
      exact ⟨herror, blob, hid, hstored, hsize, hheld'⟩

theorem Sound.step (hsound : kind.Sound Stored) (h : kind.Kept Stored tx frame run) {call : Nat × Call}
    (hfits : kind.Fits blobs run call) : kind.Kept Stored tx frame (kind.step blobs run call) := by
  have houtcome := @Sound.outcome _ _ _ _ _ _ blobs _ _ _ hsound h call
  unfold Kind.step
  cases hrun : kind.run blobs run.id call.1 call.2 run.file with
  | ok result file =>
    rw [hrun] at houtcome
    obtain ⟨-, value, hanswer, hkept⟩ := houtcome
    dsimp only
    rw [hanswer]
    exact hkept (hfits value result.2 hanswer)
  | error error file =>
    rw [hrun] at houtcome
    exact houtcome.2

theorem Sound.after (hsound : kind.Sound Stored) (h : kind.Kept Stored tx frame run)
    {calls : List (Nat × Call)} (hfits : kind.AllFit blobs run calls) :
    kind.Kept Stored tx frame (kind.after blobs run calls) := by
  induction calls generalizing run with
  | nil => exact h
  | cons call calls ih => exact ih (hsound.step h hfits.1) hfits.2

theorem Sound.refines (hsound : kind.Sound Stored) (h : kind.Kept Stored tx frame run) :
    kind.Refines blobs frame run := by
  constructor
  · obtain ⟨blob, hid, hstored, hsize, hheld⟩ := h
    exact hid ▸ hsound.reads hheld hstored hsize
  · intro call
    apply (hsound.outcome h call).mono
    · rintro result file ⟨hid, value, hanswer, -⟩
      exact ⟨hid, value, hanswer⟩
    · rintro error file ⟨herror, -⟩
      exact herror
  · obtain ⟨blob, -, -, -, hheld⟩ := h
    exact hheld.holds.right

theorem Sound.refinesFrom (hsound : kind.Sound Stored) (h : Held tx file frame) (blobs : BlobFacade) :
    kind.RefinesFrom blobs frame file := by
  intro database
  apply (h.createCollection database).mono
  · rintro id file' ⟨blob, hid, hdata, hheld⟩ calls hfits
    have hkept : kind.Kept Stored tx frame ⟨file', id, kind.empty⟩ := by
      refine ⟨blob, hid, hdata ▸ hsound.empty.1, ?_, hheld⟩
      rw [hsound.empty.2]
      decide
    exact hsound.refines (hsound.after hkept hfits)
  · exact fun _ _ herror => herror

end Kind

end MoDb.Store
