import MoDb.Store.BlobChains

/-!
# How far a file grows

The calls of the blob store allocate no more pages than they are given bytes.
-/

namespace MoDb.Store

open Storage Effect

def Grows {α : Type} (count : Nat) (action : PageM α) : Prop :=
  ∀ file, (after (action file)).pageCount ≤ file.pageCount + count

namespace Grows

variable {α β : Type} {count count' : Nat}

theorem mono {action : PageM α} (h : Grows count action) (hle : count ≤ count') : Grows count' action :=
  fun file => Nat.le_trans (h file) (Nat.add_le_add_left hle _)

theorem bind {action : PageM α} {next : α → PageM β} (h : Grows count action)
    (hnext : ∀ value, Grows count' (next value)) : Grows (count + count') (action >>= next) := by
  intro file
  have hfirst := h file
  cases hrun : action file with
  | ok value file' =>
    have hsecond := hnext value file'
    rw [hrun, after_ok] at hfirst
    rw [bind_of_ok hrun]
    omega
  | error error file' =>
    rw [hrun, after_error] at hfirst
    rw [bind_of_error hrun, after_error]
    omega

theorem next {action : PageM α} {next : α → PageM β} (h : Grows 0 action)
    (hnext : ∀ value, Grows count (next value)) : Grows count (action >>= next) :=
  (h.bind hnext).mono (Nat.le_of_eq (Nat.zero_add count))

theorem pure (value : α) : Grows 0 (pure value : PageM α) := fun _ => Nat.le_refl _

theorem throw (error : Error) : Grows 0 (throw error : PageM α) := fun _ => Nat.le_refl _

theorem check (result : Except Error α) : Grows 0 (PageM.check result) := by
  cases result with
  | error error => exact throw error
  | ok value => exact pure value

theorem read (id : Nat) : Grows 0 (PageM.read id) := by
  intro file
  unfold PageM.read
  cases file.read id <;> exact Nat.le_refl _

theorem write (id : Nat) (page : Area) : Grows 0 (PageM.write id page) := by
  intro file
  unfold PageM.write
  cases hwrite : file.write id page with
  | error error => exact Nat.le_refl _
  | ok file' => exact Nat.le_of_eq (pageCount_write hwrite)

theorem allocate : Grows 1 PageM.allocate := by
  intro file
  unfold PageM.allocate PageFile.allocatePage
  by_cases hfull : file.pageCount = 2 ^ 64 - 1
  · rw [if_pos hfull]
    exact Nat.le_add_right _ _
  · rw [if_neg hfull]
    exact Nat.le_refl _

theorem allocatePages (count : Nat) : Grows count (Store.allocatePages count) := by
  induction count with
  | zero => exact pure []
  | succ count ih =>
    exact (allocate.bind fun id => ih.bind fun ids => pure (id :: ids)).mono (by omega)

theorem requireWriteTransaction (required : Bool) : Grows 0 (Store.requireWriteTransaction required) := by
  intro file
  unfold Store.requireWriteTransaction
  split <;> exact Nat.le_refl _

theorem requireBlobId (id : Nat) : Grows 0 (Store.requireBlobId id) := by
  unfold Store.requireBlobId
  split
  · exact throw _
  · exact pure ()

variable [PageSize]

theorem readBlobPage (id : Nat) : Grows 0 (Store.readBlobPage id) :=
  (read id).next fun _ => (check _).next fun _ => pure _

theorem writeChunks (ids : List Nat) (data : Bytes) : Grows 0 (Store.writeChunks ids data) := by
  induction ids generalizing data with
  | nil => exact pure ()
  | cons id ids ih => exact (write _ _).next fun _ => ih _

theorem walkChain {σ : Type} {visit : Nat → Area → BlobPageHeader → σ → PageM σ}
    (hvisit : ∀ id page header state, Grows 0 (visit id page header state)) (fuel : Nat)
    (visited : List Nat) (current : Nat) (state : σ) :
    Grows 0 (Store.walkChain visit fuel visited current state) := by
  induction fuel generalizing visited current state with
  | zero => exact throw _
  | succ fuel ih =>
    rw [Store.walkChain]
    split
    · exact pure state
    · split
      · exact throw _
      · exact (readBlobPage current).next fun _ => (hvisit _ _ _ _).next fun _ => ih _ _ _

theorem pagesFor_le (size : Nat) : pagesFor size ≤ size := by
  have hpos := blobPageCapacity_pos
  have hle : size ≤ size * blobPageCapacity := Nat.le_mul_of_pos_right size hpos
  apply Nat.lt_succ_iff.1
  apply (Nat.div_lt_iff_lt_mul hpos).2
  rw [Nat.succ_mul]
  omega

theorem pagesNeeded_le {data : Bytes} (h : data ≠ []) : pagesNeeded data ≤ data.length := by
  rw [pagesNeeded, if_neg h]
  exact pagesFor_le _

theorem create {required : Bool} {data : Bytes} (h : data ≠ []) :
    Grows data.length (BlobStore.create required data) :=
  (requireWriteTransaction required).next fun _ => ((allocatePages _).bind fun ids =>
    (writeChunks ids data).next fun _ => pure _).mono (pagesNeeded_le h)

theorem append (required : Bool) (id : Nat) (data : Bytes) :
    Grows data.length (BlobStore.append required id data) := by
  refine (requireWriteTransaction required).next fun _ => (requireBlobId id).next fun _ => ?_
  split
  · exact (pure ()).mono (Nat.zero_le _)
  · refine next (fun file => Nat.le_refl _) fun fuel => ?_
    refine (walkChain (fun _ _ _ _ => pure _) _ _ _ _).next fun ⟨last, page, header⟩ => ?_
    have hrest : (data.drop (min (blobPageCapacity - header.length) data.length)).length ≤
        data.length := by
      rw [List.length_drop]
      exact Nat.sub_le _ _
    exact ((allocatePages _).bind fun ids => (writeChunks ids _).next fun _ => write _ _).mono
      (Nat.le_trans (pagesFor_le _) hrest)

theorem overwritePrefix (required : Bool) (id : Nat) (bytes : Bytes) :
    Grows 0 (BlobStore.overwritePrefix required id bytes) := by
  refine (requireWriteTransaction required).next fun _ => (requireBlobId id).next fun _ =>
    (readBlobPage id).next fun ⟨page, header⟩ => ?_
  dsimp only
  split
  · exact throw _
  · exact write _ _

theorem readPrefix (id count : Nat) : Grows 0 (BlobStore.readPrefix id count) := by
  refine (requireBlobId id).next fun _ => (readBlobPage id).next fun ⟨page, header⟩ => ?_
  dsimp only
  split
  · exact throw _
  · exact pure _

end Grows

end MoDb.Store
