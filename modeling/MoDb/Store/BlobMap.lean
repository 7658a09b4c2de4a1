import MoDb.Store.BlobStore
import Mathlib.Data.List.GetD

/-!
# The blob store as a map

In every state that a run of calls reaches, each blob reads as what the calls have made of it, and the next
call does what the map does or is refused as the map refuses it. The ids do not change, and neither do
the other pages of the file.
-/

namespace MoDb.Store

open Storage Effect

/-- A call of the store. The blobs are numbered as they were created; past them is the null id. -/
inductive BlobCall where
  | create (data : Bytes)
  | append (blob : Nat) (data : Bytes)
  | overwritePrefix (blob : Nat) (bytes : Bytes)
  | rewrite (blob : Nat) (data : Bytes)
  | remove (blob : Nat)
  deriving DecidableEq, Repr

/-! ### The map -/

/-- The contents of each blob that was created, none once it is removed. -/
abbrev BlobContents := List (Option Bytes)

def nullBlob : Error := ⟨.invalidArgument, "null blob id"⟩
def noBlobPage : Error := ⟨.invalidPageFormat, "page is not a blob page (bad magic)"⟩

def prefixTooLong : Error :=
  ⟨.invalidArgument, "blob prefix overwrite is longer than the first page content"⟩

def BlobContents.get (contents : BlobContents) (blob : Nat) : Except Error Bytes :=
  match contents[blob]? with
  | none => .error nullBlob
  | some none => .error noBlobPage
  | some (some data) => .ok data

section Map

variable [PageSize]

def BlobCall.apply (contents : BlobContents) : BlobCall → Except Error BlobContents
  | .create data => .ok (contents ++ [some data])
  | .append blob data =>
    if blob < contents.length ∧ data = [] then .ok contents
    else (contents.get blob).map fun old => contents.set blob (some (old ++ data))
  | .overwritePrefix blob bytes =>
    match contents.get blob with
    | .error error => .error error
    | .ok old =>
      if min blobPageCapacity old.length < bytes.length then
        .error prefixTooLong
      else .ok (contents.set blob (some (bytes ++ old.drop bytes.length)))
  | .rewrite blob data =>
    if blob < contents.length then (contents.get blob).map fun _ => contents.set blob (some data)
    else .ok (contents ++ [some data])
  | .remove blob => (contents.get blob).map fun _ => contents.set blob none

def BlobCall.answer (required inTransaction : Bool) (contents : BlobContents) (call : BlobCall) :
    Except Error BlobContents :=
  if required ∧ ¬inTransaction then
    .error ⟨.transactionRequired, "blob writes require an active transaction"⟩
  else call.apply contents

/-! ### Runs of the store -/

/-- The call on the store, with the ids that were given so far, and those given after it. -/
def BlobCall.run (required : Bool) (ids : List Nat) : BlobCall → PageM (List Nat)
  | .create data => do
    let id ← BlobStore.create required data
    pure (ids ++ [id])
  | .append blob data => do
    BlobStore.append required (ids.getD blob 0) data
    pure ids
  | .overwritePrefix blob bytes => do
    BlobStore.overwritePrefix required (ids.getD blob 0) bytes
    pure ids
  | .rewrite blob data => do
    let id ← BlobStore.rewrite required (ids.getD blob 0) data
    pure (if blob < ids.length then ids.set blob id else ids ++ [id])
  | .remove blob => do
    BlobStore.remove required (ids.getD blob 0)
    pure ids

/-- The store beside the map, which makes the changes of the calls that have returned. -/
structure BlobRun where
  file : PageFile Area
  ids : List Nat
  contents : BlobContents

namespace BlobRun

def start (file : PageFile Area) : BlobRun := ⟨file, [], []⟩

variable (required : Bool)

def answer (run : BlobRun) (call : BlobCall) : Except Error BlobContents :=
  call.answer required run.file.inTransaction run.contents

def step (run : BlobRun) (call : BlobCall) : BlobRun :=
  match call.run required run.ids run.file with
  | .ok ids file => ⟨file, ids, (run.answer required call).toOption.getD run.contents⟩
  | .error _ file => { run with file }

def after (run : BlobRun) (calls : List BlobCall) : BlobRun := calls.foldl (step required) run

/-- What the store shows of its blobs, and what it does with the next call. -/
structure Refines (frame : Multiset (Nat × Area)) (run : BlobRun) : Prop where
  length : run.ids.length = run.contents.length
  read : ∀ blob, BlobStore.read (run.ids.getD blob 0) run.file =
    match run.contents.get blob with
    | .ok data => .ok data run.file
    | .error error => .error error run.file
  answers : ∀ call, Outcome
    (fun ids _ => (∃ contents, run.answer required call = .ok contents) ∧ run.ids <+: ids)
    (fun error file => run.answer required call = .error error ∨
      error = pageCountFault ∧ file.pageCount = 2 ^ 64 - 1)
    (call.run required run.ids run.file)
  frame : Holds run.file frame

end BlobRun

end Map

/-! ### The places of the blobs -/

variable [PageSize]

/-- The place of a blob; the first page of a blob that is removed stays blank. -/
inductive Place where
  | live (blob : Blob)
  | gone (id : Nat)

namespace Place

def id : Place → Nat
  | live blob => blob.id
  | gone id => id

def content : Place → Option Bytes
  | live blob => some blob.data
  | gone _ => none

def pages : Place → List (Nat × Area)
  | live blob => blob.pages
  | gone id => [(id, default)]

end Place

def placePages (places : List Place) : Multiset (Nat × Area) :=
  (places.map fun place => (↑place.pages : Multiset (Nat × Area))).sum

theorem placePages_concat (places : List Place) (place : Place) :
    placePages (places ++ [place]) = ↑place.pages + placePages places := by
  rw [placePages, List.map_append, List.sum_append, List.map_singleton, List.sum_singleton, add_comm]
  rfl

theorem placePages_set {places : List Place} {k : Nat} (h : k < places.length) (place : Place) :
    placePages (places.set k place) = ↑place.pages + placePages (places.eraseIdx k) := by
  induction places generalizing k with
  | nil => exact absurd h (Nat.not_lt_zero k)
  | cons first places ih =>
    cases k with
    | zero => rfl
    | succ k =>
      change ↑first.pages + placePages (places.set k place) =
        ↑place.pages + (↑first.pages + placePages (places.eraseIdx k))
      rw [ih (Nat.lt_of_succ_lt_succ h), add_left_comm]

theorem placePages_of_getElem? {places : List Place} {k : Nat} {place : Place}
    (h : places[k]? = some place) :
    placePages places = ↑place.pages + placePages (places.eraseIdx k) := by
  obtain ⟨hk, rfl⟩ := List.getElem?_eq_some_iff.1 h
  rw [← placePages_set hk, List.set_getElem_self]

variable {tx required : Bool} {file : PageFile Area} {frame : Multiset (Nat × Area)}

/-! ### One call -/

omit [PageSize] in
theorem pageFuel_run {α : Type} (next : Nat → PageM α) (file : PageFile Area) :
    (pageFuel >>= next) file = next (file.pageCount + 1) file := rfl

section Gone

variable {id : Nat}

omit [PageSize] in
theorem Held.gone_ne_zero (h : Held tx file ({(id, default)} + frame)) : id ≠ 0 :=
  (h.holds.read (id, default) (by simp)).1

theorem Held.gone (h : Held tx file ({(id, default)} + frame)) :
    Store.readBlobPage id file = .error noBlobPage file := by
  rw [Store.readBlobPage, bind_of_ok (h.read (Multiset.mem_add.2 (.inl (Multiset.mem_singleton_self _)))).2]
  rfl

theorem Held.walk_gone {σ : Type} (h : Held tx file ({(id, default)} + frame))
    (visit : Nat → Area → BlobPageHeader → σ → PageM σ) (state : σ) :
    Store.walkChain visit (file.pageCount + 1) [] id state file = .error noBlobPage file := by
  rw [Store.walkChain, if_neg h.gone_ne_zero, if_neg List.not_mem_nil, bind_of_error h.gone]

end Gone

def Done (tx : Bool) (frame : Multiset (Nat × Area)) (places : List Place)
    (answer : Except Error BlobContents) (ids : List Nat) (file : PageFile Area) : Prop :=
  ∃ places', answer = .ok (places'.map Place.content) ∧ ids = places'.map Place.id ∧
    places.map Place.id <+: ids ∧ Held tx file (placePages places' + frame)

/-- What a call leaves that the map refuses, or for which there is no room. -/
def Refused (tx : Bool) (frame : Multiset (Nat × Area)) (places : List Place)
    (answer : Except Error BlobContents) (error : Error) (file : PageFile Area) : Prop :=
  (answer = .error error ∨ error = pageCountFault ∧ file.pageCount = 2 ^ 64 - 1) ∧
    Held tx file (placePages places + frame)

variable {places : List Place} {answer : Except Error BlobContents} {k : Nat} {place : Place}

theorem FileFull.refused {error : Error} {pages : Multiset (Nat × Area)} (h : FileFull pages tx error file)
    (hpages : pages = placePages places + frame) : Refused tx frame places answer error file :=
  ⟨.inr ⟨h.1, h.2.1⟩, h.2.2.of_eq hpages⟩

theorem set_ids (hk : places[k]? = some place) :
    (places.map Place.id).set k place.id = places.map Place.id := by
  obtain ⟨hlt, rfl⟩ := List.getElem?_eq_some_iff.1 hk
  rw [← List.map_set, List.set_getElem_self]

theorem done_set (hk : places[k]? = some place) {place' : Place} (hid : place'.id = place.id)
    (h : Held tx file (↑place'.pages + (placePages (places.eraseIdx k) + frame)))
    (hanswer : answer = .ok ((places.map Place.content).set k place'.content)) :
    Done tx frame places answer (places.map Place.id) file := by
  refine ⟨places.set k place', ?_, ?_, List.prefix_refl _, h.of_eq ?_⟩
  · rw [hanswer, List.map_set]
  · rw [List.map_set, hid, set_ids hk]
  · rw [placePages_set (List.getElem?_eq_some_iff.1 hk).1, add_assoc]

theorem done_live {blob blob' : Blob} (hk : places[k]? = some (.live blob)) (hid : blob'.id = blob.id)
    (h : Held tx file (↑blob'.pages + (placePages (places.eraseIdx k) + frame)))
    (hanswer : answer = .ok ((places.map Place.content).set k (some blob'.data))) :
    Done tx frame places answer (places.map Place.id) file :=
  @done_set _ _ _ _ _ _ _ _ hk (.live blob') hid h hanswer

theorem done_concat {blob : Blob} (h : Held tx file (↑blob.pages + (placePages places + frame)))
    (hanswer : answer = .ok (places.map Place.content ++ [some blob.data])) :
    Done tx frame places answer (places.map Place.id ++ [blob.id]) file := by
  refine ⟨places ++ [.live blob], ?_, ?_, List.prefix_append _ _, h.of_eq ?_⟩
  · rw [hanswer, List.map_append]
    rfl
  · rw [List.map_append]
    rfl
  · rw [placePages_concat, add_assoc]
    rfl

theorem placePages_at (hk : places[k]? = some place) :
    placePages places + frame = ↑place.pages + (placePages (places.eraseIdx k) + frame) := by
  rw [placePages_of_getElem? hk, add_assoc]

theorem Held.place_cases (h : Held tx file (placePages places + frame)) (k : Nat) :
    let id := (places.map Place.id).getD k 0
    let contents := places.map Place.content
    (¬k < contents.length ∧ id = 0 ∧ BlobContents.get contents k = .error nullBlob) ∨
      k < contents.length ∧ id ≠ 0 ∧
        ((places[k]? = some (.gone id) ∧ BlobContents.get contents k = .error noBlobPage) ∨
          ∃ blob, places[k]? = some (.live blob) ∧ blob.id = id ∧
            BlobContents.get contents k = .ok blob.data) := by
  intro id contents
  have hid : id = (places[k]?.map Place.id).getD 0 := by
    rw [← List.getElem?_map]
    exact List.getD_eq_getElem?_getD
  have hcontent : contents[k]? = places[k]?.map Place.content := List.getElem?_map
  have hlength : contents.length = places.length := List.length_map _
  unfold BlobContents.get
  rw [hcontent, hid, hlength]
  cases hk : places[k]? with
  | none => exact .inl ⟨Nat.not_lt.2 (List.getElem?_eq_none_iff.1 hk), rfl, rfl⟩
  | some place =>
    have hsound := h.of_eq (placePages_at hk)
    refine .inr ⟨(List.getElem?_eq_some_iff.1 hk).1, ?_⟩
    cases place with
    | live blob => exact ⟨hsound.id_ne_zero, .inr ⟨blob, rfl, rfl, rfl⟩⟩
    | gone id => exact ⟨hsound.gone_ne_zero, .inl ⟨rfl, rfl⟩⟩

omit [PageSize] in
theorem null_refused {α : Type} (hready : requireWriteTransaction required file = .ok () file)
    (rest : PageM α) :
    (requireWriteTransaction required >>= fun _ => requireBlobId 0 >>= fun _ => rest) file =
      .error nullBlob file := by
  rw [bind_of_ok hready]
  rfl

omit [PageSize] in
theorem ready_run {α : Type} (hready : requireWriteTransaction required file = .ok () file) {id : Nat}
    (hid : id ≠ 0) (rest : PageM α) :
    (requireWriteTransaction required >>= fun _ => requireBlobId id >>= fun _ => rest) file =
      rest file := by
  rw [bind_of_ok hready, requireBlobId, if_neg hid]
  rfl

section Calls

variable (h : Held tx file (placePages places + frame)) (hpermitted : required = true → tx = true)
include h hpermitted

theorem outcome_create (data : Bytes) :
    Outcome (Done tx frame places ((BlobCall.create data).apply (places.map Place.content)))
      (Refused tx frame places ((BlobCall.create data).apply (places.map Place.content)))
      ((BlobCall.create data).run required (places.map Place.id) file) := by
  apply ((h.create hpermitted data).mono (fun _ _ h => h) fun error file' hfull =>
    hfull.refused rfl).bind
  rintro _ file' ⟨blob, rfl, rfl, hsound⟩
  exact done_concat hsound rfl

theorem outcome_append (k : Nat) (data : Bytes) :
    Outcome (Done tx frame places ((BlobCall.append k data).apply (places.map Place.content)))
      (Refused tx frame places ((BlobCall.append k data).apply (places.map Place.content)))
      ((BlobCall.append k data).run required (places.map Place.id) file) := by
  have hready := requireWriteTransaction_ok (h.tx ▸ hpermitted)
  rw [BlobCall.run, BlobCall.apply]
  rcases h.place_cases k with ⟨hlt, hid, hget⟩ | ⟨hlt, hid, hfound⟩
  · have hrun : BlobStore.append required 0 data file = .error nullBlob file := null_refused hready _
    rw [hid, bind_of_error hrun, hget, if_neg fun hboth => hlt hboth.1]
    exact ⟨.inl rfl, h⟩
  · by_cases hdata : data = []
    · have hrun : BlobStore.append required ((places.map Place.id).getD k 0) data file = .ok () file := by
        apply (ready_run hready hid _).trans
        rw [if_pos hdata]
        rfl
      rw [bind_of_ok hrun, if_pos ⟨hlt, hdata⟩]
      exact ⟨places, rfl, rfl, List.prefix_refl _, h⟩
    · rcases hfound with ⟨hk, hget⟩ | ⟨blob, hk, hid, hget⟩
      · have hrun : BlobStore.append required ((places.map Place.id).getD k 0) data file =
            .error noBlobPage file := by
          apply (ready_run hready hid _).trans
          rw [if_neg hdata]
          exact (pageFuel_run _ _).trans (bind_of_error ((h.of_eq (placePages_at hk)).walk_gone _ _))
        rw [bind_of_error hrun, hget, if_neg fun hboth => hdata hboth.2]
        exact ⟨.inl rfl, h⟩
      · rw [hget, if_neg fun hboth => hdata hboth.2, ← hid]
        apply (((h.of_eq (placePages_at hk)).append hpermitted hdata).mono (fun _ _ h => h) fun error file' hfull =>
          hfull.refused (placePages_at hk).symm).bind
        rintro _ file' ⟨blob', hid', hdata', hsound⟩
        exact done_live hk hid' hsound (by rw [hdata']; rfl)

theorem outcome_overwritePrefix (k : Nat) (bytes : Bytes) :
    Outcome (Done tx frame places ((BlobCall.overwritePrefix k bytes).apply (places.map Place.content)))
      (Refused tx frame places ((BlobCall.overwritePrefix k bytes).apply (places.map Place.content)))
      ((BlobCall.overwritePrefix k bytes).run required (places.map Place.id) file) := by
  have hready := requireWriteTransaction_ok (h.tx ▸ hpermitted)
  rw [BlobCall.run, BlobCall.apply]
  rcases h.place_cases k with ⟨hlt, hid, hget⟩ | ⟨hlt, hid, ⟨hk, hget⟩ | ⟨blob, hk, hblob, hget⟩⟩
  · have hrun : BlobStore.overwritePrefix required 0 bytes file = .error nullBlob file :=
      null_refused hready _
    rw [hid, bind_of_error hrun, hget]
    exact ⟨.inl rfl, h⟩
  · have hrun : BlobStore.overwritePrefix required ((places.map Place.id).getD k 0) bytes file =
        .error noBlobPage file :=
      (ready_run hready hid _).trans (bind_of_error (h.of_eq (placePages_at hk)).gone)
    rw [bind_of_error hrun, hget]
    exact ⟨.inl rfl, h⟩
  · have hplace := h.of_eq (placePages_at hk)
    rw [hget, ← hblob]
    dsimp only
    rw [← List.length_take]
    by_cases hfits : bytes.length ≤ (blob.data.take blobPageCapacity).length
    · obtain ⟨file', hrun, blob', hid', hdata', hsound⟩ := hplace.overwritePrefix hpermitted hfits
      rw [bind_of_ok hrun, if_neg (Nat.not_lt.2 hfits)]
      exact done_live hk hid' hsound (by rw [hdata'])
    · obtain ⟨ids, _, hread⟩ := hplace.firstPage
      have hrun : BlobStore.overwritePrefix required blob.id bytes file = .error prefixTooLong file := by
        rw [← hblob] at hid
        apply (ready_run hready hid _).trans
        rw [bind_of_ok hread]
        dsimp only
        rw [if_pos (Nat.not_le.1 hfits)]
        rfl
      rw [bind_of_error hrun, if_pos (Nat.not_le.1 hfits)]
      exact ⟨.inl rfl, h⟩

theorem outcome_rewrite (k : Nat) (data : Bytes) :
    Outcome (Done tx frame places ((BlobCall.rewrite k data).apply (places.map Place.content)))
      (Refused tx frame places ((BlobCall.rewrite k data).apply (places.map Place.content)))
      ((BlobCall.rewrite k data).run required (places.map Place.id) file) := by
  have hready := requireWriteTransaction_ok (h.tx ▸ hpermitted)
  have hlength : (places.map Place.content).length = (places.map Place.id).length := by
    rw [List.length_map, List.length_map]
  rw [BlobCall.run, BlobCall.apply]
  rcases h.place_cases k with ⟨hlt, hid, hget⟩ | ⟨hlt, hid, ⟨hk, hget⟩ | ⟨blob, hk, hblob, hget⟩⟩
  · have hrun : BlobStore.rewrite required 0 data file = BlobStore.create required data file := by
      rw [BlobStore.rewrite, bind_of_ok hready]
      rfl
    rw [hid, if_neg hlt]
    rw [hlength] at hlt
    simp only [if_neg hlt]
    apply Outcome.bind (hrun ▸ (h.create hpermitted data).mono (fun _ _ h => h) fun error file' hfull =>
      hfull.refused rfl)
    rintro _ file' ⟨blob, rfl, rfl, hsound⟩
    exact done_concat hsound rfl
  · have hrun : BlobStore.rewrite required ((places.map Place.id).getD k 0) data file =
        .error noBlobPage file := by
      rw [BlobStore.rewrite, bind_of_ok hready, if_neg hid]
      exact (pageFuel_run _ _).trans (bind_of_error ((h.of_eq (placePages_at hk)).walk_gone _ _))
    rw [bind_of_error hrun, if_pos hlt, hget]
    exact ⟨.inl rfl, h⟩
  · rw [if_pos hlt, hget, ← hblob]
    rw [hlength] at hlt
    simp only [if_pos hlt]
    apply (((h.of_eq (placePages_at hk)).rewrite hpermitted data).mono (fun _ _ h => h)
      fun error file' hfull => hfull.refused (placePages_at hk).symm).bind
    rintro _ file' ⟨rfl, blob', hid', hdata', hsound⟩
    change Done _ _ _ _ ((places.map Place.id).set k (Place.live blob).id) file'
    rw [set_ids hk]
    exact done_live hk hid' hsound (by rw [hdata']; rfl)

theorem outcome_remove (k : Nat) :
    Outcome (Done tx frame places ((BlobCall.remove k).apply (places.map Place.content)))
      (Refused tx frame places ((BlobCall.remove k).apply (places.map Place.content)))
      ((BlobCall.remove k).run required (places.map Place.id) file) := by
  have hready := requireWriteTransaction_ok (h.tx ▸ hpermitted)
  rw [BlobCall.run, BlobCall.apply]
  rcases h.place_cases k with ⟨hlt, hid, hget⟩ | ⟨hlt, hid, ⟨hk, hget⟩ | ⟨blob, hk, hblob, hget⟩⟩
  · have hrun : BlobStore.remove required 0 file = .error nullBlob file := null_refused hready _
    rw [hid, bind_of_error hrun, hget]
    exact ⟨.inl rfl, h⟩
  · have hrun : BlobStore.remove required ((places.map Place.id).getD k 0) file =
        .error noBlobPage file := by
      apply (ready_run hready hid _).trans
      exact (pageFuel_run _ _).trans ((h.of_eq (placePages_at hk)).walk_gone _ _)
    rw [bind_of_error hrun, hget]
    exact ⟨.inl rfl, h⟩
  · obtain ⟨file', hrun, hsound⟩ := (h.of_eq (placePages_at hk)).remove hpermitted
    rw [hget, ← hblob, bind_of_ok hrun]
    exact @done_set _ _ _ _ _ _ _ _ hk (.gone blob.id) rfl hsound rfl

end Calls

theorem outcome_call (h : Held tx file (placePages places + frame)) (call : BlobCall) :
    Outcome (Done tx frame places (call.answer required tx (places.map Place.content)))
      (Refused tx frame places (call.answer required tx (places.map Place.content)))
      (call.run required (places.map Place.id) file) := by
  unfold BlobCall.answer
  by_cases hrefused : required ∧ ¬tx
  · rw [if_pos hrefused]
    have hready : requireWriteTransaction required file =
        .error ⟨.transactionRequired, "blob writes require an active transaction"⟩ file := by
      rw [requireWriteTransaction, h.tx, if_pos hrefused]
    have hrun : call.run required (places.map Place.id) file =
        .error ⟨.transactionRequired, "blob writes require an active transaction"⟩ file := by
      cases call <;> exact bind_of_error (bind_of_error hready)
    rw [hrun]
    exact ⟨.inl rfl, h⟩
  · rw [if_neg hrefused]
    have hpermitted : required = true → tx = true := by
      intro hrequired
      by_contra htx
      exact hrefused ⟨hrequired, htx⟩
    cases call with
    | create data => exact outcome_create h hpermitted data
    | append k data => exact outcome_append h hpermitted k data
    | overwritePrefix k bytes => exact outcome_overwritePrefix h hpermitted k bytes
    | rewrite k data => exact outcome_rewrite h hpermitted k data
    | remove k => exact outcome_remove h hpermitted k

/-! ### Every run -/

namespace BlobRun

def Kept (tx : Bool) (frame : Multiset (Nat × Area)) (run : BlobRun) : Prop :=
  ∃ places : List Place, run.ids = places.map Place.id ∧ run.contents = places.map Place.content ∧
    Held tx run.file (placePages places + frame)

variable {run : BlobRun}

theorem Kept.step (h : run.Kept tx frame) (call : BlobCall) : (run.step required call).Kept tx frame := by
  obtain ⟨places, hids, hcontents, hsound⟩ := h
  have houtcome : Outcome (Done tx frame places (call.answer required tx (places.map Place.content)))
      (Refused tx frame places (call.answer required tx (places.map Place.content)))
      (call.run required (places.map Place.id) run.file) := outcome_call hsound call
  unfold BlobRun.step BlobRun.answer
  rw [hids, hcontents, hsound.tx]
  cases hrun : call.run required (places.map Place.id) run.file with
  | ok ids file =>
    rw [hrun] at houtcome
    obtain ⟨places', hanswer, rfl, _, hsound'⟩ := houtcome
    exact ⟨places', rfl, by rw [hanswer]; rfl, hsound'⟩
  | error error file =>
    rw [hrun] at houtcome
    exact ⟨places, rfl, rfl, houtcome.2⟩

theorem Kept.after (h : run.Kept tx frame) (calls : List BlobCall) :
    (run.after required calls).Kept tx frame := by
  induction calls generalizing run with
  | nil => exact h
  | cons call calls ih => exact ih (h.step call)

theorem Kept.refines (h : run.Kept tx frame) : run.Refines required frame := by
  obtain ⟨places, hids, hcontents, hsound⟩ := h
  constructor
  · rw [hids, hcontents, List.length_map, List.length_map]
  · intro k
    rw [hids, hcontents]
    rcases hsound.place_cases k with ⟨_, hid, hget⟩ | ⟨_, hid, ⟨hk, hget⟩ | ⟨blob, hk, hblob, hget⟩⟩
    · rw [hid, hget]
      rfl
    · rw [hget, BlobStore.read, requireBlobId, if_neg hid, pure_bind_run]
      exact (pageFuel_run _ _).trans ((hsound.of_eq (placePages_at hk)).walk_gone _ _)
    · rw [hget, ← hblob]
      exact (hsound.of_eq (placePages_at hk)).readBlob
  · intro call
    rw [BlobRun.answer, hids, hcontents, hsound.tx]
    apply (outcome_call hsound call).mono
    · rintro ids file ⟨places', hanswer, _, hprefix, _⟩
      exact ⟨⟨_, hanswer⟩, hprefix⟩
    · rintro error file ⟨hanswer, _⟩
      exact hanswer
  · exact hsound.holds.right

end BlobRun

/-- Over every run of calls the store is the map of the contents. -/
theorem blobs_refine {start : PageFile Area} (hholds : Holds start frame) (hpos : 0 < start.pageCount)
    (hfits : start.pageCount < 2 ^ 64) (required : Bool) (calls : List BlobCall) :
    ((BlobRun.start start).after required calls).Refines required frame := by
  have hkept : (BlobRun.start start).Kept start.inTransaction frame :=
    ⟨[], rfl, rfl, (hholds.of_eq (zero_add frame).symm), hpos, hfits, rfl⟩
  exact (hkept.after calls).refines

omit [PageSize] in
theorem blobs_refine_created :
    @BlobRun.Refines PageSize.default false 0 (@BlobRun.after PageSize.default false
      (.start .create) [.create [1, 2], .append 0 [3], .create [], .remove 0]) :=
  @blobs_refine PageSize.default 0 .create ⟨Multiset.nodup_zero, fun _ h => absurd h (Multiset.notMem_zero _)⟩
    Nat.one_pos (by decide) false _

end MoDb.Store
