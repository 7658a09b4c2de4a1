import MoDb.Lib.Effect
import Mathlib.Data.List.Nodup
import Mathlib.Logic.Relation

/-!
# Removing what a thing owns

A thing is removed after all that it owns, depth first; a thing that is met twice is an error. What a
thing owns is read when it is met: a list of things, or of errors where something else is found. The
removal goes through if what is owned is a tree in which everything can be removed. If it fails, then
nothing is gone just when the first way down, from first owned to first owned, has failed.
-/

namespace Cascade

open Effect

variable {σ ι ε : Type}

def visitAll (visit : ι → List ι → EStateM ε σ (List ι)) :
    List (Except ε ι) → List ι → EStateM ε σ (List ι)
  | [], visited => pure visited
  | .error error :: _, _ => throw error
  | .ok child :: rest, visited => do
    let visited ← visit child visited
    visitAll visit rest visited

section

variable [DecidableEq ι] (owned : σ → ι → Except ε (List (Except ε ι))) (erase : ι → EStateM ε σ Unit)
  (cycle : ι → ε)

/-- Remove a thing and all that it owns; the depth is a bound on the recursion. -/
def remove : Nat → ι → List ι → EStateM ε σ (List ι)
  | 0, id, _ => throw (cycle id)
  | depth + 1, id, visited =>
    if id ∈ visited then throw (cycle id)
    else do
      let state ← get
      match owned state id with
      | .error error => throw error
      | .ok children => do
        let visited ← visitAll (remove depth) children (id :: visited)
        erase id
        pure visited

end

/-! ### What is owned -/

section Trees

variable (owned : ι → Except ε (List (Except ε ι)))

/-- All that a list of things owns, each thing after what it owns. -/
inductive Unfolds : List (Except ε ι) → List ι → Prop
  | nil : Unfolds [] []
  | cons {id : ι} {children rest : List (Except ε ι)} {order order' : List ι}
      (howned : owned id = .ok children) (hchildren : Unfolds children order) (hrest : Unfolds rest order') :
      Unfolds (.ok id :: rest) (order ++ id :: order')

def Owns (id child : ι) : Prop := ∃ children, owned id = .ok children ∧ .ok child ∈ children

/-- The first way down fails: at a thing that was met before, one that is not there, something that is no
thing, or one that owns nothing and is not to be removed. -/
inductive Refused (refuses : ι → Prop) : ι → List ι → Prop
  | met {id : ι} {visited : List ι} (hmet : id ∈ visited) : Refused refuses id visited
  | absent {id : ι} {visited : List ι} {error : ε} (howned : owned id = .error error) :
      Refused refuses id visited
  | wrong {id : ι} {visited : List ι} {error : ε} {rest : List (Except ε ι)}
      (howned : owned id = .ok (.error error :: rest)) : Refused refuses id visited
  | down {id child : ι} {visited : List ι} {rest : List (Except ε ι)}
      (howned : owned id = .ok (.ok child :: rest)) (hchild : Refused refuses child (id :: visited)) :
      Refused refuses id visited
  | leaf {id : ι} {visited : List ι} (howned : owned id = .ok []) (hrefuses : refuses id) :
      Refused refuses id visited

variable {owned}

theorem Unfolds.present {things : List (Except ε ι)} {order : List ι} (h : Unfolds owned things order) :
    ∀ id ∈ order, ∃ children, owned id = .ok children := by
  induction h with
  | nil => exact nofun
  | cons howned _ _ ihchildren ihrest =>
    intro id hid
    rcases List.mem_append.1 hid with hid | hid
    · exact ihchildren id hid
    · rcases List.mem_cons.1 hid with rfl | hid
      · exact ⟨_, howned⟩
      · exact ihrest id hid

theorem Unfolds.append {things things' : List (Except ε ι)} {order order' : List ι}
    (h : Unfolds owned things order) (h' : Unfolds owned things' order') :
    Unfolds owned (things ++ things') (order ++ order') := by
  induction h with
  | nil => exact h'
  | cons howned hchildren _ _ ihrest =>
    rw [List.append_assoc]
    exact .cons howned hchildren ihrest

theorem Unfolds.mem {things : List (Except ε ι)} {order : List ι} (h : Unfolds owned things order) :
    ∀ id, .ok id ∈ things → id ∈ order := by
  induction h with
  | nil => exact nofun
  | cons _ _ _ _ ihrest =>
    intro id hid
    rcases List.mem_cons.1 hid with hid | hid
    · cases hid
      exact List.mem_append_right _ List.mem_cons_self
    · exact List.mem_append_right _ (List.mem_cons_of_mem _ (ihrest id hid))

theorem Unfolds.closed {things : List (Except ε ι)} {order : List ι} (h : Unfolds owned things order)
    {id child : ι} (hid : id ∈ order) (howns : Owns owned id child) : child ∈ order := by
  induction h with
  | nil => cases hid
  | @cons root children rest order order' howned hchildren _ ihchildren ihrest =>
    rcases List.mem_append.1 hid with hid | hid
    · exact List.mem_append_left _ (ihchildren hid)
    · rcases List.mem_cons.1 hid with rfl | hid
      · obtain ⟨children', howned', hchild⟩ := howns
        rw [howned] at howned'
        cases howned'
        exact List.mem_append_left _ (hchildren.mem child hchild)
      · exact List.mem_append_right _ (List.mem_cons_of_mem _ (ihrest hid))

theorem Unfolds.mem_iff {root : ι} {order : List ι} (h : Unfolds owned [.ok root] order) (id : ι) :
    id ∈ order ↔ Relation.ReflTransGen (Owns owned) root id := by
  constructor
  · have hreach : ∀ {things : List (Except ε ι)} {order : List ι}, Unfolds owned things order →
        ∀ id ∈ order, ∃ thing, .ok thing ∈ things ∧ Relation.ReflTransGen (Owns owned) thing id := by
      intro things order h
      induction h with
      | nil => exact nofun
      | cons howned _ _ ihchildren ihrest =>
        intro id hid
        rcases List.mem_append.1 hid with hid | hid
        · obtain ⟨child, hchild, hpath⟩ := ihchildren id hid
          exact ⟨_, List.mem_cons_self, .head ⟨_, howned, hchild⟩ hpath⟩
        · rcases List.mem_cons.1 hid with rfl | hid
          · exact ⟨_, List.mem_cons_self, .refl⟩
          · obtain ⟨thing, hthing, hpath⟩ := ihrest id hid
            exact ⟨thing, List.mem_cons_of_mem _ hthing, hpath⟩
    intro hid
    obtain ⟨thing, hthing, hpath⟩ := hreach h id hid
    rcases List.mem_cons.1 hthing with hthing | hthing
    · cases hthing
      exact hpath
    · cases hthing
  · intro hpath
    induction hpath with
    | refl => exact h.mem root List.mem_cons_self
    | tail _ howns ih => exact h.closed ih howns

end Trees

/-! ### Erasures -/

section Runs

variable [DecidableEq ι] {owned : σ → ι → Except ε (List (Except ε ι))} {erase : ι → EStateM ε σ Unit}
  {cycle : ι → ε}

/-- What an erasure does after others: it goes through, or it is refused and does nothing, or it fails
and the thing is gone. `without` says of a state that all is as at first but that some things are gone. -/
structure Erasure (owned : σ → ι → Except ε (List (Except ε ι))) (erase : ι → EStateM ε σ Unit)
    (absent : σ → ι → Prop) (first : σ) (takes refuses : ι → Prop) (without : List ι → σ → Prop) : Prop where
  start : without [] first
  congr : ∀ {gone gone' : List ι} {state : σ}, without gone state → (∀ id, id ∈ gone ↔ id ∈ gone') →
    without gone' state
  kept : ∀ {gone : List ι} {state : σ} {id : ι}, without gone state → id ∉ gone →
    owned state id = owned first id
  lost : ∀ {gone : List ι} {state : σ} {id : ι}, without gone state → id ∈ gone →
    absent state id
  erase : ∀ {gone : List ι} {state : σ} {id : ι} {children : List (Except ε ι)}, without gone state →
    id ∉ gone → owned first id = .ok children →
    (takes id ∧ ¬refuses id ∧ ∃ next, erase id state = .ok () next ∧ without (id :: gone) next) ∨
    (¬takes id ∧ refuses id ∧ ∃ error, erase id state = .error error state) ∨
    (¬takes id ∧ ¬refuses id ∧ ∃ error next, erase id state = .error error next ∧ absent next id)

variable {absent : σ → ι → Prop} {first : σ} {takes refuses : ι → Prop} {without : List ι → σ → Prop}

/-- A run that returns. -/
structure Returns (owned : ι → Except ε (List (Except ε ι))) (takes : ι → Prop)
    (without : List ι → σ → Prop) (things : List (Except ε ι)) (gone visited visited' : List ι) (state : σ) :
    Prop where
  exists_order : ∃ order, Unfolds owned things order ∧ order.Nodup ∧ (∀ id ∈ order, id ∉ visited) ∧
    (∀ id ∈ order, takes id) ∧ (∀ id, id ∈ visited' ↔ id ∈ order ∨ id ∈ visited) ∧
    without (order ++ gone) state

def Lost (owned : ι → Except ε (List (Except ε ι))) (absent : σ → ι → Prop) (gone : List ι) (state : σ) :
    Prop :=
  ∃ id children, id ∉ gone ∧ owned id = .ok children ∧ absent state id

def unmet (all visited : List ι) : Nat := (all.filter fun id => id ∉ visited).length

theorem unmet_le {all visited visited' : List ι} (h : ∀ id ∈ visited, id ∈ visited') :
    unmet all visited' ≤ unmet all visited := by
  apply List.Sublist.length_le
  apply List.monotone_filter_right
  intro id hid
  simp only [decide_eq_true_eq] at hid ⊢
  exact fun hmem => hid (h id hmem)

theorem unmet_cons {all visited : List ι} {id : ι} (hid : id ∈ all) (hnew : id ∉ visited) :
    unmet all (id :: visited) < unmet all visited := by
  have hsub : (all.filter fun other => other ∉ id :: visited) =
      (all.filter fun other => other ∉ visited).filter fun other => other ≠ id := by
    rw [List.filter_filter]
    apply List.filter_congr
    intro other _
    simp only [List.mem_cons, not_or, ne_eq, Bool.decide_and]
  unfold unmet
  rw [hsub]
  apply List.length_filter_lt_length_iff_exists.2
  exact ⟨id, List.mem_filter.2 ⟨hid, by simpa using hnew⟩, by simp⟩

def Comes (owned : ι → Except ε (List (Except ε ι))) (absent : σ → ι → Prop) (takes refuses : ι → Prop)
    (without : List ι → σ → Prop) (id : ι) (gone visited : List ι) (state : σ) :
    EStateM.Result ε σ (List ι) → Prop
  | .ok visited' next => Returns owned takes without [.ok id] gone visited visited' next
  | .error _ next => next = state ∧ Refused owned refuses id visited ∨ Lost owned absent gone next

theorem comes_visitAll (h : Erasure owned erase absent first takes refuses without) {depth : Nat}
    {all : List ι} (hvisit : ∀ {id : ι} {gone visited : List ι} {state : σ}, without gone state →
      (∀ id ∈ gone, id ∈ visited) → unmet all visited < depth →
      Comes (owned first) absent takes refuses without id gone visited state (remove owned erase cycle depth id visited state))
    {things : List (Except ε ι)} {gone visited : List ι} {state : σ} (hstate : without gone state)
    (hgone : ∀ id ∈ gone, id ∈ visited) (hdepth : unmet all visited < depth) :
    match visitAll (remove owned erase cycle depth) things visited state with
    | .ok visited' next => Returns (owned first) takes without things gone visited visited' next
    | .error _ next =>
      (next = state ∧ ((∃ error rest, things = .error error :: rest) ∨
        ∃ child rest, things = .ok child :: rest ∧ Refused (owned first) refuses child visited)) ∨
      Lost (owned first) absent gone next := by
  induction things generalizing gone visited state with
  | nil =>
    exact ⟨[], .nil, List.nodup_nil, nofun, nofun, fun id => ⟨.inr, fun h => h.resolve_left List.not_mem_nil⟩,
      hstate⟩
  | cons thing rest ih =>
    cases thing with
    | error error => exact .inl ⟨rfl, .inl ⟨error, rest, rfl⟩⟩
    | ok child =>
      have hchild := @hvisit child gone visited state hstate hgone hdepth
      unfold visitAll
      cases hrun : remove owned erase cycle depth child visited state with
      | error error next =>
        rw [bind_of_error hrun]
        rw [hrun] at hchild
        rcases hchild with ⟨hsame, hrefused⟩ | hlost
        · exact .inl ⟨hsame, .inr ⟨child, rest, rfl, hrefused⟩⟩
        · exact .inr hlost
      | ok visited' next =>
        rw [bind_of_ok hrun]
        rw [hrun] at hchild
        obtain ⟨order, hunfolds, hnodup, hnew, htakes, hvisited, hnext⟩ := hchild.exists_order
        have hgone' : ∀ id ∈ order ++ gone, id ∈ visited' := by
          intro id hid
          rcases List.mem_append.1 hid with hid | hid
          · exact (hvisited id).2 (.inl hid)
          · exact (hvisited id).2 (.inr (hgone id hid))
        have hless : unmet all visited' < depth :=
          Nat.lt_of_le_of_lt (unmet_le fun id hid => (hvisited id).2 (.inr hid)) hdepth
        -- The first thing was there, and is gone.
        have hfirst : child ∈ order := hunfolds.mem child List.mem_cons_self
        obtain ⟨children, hchildren⟩ := hunfolds.present child hfirst
        have hchildnew : child ∉ gone := fun hmem => hnew child hfirst (hgone child hmem)
        have hrest := ih hnext hgone' hless
        cases hmore : visitAll (remove owned erase cycle depth) rest visited' next with
        | error error last =>
          dsimp only
          rw [hmore] at hrest
          right
          rcases hrest with ⟨rfl, -⟩ | ⟨id, children', hid, hpresent, hlost⟩
          · exact ⟨child, children, hchildnew, hchildren, h.lost hnext (List.mem_append_left _ hfirst)⟩
          · exact ⟨id, children', fun hmem => hid (List.mem_append_right _ hmem), hpresent, hlost⟩
        | ok visited'' last =>
          dsimp only
          rw [hmore] at hrest
          obtain ⟨order', hunfolds', hnodup', hnew', htakes', hvisited', hlast⟩ := hrest.exists_order
          refine ⟨order ++ order', hunfolds.append hunfolds', ?_, ?_, ?_, ?_, ?_⟩
          · refine List.nodup_append.2 ⟨hnodup, hnodup', ?_⟩
            rintro id hid _ hid' rfl
            exact hnew' id hid' ((hvisited id).2 (.inl hid))
          · intro id hid
            rcases List.mem_append.1 hid with hid | hid
            · exact hnew id hid
            · exact fun hmem => hnew' id hid ((hvisited id).2 (.inr hmem))
          · intro id hid
            rcases List.mem_append.1 hid with hid | hid
            · exact htakes id hid
            · exact htakes' id hid
          · intro id
            rw [hvisited', hvisited, List.mem_append]
            tauto
          · apply h.congr hlast
            intro id
            simp only [List.mem_append]
            tauto

theorem comes_remove (h : Erasure owned erase absent first takes refuses without) {all : List ι}
    (hall : ∀ {id : ι} {children : List (Except ε ι)}, owned first id = .ok children → id ∈ all)
    {depth : Nat} {id : ι} {gone visited : List ι} {state : σ} (hstate : without gone state)
    (hgone : ∀ id ∈ gone, id ∈ visited) (hdepth : unmet all visited < depth) :
    Comes (owned first) absent takes refuses without id gone visited state
      (remove owned erase cycle depth id visited state) := by
  induction depth generalizing id gone visited state with
  | zero => exact absurd hdepth (Nat.not_lt_zero _)
  | succ depth ih =>
    unfold remove
    by_cases hmet : id ∈ visited
    · rw [if_pos hmet]
      exact .inl ⟨rfl, .met hmet⟩
    · rw [if_neg hmet]
      have hnew : id ∉ gone := fun hmem => hmet (hgone id hmem)
      have hread := h.kept hstate hnew
      rw [get_bind_run]
      cases howned : owned first id with
      | error error =>
        rw [hread, howned]
        exact .inl ⟨rfl, .absent howned⟩
      | ok children =>
        rw [hread, howned]
        dsimp only
        have hless : unmet all (id :: visited) < depth :=
          Nat.lt_of_lt_of_le (unmet_cons (hall howned) hmet) (Nat.le_of_lt_succ hdepth)
        have hchildren := @comes_visitAll _ _ _ _ owned erase cycle absent first takes refuses without h depth all
          (fun hstate hgone hdepth => ih hstate hgone hdepth) children gone (id :: visited) state hstate
          (fun id hid => List.mem_cons_of_mem _ (hgone id hid)) hless
        cases hrun : visitAll (remove owned erase cycle depth) children (id :: visited) state with
        | error error next =>
          rw [bind_of_error hrun]
          rw [hrun] at hchildren
          rcases hchildren with ⟨hsame, ⟨error', rest, rfl⟩ | ⟨child, rest, rfl, hrefused⟩⟩ | hlost
          · exact .inl ⟨hsame, .wrong howned⟩
          · exact .inl ⟨hsame, .down howned hrefused⟩
          · exact .inr hlost
        | ok visited' next =>
          rw [bind_of_ok hrun]
          rw [hrun] at hchildren
          obtain ⟨order, hunfolds, hnodup, hfresh, htakes, hvisited, hnext⟩ := hchildren.exists_order
          have hself : id ∉ order ++ gone := by
            intro hmem
            rcases List.mem_append.1 hmem with hmem | hmem
            · exact hfresh id hmem List.mem_cons_self
            · exact hnew hmem
          rcases h.erase hnext hself howned with
            ⟨htake, -, last, herase, hlast⟩ | ⟨-, hrefuses, error, herase⟩ |
            ⟨-, -, error, last, herase, hlost⟩
          · rw [bind_of_ok herase]
            refine ⟨order ++ [id], .cons howned hunfolds .nil, ?_, ?_, ?_, ?_, ?_⟩
            · refine List.nodup_append.2 ⟨hnodup, List.nodup_singleton id, ?_⟩
              rintro other hother _ hid rfl
              rw [List.mem_singleton.1 hid] at hother
              exact hself (List.mem_append_left _ hother)
            · intro other hother
              rcases List.mem_append.1 hother with hother | hother
              · exact fun hmem => hfresh other hother (List.mem_cons_of_mem _ hmem)
              · rw [List.mem_singleton.1 hother]
                exact hmet
            · intro other hother
              rcases List.mem_append.1 hother with hother | hother
              · exact htakes other hother
              · rw [List.mem_singleton.1 hother]
                exact htake
            · intro other
              rw [hvisited, List.mem_cons, List.mem_append, List.mem_singleton]
              tauto
            · apply h.congr hlast
              intro other
              simp only [List.mem_cons, List.mem_append, List.not_mem_nil, or_false]
              tauto
          · rw [bind_of_error herase]
            cases children with
            | nil =>
              cases hrun
              exact .inl ⟨rfl, .leaf howned hrefuses⟩
            | cons thing rest =>
              right
              obtain ⟨child, hchild⟩ : ∃ child, child ∈ order := by
                cases hunfolds with
                | cons _ _ _ => exact ⟨_, List.mem_append_right _ List.mem_cons_self⟩
              obtain ⟨children, hpresent⟩ := hunfolds.present child hchild
              exact ⟨child, children, fun hmem => hfresh child hchild
                (List.mem_cons_of_mem _ (hgone child hmem)), hpresent,
                h.lost hnext (List.mem_append_left gone hchild)⟩
          · rw [bind_of_error herase]
            exact .inr ⟨id, children, hnew, howned, hlost⟩

theorem visitAll_of_unfolds (h : Erasure owned erase absent first takes refuses without) {all : List ι}
    (hall : ∀ {id : ι} {children : List (Except ε ι)}, owned first id = .ok children → id ∈ all)
    {things : List (Except ε ι)} {order : List ι} (hunfolds : Unfolds (owned first) things order)
    {depth : Nat} {gone visited : List ι} {state : σ} (hstate : without gone state)
    (hgone : ∀ id ∈ gone, id ∈ visited) (hdepth : unmet all visited < depth) (hnodup : order.Nodup)
    (hnew : ∀ id ∈ order, id ∉ visited) (htakes : ∀ id ∈ order, takes id) :
    ∃ visited' next, visitAll (remove owned erase cycle depth) things visited state = .ok visited' next ∧
      (∀ id, id ∈ visited' ↔ id ∈ order ∨ id ∈ visited) ∧ without (order ++ gone) next := by
  induction hunfolds generalizing depth gone visited state with
  | nil =>
    exact ⟨visited, state, rfl, fun id => ⟨.inr, fun h => h.resolve_left List.not_mem_nil⟩, hstate⟩
  | @cons id children rest order order' howned hchildren hrest ihchildren ihrest =>
    obtain ⟨horder, htail, hapart⟩ := List.nodup_append.1 hnodup
    obtain ⟨hid, horder'⟩ := List.nodup_cons.1 htail
    have hmet : id ∉ visited := hnew id (List.mem_append_right _ List.mem_cons_self)
    have hself : id ∉ order := fun hmem => hapart id hmem id List.mem_cons_self rfl
    have hleft : id ∉ gone := fun hmem => hmet (hgone id hmem)
    cases depth with
    | zero => exact absurd hdepth (Nat.not_lt_zero _)
    | succ depth =>
      have hless : unmet all (id :: visited) < depth :=
        Nat.lt_of_lt_of_le (unmet_cons (hall howned) hmet) (Nat.le_of_lt_succ hdepth)
      obtain ⟨visited', next, hrun, hvisited, hnext⟩ := ihchildren hstate
        (fun other hother => List.mem_cons_of_mem _ (hgone other hother)) hless horder
        (by
          intro other hother hmem
          rcases List.mem_cons.1 hmem with rfl | hmem
          · exact hself hother
          · exact hnew other (List.mem_append_left _ hother) hmem)
        fun other hother => htakes other (List.mem_append_left _ hother)
      have hkept : id ∉ order ++ gone := by
        intro hmem
        rcases List.mem_append.1 hmem with hmem | hmem
        · exact hself hmem
        · exact hleft hmem
      have htake := htakes id (List.mem_append_right _ List.mem_cons_self)
      rcases h.erase hnext hkept howned with ⟨-, -, last, herase, hlast⟩ | ⟨hnot, -⟩ | ⟨hnot, -⟩
      · have hfirst : remove owned erase cycle (depth + 1) id visited state = .ok visited' last := by
          unfold remove
          rw [if_neg hmet, get_bind_run, h.kept hstate hleft, howned]
          dsimp only
          rw [bind_of_ok hrun, bind_of_ok herase]
          rfl
        obtain ⟨visited'', last', hmore, hvisited'', hlast'⟩ := ihrest hlast
          (by
            intro other hother
            rw [hvisited]
            rcases List.mem_cons.1 hother with rfl | hother
            · exact .inr List.mem_cons_self
            · rcases List.mem_append.1 hother with hother | hother
              · exact .inl hother
              · exact .inr (List.mem_cons_of_mem _ (hgone other hother)))
          (Nat.lt_of_le_of_lt
            (unmet_le fun other hother => (hvisited other).2 (.inr (List.mem_cons_of_mem _ hother))) hdepth)
          horder'
          (by
            intro other hother hmem
            rcases (hvisited other).1 hmem with hmem | hmem
            · exact hapart other hmem other (List.mem_cons_of_mem _ hother) rfl
            · rcases List.mem_cons.1 hmem with rfl | hmem
              · exact hid hother
              · exact hnew other (List.mem_append_right _ (List.mem_cons_of_mem _ hother)) hmem)
          fun other hother => htakes other (List.mem_append_right _ (List.mem_cons_of_mem _ hother))
        refine ⟨visited'', last', ?_, ?_, ?_⟩
        · unfold visitAll
          rw [bind_of_ok hfirst]
          exact hmore
        · intro other
          rw [hvisited'', hvisited, List.mem_append, List.mem_cons, List.mem_cons]
          tauto
        · apply h.congr hlast'
          intro other
          simp only [List.mem_append, List.mem_cons]
          tauto
      · exact absurd htake hnot
      · exact absurd htake hnot

theorem remove_of_refused (h : Erasure owned erase absent first takes refuses without)
    {depth : Nat} {id : ι} {visited : List ι} (hrefused : Refused (owned first) refuses id visited) :
    ∃ error, remove owned erase cycle depth id visited first = .error error first := by
  induction hrefused generalizing depth with
  | met hmet =>
    cases depth with
    | zero => exact ⟨_, rfl⟩
    | succ depth =>
      unfold remove
      rw [if_pos hmet]
      exact ⟨_, rfl⟩
  | @absent id visited error howned =>
    cases depth with
    | zero => exact ⟨_, rfl⟩
    | succ depth =>
      unfold remove
      split
      · exact ⟨_, rfl⟩
      · rw [get_bind_run, howned]
        exact ⟨_, rfl⟩
  | @wrong id visited error rest howned =>
    cases depth with
    | zero => exact ⟨_, rfl⟩
    | succ depth =>
      unfold remove
      split
      · exact ⟨_, rfl⟩
      · rw [get_bind_run, howned]
        exact ⟨_, bind_of_error rfl⟩
  | @down id child visited rest howned _ ih =>
    cases depth with
    | zero => exact ⟨_, rfl⟩
    | succ depth =>
      unfold remove
      split
      · exact ⟨_, rfl⟩
      · obtain ⟨error, hchild⟩ := @ih depth
        rw [get_bind_run, howned]
        refine ⟨error, bind_of_error ?_⟩
        unfold visitAll
        exact bind_of_error hchild
  | @leaf id visited howned hrefuses =>
    cases depth with
    | zero => exact ⟨_, rfl⟩
    | succ depth =>
      unfold remove
      split
      · exact ⟨_, rfl⟩
      · rw [get_bind_run, howned]
        dsimp only
        rcases h.erase h.start List.not_mem_nil howned with ⟨-, hnot, -⟩ | ⟨-, -, error, herase⟩ | ⟨-, hnot, -⟩
        · exact absurd hrefuses hnot
        · exact ⟨error, (bind_of_ok rfl).trans (bind_of_error herase)⟩
        · exact absurd hrefuses hnot

def Whole (owned : ι → Except ε (List (Except ε ι))) (takes : ι → Prop) (id : ι) : Prop :=
  ∃ order, Unfolds owned [.ok id] order ∧ order.Nodup ∧ ∀ other ∈ order, takes other

theorem remove_cases (h : Erasure owned erase absent first takes refuses without) {all : List ι}
    (hall : ∀ {id : ι} {children : List (Except ε ι)}, owned first id = .ok children → id ∈ all)
    {depth : Nat} (hdepth : all.length < depth) (id : ι) :
    (Whole (owned first) takes id ∧ ¬Refused (owned first) refuses id [] ∧
      ∃ visited next gone, remove owned erase cycle depth id [] first = .ok visited next ∧ without gone next ∧
        ∀ other, other ∈ gone ↔ Relation.ReflTransGen (Owns (owned first)) id other) ∨
    (¬Whole (owned first) takes id ∧ Refused (owned first) refuses id [] ∧
      ∃ error, remove owned erase cycle depth id [] first = .error error first) ∨
    (¬Whole (owned first) takes id ∧ ¬Refused (owned first) refuses id [] ∧
      ∃ error next, remove owned erase cycle depth id [] first = .error error next ∧
        Lost (owned first) absent [] next) := by
  have hless : unmet all [] < depth := Nat.lt_of_le_of_lt (List.length_filter_le _ _) hdepth
  have hwhole : Whole (owned first) takes id →
      ∃ visited next, remove owned erase cycle depth id [] first = .ok visited next := by
    rintro ⟨order, hunfolds, hnodup, htakes⟩
    obtain ⟨visited, next, hrun, -⟩ := @visitAll_of_unfolds _ _ _ _ owned erase cycle absent first takes refuses without
      h all hall _ _ hunfolds depth [] [] first h.start (fun _ hid => hid) hless hnodup
      (fun _ _ => List.not_mem_nil) htakes
    obtain ⟨visited', next', hremove, -⟩ := bind_eq_ok hrun
    exact ⟨visited', next', hremove⟩
  have hcomes := @comes_remove _ _ _ _ owned erase cycle absent first takes refuses without h all hall depth id [] []
    first h.start (fun _ hid => hid) hless
  cases hrun : remove owned erase cycle depth id [] first with
  | ok visited next =>
    rw [hrun] at hcomes
    obtain ⟨order, hunfolds, hnodup, -, htakes, -, hnext⟩ := hcomes.exists_order
    refine .inl ⟨⟨order, hunfolds, hnodup, htakes⟩, ?_, visited, next, order, rfl, ?_, hunfolds.mem_iff⟩
    · intro hrefused
      obtain ⟨error, hfailed⟩ := @remove_of_refused _ _ _ _ owned erase cycle absent first takes refuses without h depth id [] hrefused
      rw [hrun] at hfailed
      cases hfailed
    · rwa [List.append_nil] at hnext
  | error error next =>
    rw [hrun] at hcomes hwhole
    have hnot : ¬Whole (owned first) takes id := by
      intro htree
      obtain ⟨visited, next, hok⟩ := hwhole htree
      cases hok
    by_cases hrefused : Refused (owned first) refuses id []
    · obtain ⟨error', hfailed⟩ := @remove_of_refused _ _ _ _ owned erase cycle absent first takes refuses without h depth id [] hrefused
      rw [hrun] at hfailed
      cases hfailed
      exact .inr (.inl ⟨hnot, hrefused, error, rfl⟩)
    · refine .inr (.inr ⟨hnot, hrefused, error, next, rfl, ?_⟩)
      rcases hcomes with ⟨-, hin⟩ | hlost
      · exact absurd hin hrefused
      · exact hlost

end Runs

end Cascade
