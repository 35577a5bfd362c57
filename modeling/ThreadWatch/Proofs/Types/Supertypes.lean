import Mathlib.Data.List.TakeWhile
import Mathlib.Data.Set.Card
import Mathlib.Logic.Relation
import ThreadWatch.Proofs.Types.Summaries

/-!
# Subtypes are what reaches the supertype

A type is said to be a subtype of another only if links to direct supertypes lead from the one to
the other. The search gives up after `maxTypes` types; as long as no more can be reached at all, it
finds every supertype.
-/

namespace ThreadWatch

namespace Summaries

/-- The second type is a direct supertype of the first, which can be looked up. -/
def Link (k : Summaries) (type super : String) : Prop :=
  ∃ info, k.find type = some info ∧ super ∈ info.supertypes

/-- Links lead from the one type to the other. -/
abbrev Reaches (k : Summaries) : String → String → Prop := Relation.ReflTransGen k.Link

/-- No more types can be reached than one search visits, the first one included. -/
def Few (k : Summaries) (type : String) : Prop :=
  {name | k.Reaches type name}.encard ≤ Hierarchy.maxTypes

/-- All that is found here is found there as well. -/
instance : LE Summaries :=
  ⟨fun k k' => ∀ name info, k.find name = some info → k'.find name = some info⟩

variable {k k' : Summaries} {candidate target type : String}

/-- The direct supertypes, none of a type that is not found. -/
def supertypes (k : Summaries) (type : String) : List String :=
  match k.find type with
  | none => []
  | some info => info.supertypes

theorem link_iff {super : String} : k.Link type super ↔ super ∈ k.supertypes type := by
  unfold Link supertypes
  cases k.find type with
  | none => simp
  | some info => simp

theorem Reaches.of_le (hle : k ≤ k') (h : k.Reaches candidate target) :
    k'.Reaches candidate target := by
  refine Relation.ReflTransGen.mono ?_ _ _ h
  rintro type super ⟨info, hinfo, hsuper⟩
  exact ⟨info, hle _ _ hinfo, hsuper⟩

theorem Few.length_le (hfew : k.Few candidate) {names : List String} (hnodup : names.Nodup)
    (hreach : ∀ name ∈ names, k.Reaches candidate name) : names.length ≤ Hierarchy.maxTypes := by
  have hsub : (names.toFinset : Set String) ⊆ {name | k.Reaches candidate name} := by
    intro name hname
    exact hreach name (by simpa using hname)
  have hcard := (Set.encard_le_encard hsub).trans hfew
  rw [Set.encard_coe_eq_coe_finsetCard, List.toFinset_card_of_nodup hnodup] at hcard
  exact_mod_cast hcard

theorem Few.of_reaches (hfew : k.Few candidate) (h : k.Reaches candidate target) :
    k.Few target :=
  (Set.encard_le_encard fun _ hname => h.trans hname).trans hfew

theorem mem_of_reaches {names : List String}
    (hclosed : ∀ type ∈ names, ∀ super, k.Link type super → super ∈ names) (htype : type ∈ names)
    (h : k.Reaches type target) : target ∈ names := by
  induction h with
  | refl => exact htype
  | tail _ hlink ih => exact hclosed _ ih _ hlink

/-- Types that link to one another alone are few if they are not many themselves. -/
theorem few_of_closed {names : List String} (hlength : names.length ≤ Hierarchy.maxTypes)
    (hmem : candidate ∈ names)
    (hclosed : ∀ type ∈ names, ∀ super, k.Link type super → super ∈ names) : k.Few candidate := by
  have hsub : {name | k.Reaches candidate name} ⊆ (names.toFinset : Set String) := by
    intro name hname
    simpa using mem_of_reaches hclosed hmem hname
  have hcard : names.toFinset.card ≤ Hierarchy.maxTypes :=
    (List.toFinset_card_le names).trans hlength
  refine (Set.encard_le_encard hsub).trans ?_
  rw [Set.encard_coe_eq_coe_finsetCard]
  exact_mod_cast hcard

/-! ### The search -/

variable {visited pending rest : List String}

theorem subset_of_dropWhile (h : pending.dropWhile visited.contains = []) : pending ⊆ visited := by
  intro name hname
  simpa using List.dropWhile_eq_nil_iff.mp h name hname

/-- It has not been visited, and all in front of it has. -/
theorem next_of_dropWhile (h : pending.dropWhile visited.contains = type :: rest) :
    type ∉ visited ∧ ∃ dropped, dropped ⊆ visited ∧ pending = dropped ++ type :: rest := by
  induction pending with
  | nil => cases h
  | cons p pending ih =>
    by_cases hp : p ∈ visited
    · rw [List.dropWhile_cons_of_pos (by simpa using hp)] at h
      obtain ⟨hnew, dropped, hdropped, rfl⟩ := ih h
      exact ⟨hnew, p :: dropped, List.cons_subset.mpr ⟨hp, hdropped⟩, rfl⟩
    · rw [List.dropWhile_cons_of_neg (by simpa using hp)] at h
      cases h
      exact ⟨hp, [], List.nil_subset _, rfl⟩

/-- One type is visited. -/
theorem searchSupertypes_visit {left : Nat}
    (h : pending.dropWhile visited.contains = type :: rest) :
    k.searchSupertypes target (left + 1) visited pending =
      if target ∈ k.supertypes type then true
      else
        k.searchSupertypes target left (type :: visited) ((k.supertypes type).reverse ++ rest) := by
  rw [searchSupertypes, supertypes, h]
  dsimp only
  cases k.find type with
  | none => simp
  | some info => simp

/-- What is found is reached from what was pending. -/
theorem reaches_of_searchSupertypes {left : Nat}
    (h : k.searchSupertypes target left visited pending = true) :
    ∃ type ∈ pending, k.Reaches type target := by
  induction left generalizing visited pending with
  | zero => cases h
  | succ left ih =>
    cases hnext : pending.dropWhile visited.contains with
    | nil =>
      unfold searchSupertypes at h
      rw [hnext] at h
      cases h
    | cons type rest =>
      obtain ⟨_, dropped, _, rfl⟩ := next_of_dropWhile hnext
      rw [searchSupertypes_visit hnext] at h
      by_cases htarget : target ∈ k.supertypes type
      · exact ⟨type, by simp, .single (link_iff.mpr htarget)⟩
      · rw [if_neg htarget] at h
        obtain ⟨name, hname, hreach⟩ := ih h
        rcases List.mem_append.mp hname with hsuper | hrest
        · have hlink : k.Link type name := link_iff.mpr (List.mem_reverse.mp hsuper)
          exact ⟨type, by simp, hreach.head hlink⟩
        · exact ⟨name, by simp [hrest], hreach⟩

/-- How far a search from `start` has come that has not met the target. -/
structure Searching (k : Summaries) (start target : String) (visited pending : List String) :
    Prop where
  start_mem : start ∈ visited ∨ start ∈ pending
  reached : ∀ name, name ∈ visited ∨ name ∈ pending → k.Reaches start name ∧ name ≠ target
  closed : ∀ name ∈ visited, ∀ super, k.Link name super → super ∈ visited ∨ super ∈ pending
  nodup : visited.Nodup

variable {start : String}

theorem Searching.visit (h : k.Searching start target visited pending)
    (hnext : pending.dropWhile visited.contains = type :: rest)
    (hmiss : target ∉ k.supertypes type) :
    k.Searching start target (type :: visited) ((k.supertypes type).reverse ++ rest) := by
  obtain ⟨hnew, dropped, hdropped, rfl⟩ := next_of_dropWhile hnext
  have hkept : ∀ name, name ∈ visited ∨ name ∈ dropped ++ type :: rest →
      name ∈ type :: visited ∨ name ∈ (k.supertypes type).reverse ++ rest := by
    intro name hname
    have hdrop := @hdropped name
    simp only [List.mem_append, List.mem_cons] at hname ⊢
    tauto
  have htype := h.reached type (.inr (by simp))
  refine ⟨hkept _ h.start_mem, fun name hname => ?_, fun name hname super hlink => ?_,
    List.nodup_cons.mpr ⟨hnew, h.nodup⟩⟩
  · simp only [List.mem_cons, List.mem_append, List.mem_reverse] at hname
    obtain (rfl | hvisited) | hsuper | hrest := hname
    · exact htype
    · exact h.reached name (.inl hvisited)
    · refine ⟨htype.1.tail (link_iff.mpr hsuper), ?_⟩
      rintro rfl
      exact hmiss hsuper
    · exact h.reached name (.inr (by simp [hrest]))
  · rcases List.mem_cons.mp hname with rfl | hvisited
    · exact .inr (by simp [link_iff.mp hlink])
    · exact hkept super (h.closed name hvisited super hlink)

/-- A search that may visit all that can be reached misses nothing. -/
theorem not_reaches_of_searchSupertypes (hfew : k.Few start) {left : Nat}
    (hs : k.Searching start target visited pending)
    (hleft : left + visited.length = Hierarchy.maxTypes)
    (h : k.searchSupertypes target left visited pending = false) : ¬ k.Reaches start target := by
  intro hreach
  induction left generalizing visited pending with
  | zero =>
    -- with the target, there are more than can be reached
    have hmany : (target :: visited).length ≤ Hierarchy.maxTypes := by
      refine hfew.length_le (List.nodup_cons.mpr ⟨?_, hs.nodup⟩) fun name hname => ?_
      · exact fun hvisited => (hs.reached _ (.inl hvisited)).2 rfl
      · rcases List.mem_cons.mp hname with rfl | hvisited
        · exact hreach
        · exact (hs.reached name (.inl hvisited)).1
    rw [List.length_cons] at hmany
    omega
  | succ left ih =>
    cases hnext : pending.dropWhile visited.contains with
    | nil =>
      -- what was visited leads to nothing else
      have hsub := subset_of_dropWhile hnext
      have hvisited : ∀ name, name ∈ visited ∨ name ∈ pending → name ∈ visited :=
        fun name hname => hname.elim id fun hpending => hsub hpending
      have hin := mem_of_reaches (fun name hname super hlink =>
        hvisited super (hs.closed name hname super hlink)) (hvisited start hs.start_mem) hreach
      exact (hs.reached target (.inl hin)).2 rfl
    | cons type rest =>
      rw [searchSupertypes_visit hnext] at h
      by_cases hfound : target ∈ k.supertypes type
      · rw [if_pos hfound] at h
        cases h
      · rw [if_neg hfound] at h
        exact ih (hs.visit hnext hfound) (by rw [List.length_cons]; omega) h

/-! ### Answers -/

theorem reaches_of_isSubtype (h : k.isSubtype candidate target = true) :
    k.Reaches candidate target := by
  unfold isSubtype at h
  split at h
  next heq => exact heq ▸ .refl
  next =>
    obtain ⟨type, htype, hreach⟩ := reaches_of_searchSupertypes h
    rwa [List.mem_singleton.mp htype] at hreach

theorem isSubtype_of_reaches (hfew : k.Few candidate) (h : k.Reaches candidate target) :
    k.isSubtype candidate target = true := by
  unfold isSubtype
  split
  next => rfl
  next hne =>
    have hs : k.Searching candidate target [] [candidate] := by
      refine ⟨.inr (by simp), fun name hname => ?_, by simp, .nil⟩
      obtain rfl : name = candidate := by simpa using hname
      exact ⟨.refl, hne⟩
    cases hsearch : k.searchSupertypes target Hierarchy.maxTypes [] [candidate] with
    | true => rfl
    | false => exact absurd h (not_reaches_of_searchSupertypes hfew hs (by simp) hsearch)

end Summaries

namespace Hierarchy

variable {σ : Type}

/-- Two ways lead from A to I, which is in a cycle with K; Object is not there. -/
def diamondMemo : Memo :=
  [⟨"A", some "B", ["I"], false, []⟩, ⟨"B", some "Object", ["I"], false, []⟩,
    ⟨"I", some "Object", ["K"], true, []⟩, ⟨"K", some "Object", ["I"], true, []⟩].foldl seed []

theorem isNamed_diamondMemo : diamondMemo.IsNamed :=
  (((Memo.isNamed_nil.seed _).seed _).seed _).seed _

/-- A host without a class. -/
def bareHost : Host Host.Record := Host.recording fun _ => .ok none

def diamondTypes : Summaries := .seen bareHost .empty diamondMemo isNamed_diamondMemo

theorem diamondTypes_gives (candidate target : String) :
    diamondTypes.Gives (isSubtype bareHost candidate target)
      ((isSubtype bareHost candidate target).answer diamondMemo .empty).1 :=
  Summaries.seen_gives (Host.steady_recording _) (reads_isSubtype _ _ _).looksUp
    isNamed_diamondMemo _

theorem few_diamondTypes : diamondTypes.Few "A" := by
  have hclosed : ∀ type ∈ ["A", "B", "I", "K", "Object"],
      ∀ super ∈ diamondTypes.supertypes type, super ∈ ["A", "B", "I", "K", "Object"] := by
    decide +kernel
  exact Summaries.few_of_closed (by decide) (by simp) fun type htype super hlink =>
    hclosed type htype super (Summaries.link_iff.mp hlink)

end Hierarchy

end ThreadWatch
