import ThreadWatch.Proofs.Types.Summaries

/-!
# Interfaces level by level

The types of the first level are given, those of the next are the direct superinterfaces of these,
and so on; in a cycle there is no end to it. A search among interfaces works off a queue. What it
takes up are the types of one level after another, each the first time it is met.
-/

namespace ThreadWatch

/-! ### Names not seen before -/

/-- The names of a list that have not been seen, each once. -/
def fresh (seen names : List String) : List String := (names.removeAll seen).eraseDups

section Fresh

variable {seen seen' names names' : List String} {name : String}

@[simp] theorem fresh_nil (seen : List String) : fresh seen [] = [] := rfl

theorem fresh_cons_of_mem (h : name ∈ seen) : fresh seen (name :: names) = fresh seen names := by
  simp [fresh, List.cons_removeAll, h]

theorem fresh_cons_of_notMem (h : name ∉ seen) :
    fresh seen (name :: names) = name :: fresh (name :: seen) names := by
  have hfilter : (names.removeAll seen).filter (fun other => !other == name) =
      names.removeAll (name :: seen) := by
    rw [List.removeAll_cons, List.removeAll, List.removeAll, List.filter_filter,
      List.filter_filter]
    simp only [Bool.and_comm]
  rw [fresh, fresh, List.cons_removeAll, if_pos (by simpa using h), List.eraseDups_cons, hfilter]

@[simp] theorem mem_fresh : name ∈ fresh seen names ↔ name ∈ names ∧ name ∉ seen := by
  simp [fresh, List.removeAll]

theorem fresh_congr (h : ∀ name, name ∈ seen ↔ name ∈ seen') (names : List String) :
    fresh seen names = fresh seen' names := by
  simp [fresh, List.removeAll, h]

theorem fresh_append (seen names names' : List String) :
    fresh seen (names ++ names') = fresh seen names ++ fresh (names ++ seen) names' := by
  induction names generalizing seen with
  | nil => rfl
  | cons name names ih =>
    rw [List.cons_append]
    by_cases h : name ∈ seen
    · rw [fresh_cons_of_mem h, fresh_cons_of_mem h, ih]
      refine congrArg (fresh seen names ++ ·) (fresh_congr (fun other => ?_) names')
      simp only [List.mem_append, List.mem_cons]
      grind
    · rw [fresh_cons_of_notMem h, fresh_cons_of_notMem h, ih, List.cons_append]
      refine congrArg (name :: fresh (name :: seen) names ++ ·)
        (fresh_congr (fun other => ?_) names')
      simp only [List.mem_append, List.mem_cons]
      grind

theorem fresh_eq_nil (h : names ⊆ seen) : fresh seen names = [] := by
  rw [List.eq_nil_iff_forall_not_mem]
  intro name hname
  rw [mem_fresh] at hname
  exact hname.2 (h hname.1)

/-- Of what seen names lead to nothing is fresh, so it suffices to follow the fresh ones. -/
theorem fresh_flatMap (g : String → List String) (h : ∀ name ∈ seen, g name ⊆ seen') :
    fresh seen' (names.flatMap g) = fresh seen' ((fresh seen names).flatMap g) := by
  induction names generalizing seen seen' with
  | nil => rfl
  | cons name names ih =>
    rw [List.flatMap_cons, fresh_append]
    by_cases hname : name ∈ seen
    · rw [fresh_cons_of_mem hname, fresh_eq_nil (h name hname), List.nil_append, ← ih h]
      refine fresh_congr (fun other => ?_) _
      rw [List.mem_append]
      exact or_iff_right_of_imp fun hother => h name hname hother
    · rw [fresh_cons_of_notMem hname, List.flatMap_cons, fresh_append]
      congr 1
      refine ih fun other hother => ?_
      rcases List.mem_cons.mp hother with rfl | hother
      · exact List.subset_append_left ..
      · exact fun super hsuper => List.mem_append_right _ (h other hother hsuper)

end Fresh

namespace Summaries

variable (k : Summaries)

/-- The direct superinterfaces, none of a type that is not found. -/
def interfaces (type : String) : List String :=
  match k.find type with
  | none => []
  | some info => info.interfaces

/-- The types so many links to superinterfaces away from `roots`, as they are named. -/
def level : List String → Nat → List String
  | roots, 0 => roots
  | roots, n + 1 => level (roots.flatMap k.interfaces) n

/-- The types on so many levels, one level after another. -/
def levels (roots : List String) (depth : Nat) : List String :=
  (List.range depth).flatMap (k.level roots)

/-- The types that the search takes up. -/
def visits : Nat → List String → List String → List String
  | 0, _, _ => []
  | left + 1, visited, pending =>
    match pending.dropWhile visited.contains with
    | [] => []
    | type :: rest => type :: visits left (type :: visited) (rest ++ k.interfaces type)

theorem levels_succ (roots : List String) (depth : Nat) :
    k.levels roots (depth + 1) = roots ++ k.levels (roots.flatMap k.interfaces) depth := by
  rw [levels, List.range_succ_eq_map, List.flatMap_cons, List.flatMap_map]
  rfl

theorem levels_nil (depth : Nat) : k.levels [] depth = [] := by
  induction depth with
  | zero => rfl
  | succ depth ih => rw [levels_succ, List.flatMap_nil, ih, List.append_nil]

theorem visits_nil (left : Nat) (visited : List String) : k.visits left visited [] = [] := by
  cases left <;> rfl

theorem visits_cons_of_mem {visited pending : List String} {type : String} (left : Nat)
    (h : type ∈ visited) :
    k.visits left visited (type :: pending) = k.visits left visited pending := by
  cases left with
  | zero => rfl
  | succ left =>
    rw [visits, visits, List.dropWhile_cons_of_pos (by simpa using h)]

theorem visits_cons_of_notMem {visited pending : List String} {type : String} (left : Nat)
    (h : type ∉ visited) : k.visits (left + 1) visited (type :: pending) =
      type :: k.visits left (type :: visited) (pending ++ k.interfaces type) := by
  rw [visits, List.dropWhile_cons_of_neg (by simpa using h)]

variable {k}

/-- A run of names at the front of the queue: what is fresh in it is visited, and what that names
is queued. -/
theorem visits_append (left : Nat) (visited names pending : List String) :
    k.visits left visited (names ++ pending) = (fresh visited names).take left ++
      k.visits (left - (fresh visited names).length) ((fresh visited names).reverse ++ visited)
        (pending ++ (fresh visited names).flatMap k.interfaces) := by
  induction names generalizing left visited pending with
  | nil => simp
  | cons type names ih =>
    by_cases h : type ∈ visited
    · rw [List.cons_append, visits_cons_of_mem k left h, ih, fresh_cons_of_mem h]
    · rw [fresh_cons_of_notMem h]
      cases left with
      | zero => simp [visits]
      | succ left =>
        rw [List.cons_append, visits_cons_of_notMem k left h, List.append_assoc, ih]
        simp

/-- Names lead to the next level, and what was seen before leads nowhere else. -/
theorem interfaces_subset_append {seen names : List String}
    (hseen : ∀ type ∈ seen, k.interfaces type ⊆ names ++ seen) :
    ∀ type ∈ names ++ seen,
      k.interfaces type ⊆ names.flatMap k.interfaces ++ (names ++ seen) := by
  intro type htype super hsuper
  rcases List.mem_append.mp htype with hname | hold
  · exact List.mem_append_left _ (List.mem_flatMap.mpr ⟨type, hname, hsuper⟩)
  · exact List.mem_append_right _ (hseen type hold hsuper)

/-- Levels below the same fresh names go on alike, if what was seen leads nowhere else. -/
theorem fresh_levels_congr {seen names names' : List String} (depth : Nat)
    (h : fresh seen names = fresh seen names')
    (hseen : ∀ type ∈ seen, k.interfaces type ⊆ names ++ seen) :
    fresh seen (k.levels names depth) = fresh seen (k.levels names' depth) := by
  induction depth generalizing seen names names' with
  | zero => rfl
  | succ depth ih =>
    have hmem : ∀ type, type ∈ names ++ seen ↔ type ∈ names' ++ seen := by
      intro type
      have hboth : type ∈ fresh seen names ↔ type ∈ fresh seen names' := by rw [h]
      simp only [mem_fresh, List.mem_append] at hboth ⊢
      grind
    have hnext : fresh (names ++ seen) (names.flatMap k.interfaces) =
        fresh (names ++ seen) (names'.flatMap k.interfaces) := by
      rw [fresh_flatMap k.interfaces hseen, h, ← fresh_flatMap k.interfaces hseen]
    rw [levels_succ, levels_succ, fresh_append, fresh_append, h,
      ih hnext (interfaces_subset_append hseen), fresh_congr hmem]

/-- A search with enough levels in front of it visits what is fresh on them, in order. -/
theorem visits_eq_take_fresh {left depth : Nat} {visited names : List String} (hle : left ≤ depth)
    (hseen : ∀ type ∈ visited, k.interfaces type ⊆ names ++ visited) :
    k.visits left visited names = (fresh visited (k.levels names depth)).take left := by
  induction depth generalizing left visited names with
  | zero =>
    obtain rfl : left = 0 := Nat.le_zero.mp hle
    simp [visits]
  | succ depth ih =>
    have hmem : ∀ type, type ∈ (fresh visited names).reverse ++ visited ↔
        type ∈ names ++ visited := by
      intro type
      simp only [List.mem_append, List.mem_reverse, mem_fresh]
      grind
    have hbelow : fresh (names ++ visited) (k.levels (names.flatMap k.interfaces) depth) =
        fresh ((fresh visited names).reverse ++ visited)
          (k.levels ((fresh visited names).flatMap k.interfaces) depth) := by
      rw [fresh_levels_congr depth (fresh_flatMap k.interfaces hseen)
        (interfaces_subset_append hseen), fresh_congr hmem]
    have hclosed : ∀ type ∈ (fresh visited names).reverse ++ visited, k.interfaces type ⊆
        (fresh visited names).flatMap k.interfaces ++
          ((fresh visited names).reverse ++ visited) := by
      intro type htype super hsuper
      rcases List.mem_append.mp htype with hnew | hold
      · exact List.mem_append_left _
          (List.mem_flatMap.mpr ⟨type, List.mem_reverse.mp hnew, hsuper⟩)
      · exact List.mem_append_right _ ((hmem super).mpr (hseen type hold hsuper))
    have hvisits := visits_append (k := k) left visited names []
    rw [List.append_nil, List.nil_append] at hvisits
    rw [hvisits, levels_succ, fresh_append, List.take_append, hbelow]
    by_cases hnone : fresh visited names = []
    · simp [hnone, visits_nil, levels_nil]
    · have hpos : 0 < (fresh visited names).length := List.length_pos_iff.mpr hnone
      rw [ih (by omega) hclosed]

/-- The first so many different types on the levels below `roots` are visited. -/
theorem visits_roots {left depth : Nat} (hle : left ≤ depth) (roots : List String) :
    k.visits left [] roots = (k.levels roots depth).eraseDups.take left := by
  rw [visits_eq_take_fresh hle (by simp), fresh, List.removeAll_nil]

end Summaries

end ThreadWatch
