import ThreadWatch.Files.Tree
import ThreadWatch.Proofs.Fallible
import ThreadWatch.Proofs.Files.Path

/-!
# What becomes of file trees

Where a path leads can be told without the tree, if it leads somewhere. Making directories and
writing a file leave everything else in the tree as it is, so what could be reached still can.
-/

namespace ThreadWatch

namespace Tree

open ThreadWatch.Path (lead IsName)

variable {t t' t'' : Tree} {p : Path} {here there xs ys names : List String} {piece name : String}
  {bytes : Bytes} {entry : Entry}

/-! ### Places -/

/-- The place that one piece of a path leads to. -/
def step (here : List String) (piece : String) : List String :=
  if piece = "" ∨ piece = "." then here
  else if piece = ".." then here.dropLast
  else here ++ [piece]

/-- The place that pieces of a path lead to, if they lead somewhere. -/
def follow (here : List String) (pieces : List String) : List String := pieces.foldl step here

/-- The place that a path leads to, if it leads somewhere. -/
def place (t : Tree) (p : Path) : List String := follow (t.start p) (lead p)

theorem follow_append : follow here (xs ++ ys) = follow (follow here xs) ys := List.foldl_append

theorem step_name (h : IsName name) : step here name = here ++ [name] := by
  unfold step
  rw [if_neg (not_or.mpr ⟨h.ne_empty, h.ne_dot⟩), if_neg h.ne_dots]

theorem follow_names (h : ∀ name ∈ names, IsName name) : follow here names = here ++ names := by
  induction names generalizing here with
  | nil => exact (List.append_nil _).symm
  | cons name names ih =>
    rw [List.forall_mem_cons] at h
    rw [follow, List.foldl_cons, step_name h.1]
    exact (ih h.2).trans (List.append_assoc ..)

/-- Empty pieces lead nowhere else. -/
theorem follow_append_empty (h : ∀ piece ∈ ys, piece = "") :
    follow here (xs ++ ys) = follow here xs := by
  rw [follow_append]
  generalize follow here xs = here
  induction ys with
  | nil => rfl
  | cons piece ys ih =>
    rw [List.forall_mem_cons] at h
    rw [follow, List.foldl_cons, h.1]
    exact ih h.2

theorem follow_pieces (p : Path) : follow here p.pieces = follow here (lead p) := by
  rcases Path.pieces_eq p with h | h
  · rw [h]
  · rw [h, follow_append_empty fun piece hpiece => List.mem_singleton.mp hpiece]

theorem start_congr {q : Path} (h : q.isAbsolute = p.isAbsolute)
    (hcurrent : t'.current = t.current) : t'.start q = t.start p := by
  unfold start
  rw [h, hcurrent]

theorem place_congr (h : t'.current = t.current) : t'.place p = t.place p := by
  unfold place
  rw [start_congr rfl h]

/-! ### Walks -/

/-- A walk sets out from a directory and goes on where its first piece leads. -/
theorem walk_cons_eq_ok (h : t.walk here (piece :: xs) = .ok there) :
    t.find? here = some .directory ∧ t.walk (step here piece) xs = .ok there := by
  unfold walk at h
  unfold step
  grind

theorem walk_append (t : Tree) :
    t.walk here (xs ++ ys) = t.walk here xs >>= fun next => t.walk next ys := by
  induction xs generalizing here with
  | nil => rfl
  | cons piece xs ih =>
    rw [List.cons_append, walk, walk, ih, ih]
    split
    · rfl
    split
    · rfl
    split
    · rfl
    split
    · rfl
    cases t.find? (here ++ [piece]) with
    | none => rfl
    | some entry => exact ih

theorem walk_eq_ok (h : t.walk here xs = .ok there) : there = follow here xs := by
  induction xs generalizing here with
  | nil =>
    cases h
    rfl
  | cons piece xs ih => exact ih (walk_cons_eq_ok h).2

/-- All that a walk passes on its way are directories. -/
theorem find?_of_walk (h : t.walk here (xs ++ ys) = .ok there) (hne : ys ≠ []) :
    t.find? (follow here xs) = some .directory := by
  rw [walk_append] at h
  obtain ⟨next, hnext, h⟩ := bind_eq_ok.mp h
  obtain rfl := walk_eq_ok hnext
  cases ys with
  | nil => exact absurd rfl hne
  | cons piece ys => exact (walk_cons_eq_ok h).1

/-- A trailing slash is walked without going anywhere. -/
theorem walk_lead (h : t.walk here p.pieces = .ok there) : t.walk here (lead p) = .ok there := by
  rcases Path.pieces_eq p with hpieces | hpieces
  · rwa [hpieces] at h
  · rw [hpieces, walk_append] at h
    obtain ⟨next, hnext, h⟩ := bind_eq_ok.mp h
    obtain ⟨_, h⟩ := walk_cons_eq_ok h
    cases h
    exact hnext

theorem resolve_eq_ok (h : t.resolve p = .ok there) :
    t.walk (t.start p) p.pieces = .ok there ∧ there = t.place p := by
  unfold resolve at h
  obtain ⟨_, _, hwalk⟩ := bind_eq_ok.mp h
  refine ⟨hwalk, ?_⟩
  rw [place, ← follow_pieces]
  exact walk_eq_ok hwalk

/-- A path below another one is walked on from where that one leads. -/
theorem resolve_below {q : Path} (h : t.resolve q = .ok there)
    (hnames : ∀ name ∈ names, IsName name) (hlead : lead p = lead q ++ names)
    (hpieces : p.pieces = lead q ++ names) :
    t.resolve p = checkPath p >>= fun _ => t.walk there names := by
  obtain ⟨hwalk, _⟩ := resolve_eq_ok h
  rw [resolve, hpieces, start_congr (Path.isAbsolute_of_lead hnames hlead) rfl, walk_append,
    walk_lead hwalk]
  rfl

/-- A path below another one leads there, and then where the names lead. -/
theorem place_below {q : Path} (hnames : ∀ name ∈ names, IsName name)
    (hlead : lead p = lead q ++ names) : t.place p = t.place q ++ names := by
  rw [place, hlead, start_congr (Path.isAbsolute_of_lead hnames hlead) rfl, follow_append,
    follow_names hnames]
  rfl

/-! ### Changes -/

theorem find?_put_same (h : here ≠ []) : (t.put here entry).find? here = some entry := by
  cases here with
  | nil => exact absurd rfl h
  | cons name names => exact List.lookup_cons_self

theorem find?_put_of_ne (h : there ≠ here) : (t.put here entry).find? there = t.find? there := by
  cases there with
  | nil => rfl
  | cons name names =>
    show List.lookup _ ((here, entry) :: _) = List.lookup _ t.entries
    rw [List.lookup_cons, beq_false_of_ne h]
    dsimp only
    induction t.entries with
    | nil => rfl
    | cons found entries ih =>
      by_cases hfound : found.1 = here
      · rw [List.filter_cons_of_neg (by simpa using hfound), ih, List.lookup_cons,
          beq_false_of_ne (hfound.symm ▸ h)]
      · rw [List.filter_cons_of_pos (by simpa using hfound), List.lookup_cons, List.lookup_cons, ih]

/-- At a place there is what there was, or a directory where there was nothing and `P` allows it. -/
def SameOrMade (P : List String → Prop) (t t' : Tree) (here : List String) : Prop :=
  t'.find? here = t.find? here ∨
    (t.find? here = none ∧ t'.find? here = some .directory ∧ P here)

/-- Directories were made, and `P` holds of their places. -/
structure Grows (P : List String → Prop) (t t' : Tree) : Prop where
  current : t'.current = t.current
  same : ∀ here, SameOrMade P t t' here

/-- A file was written in a place where no directory was, after directories were made. -/
structure Stores (P : List String → Prop) (place : List String) (bytes : Bytes) (t t' : Tree) :
    Prop where
  current : t'.current = t.current
  noDirectory : t.find? place ≠ some .directory
  stored : t'.find? place = some (.file bytes)
  same : ∀ here ≠ place, SameOrMade P t t' here

/-- Nothing is gone, and directories are still that. -/
structure Keeps (t t' : Tree) : Prop where
  current : t'.current = t.current
  directory : ∀ here, t.find? here = some .directory → t'.find? here = some .directory
  exists_of : ∀ here, t.find? here ≠ none → t'.find? here ≠ none

variable {P Q : List String → Prop}

theorem SameOrMade.eq_some (h : SameOrMade P t t' here) (hhere : t.find? here = some entry) :
    t'.find? here = some entry := by
  rcases h with h | ⟨hnone, _⟩
  · rw [h, hhere]
  · rw [hhere] at hnone
    cases hnone

theorem SameOrMade.mono (h : SameOrMade P t t' here)
    (hPQ : t.find? here = none → P here → Q here) : SameOrMade Q t t' here :=
  h.imp_right fun ⟨hnone, hmade, hP⟩ => ⟨hnone, hmade, hPQ hnone hP⟩

theorem SameOrMade.trans (h : SameOrMade P t t' here) (h' : SameOrMade P t' t'' here) :
    SameOrMade P t t'' here := by
  unfold SameOrMade at *
  grind

theorem Grows.refl (P : List String → Prop) (t : Tree) : Grows P t t := ⟨rfl, fun _ => .inl rfl⟩

theorem Grows.mono (h : Grows P t t') (hPQ : ∀ here, P here → Q here) : Grows Q t t' :=
  ⟨h.current, fun here => (h.same here).mono fun _ => hPQ here⟩

theorem Grows.trans (h : Grows P t t') (h' : Grows P t' t'') : Grows P t t'' :=
  ⟨h'.current.trans h.current, fun here => (h.same here).trans (h'.same here)⟩

theorem grows_put (hnone : t.find? here = none) (hP : P here) :
    Grows P t (t.put here .directory) := by
  have hne : here ≠ [] := by
    rintro rfl
    cases hnone
  refine ⟨rfl, fun there => ?_⟩
  by_cases hthere : there = here
  · rw [hthere]
    exact .inr ⟨hnone, find?_put_same hne, hP⟩
  · exact .inl (find?_put_of_ne hthere)

/-- After directories were made a file is put where no directory is. -/
theorem Grows.stores (h : Grows P t t') (hne : here ≠ [])
    (hhere : t'.find? here ≠ some .directory) :
    Stores P here bytes t (t'.put here (.file bytes)) where
  current := h.current
  noDirectory hdirectory := hhere ((h.same here).eq_some hdirectory)
  stored := find?_put_same hne
  same there hthere := by
    have hsame := h.same there
    unfold SameOrMade at hsame ⊢
    rwa [find?_put_of_ne hthere]

theorem Keeps.refl (t : Tree) : Keeps t t := ⟨rfl, fun _ h => h, fun _ h => h⟩

theorem Keeps.trans (h : Keeps t t') (h' : Keeps t' t'') : Keeps t t'' where
  current := h'.current.trans h.current
  directory here hhere := h'.directory here (h.directory here hhere)
  exists_of here hhere := h'.exists_of here (h.exists_of here hhere)

theorem Stores.mono {place : List String} (h : Stores P place bytes t t')
    (hPQ : ∀ here, t.find? here = none → P here → Q here) : Stores Q place bytes t t' where
  current := h.current
  noDirectory := h.noDirectory
  stored := h.stored
  same here hhere := (h.same here hhere).mono (hPQ here)

theorem Stores.keeps {place : List String} (h : Stores P place bytes t t') : Keeps t t' where
  current := h.current
  directory here hhere := by
    by_cases hplace : here = place
    · rw [hplace] at hhere
      exact absurd hhere h.noDirectory
    · exact (h.same here hplace).eq_some hhere
  exists_of here hhere := by
    by_cases hplace : here = place
    · rw [hplace, h.stored]
      exact Option.some_ne_none _
    · obtain ⟨entry, hentry⟩ := Option.ne_none_iff_exists'.mp hhere
      rw [(h.same here hplace).eq_some hentry]
      exact Option.some_ne_none _

/-- What could be walked can still be walked. -/
theorem Keeps.walk (h : Keeps t t') (hwalk : t.walk here xs = .ok there) :
    t'.walk here xs = .ok there := by
  induction xs generalizing here with
  | nil => exact hwalk
  | cons piece xs ih =>
    have hdirectory := h.directory here
    have hexists := h.exists_of (here ++ [piece])
    unfold Tree.walk at hwalk ⊢
    grind

theorem Keeps.resolve (h : Keeps t t') (hresolve : t.resolve p = .ok there) :
    t'.resolve p = .ok there := by
  unfold Tree.resolve at hresolve ⊢
  obtain ⟨_, hcheck, hwalk⟩ := bind_eq_ok.mp hresolve
  rw [hcheck, start_congr rfl h.current]
  exact h.walk hwalk

/-! ### Making directories -/

/-- What is on the way that a path leads, its own place among it. -/
def OnTheWay (t : Tree) (p : Path) (here : List String) : Prop :=
  ∃ xs, xs <+: lead p ∧ here = follow (t.start p) xs

theorem OnTheWay.congr (hcurrent : t'.current = t.current) (h : OnTheWay t' p here) :
    OnTheWay t p here := by
  unfold OnTheWay at *
  rwa [start_congr rfl hcurrent] at h

theorem OnTheWay.of_parent {above : Path} (hparent : p.parent? = some above) (hne : above ≠ "")
    (h : OnTheWay t above here) : OnTheWay t p here := by
  obtain ⟨hlead, habsolute⟩ := (Path.lead_of_parent? hparent).resolve_left hne
  obtain ⟨xs, hxs, hhere⟩ := h
  rw [start_congr habsolute rfl] at hhere
  exact ⟨xs, hxs.trans hlead, hhere⟩

/-- A new thing is on the way of its path, and where the path leads. -/
theorem resolveNew_eq_ok (h : t.resolveNew p = .ok (here, name)) :
    OnTheWay t p (step here name) ∧ step here name = t.place p ∧ name ≠ "" := by
  unfold resolveNew at h
  obtain ⟨_, _, h⟩ := bind_eq_ok.mp h
  generalize hshown : (p.pieces.reverse.dropWhile (· = "")).reverse = shown at h
  -- the path is what is shown of it, and empty pieces that lead nowhere
  have hpieces : shown ++ p.pieces.rtakeWhile (· = "") = p.pieces :=
    hshown ▸ List.rdropWhile_append_rtakeWhile ..
  have hempties : ∀ piece ∈ p.pieces.rtakeWhile (· = ""), piece = "" := fun _ hpiece =>
    of_decide_eq_true (List.mem_rtakeWhile_imp (p := (· = "")) hpiece)
  have hlast : shown.getLast? ≠ some "" := hshown ▸ Path.getLast?_rdropWhile_ne rfl _
  rcases List.eq_nil_or_concat shown with rfl | ⟨init, last, rfl⟩
  · cases h
  rw [List.concat_eq_append] at *
  split at h
  next hnil => simp at hnil
  obtain ⟨_, hwalk, h⟩ := bind_eq_ok.mp h
  rw [List.dropLast_concat] at hwalk
  split at h
  · cases h
  obtain ⟨rfl, rfl⟩ := Prod.mk.inj (pure_eq_ok.mp h)
  rw [List.getLast?_concat, ne_eq, Option.some_inj] at hlast
  rw [List.getLast?_concat, Option.getD_some]
  have hstep : step (follow (t.start p) init) last = follow (t.start p) (init ++ [last]) := by
    rw [follow_append]
    rfl
  rw [walk_eq_ok hwalk, hstep]
  refine ⟨⟨_, Path.prefix_lead ⟨_, hpieces⟩ ?_, rfl⟩, ?_, hlast⟩
  · rwa [List.getLast?_concat, ne_eq, Option.some_inj]
  · rw [place, ← follow_pieces, ← hpieces, follow_append_empty hempties]

theorem step_of_ne (hempty : piece ≠ "") (hdots : ¬(piece = "." ∨ piece = "..")) :
    step here piece = here ++ [piece] := by
  unfold step
  grind

theorem makeDirectory_eq_ok (h : t.makeDirectory p = .ok t') : Grows (OnTheWay t p) t t' := by
  unfold makeDirectory at h
  obtain ⟨⟨here, name⟩, hnew, h⟩ := bind_eq_ok.mp h
  obtain ⟨hway, _, hempty⟩ := resolveNew_eq_ok hnew
  dsimp only at h
  split at h
  · cases h
  next hdots =>
    rw [step_of_ne hempty hdots] at hway
    obtain ⟨_, _, h⟩ := bind_eq_ok.mp h
    split at h
    · cases h
    next hnone =>
      cases pure_eq_ok.mp h
      exact grows_put hnone hway

theorem makeDirectoriesUpTo_eq_ok {limit : Nat} (h : t.makeDirectoriesUpTo limit p = .ok t') :
    Grows (OnTheWay t p) t t' := by
  induction limit generalizing t t' p with
  | zero => cases h
  | succ limit ih =>
    rw [makeDirectoriesUpTo] at h
    split at h
    · cases h
      exact .refl _ _
    split at h
    next hmade =>
      cases h
      exact makeDirectory_eq_ok hmade
    · split at h
      · cases h
      next above hparent =>
        -- what is above is made first, and is on the way, too
        obtain ⟨middle, hmiddle, h⟩ := bind_eq_ok.mp h
        have hgrows : Grows (OnTheWay t p) t middle := by
          by_cases hempty : above = ""
          · cases limit with
            | zero => cases hmiddle
            | succ limit =>
              rw [makeDirectoriesUpTo, if_pos hempty] at hmiddle
              cases hmiddle
              exact .refl _ _
          · exact (ih hmiddle).mono fun _ => .of_parent hparent hempty
        refine hgrows.trans ?_
        split at h
        next hmade =>
          cases pure_eq_ok.mp h
          exact (makeDirectory_eq_ok hmade).mono fun _ => .congr hgrows.current
        · split at h
          · cases pure_eq_ok.mp h
            exact .refl _ _
          · cases h
    · split at h
      · cases h
        exact .refl _ _
      · cases h

/-- Directories are made on the way of their path only. -/
theorem makeDirectories_eq_ok (h : t.makeDirectories p = .ok t') : Grows (OnTheWay t p) t t' :=
  makeDirectoriesUpTo_eq_ok h

/-- A file is written where its path leads. -/
theorem writeFile_eq_ok (h : t.writeFile p bytes = .ok t') :
    t.place p ≠ [] ∧ t.find? (t.place p) ≠ some .directory ∧
      t' = t.put (t.place p) (.file bytes) := by
  unfold writeFile at h
  split at h
  · cases h
  obtain ⟨⟨here, name⟩, hnew, h⟩ := bind_eq_ok.mp h
  obtain ⟨_, hplace, hempty⟩ := resolveNew_eq_ok hnew
  dsimp only at h
  split at h
  · cases h
  next hdots =>
    rw [step_of_ne hempty (by tauto)] at hplace
    obtain ⟨_, _, h⟩ := bind_eq_ok.mp h
    rw [hplace] at h
    refine ⟨?_, ?_⟩
    · rw [← hplace]
      simp
    · split at h
      · cases h
      next hdirectory =>
        cases pure_eq_ok.mp h
        exact ⟨hdirectory, rfl⟩

end Tree

end ThreadWatch
