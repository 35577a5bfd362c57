import ThreadWatch.Command.Input
import ThreadWatch.Proofs.Files.Tree

/-!
# What commands gather

On a tree that can exist, a directory's class files are found once each, below it and under the
names that lead to them, and every source that reads files has its root among the paths given.
-/

namespace ThreadWatch

open ThreadWatch.Path (IsName lead)

/-- A tree that can exist: each place is there once, and names lead to it. -/
structure Tree.IsSound (t : Tree) : Prop where
  distinct : (t.entries.map Prod.fst).Nodup
  named : ∀ place ∈ t.entries.map Prod.fst, ∀ name ∈ place, IsName name

instance (t : Tree) : Decidable t.IsSound :=
  decidable_of_iff ((t.entries.map Prod.fst).Nodup ∧
      ∀ place ∈ t.entries.map Prod.fst, ∀ name ∈ place, IsName name)
    ⟨fun ⟨hdistinct, hnamed⟩ => ⟨hdistinct, hnamed⟩, fun h => ⟨h.distinct, h.named⟩⟩

theorem Tree.find?_eq_some_iff {t : Tree} {names : List String} {entry : Entry}
    (hsound : t.IsSound) (hne : names ≠ []) :
    t.find? names = some entry ↔ (names, entry) ∈ t.entries := by
  have hfind : t.find? names = t.entries.lookup names := by
    cases names with
    | nil => exact absurd rfl hne
    | cons name names => rfl
  rw [hfind, List.lookup_eq_some_iff]
  constructor
  · rintro ⟨before, behind, hentries, _⟩
    simp [hentries]
  · intro hmem
    obtain ⟨before, behind, hentries⟩ := List.append_of_mem hmem
    refine ⟨before, behind, hentries, fun found hfound => ?_⟩
    have hdistinct := hsound.distinct
    rw [hentries, List.map_append, List.map_cons, List.nodup_append] at hdistinct
    simpa using (hdistinct.2.2 found.1 (List.mem_map_of_mem hfound) names (by simp)).symm

theorem Tree.openEntry_eq_ok {t : Tree} {p : Path} {entry : Entry} (h : t.openEntry p = .ok entry) :
    t.resolve p = .ok (t.place p) ∧ t.find? (t.place p) = some entry := by
  unfold openEntry at h
  obtain ⟨there, hthere, h⟩ := bind_eq_ok.mp h
  obtain ⟨_, rfl⟩ := resolve_eq_ok hthere
  refine ⟨hthere, ?_⟩
  split at h
  next found hfound =>
    cases pure_eq_ok.mp h
    exact hfound
  · cases h

theorem Tree.readFile_eq_ok {t : Tree} {p : Path} {bytes : Bytes} (h : t.readFile p = .ok bytes) :
    t.resolve p = .ok (t.place p) ∧ t.find? (t.place p) = some (.file bytes) := by
  unfold readFile at h
  obtain ⟨entry, hentry, h⟩ := bind_eq_ok.mp h
  split at h
  · cases pure_eq_ok.mp h
    exact openEntry_eq_ok hentry
  · cases h

theorem Tree.isDirectory_iff {t : Tree} {p : Path} :
    t.isDirectory p ↔ ∃ place, t.resolve p = .ok place ∧ t.find? place = some .directory := by
  unfold isDirectory
  cases t.resolve p with
  | ok place => simp
  | error trouble => simp

namespace Command

open ThreadWatch.Tree (IsSound)

variable {t : Tree} {input : Path} {names root : List String} {c : InputClass}

namespace Failure

theorem within_eq_ok {α : Type} {message : String} {x : Except Failure α} {a : α} :
    within message x = .ok a ↔ x = .ok a := by
  cases x <;> simp [within, Except.mapError]

theorem mapError_eq_ok {ε ε' α : Type} {f : ε → ε'} {x : Except ε α} {a : α} :
    x.mapError f = .ok a ↔ x = .ok a := by
  cases x <;> simp [Except.mapError]

end Failure

namespace InputClass

/-! ### The class files of a directory -/

theorem mem_filesBelow : names ∈ t.filesBelow root ↔
    ∃ bytes, (root ++ names, Entry.file bytes) ∈ t.entries := by
  unfold Tree.filesBelow
  rw [List.mem_filterMap]
  constructor
  · rintro ⟨⟨place, entry⟩, hmem, h⟩
    cases entry with
    | directory => cases h
    | file bytes =>
      dsimp only at h
      split at h
      next hbegins =>
        obtain ⟨below, rfl⟩ := List.isPrefixOf_iff_prefix.mp hbegins
        rw [List.drop_left, Option.some_inj] at h
        exact ⟨bytes, h ▸ hmem⟩
      · cases h
  · rintro ⟨bytes, hmem⟩
    refine ⟨_, hmem, ?_⟩
    dsimp only
    rw [if_pos (List.isPrefixOf_iff_prefix.mpr (List.prefix_append ..)), List.drop_left]

theorem nodup_filesBelow (hsound : t.IsSound) (root : List String) : (t.filesBelow root).Nodup := by
  unfold Tree.filesBelow
  rw [List.Nodup, List.pairwise_filterMap]
  refine (List.pairwise_map.mp hsound.distinct).imp ?_
  rintro ⟨place, entry⟩ ⟨place', entry'⟩ hne names h names' h' rfl
  cases entry with
  | directory => cases h
  | file bytes =>
    cases entry' with
    | directory => cases h'
    | file bytes' =>
      dsimp only at h h' hne
      split at h
      next hbegins =>
        split at h'
        next hbegins' =>
          obtain ⟨below, rfl⟩ := List.isPrefixOf_iff_prefix.mp hbegins
          obtain ⟨below', rfl⟩ := List.isPrefixOf_iff_prefix.mp hbegins'
          rw [List.drop_left, Option.some_inj] at h h'
          exact hne (by rw [h, h'])
        · cases h'
      · cases h

theorem nodup_namesBelow (hsound : t.IsSound) (input : Path) : (namesBelow t input).Nodup := by
  unfold namesBelow
  split
  · exact List.nodup_nil
  · exact (List.mergeSort_perm _ _).nodup_iff.mpr ((nodup_filesBelow hsound _).filter _)

theorem mem_namesBelow_iff (hroot : t.resolve input = .ok root) :
    names ∈ namesBelow t input ↔
      isClassFile names ∧ ∃ bytes, (root ++ names, Entry.file bytes) ∈ t.entries := by
  unfold namesBelow
  rw [hroot]
  dsimp only
  rw [(List.mergeSort_perm _ _).mem_iff, List.mem_filter, mem_filesBelow, and_comm]

theorem ne_nil_of_isClassFile (h : isClassFile names) : names ≠ [] := by
  rintro rfl
  cases h

/-- The names of class files are names. -/
theorem isName_of_mem_namesBelow (hsound : t.IsSound) (hroot : t.resolve input = .ok root)
    (h : names ∈ namesBelow t input) : names ≠ [] ∧ ∀ name ∈ names, IsName name := by
  obtain ⟨hclass, bytes, hmem⟩ := (mem_namesBelow_iff hroot).mp h
  refine ⟨ne_nil_of_isClassFile hclass, fun name hname => ?_⟩
  exact hsound.named _ (List.mem_map_of_mem hmem) name (List.mem_append_right _ hname)

/-- Every class file below a directory is among those that are found, and only those are. -/
theorem mem_namesBelow (hsound : t.IsSound) (hroot : t.resolve input = .ok root) :
    names ∈ namesBelow t input ↔
      isClassFile names ∧ ∃ bytes, t.find? (root ++ names) = some (.file bytes) := by
  rw [mem_namesBelow_iff hroot]
  refine and_congr_right fun hclass => exists_congr fun bytes => ?_
  rw [Tree.find?_eq_some_iff hsound (List.append_ne_nil_of_right_ne_nil _
    (ne_nil_of_isClassFile hclass))]

/-! ### What is read of them -/

/-- The class that is read where names lead to below a directory. -/
structure IsAt (t : Tree) (root names : List String) (c : InputClass) : Prop where
  relative : c.relative = Segments.toText '/' names
  there : t.find? (root ++ names) = some (.file c.bytes)
  /-- All that is passed on the way is a directory. -/
  passed : ∀ xs, xs <+: names → xs ≠ names → t.find? (root ++ xs) = some .directory

theorem isAt_of_read (hroot : t.resolve input = .ok root)
    (hnames : ∀ name ∈ names, IsName name) (hne : names ≠ [])
    (h : read t (names.foldl Path.join input) (Segments.toText '/' names) = .ok c) :
    IsAt t root names c := by
  unfold read at h
  obtain ⟨bytes, hbytes, h⟩ := bind_eq_ok.mp h
  cases pure_eq_ok.mp h
  rw [Failure.within_eq_ok, Failure.mapError_eq_ok] at hbytes
  obtain ⟨hresolve, hfile⟩ := Tree.readFile_eq_ok hbytes
  -- the names are joined to the input one by one, so they lead on from where it leads
  have hlead := Path.lead_foldl_join (p := input) hnames
  have hpieces := Path.pieces_foldl_join (p := input) hne hnames
  have hplace := Tree.place_below (t := t) hnames hlead
  rw [← (Tree.resolve_eq_ok hroot).2] at hplace
  rw [hplace] at hfile hresolve
  rw [Tree.resolve_below hroot hnames hlead hpieces] at hresolve
  obtain ⟨_, _, hwalk⟩ := bind_eq_ok.mp hresolve
  refine ⟨rfl, hfile, ?_⟩
  rintro xs ⟨ys, rfl⟩ hxs
  rw [List.forall_mem_append] at hnames
  rw [← Tree.follow_names hnames.1]
  refine Tree.find?_of_walk hwalk ?_
  rintro rfl
  exact hxs (List.append_nil _).symm

/-- A directory gives one class for each of its class files. -/
theorem isAt_of_load {classes : List InputClass} (hsound : t.IsSound)
    (hroot : t.resolve input = .ok root) (hdirectory : t.isDirectory input)
    (h : load t input = .ok classes) :
    List.Forall₂ (IsAt t root) (namesBelow t input) classes := by
  unfold load at h
  rw [if_pos hdirectory, mapM_eq_ok] at h
  have hnames := fun names (hmem : names ∈ namesBelow t input) =>
    isName_of_mem_namesBelow hsound hroot hmem
  refine ((List.forall₂_and_left _ _).mpr ⟨hnames, h⟩).imp ?_
  rintro names c ⟨⟨hne, hnames⟩, hread⟩
  exact isAt_of_read hroot hnames hne hread

/-- A file that is given alone is the one class. -/
theorem length_of_load {classes : List InputClass} (hdirectory : ¬t.isDirectory input)
    (h : load t input = .ok classes) : classes.length = 1 := by
  unfold load at h
  rw [if_neg hdirectory] at h
  obtain ⟨c, _, h⟩ := bind_eq_ok.mp h
  cases pure_eq_ok.mp h
  rfl

/-- Class files that are listed in their order are read in it. -/
theorem load_of_pairwise {sorted : List (List String)} (hdirectory : t.isDirectory input)
    (hroot : t.resolve input = .ok root)
    (hlisted : (t.filesBelow root).filter isClassFile = sorted)
    (hsorted : sorted.Pairwise fun a b => !(decide (b < a))) :
    load t input = sorted.mapM fun names =>
      read t (names.foldl Path.join input) (Segments.toText '/' names) := by
  have hnames : namesBelow t input = sorted := by
    unfold namesBelow
    rw [hroot]
    dsimp only
    rw [hlisted, List.mergeSort_of_pairwise hsorted]
  rw [load, if_pos hdirectory, hnames]

end InputClass

/-! ### Sources -/

theorem directorySource_eq_ok {p : Path} {source : Source} (h : directorySource t p = .ok source) :
    source = .directory ⟨p⟩ ∧ t.resolve p = .ok (t.place p) ∧
      t.find? (t.place p) = some .directory := by
  unfold directorySource ClassDirectory.new at h
  cases hentry : t.openEntry p with
  | error trouble =>
    rw [hentry] at h
    cases h
  | ok entry =>
    obtain ⟨hthere, hplace⟩ := Tree.openEntry_eq_ok hentry
    rw [hentry] at h
    cases entry with
    | file bytes => cases h
    | directory =>
      cases h
      exact ⟨rfl, hthere, hplace⟩

/-- Sources that read files do so below paths that were given. -/
theorem root_of_gather {o : Options} {material : Material} {d : ClassDirectory}
    (h : Material.gather t input o = .ok material) (hd : .directory d ∈ material.sources) :
    d.root ∈ input :: o.classpath ∧ t.resolve d.root = .ok (t.place d.root) ∧
      t.find? (t.place d.root) = some .directory := by
  unfold Material.gather Command.sources at h
  obtain ⟨classes, _, h⟩ := bind_eq_ok.mp h
  obtain ⟨sources, hsources, h⟩ := bind_eq_ok.mp h
  cases pure_eq_ok.mp h
  obtain ⟨first, hfirst, hsources⟩ := bind_eq_ok.mp hsources
  obtain ⟨rest, hrest, hsources⟩ := bind_eq_ok.mp hsources
  cases pure_eq_ok.mp hsources
  rcases List.mem_cons.mp hd with rfl | hd
  · unfold inputSource at hfirst
    split at hfirst
    · obtain ⟨heq, hroot⟩ := directorySource_eq_ok hfirst
      cases heq
      exact ⟨List.mem_cons_self .., hroot⟩
    · cases hfirst
  · obtain ⟨p, hp, hsource⟩ := exists_of_mem_right (mapM_eq_ok.mp hrest) hd
    rw [Failure.within_eq_ok] at hsource
    obtain ⟨heq, hroot⟩ := directorySource_eq_ok hsource
    cases heq
    exact ⟨List.mem_cons_of_mem _ hp, hroot⟩

theorem load_of_gather {o : Options} {material : Material}
    (h : Material.gather t input o = .ok material) :
    InputClass.load t input = .ok material.classes := by
  unfold Material.gather at h
  obtain ⟨classes, hclasses, h⟩ := bind_eq_ok.mp h
  obtain ⟨sources, _, h⟩ := bind_eq_ok.mp h
  cases pure_eq_ok.mp h
  exact hclasses

end Command

end ThreadWatch
