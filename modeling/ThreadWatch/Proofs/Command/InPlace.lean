import Mathlib.Data.List.Nodup
import ThreadWatch.Proofs.Command.Gathering
import ThreadWatch.Proofs.Command.Running
import ThreadWatch.Proofs.Instrument.Again

/-!
# Instrumenting in place

A rewritten class has the summary that it had. So it does not matter that later classes are looked
at when earlier ones have been written where their supertypes are looked up: instrumenting a
directory in place gives what it gives elsewhere.
-/

namespace ThreadWatch

/-- A class that comes out rewritten can be read again, and its summary is what it was. -/
theorem Instrument.standsFor_of_rewritten {source : Host.Fixed} {settings : Settings}
    {target : Option Target} {p : Presented} {out : Bytes} {n : Nat}
    (h : (((new settings target).transform (Host.recording source) p).run .empty).1 =
      .rewritten out n) : p.bytes.StandsFor out := by
  obtain ⟨name, w, hname, hkept, hw⟩ := exists_of_transform h ⟨nofun, nofun, nofun⟩
  have houtcome := ((new settings target).run_transform (Host.steady_recording source) hname hkept
    hw .empty .empty).1.symm.trans h
  obtain ⟨_, edited, _, hedited, hout, _⟩ := outcomeOf_eq_rewritten houtcome
  obtain ⟨⟨touched, hleaves⟩, _⟩ := Workpiece.leaves_of_replaceAll hw hedited
  obtain ⟨v, hv, _, hinfo, _⟩ := hleaves.exists_written hw hout
  have hparse : ∀ {data : Bytes} {u : Workpiece}, Workpiece.parse data = .ok u →
      TypeInfo.parse data = .ok u.info := fun hu =>
    bind_eq_ok.mpr ⟨_, (Workpiece.parse_eq_ok.mp hu).1, (Workpiece.parse_eq_ok.mp hu).2.1⟩
  exact .inr ⟨w.info, hparse hw, hinfo ▸ hparse hv⟩

namespace Command

/-- What is stored for a class stands for it. -/
theorem standsFor_verdict {o : Options} {answered : Host.Fixed} {T : Instrument}
    (hT : instrumentOf o answered = .ok T) (source : Host.Fixed) (c : InputClass) :
    c.bytes.StandsFor ((verdict T source c).bytesOr c.bytes) := by
  obtain ⟨target, rfl⟩ := new_of_instrumentOf hT
  cases hverdict : verdict (.new o.settings target) source c with
  | rewritten out n => exact Instrument.standsFor_of_rewritten hverdict
  | _ => exact .inl rfl

end Command

/-! ### Files written one after the other -/

namespace Tree

/-- The files are written in this order, and directories are made above them only. -/
inductive Writes : Tree → List (List String × Bytes) → Tree → Prop
  | done (t : Tree) : Writes t [] t
  | step {t t₁ t' : Tree} {place : List String} {bytes : Bytes} {rest : List (List String × Bytes)}
    (hfirst : Stores (· <+: place) place bytes t t₁) (hrest : Writes t₁ rest t') :
    Writes t ((place, bytes) :: rest) t'

/-- A directory that nothing is in. -/
def IsEmptyDirectory (t : Tree) (place : List String) : Prop :=
  t.find? place = some .directory ∧ ∀ here, place <+: here → here ≠ place → t.find? here = none

variable {t t' : Tree} {written : List (List String × Bytes)} {place : List String}
  {bytes : Bytes} {entry : Entry}

theorem Writes.find?_of_notMem (h : t.Writes written t') (hplace : place ∉ written.map Prod.fst)
    (hentry : t.find? place = some entry) : t'.find? place = some entry := by
  induction h with
  | done t => exact hentry
  | step hfirst _ ih =>
    rw [List.map_cons, List.mem_cons, not_or] at hplace
    exact ih hplace.2 ((hfirst.same _ hplace.1).eq_some hentry)

/-- A file that is written once is there in the end. -/
theorem Writes.find?_of_mem (h : t.Writes written t') (honce : (written.map Prod.fst).Nodup)
    (hmem : (place, bytes) ∈ written) : t'.find? place = some (.file bytes) := by
  induction h with
  | done t => cases hmem
  | step hfirst hrest ih =>
    rw [List.map_cons, List.nodup_cons] at honce
    rcases List.mem_cons.mp hmem with heq | hmem
    · cases heq
      exact hrest.find?_of_notMem honce.1 hfirst.stored
    · exact ih honce.2 hmem

end Tree

namespace Command

open ThreadWatch.Tree (Keeps Stores Writes)

variable {sources : List Source} {T : Instrument} {c : InputClass} {o : Options}
  {input output : Path} {t₀ t t' : Tree} {root base names : List String} {bytes : Bytes}

/-! ### Classes stored below a directory -/

/-- Nothing new comes up but below the output directory, on the way to the class that is stored. -/
theorem stores_below (hbase : t₀.resolve output = .ok base)
    (hdirectory : t₀.find? base = some .directory) (hne : names ≠ [])
    (hnames : ∀ name ∈ names, Path.IsName name) (hc : InputClass.IsAt t₀ root names c)
    (hkeeps : Keeps t₀ t)
    (h : Stores (t.OnTheWay (Instrumenting.destination true output c))
      (t.place (Instrumenting.destination true output c)) bytes t t') :
    Stores (fun here => base <+: here ∧ here <+: base ++ names) (base ++ names) bytes t t' := by
  obtain ⟨hlead, hplace⟩ := place_destination output hne hnames hc
  obtain ⟨hwalk, hbaseplace⟩ := Tree.resolve_eq_ok hbase
  have hwalk := Tree.walk_lead hwalk
  rw [Tree.place_congr hkeeps.current, hplace, ← hbaseplace] at h
  refine h.mono fun here hnone hway => ?_
  obtain ⟨xs, hxs, rfl⟩ := Tree.OnTheWay.congr hkeeps.current hway
  rw [Tree.start_congr (Path.isAbsolute_of_lead hnames hlead) rfl] at hnone ⊢
  rw [hlead] at hxs
  rcases List.prefix_or_prefix_of_prefix hxs (List.prefix_append _ names) with hshort | hlong
  · -- As far as the output directory everything is there.
    obtain ⟨ys, hys⟩ := hshort
    have hthere : t₀.find? (Tree.follow (t₀.start output) xs) = some .directory := by
      cases ys with
      | nil =>
        rw [List.append_nil] at hys
        rw [hys, ← Tree.walk_eq_ok hwalk, hdirectory]
      | cons y ys =>
        rw [← hys] at hwalk
        exact Tree.find?_of_walk hwalk (List.cons_ne_nil y ys)
    rw [hkeeps.directory _ hthere] at hnone
    cases hnone
  · obtain ⟨ys, rfl⟩ := hlong
    rw [List.prefix_append_right_inj] at hxs
    have hys : ∀ name ∈ ys, Path.IsName name := fun name hname => hnames name (hxs.mem hname)
    rw [Tree.follow_append, Tree.follow_names hys, ← Tree.walk_eq_ok hwalk]
    exact ⟨List.prefix_append .., (List.prefix_append_right_inj base).mpr hxs⟩

/-- The classes with the names that lead to them below a directory. -/
def Named (t : Tree) (root : List String) (named : List (List String)) (classes : List InputClass) :
    Prop :=
  List.Forall₂ (fun names c => (names ≠ [] ∧ ∀ name ∈ names, Path.IsName name) ∧
    InputClass.IsAt t root names c) named classes

/-- Where each class goes and with which bytes. -/
def savings (base : List String) (out : InputClass → Outcome) (named : List (List String))
    (classes : List InputClass) : List (List String × Bytes) :=
  (named.zip classes).map fun (names, c) => (base ++ names, (out c).bytesOr c.bytes)

variable {named : List (List String)} {classes : List InputClass} {files : List InstrumentedFile}
  {out : InputClass → Outcome}

/-- If what is known of the tree decides what becomes of a class, and is still known when the class
is stored, a run writes each class as it was decided at the start. -/
theorem Goes.saves (Inv : Tree → Prop) (hbase : t₀.resolve output = .ok base)
    (hdirectory : t₀.find? base = some .directory)
    (h : Goes T sources (Instrumenting.destination true output) classes t files t')
    (hclasses : Named t₀ root named classes) (hkeeps : ∀ t, Inv t → Keeps t₀ t)
    (hverdict : ∀ t c, Inv t → verdict T (answers sources t) c = out c)
    (hstep : ∀ names c t t', InputClass.IsAt t₀ root names c → Inv t →
      Stores (fun here => base <+: here ∧ here <+: base ++ names) (base ++ names)
        ((out c).bytesOr c.bytes) t t' → Inv t')
    (ht : Inv t) :
    files = classes.map (entry (some (Instrumenting.destination true output)) out) ∧
      t.Writes (savings base out named classes) t' := by
  induction h generalizing named with
  | done t =>
    cases hclasses
    exact ⟨rfl, .done t⟩
  | @step c classes files t t₁ t' _ hstores _ ih =>
    cases hclasses with
    | @cons names _ named _ hc hclasses =>
      obtain ⟨⟨hne, hnames⟩, hc⟩ := hc
      have hbelow := stores_below hbase hdirectory hne hnames hc (hkeeps t ht) hstores
      -- the class is judged before it is stored, on a tree where the invariant still holds
      rw [hverdict t c ht] at hbelow
      obtain ⟨hfiles, hwrites⟩ := ih hclasses (hstep names c t t₁ hc ht hbelow)
      refine ⟨?_, .step (hbelow.mono fun _ _ hplace => hplace.2) hwrites⟩
      rw [hfiles, List.map_cons, entry, entry, hverdict t c ht]

/-- A run of instrumenting stored the classes of a directory below `base`, each under its names and
as its outcome has it. -/
structure Saves (t : Tree) (output : Path) (base : List String) (named : List (List String))
    (classes : List InputClass) (out : InputClass → Outcome) (report : InstrumentReport)
    (t' : Tree) : Prop where
  results : report.results = classes.map (entry (some (Instrumenting.destination true output)) out)
  writes : t.Writes (savings base out named classes) t'
  saved : List.Forall₂ (fun names c =>
    t'.find? (base ++ names) = some (.file ((out c).bytesOr c.bytes))) named classes

/-- Each class is written once, so it is there in the end. -/
theorem saved_of_writes (hclasses : Named t₀ root named classes) (honce : named.Nodup)
    (h : t.Writes (savings base out named classes) t') : List.Forall₂ (fun names c =>
      t'.find? (base ++ names) = some (.file ((out c).bytesOr c.bytes))) named classes := by
  have hlength := hclasses.length_eq
  have hplaces : (savings base out named classes).map Prod.fst = named.map (base ++ ·) := by
    unfold savings
    rw [List.map_map, ← List.map_fst_zip hlength.le, List.map_map, List.map_fst_zip hlength.le]
    rfl
  have hdistinct : (named.map (base ++ ·)).Nodup :=
    List.Nodup.map (fun _ _ heq => List.append_cancel_left heq) honce
  refine List.forall₂_iff_zip.mpr ⟨hlength, fun {names c} hmem => ?_⟩
  exact h.find?_of_mem (hplaces ▸ hdistinct)
    (List.mem_map.mpr ⟨(names, c), hmem, rfl⟩)

/-! ### In place and elsewhere -/

/-- In place, a class is stored where it was, or a class with its summary. -/
theorem alike_of_stores (hT : instrumentOf o (answers sources t₀) = .ok T)
    (hc : InputClass.IsAt t₀ root names c)
    (halike : ∀ here, Entry.Alike (t₀.find? here) (t.find? here)) {source : Host.Fixed}
    (h : Stores (fun here => root <+: here ∧ here <+: root ++ names) (root ++ names)
      ((verdict T source c).bytesOr c.bytes) t t') (here : List String) :
    Entry.Alike (t₀.find? here) (t'.find? here) := by
  by_cases hplace : here = root ++ names
  · rw [hplace, hc.there, h.stored]
    exact .file (standsFor_verdict hT source c)
  · rcases h.same here hplace with hsame | ⟨hnone, _, ⟨ys, rfl⟩, hys⟩
    · rw [hsame]
      exact halike here
    · rw [List.prefix_append_right_inj] at hys
      have hpassed := hc.passed ys hys fun heq => hplace (heq ▸ rfl)
      have hdirectory := halike (root ++ ys)
      rw [hpassed, hnone] at hdirectory
      cases hdirectory

/-- In place all that is there looks alike all the time, so each class is decided on as at the
start. -/
theorem saves_in_place {material : Material}
    (hgather : Material.gather t₀ input o = .ok material)
    (hT : instrumentOf o (answers material.sources t₀) = .ok T)
    (hroot : t₀.resolve output = .ok root) (hdirectory : t₀.find? root = some .directory)
    (hclasses : Named t₀ root named classes)
    (h : Goes T material.sources (Instrumenting.destination true output) classes t₀ files t') :
    let out := verdict T (answers material.sources t₀)
    files = classes.map (entry (some (Instrumenting.destination true output)) out) ∧
      t₀.Writes (savings root out named classes) t' := by
  refine h.saves (fun t => Keeps t₀ t ∧ ∀ here, Entry.Alike (t₀.find? here) (t.find? here))
    hroot hdirectory hclasses (fun _ ht => ht.1) ?_ ?_ ⟨.refl _, fun _ => .refl _⟩
  · rintro t c ⟨hkeeps, halike⟩
    exact verdict_of_gather hgather hkeeps fun _ _ _ _ _ here _ => halike here
  · rintro names c t t' hc ⟨hkeeps, halike⟩ hstores
    exact ⟨hkeeps.trans hstores.keeps, alike_of_stores hT hc halike hstores⟩

/-- In an empty directory where no source looks, what is written changes nothing for the sources. -/
theorem saves_elsewhere {material : Material}
    (hgather : Material.gather t₀ input o = .ok material)
    (hbase : t₀.resolve output = .ok base) (hempty : t₀.IsEmptyDirectory base)
    (houtside : ∀ p ∈ input :: o.classpath, ∀ root, t₀.resolve p = .ok root → ¬root <+: base)
    (hclasses : Named t₀ root named classes)
    (h : Goes T material.sources (Instrumenting.destination true output) classes t₀ files t') :
    let out := verdict T (answers material.sources t₀)
    files = classes.map (entry (some (Instrumenting.destination true output)) out) ∧
      t₀.Writes (savings base out named classes) t' := by
  refine h.saves
    (fun t => Keeps t₀ t ∧ ∀ here, ¬base <+: here → t.find? here = t₀.find? here)
    hbase hempty.1 hclasses (fun _ ht => ht.1) ?_ ?_ ⟨.refl _, fun _ _ => rfl⟩
  · rintro t c ⟨hkeeps, hsame⟩
    refine verdict_of_gather hgather hkeeps fun p hp root hroot hthere here hhere => ?_
    rw [hsame here fun hbelow => ?_]
    · exact .refl _
    · rcases List.prefix_or_prefix_of_prefix hbelow hhere with hwithin | hwithin
      -- a source below the output directory would have its root in it, but that is empty
      · have hne : root ≠ base := fun heq => houtside p hp root hroot (heq ▸ List.prefix_rfl)
        rw [hempty.2 root hwithin hne] at hthere
        cases hthere
      · exact houtside p hp root hroot hwithin
  · rintro names c t t' _ ⟨hkeeps, hsame⟩ hstores
    refine ⟨hkeeps.trans hstores.keeps, fun here hhere => ?_⟩
    have hplace : here ≠ base ++ names := fun heq => hhere (heq ▸ List.prefix_append ..)
    rcases hstores.same here hplace with hkept | ⟨_, _, hbelow, _⟩
    · rw [hkept, hsame here hhere]
    · exact absurd hbelow hhere

/-- Instrumenting a directory in place and into an empty directory where no source looks: the same
is reported of the same classes but for where they went, and the same bytes are stored under the
same names. Each class file is written once, and comes out changed only if it is rewritten. -/
theorem instrument_in_place {s s' s₁ s₁' : Session} {back elsewhere : Path} {place : List String}
    {here there : InstrumentReport} (hsound : s.tree.IsSound)
    (hroot : s.tree.resolve input = .ok root) (hdirectory : s.tree.isDirectory input)
    (hback : s.tree.resolve back = .ok root) (hplace : s.tree.resolve elsewhere = .ok place)
    (hempty : s.tree.IsEmptyDirectory place)
    (houtside : ∀ p ∈ input :: o.classpath, ∀ root, s.tree.resolve p = .ok root → ¬root <+: place)
    (htree : s'.tree = s.tree)
    (hhere : Instrumenting.run input (some back) o s = .ok here s₁)
    (hthere : Instrumenting.run input (some elsewhere) o s' = .ok there s₁') :
    ∃ named classes out, named.Nodup ∧
      (∀ names, names ∈ named ↔ InputClass.isClassFile names ∧
        ∃ bytes, s.tree.find? (root ++ names) = some (.file bytes)) ∧
      Named s.tree root named classes ∧
      Saves s.tree back root named classes out here s₁.tree ∧
      Saves s.tree elsewhere place named classes out there s₁'.tree ∧
      ∀ c ∈ classes, (out c).bytesOr c.bytes ≠ c.bytes → (out c).isRewritten := by
  obtain ⟨material, T, hgather, hT, hgoes⟩ := goes_of_run hhere
  obtain ⟨material', T', hgather', hT', hgoes'⟩ := goes_of_run hthere
  rw [htree] at hgather' hT' hgoes'
  cases hgather.symm.trans hgather'
  cases hT.symm.trans hT'
  rw [hdirectory] at hgoes hgoes'
  have hfound : s.tree.find? root = some .directory := by
    obtain ⟨_, hresolve, hfind⟩ := Tree.isDirectory_iff.mp hdirectory
    cases hroot.symm.trans hresolve
    exact hfind
  have honce := InputClass.nodup_namesBelow hsound input
  have hclasses : Named s.tree root (InputClass.namesBelow s.tree input) material.classes :=
    (List.forall₂_and_left _ _).mpr
      ⟨fun _ => InputClass.isName_of_mem_namesBelow hsound hroot,
        InputClass.isAt_of_load hsound hroot hdirectory (load_of_gather hgather)⟩
  obtain ⟨hresults, hwrites⟩ := saves_in_place hgather hT hback hfound hclasses hgoes
  obtain ⟨hresults', hwrites'⟩ := saves_elsewhere hgather hplace hempty houtside hclasses hgoes'
  refine ⟨_, material.classes, _, honce, fun _ => InputClass.mem_namesBelow hsound hroot, hclasses,
    ⟨hresults, hwrites, saved_of_writes hclasses honce hwrites⟩,
    ⟨hresults', hwrites', saved_of_writes hclasses honce hwrites'⟩, fun c _ hchanged => ?_⟩
  cases hverdict : verdict T (answers material.sources s.tree) c with
  | rewritten _ _ => rfl
  | _ =>
    rw [hverdict] at hchanged
    exact absurd rfl hchanged

/-- A directory with a class that joins a thread, and an empty directory beside it. -/
def twoDirectories : Tree :=
  ⟨[(["in"], .directory), (["in", "a.class"], .file (Instrument.joiner.bytes.toOption.getD [])),
    (["out"], .directory)], []⟩

theorem load_twoDirectories : InputClass.load twoDirectories "in" = [["a.class"]].mapM fun names =>
    InputClass.read twoDirectories (names.foldl Path.join "in") (Segments.toText '/' names) := by
  have hroot : twoDirectories.resolve "in" = .ok ["in"] := by decide +kernel
  exact InputClass.load_of_pairwise (by decide +kernel) hroot (by decide +kernel)
    (List.pairwise_singleton _ _)

theorem exists_run_twoDirectories {output : Path} (h : output = "in" ∨ output = "out") :
    ∃ report s, Instrumenting.run "in" (some output) tracingByName (.opening twoDirectories) =
      .ok report s ∧ report.rewritten = 1 := by
  have hrun : (match
        Instrumenting.run "in" (some output) tracingByName (.opening twoDirectories) with
      | .ok report _ => some report.rewritten
      | .error _ _ => none) = some 1 := by
    have htree : (Session.opening twoDirectories).tree = twoDirectories := rfl
    rw [run_eq, htree, Material.gather, load_twoDirectories]
    rcases h with rfl | rfl
    · decide +kernel
    · decide +kernel
  split at hrun
  next report s heq => exact ⟨report, s, heq, Option.some.inj hrun⟩
  · cases hrun

theorem instrument_in_place_joiner :
    ∃ here there s s', Instrumenting.run "in" (some "in") tracingByName (.opening twoDirectories) =
        .ok here s ∧
      Instrumenting.run "in" (some "out") tracingByName (.opening twoDirectories) = .ok there s' ∧
      here.rewritten = 1 ∧ there.rewritten = 1 ∧
      ∃ named classes out, Named twoDirectories ["in"] named classes ∧
        Saves twoDirectories "in" ["in"] named classes out here s.tree ∧
        Saves twoDirectories "out" ["out"] named classes out there s'.tree := by
  obtain ⟨here, s, hhere, hrewritten⟩ := exists_run_twoDirectories (.inl rfl)
  obtain ⟨there, s', hthere, hrewritten'⟩ := exists_run_twoDirectories (.inr rfl)
  have hsound : twoDirectories.IsSound := by decide +kernel
  have hroot : twoDirectories.resolve "in" = .ok ["in"] := by decide +kernel
  have hdirectory : twoDirectories.isDirectory "in" := by decide +kernel
  have hplace : twoDirectories.resolve "out" = .ok ["out"] := by decide +kernel
  have hempty : twoDirectories.IsEmptyDirectory ["out"] := by
    refine ⟨by decide +kernel, ?_⟩
    rintro _ ⟨rest, rfl⟩ hne
    cases rest with
    | nil => exact absurd rfl hne
    | cons name rest =>
      show List.lookup ("out" :: name :: rest) twoDirectories.entries = none
      rw [List.lookup_eq_none_iff]
      simp [twoDirectories]
  have houtside : ∀ p ∈ ["in"], ∀ root, twoDirectories.resolve p = .ok root →
      ¬root <+: ["out"] := by
    intro p hp root hresolve
    rw [List.mem_singleton.mp hp, hroot] at hresolve
    cases hresolve
    decide
  obtain ⟨named, classes, out, _, _, hnamed, hsaves, hsaves', _⟩ :=
    instrument_in_place hsound hroot hdirectory hroot hplace hempty houtside rfl hhere hthere
  exact ⟨here, there, s, s', hhere, hthere, hrewritten, hrewritten', named, classes, out, hnamed,
    hsaves, hsaves'⟩

end Command

end ThreadWatch
