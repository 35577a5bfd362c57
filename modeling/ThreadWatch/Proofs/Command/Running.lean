import ThreadWatch.Command.Instrumenting
import ThreadWatch.Proofs.Command.Gathering
import ThreadWatch.Proofs.Types.Sources

/-!
# Runs of instrumenting

A run takes the classes one by one: what becomes of a class is a matter of what the sources answer
on the tree as it is then, and the class is stored before the next one's turn comes.
-/

namespace ThreadWatch.Command

open ThreadWatch.Tree (Keeps Stores Grows OnTheWay)

/-! ### Steps of a session -/

namespace Work

variable {α β : Type} {s s' : Session}

theorem ofExcept_eq_ok {x : Except Failure α} {a : α} :
    ofExcept x s = .ok a s' ↔ x = .ok a ∧ s' = s := by
  cases x with
  | ok found =>
    show EStateM.Result.ok found s = .ok a s' ↔ _
    simp [eq_comm]
  | error failure =>
    show EStateM.Result.error (Halt.failed failure) s = .ok a s' ↔ _
    simp

theorem run_of_bind (x : StateM Session α) (f : α → Work β) :
    (of x >>= f) s = f (x.run s).1 (x.run s).2 := rfl

theorem ofExcept_bind (x : Except Failure α) (f : α → β) :
    (ofExcept x >>= fun a => (pure (f a) : Work β)) = ofExcept (x.map f) := by
  cases x with
  | ok a => rfl
  | error failure => rfl

theorem onFiles_eq_ok {purpose : String} {step : Tree → Except FileTrouble Tree}
    (h : onFiles purpose step s = .ok () s') : step s.tree = .ok s'.tree := by
  have hrun : onFiles purpose step s =
      (ofExcept (Failure.within purpose ((step s.tree).mapError .ofTrouble)) >>= fun tree =>
        modify fun r => { r with tree := tree }) s := rfl
  rw [hrun, Stateful.bind_eq_ok] at h
  obtain ⟨tree, r, htree, h⟩ := h
  obtain ⟨htree, rfl⟩ := ofExcept_eq_ok.mp htree
  cases h
  cases hstep : step r.tree with
  | ok found =>
    rw [hstep] at htree
    cases htree
    rfl
  | error trouble =>
    rw [hstep] at htree
    cases htree

end Work

/-! ### Hosts -/

/-- What sources answer on a tree. -/
def answers (sources : List Source) (t : Tree) : Host.Fixed := fun name =>
  Source.loadFirst t name sources

variable {sources : List Source} {o : Options} {T : Instrument} {s s' : Session} {c : InputClass}

/-- While the tree stays, a session's host is one that only records. -/
theorem host_follows (t : Tree) :
    (Host.recording (answers sources t)).Follows (fun _ s => s.tree = t) (host sources) := by
  refine Host.follows_of_load (fun name r s hs => ?_) (fun _ _ _ hs => ⟨rfl, hs⟩)
    fun _ _ _ _ hs => ⟨rfl, hs⟩
  subst hs
  exact ⟨.refl _, rfl⟩

/-- What becomes of a class that is looked at with the answers of `source`. -/
def verdict (T : Instrument) (source : Host.Fixed) (c : InputClass) : Outcome :=
  ((T.transform (Host.recording source) ⟨some c.name, some (toDotted c.name), c.bytes⟩).run
    .empty).1

theorem verdict_congr {source source' : Host.Fixed}
    (h : ∀ name, Answer.Alike (source name) (source' name)) :
    verdict T source c = verdict T source' c := by
  have hfollows : (Host.recording source).Follows (fun _ _ => True) (Host.recording source') :=
    Host.follows_of_load (fun name _ _ _ => ⟨h name, trivial⟩) (fun _ _ _ _ => ⟨rfl, trivial⟩)
      fun _ _ _ _ _ => ⟨rfl, trivial⟩
  exact (Instrument.same_transform hfollows T _ .empty .empty trivial).1

/-- As long as all that is below the paths given looks alike, a class is judged as at the start. -/
theorem verdict_of_gather {input : Path} {material : Material} {t₀ t : Tree}
    (hgather : Material.gather t₀ input o = .ok material) (hkeeps : Keeps t₀ t)
    (h : ∀ p ∈ input :: o.classpath, ∀ root, t₀.resolve p = .ok root →
      t₀.find? root = some .directory → Tree.AlikeBelow root t₀ t) :
    verdict T (answers material.sources t) c = verdict T (answers material.sources t₀) c := by
  refine (verdict_congr fun name => Source.loadFirst_alike hkeeps (fun d hd => ?_) name).symm
  obtain ⟨hmem, hroot, hdirectory⟩ := root_of_gather hgather hd
  exact ⟨_, hroot, h _ hmem _ hroot hdirectory⟩

theorem run_transform_host (sources : List Source) (T : Instrument) (s : Session) (c : InputClass) :
    let ran := (T.transform (host sources) ⟨some c.name, some (toDotted c.name), c.bytes⟩).run s
    ran.1 = verdict T (answers sources s.tree) c ∧ ran.2.tree = s.tree :=
  have hsame := Instrument.same_transform (host_follows s.tree) T _ .empty s rfl
  ⟨hsame.1.symm, hsame.2⟩

theorem run_inspect_host (sources : List Source) (T : Instrument) (s : Session) (w : Workpiece) :
    let ran := (T.inspect (host sources) w).run s
    ran.1 = ((T.inspect (Host.recording (answers sources s.tree)) w).run .empty).1 ∧
      ran.2.tree = s.tree :=
  have hsame := Instrument.same_inspect (host_follows s.tree) T w .empty s rfl
  ⟨hsame.1.symm, hsame.2⟩

theorem tree_of_announce (sources : List Source) (settings : Settings) (s : Session) :
    ((settings.announce (host sources)).run s).2.tree = s.tree := by
  unfold Settings.announce
  induction settings.summary generalizing s with
  | nil => rfl
  | cons text rest ih => exact ih _

/-- The instrument for some options, where the watched type is answered by `source`. -/
def instrumentOf (o : Options) (source : Host.Fixed) : Except Failure Instrument :=
  if o.exactMatch then .ok (.new o.settings none)
  else
    (Failure.within watchedTypeAdvice
      ((Target.ofAnswer (source watchedType)).mapError .ofFault)).map fun target =>
        .new o.settings (some target)

theorem instrumentFor_eq (sources : List Source) (o : Options) (s : Session) :
    ∃ s', s'.tree = s.tree ∧ instrumentFor o (host sources) s =
      Work.ofExcept (instrumentOf o (answers sources s.tree)) s' := by
  have htree := tree_of_announce sources o.settings s
  unfold instrumentFor instrumentOf
  rw [Work.run_of_bind]
  generalize ((o.settings.announce (host sources)).run s).2 = s₁ at htree ⊢
  rw [← htree]
  split
  · exact ⟨s₁, rfl, rfl⟩
  · refine ⟨{ s₁ with asked := s₁.asked.push watchedType }, rfl, ?_⟩
    rw [← Work.ofExcept_bind]
    rfl

/-- A command that gathers its material and sets up its instrument goes on from the tree it was
given. -/
theorem prepared_eq_ok {α : Type} {input : Path} {a : α} {t : Tree}
    {rest : Material → Instrument → Work α}
    (h : (Work.ofExcept (Material.gather t input o) >>= fun material =>
      instrumentFor o (host material.sources) >>= rest material) s = .ok a s') :
    ∃ material T r, Material.gather t input o = .ok material ∧
      instrumentOf o (answers material.sources s.tree) = .ok T ∧ r.tree = s.tree ∧
      rest material T r = .ok a s' := by
  obtain ⟨material, r, hmaterial, hprepared⟩ := Stateful.bind_eq_ok.mp h
  obtain ⟨hgather, rfl⟩ := Work.ofExcept_eq_ok.mp hmaterial
  obtain ⟨T, r', hT, hrest⟩ := Stateful.bind_eq_ok.mp hprepared
  obtain ⟨_, htree, heq⟩ := instrumentFor_eq material.sources o r
  rw [heq] at hT
  obtain ⟨hinstrument, rfl⟩ := Work.ofExcept_eq_ok.mp hT
  exact ⟨material, T, r', hgather, hinstrument, htree, hrest⟩

theorem new_of_instrumentOf {source : Host.Fixed} (h : instrumentOf o source = .ok T) :
    ∃ target, T = .new o.settings target := by
  unfold instrumentOf at h
  split at h
  · cases h
    exact ⟨none, rfl⟩
  · obtain ⟨target, _, rfl⟩ := map_eq_ok.mp h
    exact ⟨some target, rfl⟩

/-- Joins are traced, and the watched type goes by its name. -/
def tracingByName : Options := ⟨[], none, ⟨true, true, false⟩, true⟩

/-! ### Storing -/

theorem write_cases (path : Path) (bytes : Bytes) :
    Instrumenting.write path bytes =
        Work.onFiles ("failed to write: " ++ path) (·.writeFile path bytes) ∨
      ∃ above, path.parent? = some above ∧ above ≠ "" ∧ Instrumenting.write path bytes =
        (Work.onFiles ("failed to create directory: " ++ above) (·.makeDirectories above) >>=
          fun _ => Work.onFiles ("failed to write: " ++ path) (·.writeFile path bytes)) := by
  unfold Instrumenting.write
  split
  · exact .inl rfl
  · exact .inl rfl
  next above hne hparent => exact .inr ⟨above, hparent, hne, rfl⟩

theorem write_eq_ok {path : Path} {bytes : Bytes}
    (h : Instrumenting.write path bytes s = .ok () s') :
    Stores (OnTheWay s.tree path) (s.tree.place path) bytes s.tree s'.tree := by
  -- the file is written behind the directories, wherever these were made
  have hfile : ∀ r : Session, Grows (OnTheWay s.tree path) s.tree r.tree →
      Work.onFiles ("failed to write: " ++ path) (·.writeFile path bytes) r = .ok () s' →
      Stores (OnTheWay s.tree path) (s.tree.place path) bytes s.tree s'.tree := by
    intro r hgrows hwrite
    obtain ⟨hplace, hfree, htree⟩ := Tree.writeFile_eq_ok (Work.onFiles_eq_ok hwrite)
    rw [Tree.place_congr hgrows.current] at hplace hfree htree
    rw [htree]
    exact hgrows.stores hplace hfree
  rcases write_cases path bytes with hwrite | ⟨above, hparent, hne, hwrite⟩
  · rw [hwrite] at h
    exact hfile s (.refl _ _) h
  · rw [hwrite] at h
    obtain ⟨_, r, hmade, h⟩ := Stateful.bind_eq_ok.mp h
    refine hfile r ?_ h
    exact (Tree.makeDirectories_eq_ok (Work.onFiles_eq_ok hmade)).mono fun _ =>
      .of_parent hparent hne

/-! ### Destinations -/

/-- A class of a directory goes where its names lead below the output. -/
theorem place_destination {t : Tree} (output : Path) {root names : List String}
    (hne : names ≠ []) (hnames : ∀ name ∈ names, Path.IsName name)
    (hc : InputClass.IsAt t root names c) :
    Path.lead (Instrumenting.destination true output c) = Path.lead output ++ names ∧
      t.place (Instrumenting.destination true output c) = t.place output ++ names := by
  have hlead : Path.lead (Instrumenting.destination true output c) = Path.lead output ++ names := by
    rw [Instrumenting.destination, if_pos rfl, hc.relative, Path.lead_join_toText hne hnames]
  exact ⟨hlead, Tree.place_below hnames hlead⟩

/-- No two classes go to the same place. -/
theorem pairwise_destinations {t : Tree} {input output : Path} {classes : List InputClass}
    (hsound : t.IsSound) (hload : InputClass.load t input = .ok classes) :
    classes.Pairwise fun c c' =>
      t.place (Instrumenting.destination (t.isDirectory input) output c) ≠
        t.place (Instrumenting.destination (t.isDirectory input) output c') := by
  by_cases hdirectory : t.isDirectory input
  · obtain ⟨root, hroot, _⟩ := Tree.isDirectory_iff.mp hdirectory
    have hat := InputClass.isAt_of_load hsound hroot hdirectory hload
    have hnames := fun names (hmem : names ∈ InputClass.namesBelow t input) =>
      InputClass.isName_of_mem_namesBelow hsound hroot hmem
    rw [hdirectory]
    refine pairwise_of_forall₂ ((List.forall₂_and_left _ _).mpr ⟨hnames, hat⟩)
      (InputClass.nodup_namesBelow hsound input) ?_
    rintro names names' c c' ⟨⟨hne, hname⟩, hc⟩ ⟨⟨hne', hname'⟩, hc'⟩ hdistinct heq
    rw [(place_destination output hne hname hc).2,
      (place_destination output hne' hname' hc').2] at heq
    exact hdistinct (List.append_cancel_left heq)
  · obtain ⟨c, rfl⟩ := List.length_eq_one_iff.mp (InputClass.length_of_load hdirectory hload)
    exact List.pairwise_singleton _ _

/-! ### The classes one by one -/

/-- The line of the report for a class. -/
def entry (dest : Option (InputClass → Path)) (outcome : InputClass → Outcome) (c : InputClass) :
    InstrumentedFile :=
  ⟨c.relative, c.name, outcome c, dest.map (· c)⟩

/-- The tree goes on from class to class: each is judged on the tree as it is, and stored. None is
given up. -/
inductive Goes (T : Instrument) (sources : List Source) (dest : InputClass → Path) :
    List InputClass → Tree → List InstrumentedFile → Tree → Prop
  | done (t : Tree) : Goes T sources dest [] t [] t
  | step {c : InputClass} {classes : List InputClass} {files : List InstrumentedFile}
    {t t₁ t' : Tree} (hjudged : verdict T (answers sources t) c ≠ .panicked)
    (hstores : Stores (t.OnTheWay (dest c)) (t.place (dest c))
      ((verdict T (answers sources t) c).bytesOr c.bytes) t t₁)
    (hrest : Goes T sources dest classes t₁ files t') :
    Goes T sources dest (c :: classes) t
      (entry (some dest) (verdict T (answers sources t)) c :: files) t'

/-- A class is judged, and given up or stored. -/
theorem instrumentClass_eq (sources : List Source) (T : Instrument)
    (dest : Option (InputClass → Path)) (c : InputClass) (s : Session) :
    ∃ r : Session, r.tree = s.tree ∧
      Instrumenting.instrumentClass T (host sources) dest c s =
        (if verdict T (answers sources s.tree) c = .panicked then .error .panicked r
        else
          let file := entry dest (verdict T (answers sources s.tree)) c
          match dest with
          | none => .ok file r
          | some place => ((fun _ => file) <$>
              Instrumenting.write (place c)
                ((verdict T (answers sources s.tree) c).bytesOr c.bytes)) r) := by
  obtain ⟨hverdict, htree⟩ := run_transform_host sources T s c
  refine ⟨_, htree, ?_⟩
  unfold Instrumenting.instrumentClass
  rw [Work.run_of_bind, hverdict]
  split
  · rfl
  · cases dest with
    | none => rfl
    | some place => rfl

theorem instrumentClass_eq_ok {dest : InputClass → Path} {f : InstrumentedFile}
    (h : Instrumenting.instrumentClass T (host sources) (some dest) c s = .ok f s') :
    f = entry (some dest) (verdict T (answers sources s.tree)) c ∧
      verdict T (answers sources s.tree) c ≠ .panicked ∧
      Stores (s.tree.OnTheWay (dest c)) (s.tree.place (dest c))
        ((verdict T (answers sources s.tree) c).bytesOr c.bytes) s.tree s'.tree := by
  obtain ⟨r, htree, hrun⟩ := instrumentClass_eq sources T (some dest) c s
  rw [hrun] at h
  split at h
  · cases h
  next hjudged =>
    obtain ⟨_, hwrite, rfl⟩ := Stateful.map_eq_ok.mp h
    have hstores := write_eq_ok hwrite
    rw [htree] at hstores
    exact ⟨rfl, hjudged, hstores⟩

theorem goes_of_mapM {dest : InputClass → Path} {classes : List InputClass}
    {files : List InstrumentedFile}
    (h : classes.mapM (Instrumenting.instrumentClass T (host sources) (some dest)) s =
      .ok files s') : Goes T sources dest classes s.tree files s'.tree := by
  induction classes generalizing s files with
  | nil =>
    obtain ⟨rfl, rfl⟩ := Stateful.pure_eq_ok.mp h
    exact .done _
  | cons c classes ih =>
    rw [List.mapM_cons] at h
    obtain ⟨f, r, hf, h⟩ := Stateful.bind_eq_ok.mp h
    obtain ⟨rest, r', hrest, h⟩ := Stateful.bind_eq_ok.mp h
    obtain ⟨rfl, rfl⟩ := Stateful.pure_eq_ok.mp h
    obtain ⟨rfl, hjudged, hstores⟩ := instrumentClass_eq_ok hf
    exact .step hjudged hstores (ih hrest)

/-- Without an output the tree stays, and every class is judged on it, up to one that is given
up. -/
theorem mapM_without_output (sources : List Source) (T : Instrument) (classes : List InputClass)
    (s : Session) :
    let judged := verdict T (answers sources s.tree)
    ∃ s', s'.tree = s.tree ∧
      classes.mapM (Instrumenting.instrumentClass T (host sources) none) s =
        if ∃ c ∈ classes, judged c = .panicked then .error .panicked s'
        else .ok (classes.map (entry none judged)) s' := by
  induction classes generalizing s with
  | nil => exact ⟨s, rfl, rfl⟩
  | cons c classes ih =>
    intro judged
    obtain ⟨r, htree, hfirst⟩ := instrumentClass_eq sources T none c s
    rw [List.mapM_cons]
    by_cases hjudged : judged c = .panicked
    · rw [if_pos hjudged] at hfirst
      refine ⟨r, htree, ?_⟩
      rw [if_pos ⟨c, List.mem_cons_self .., hjudged⟩]
      exact Stateful.bind_eq_error.mpr (.inl hfirst)
    · rw [if_neg hjudged] at hfirst
      obtain ⟨s', htree', hrest⟩ := ih r
      rw [htree] at htree' hrest
      refine ⟨s', htree', ?_⟩
      -- the first class is settled, so what is left decides
      have hiff : (∃ c' ∈ c :: classes, judged c' = .panicked) ↔
          ∃ c' ∈ classes, judged c' = .panicked := by
        simp only [List.exists_mem_cons_iff, hjudged, false_or]
      simp only [hiff]
      split at hrest
      next hpanicked =>
        rw [if_pos hpanicked]
        exact Stateful.bind_eq_error.mpr
          (.inr ⟨_, r, hfirst, Stateful.bind_eq_error.mpr (.inl hrest)⟩)
      next hpanicked =>
        rw [if_neg hpanicked]
        exact Stateful.bind_eq_ok.mpr ⟨_, r, hfirst, Stateful.bind_eq_ok.mpr ⟨_, s', hrest, rfl⟩⟩

/-! ### Whole runs -/

variable {input : Path} {report : InstrumentReport}

theorem run_eq (input : Path) (output : Option Path) (o : Options) (s : Session) :
    Instrumenting.run input output o s =
      (Work.ofExcept (Material.gather s.tree input o) >>= fun material =>
        instrumentFor o (host material.sources) >>= fun T =>
        material.classes.mapM (Instrumenting.instrumentClass T (host material.sources)
          (output.map (Instrumenting.destination (s.tree.isDirectory input)))) >>= fun results =>
        get >>= fun last => pure ⟨results, last.diagnostics.toList⟩) s := rfl

/-- A run gathers its material, sets up its instrument and takes the classes one by one. -/
theorem run_eq_ok {output : Option Path}
    (h : Instrumenting.run input output o s = .ok report s') :
    ∃ material T r, Material.gather s.tree input o = .ok material ∧
      instrumentOf o (answers material.sources s.tree) = .ok T ∧ r.tree = s.tree ∧
      material.classes.mapM (Instrumenting.instrumentClass T (host material.sources)
        (output.map (Instrumenting.destination (s.tree.isDirectory input)))) r =
          .ok report.results s' := by
  rw [run_eq] at h
  obtain ⟨material, T, r, hgather, hT, htree, h⟩ := prepared_eq_ok h
  obtain ⟨results, last, hresults, h⟩ := Stateful.bind_eq_ok.mp h
  cases h
  exact ⟨material, T, r, hgather, hT, htree, hresults⟩

theorem goes_of_run {output : Path}
    (h : Instrumenting.run input (some output) o s = .ok report s') :
    ∃ material T, Material.gather s.tree input o = .ok material ∧
      instrumentOf o (answers material.sources s.tree) = .ok T ∧
      Goes T material.sources (Instrumenting.destination (s.tree.isDirectory input) output)
        material.classes s.tree report.results s'.tree := by
  obtain ⟨material, T, r, hgather, hT, htree, hresults⟩ := run_eq_ok h
  have hgoes := goes_of_mapM hresults
  rw [htree] at hgoes
  exact ⟨material, T, hgather, hT, hgoes⟩

/-- Without an output a run that has its instrument leaves the tree as it is, and it gets through
unless a class is given up. -/
theorem run_without_output {material : Material}
    (hgather : Material.gather s.tree input o = .ok material)
    (hT : instrumentOf o (answers material.sources s.tree) = .ok T) :
    let judged := verdict T (answers material.sources s.tree)
    ∃ s', s'.tree = s.tree ∧ Instrumenting.run input none o s =
      if ∃ c ∈ material.classes, judged c = .panicked then .error .panicked s'
      else .ok ⟨material.classes.map (entry none judged), s'.diagnostics.toList⟩ s' := by
  intro judged
  obtain ⟨r, htree, hinstrument⟩ := instrumentFor_eq material.sources o s
  rw [hT] at hinstrument
  obtain ⟨s', htree', hresults⟩ := mapM_without_output material.sources T material.classes r
  rw [htree] at htree' hresults
  refine ⟨s', htree', ?_⟩
  have hgathered : Work.ofExcept (Material.gather s.tree input o) s = .ok material s :=
    Work.ofExcept_eq_ok.mpr ⟨hgather, rfl⟩
  rw [run_eq]
  split at hresults
  next hpanicked =>
    rw [if_pos hpanicked]
    refine Stateful.bind_eq_error.mpr (.inr ⟨material, s, hgathered, ?_⟩)
    exact Stateful.bind_eq_error.mpr
      (.inr ⟨T, r, hinstrument, Stateful.bind_eq_error.mpr (.inl hresults)⟩)
  next hpanicked =>
    rw [if_neg hpanicked]
    refine Stateful.bind_eq_ok.mpr ⟨material, s, hgathered, ?_⟩
    refine Stateful.bind_eq_ok.mpr ⟨T, r, hinstrument, ?_⟩
    exact Stateful.bind_eq_ok.mpr ⟨_, s', hresults, rfl⟩

namespace Goes

variable {dest : InputClass → Path} {classes : List InputClass} {files : List InstrumentedFile}
  {t t' : Tree} {here : List String}

theorem keeps (h : Goes T sources dest classes t files t') : Keeps t t' := by
  induction h with
  | done t => exact .refl t
  | step _ hstores _ ih => exact hstores.keeps.trans ih

/-- What was there is there still, unless a class was stored in its place. -/
theorem find?_of_ne {e : Entry} (h : Goes T sources dest classes t files t')
    (hne : ∀ c ∈ classes, t.place (dest c) ≠ here) (he : t.find? here = some e) :
    t'.find? here = some e := by
  induction h with
  | done t => exact he
  | @step c classes _ t t₁ _ _ hstores _ ih =>
    rw [List.forall_mem_cons] at hne
    refine ih (fun c hc => ?_) ((hstores.same here (Ne.symm hne.1)).eq_some he)
    rw [Tree.place_congr hstores.current]
    exact hne.2 c hc

end Goes

end ThreadWatch.Command
