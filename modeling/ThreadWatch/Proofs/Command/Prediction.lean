import ThreadWatch.Command.Scan
import ThreadWatch.Proofs.Command.Gathering
import ThreadWatch.Proofs.Command.Running
import ThreadWatch.Proofs.Instrument.Again

/-!
# What a scan tells of instrumenting

A scan and a run of instrumenting look at a class in different ways. Still, whatever a scan found
out about a class is what instrumenting makes of it, as long as nothing is written where either
looks.
-/

namespace ThreadWatch

/-- A call that has no operation to be watched gets no probe. -/
theorem Instrument.probe_of_unwatched {source : Host.Fixed} (T : Instrument) {w : Workpiece}
    {decisions : List Decision} {d : Decision}
    (h : ((T.inspect (Host.recording source) w).run .empty).1 = .ok decisions)
    (hd : d ∈ decisions) (hname : Operation.ofName? d.site.name = none) : d.probe = none := by
  have hh := Host.steady_recording source
  rw [run_inspect, map_eq_ok] at h
  obtain ⟨sites, _, rfl⟩ := h
  rw [T.decisions_eq_map hh] at hd
  obtain ⟨site, _, rfl⟩ := List.mem_map.mp hd
  rw [T.site_of_decide hh] at hname
  exact T.probe_decide_of_unwatched _ _ hname

namespace Command

variable {source : Host.Fixed} {sources : List Source} {T : Instrument} {c : InputClass}
  {s s' : Session} {r r' : ScanReport} {o : Options} {input : Path}

/-! ### Scans -/

/-- What a scan finds out about a class file. -/
structure Finding where
  relative : Path
  /-- Nothing of a file that does not parse. -/
  found : Option ScannedClass

/-- What is found out with the answers of `source`, if all calls can be listed. -/
def findingOf (T : Instrument) (source : Host.Fixed) (c : InputClass) : Except Fault Finding :=
  match Workpiece.parse c.bytes with
  | .error _ => .ok ⟨c.relative, none⟩
  | .ok w =>
    let isExcluded := (T.settings.excludes c.name).isSome
    ((T.inspect (Host.recording source) w).run .empty).1.map fun decisions =>
      ⟨c.relative, some ⟨c.name, isExcluded,
        (decisions.filter fun d => (Operation.ofName? d.site.name).isSome).map
          (.ofDecision w isExcluded)⟩⟩

/-- The report tells of these findings: which files do not parse, and which classes make calls that
could be watched. -/
structure Tells (r : ScanReport) (findings : List Finding) : Prop where
  skipped : r.skipped = (findings.filter (·.found.isNone)).map (·.relative)
  classes : r.classes = (findings.filterMap (·.found)).filter (!·.sites.isEmpty)

theorem sitesOf_eq_ok {isExcluded : Bool} {w : Workpiece} {sites : List ScannedSite}
    (h : Scan.sitesOf T (host sources) isExcluded w s = .ok sites s') :
    s'.tree = s.tree ∧ ∃ decisions,
      ((T.inspect (Host.recording (answers sources s.tree)) w).run .empty).1 = .ok decisions ∧
      sites = (decisions.filter fun d => (Operation.ofName? d.site.name).isSome).map
        (.ofDecision w isExcluded) := by
  obtain ⟨hfound, htree⟩ := run_inspect_host sources T s w
  unfold Scan.sitesOf at h
  rw [Work.run_of_bind, hfound] at h
  generalize ((T.inspect (host sources) w).run s).2 = last at h htree
  cases hdecisions : ((T.inspect (Host.recording (answers sources s.tree)) w).run .empty).1 with
  | error fault =>
    rw [hdecisions] at h
    cases h
  | ok decisions =>
    rw [hdecisions] at h
    cases h
    exact ⟨htree, decisions, rfl, rfl⟩

/-- A scanned class adds what was found out about it. -/
theorem scanClass_eq_ok {findings : List Finding} (hr : Tells r findings)
    (h : Scan.scanClass T (host sources) c r s = .ok r' s') :
    s'.tree = s.tree ∧ r'.files = r.files ∧
      ∃ f, findingOf T (answers sources s.tree) c = .ok f ∧ Tells r' (findings ++ [f]) := by
  unfold Scan.scanClass at h
  unfold findingOf
  cases hw : Workpiece.parse c.bytes with
  | error fault =>
    rw [hw] at h
    cases h
    exact ⟨rfl, rfl, _, rfl, by simp [hr.skipped], by simp [hr.classes]⟩
  | ok w =>
    rw [hw] at h
    obtain ⟨sites, last, hsites, h⟩ := Stateful.bind_eq_ok.mp h
    obtain ⟨htree, decisions, hdecisions, rfl⟩ := sitesOf_eq_ok hsites
    dsimp only
    rw [hdecisions]
    split at h
    next hempty =>
      obtain ⟨rfl, rfl⟩ := Stateful.pure_eq_ok.mp h
      exact ⟨htree, rfl, _, rfl, by simp [hr.skipped], by simp [hr.classes, hempty]⟩
    next hempty =>
      obtain ⟨rfl, rfl⟩ := Stateful.pure_eq_ok.mp h
      exact ⟨htree, rfl, _, rfl, by simp [hr.skipped], by simp [hr.classes, hempty]⟩

/-- Class by class the report comes to tell of all findings. -/
theorem scanClasses_eq_ok {classes : List InputClass} {before : List Finding}
    (hr : Tells r before)
    (h : classes.foldlM (fun r c => Scan.scanClass T (host sources) c r) r s = .ok r' s') :
    s'.tree = s.tree ∧ r'.files = r.files ∧ ∃ findings,
      List.Forall₂ (fun c f => findingOf T (answers sources s.tree) c = .ok f) classes findings ∧
      Tells r' (before ++ findings) := by
  induction classes generalizing r s before with
  | nil =>
    obtain ⟨rfl, rfl⟩ := Stateful.pure_eq_ok.mp h
    exact ⟨rfl, rfl, [], .nil, (List.append_nil before).symm ▸ hr⟩
  | cons c classes ih =>
    rw [List.foldlM_cons] at h
    obtain ⟨r₁, s₁, hfirst, h⟩ := Stateful.bind_eq_ok.mp h
    obtain ⟨htree, hfiles, f, hf, hr₁⟩ := scanClass_eq_ok hr hfirst
    obtain ⟨htree', hfiles', findings, hfindings, hr'⟩ := ih hr₁ h
    rw [htree] at hfindings
    rw [List.append_assoc] at hr'
    exact ⟨htree'.trans htree, hfiles'.trans hfiles, f :: findings, .cons hf hfindings, hr'⟩

theorem scan_eq (input : Path) (o : Options) (s : Session) :
    Scan.run input o s =
      (Work.ofExcept (Material.gather s.tree input o) >>= fun material =>
        instrumentFor o (host material.sources) >>= fun T =>
        material.classes.foldlM (fun r c => Scan.scanClass T (host material.sources) c r)
          ⟨material.classes.length, [], []⟩) s := rfl

theorem scan_eq_ok (h : Scan.run input o s = .ok r s') :
    s'.tree = s.tree ∧ ∃ material T findings, Material.gather s.tree input o = .ok material ∧
      instrumentOf o (answers material.sources s.tree) = .ok T ∧
      List.Forall₂ (fun c f => findingOf T (answers material.sources s.tree) c = .ok f)
        material.classes findings ∧
      r.files = findings.length ∧ Tells r findings := by
  rw [scan_eq] at h
  obtain ⟨material, T, r₁, hgather, hT, htree, h⟩ := prepared_eq_ok h
  have hnone : Tells ⟨material.classes.length, [], []⟩ [] := ⟨rfl, rfl⟩
  obtain ⟨htree', hfiles, findings, hfindings, htells⟩ := scanClasses_eq_ok hnone h
  rw [htree] at htree' hfindings
  exact ⟨htree', material, T, findings, hgather, hT, hfindings,
    hfiles.trans hfindings.length_eq, htells⟩

/-! ### What a finding says of an outcome -/

/-- What was found out about a class file is what instrumenting made of it. -/
structure Predicts (settings : Settings) (f : Finding) (r : InstrumentedFile) : Prop where
  relative : r.relative = f.relative
  name : ∀ c, f.found = some c → r.name = c.name
  unparseable : r.outcome = .unparseable → f.found = none
  skipped : f.found = none → settings.excludes r.name = none → r.outcome = .unparseable
  excluded : ∀ c, f.found = some c → (settings.excludes c.name).isSome →
    r.outcome = .excluded ∧ ∀ site ∈ c.sites, site.treatment = .excluded
  edited : ∀ c, f.found = some c → settings.excludes c.name = none →
    (∀ fault, r.outcome ≠ .failed fault) →
    r.outcome.sites = c.sites.countP (·.treatment.isTrace) ∧
      (r.outcome.isRewritten ↔ 0 < c.sites.countP (·.treatment.isTrace)) ∧
      (r.outcome = .untouched ↔ c.sites.countP (·.treatment.isTrace) = 0)

theorem verdict_of_excluded (h : (T.settings.excludes c.name).isSome) :
    verdict T source c = .excluded := by
  rw [verdict, Instrument.transform_eq]
  dsimp only
  rw [if_pos h]

theorem verdict_of_parse_error {fault : Fault} (h : T.settings.excludes c.name = none)
    (hw : Workpiece.parse c.bytes = .error fault) : verdict T source c = .unparseable := by
  rw [verdict, Instrument.transform_eq]
  dsimp only
  rw [h, hw]
  rfl

/-- As many sites are marked as get a probe. -/
theorem countP_isTrace {w : Workpiece} {decisions : List Decision}
    (h : ((T.inspect (Host.recording source) w).run .empty).1 = .ok decisions) :
    ((decisions.filter fun d => (Operation.ofName? d.site.name).isSome).map
        (ScannedSite.ofDecision w false)).countP (·.treatment.isTrace) =
      (Instrument.edits decisions).length := by
  rw [Instrument.length_edits, Instrument.probed, ← List.countP_eq_length_filter, List.countP_map,
    List.countP_filter]
  refine List.countP_congr fun d hd => ?_
  cases hprobe : d.probe with
  | none => simp [ScannedSite.ofDecision, Treatment.ofProbe, Treatment.isTrace, hprobe]
  | some probe =>
    have hname : Operation.ofName? d.site.name ≠ none := fun hname => by
      rw [T.probe_of_unwatched h hd hname] at hprobe
      cases hprobe
    have htrace : (ScannedSite.ofDecision w false d).treatment.isTrace := by
      simp only [ScannedSite.ofDecision, Treatment.ofProbe, hprobe]
      cases probe.dumpStack <;> rfl
    simp [htrace, Option.isSome_iff_ne_none, hname]

theorem outcomeOf_cases (finish : Workpiece → Except Fault Bytes) (w : Workpiece)
    (decisions : List Decision) :
    let count := (Instrument.edits decisions).length
    let outcome := Instrument.outcomeOf finish w (.ok decisions)
    (outcome = .untouched ∧ count = 0) ∨ (∃ bytes, outcome = .rewritten bytes count ∧ 0 < count) ∨
      ∃ fault, outcome = Instrument.outcomeOfFault fault := by
  unfold Instrument.outcomeOf
  dsimp only
  split
  next hempty => exact .inl ⟨rfl, List.length_eq_zero_iff.mpr (List.isEmpty_iff.mp hempty)⟩
  next hsome =>
    have hpos : 0 < (Instrument.edits decisions).length :=
      List.length_pos_iff.mpr fun hnil => hsome (List.isEmpty_iff.mpr hnil)
    split
    · exact .inr (.inr ⟨_, rfl⟩)
    · split
      · exact .inr (.inr ⟨_, rfl⟩)
      · exact .inr (.inl ⟨_, rfl, hpos⟩)

variable {dest : Option (InputClass → Path)} {sites : List ScannedSite} {listed : Bool}

theorem predicts_of_parse_error {fault : Fault} (hw : Workpiece.parse c.bytes = .error fault) :
    Predicts T.settings ⟨c.relative, none⟩ (entry dest (verdict T source) c) :=
  ⟨rfl, nofun, fun _ => rfl, fun _ hkept => verdict_of_parse_error hkept hw, nofun, nofun⟩

theorem predicts_of_excluded (h : (T.settings.excludes c.name).isSome)
    (hsites : ∀ site ∈ sites, site.treatment = .excluded) :
    Predicts T.settings ⟨c.relative, some ⟨c.name, listed, sites⟩⟩
      (entry dest (verdict T source) c) := by
  have hverdict : verdict T source c = .excluded := verdict_of_excluded h
  refine ⟨rfl, ?_, ?_, nofun, ?_, ?_⟩
  · rintro _ ⟨⟩
    rfl
  · intro hunparseable
    cases hverdict.symm.trans hunparseable
  · rintro _ ⟨⟩ _
    exact ⟨hverdict, hsites⟩
  · rintro _ ⟨⟩ hkept
    rw [hkept] at h
    cases h

/-- In a class that is not excluded, as many sites are edited as are marked. -/
theorem predicts_of_decisions {w : Workpiece} {decisions : List Decision}
    (hkept : T.settings.excludes c.name = none) (hjudged : verdict T source c ≠ .panicked)
    (hverdict : verdict T source c = Instrument.outcomeOf T.finish w (.ok decisions))
    (hcount : sites.countP (·.treatment.isTrace) = (Instrument.edits decisions).length) :
    Predicts T.settings ⟨c.relative, some ⟨c.name, listed, sites⟩⟩
      (entry dest (verdict T source) c) := by
  have hcases := outcomeOf_cases T.finish w decisions
  rw [← hverdict, ← hcount] at hcases
  -- a fault is told of, as the class was not given up
  have htold : ∀ fault, verdict T source c = Instrument.outcomeOfFault fault →
      verdict T source c = .failed fault := fun fault heq =>
    heq.trans (Instrument.outcomeOfFault_of_ne fun hoverflow =>
      hjudged (heq.trans (Instrument.outcomeOfFault_eq_panicked.mpr hoverflow)))
  refine ⟨rfl, ?_, ?_, nofun, ?_, ?_⟩
  · rintro _ ⟨⟩
    rfl
  · intro hunparseable
    rcases hcases with ⟨heq, _⟩ | ⟨_, heq, _⟩ | ⟨fault, heq⟩
    · cases heq.symm.trans hunparseable
    · cases heq.symm.trans hunparseable
    · cases (htold fault heq).symm.trans hunparseable
  · rintro _ ⟨⟩ hexcluded
    rw [hkept] at hexcluded
    cases hexcluded
  · rintro _ ⟨⟩ _ hgood
    dsimp only [entry] at hgood ⊢
    rcases hcases with ⟨heq, hzero⟩ | ⟨_, heq, hpos⟩ | ⟨fault, heq⟩
    · simp [heq, hzero, Outcome.sites, Outcome.isRewritten]
    · simp [heq, hpos, hpos.ne', Outcome.sites, Outcome.isRewritten]
    · exact absurd (htold fault heq) (hgood fault)

theorem predicts_verdict {f : Finding} (hf : findingOf T source c = .ok f)
    (hjudged : verdict T source c ≠ .panicked) :
    Predicts T.settings f (entry dest (verdict T source) c) := by
  unfold findingOf at hf
  cases hw : Workpiece.parse c.bytes with
  | error fault =>
    rw [hw] at hf
    cases hf
    exact predicts_of_parse_error hw
  | ok w =>
    rw [hw] at hf
    obtain ⟨decisions, hdecisions, rfl⟩ := map_eq_ok.mp hf
    cases hexcludes : T.settings.excludes c.name with
    | some pattern =>
      refine predicts_of_excluded (by rw [hexcludes]; rfl) fun site hsite => ?_
      obtain ⟨d, _, rfl⟩ := List.mem_map.mp hsite
      rfl
    | none =>
      have hverdict : verdict T source c = Instrument.outcomeOf T.finish w (.ok decisions) := by
        rw [← hdecisions]
        exact (T.run_transform (Host.steady_recording source) rfl hexcludes hw .empty .empty).1
      exact predicts_of_decisions hexcludes hjudged hverdict (countP_isTrace hdecisions)

/-- A class file with a call that has more parameters than there can be fresh locals for. -/
def CallsTooWide (c : InputClass) : Prop :=
  ∃ w sites, Workpiece.parse c.bytes = .ok w ∧ w.callSites = .ok sites ∧
    ∃ site ∈ sites, ∃ d, MethodDescriptor.parse site.descriptor = .ok d ∧ 65533 < d.width

/-- Nothing else makes instrumenting give a class up. -/
theorem callsTooWide_of_verdict {settings : Settings} {target : Option Target}
    (h : verdict (.new settings target) source c = .panicked) :
    settings.excludes c.name = none ∧ CallsTooWide c := by
  have hh := Host.steady_recording source
  let t := Instrument.new settings target
  obtain ⟨name, w, hname, hkept, hw⟩ := Instrument.exists_of_transform h ⟨nofun, nofun, nofun⟩
  have hpanicked := (t.run_transform hh hname hkept hw .empty .empty).1.symm.trans h
  obtain ⟨decisions, hfound, d, hd, _, descriptor, hparse, hwide⟩ :=
    (t.outcomeOf_inspect_eq_panicked_iff hh hw .empty).mp hpanicked
  rw [Instrument.run_inspect, map_eq_ok] at hfound
  obtain ⟨sites, hsites, rfl⟩ := hfound
  cases hname
  refine ⟨hkept, w, sites, hw, hsites, d.site, ?_, descriptor, hparse, hwide⟩
  rw [← t.map_site_decisions hh .empty (t.memo w.info) sites]
  exact List.mem_map_of_mem (Instrument.mem_of_mem_reached hd)

/-! ### Runs behind a scan -/

/-- What instrumenting may look at: all that is at the paths given and below them. -/
def Visible (t : Tree) (input : Path) (o : Options) (here : List String) : Prop :=
  ∃ p ∈ input :: o.classpath, ∃ root, t.resolve p = .ok root ∧ root <+: here

theorem settings_of_instrumentOf (h : instrumentOf o source = .ok T) : T.settings = o.settings := by
  obtain ⟨target, rfl⟩ := new_of_instrumentOf h
  rfl

/-- Where each class goes to a place of its own and the last tree is the first one where `V` holds,
every tree on the way is that, too. So each class is judged as on the first one. -/
theorem Goes.unchanged {dest : InputClass → Path} {classes : List InputClass}
    {files : List InstrumentedFile} {t₀ t t' : Tree} {V : List String → Prop}
    (h : Goes T sources dest classes t files t')
    (hdistinct : classes.Pairwise fun c c' => t.place (dest c) ≠ t.place (dest c'))
    (hkeeps : Tree.Keeps t₀ t) (hfirst : ∀ here, V here → t.find? here = t₀.find? here)
    (hlast : ∀ here, V here → t'.find? here = t₀.find? here)
    (hverdict : ∀ t c, Tree.Keeps t₀ t → (∀ here, V here → t.find? here = t₀.find? here) →
      verdict T (answers sources t) c = verdict T source c) :
    (∀ c ∈ classes, verdict T source c ≠ .panicked) ∧
      files = classes.map (entry (some dest) (verdict T source)) := by
  induction h with
  | done t => exact ⟨nofun, rfl⟩
  | @step c classes files t t₁ t' hjudged hstores hrest ih =>
    rw [List.pairwise_cons] at hdistinct
    have hplaces : ∀ p, t₁.place p = t.place p := fun p => Tree.place_congr hstores.current
    -- what a class is stored over is there in the end, as no later class goes there
    have hnext : ∀ here, V here → t₁.find? here = t₀.find? here := by
      intro here hhere
      cases he : t.find? here with
      | none =>
        have hnone : t'.find? here = none := by rw [hlast here hhere, ← hfirst here hhere, he]
        rw [← hfirst here hhere, he]
        -- whatever came up there would have stayed
        exact not_not.mp fun hsome => hrest.keeps.exists_of here hsome hnone
      | some e =>
        by_cases hplace : here = t.place (dest c)
        · rw [← hlast here hhere, hplace, hstores.stored]
          refine (hrest.find?_of_ne (fun c' hc' => ?_) hstores.stored).symm
          rw [hplaces]
          exact (hdistinct.1 c' hc').symm
        · rw [(hstores.same here hplace).eq_some he, ← hfirst here hhere, he]
    rw [hverdict t c hkeeps hfirst] at hjudged
    obtain ⟨hothers, hfiles⟩ := ih (by simpa only [hplaces] using hdistinct.2)
      (hkeeps.trans hstores.keeps) hnext hlast
    refine ⟨List.forall_mem_cons.mpr ⟨hjudged, hothers⟩, ?_⟩
    rw [List.map_cons, entry, entry, hverdict t c hkeeps hfirst, hfiles]

theorem relative_of_findingOf {f : Finding} (h : findingOf T source c = .ok f) :
    f.relative = c.relative := by
  unfold findingOf at h
  split at h
  · cases h
    rfl
  · obtain ⟨_, _, rfl⟩ := map_eq_ok.mp h
    rfl

/-- A directory with a class that joins a thread and a class that starts one. -/
def joinerAndStarter : Tree :=
  ⟨[(["in"], .directory), (["in", "a.class"], .file (Instrument.joiner.bytes.toOption.getD [])),
    (["in", "b.class"], .file (Workpiece.starter.bytes.toOption.getD []))], []⟩

/-- Joins are traced, but the class that starts a thread is excluded. -/
def tracingOthers : Options := { tracingByName with exclude := some "A" }

theorem load_joinerAndStarter : InputClass.load joinerAndStarter "in" =
    [["a.class"], ["b.class"]].mapM fun names => InputClass.read joinerAndStarter
      (names.foldl Path.join "in") (Segments.toText '/' names) := by
  have hroot : joinerAndStarter.resolve "in" = .ok ["in"] := by decide +kernel
  exact InputClass.load_of_pairwise (by decide +kernel) hroot (by decide +kernel)
    (by decide +kernel)

end Command

end ThreadWatch
