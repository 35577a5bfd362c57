import ThreadWatch.Proofs.Instrument.Decisions

/-!
# What each flag changes

Two runs on the same class, with settings that differ in one flag. To report unresolved calls
changes no outcome, although more calls are resolved then. To trace callers changes the probes in
this alone. To trace joins adds probes and takes none away.
-/

namespace ThreadWatch

variable {σ : Type}

namespace Settings

/-- With unresolved calls reported or not, all else being the same. -/
def reporting (s : Settings) (value : Bool) : Settings :=
  { s with flags := { s.flags with reportUnresolved := value } }

def tracingCallers (s : Settings) (value : Bool) : Settings :=
  { s with flags := { s.flags with traceCaller := value } }

/-- With joins traced as well. -/
def tracingJoins (s : Settings) : Settings :=
  { s with flags := { s.flags with traceJoin := true } }

end Settings

namespace Decision

/-- The decision with callers traced or not. -/
def withCaller (d : Decision) (value : Bool) : Decision :=
  { d with probe := d.probe.map fun probe => { probe with traceCaller := value } }

/-- The probe stays; only the call of a join may get one, which shows no stack. -/
structure AddsJoin (d d' : Decision) : Prop where
  site : d'.site = d.site
  resolution : d'.resolution = d.resolution
  kept : ∀ probe, d.probe = some probe → d'.probe = some probe
  added : ∀ probe, d.probe = none → d'.probe = some probe →
    d.site.name = "join" ∧ probe.operation = .join ∧ probe.dumpStack = false

end Decision

theorem Operation.name_of_ofName? {name : String} {op : Operation} (h : ofName? name = some op) :
    op.name = name := by
  simpa using List.find?_some h

namespace Instrument

/-! ### Outcomes and edits -/

theorem edits_congr {before after : List Decision}
    (h : List.Forall₂ (fun d d' => d'.site = d.site ∧ d'.probe = d.probe) before after) :
    edits after = edits before := by
  induction h with
  | nil => rfl
  | cons hd _ ih =>
    unfold edits at ih ⊢
    rw [List.filterMap_cons, List.filterMap_cons, ih, hd.1, hd.2]

theorem outcomeOf_congr {finish : Workpiece → Except Fault Bytes} {w : Workpiece}
    {found found' : Except Fault (List Decision)}
    (h : FailAlike (fun before after => edits after = edits before) found found') :
    outcomeOf finish w found' = outcomeOf finish w found := by
  cases h with
  | error fault => rfl
  | ok hedits =>
    unfold outcomeOf
    dsimp only
    rw [hedits]

section Outcomes

variable {h : Host σ} {source : Host.Fixed} {lines : σ → List String}
  (hh : h.Steady source lines)

include hh

/-- What becomes of a class is a matter of the exclusions and of the edits that are asked for. -/
theorem transform_congr (t t' : Instrument) (hfinish : t'.finish = t.finish)
    (hexcludes : ∀ name, t'.settings.excludes name = t.settings.excludes name)
    (hedits : ∀ w s s', FailAlike (fun before after => edits after = edits before)
      ((t.inspect h w).run s).1 ((t'.inspect h w).run s').1) (p : Presented) (s s' : σ) :
    ((t'.transform h p).run s').1 = ((t.transform h p).run s).1 := by
  rw [transform_eq, transform_eq]
  simp only [hexcludes]
  cases p.name with
  | none => rfl
  | some name =>
    dsimp only
    cases hw : Workpiece.parse p.bytes with
    | error fault => rfl
    | ok w =>
      dsimp only
      rw [(t.run_edit hh hw s s).1, (t'.run_edit hh hw s' s').1, outcomeOfEdit_editResult,
        outcomeOfEdit_editResult, hfinish, outcomeOf_congr (hedits w s s')]

end Outcomes

/-! ### One call -/

section Single

variable (settings : Settings) (target : Option Target) (k : Summaries) (value : Bool)

theorem probe_decisionOn_report (site : CallSite) :
    ((new (settings.reporting value) target).decisionOn k site).probe =
      ((new settings target).decisionOn k site).probe := by
  rw [probe_decisionOn, probe_decisionOn]
  rfl

theorem probeFor_caller (op : Operation) (declaring : String) :
    (new (settings.tracingCallers value) target).probeFor op declaring =
      ((new settings target).probeFor op declaring).map
        fun probe => { probe with traceCaller := value } := by
  cases op with
  | start => rfl
  | join =>
    rw [probeFor, probeFor, apply_ite (Option.map _)]
    rfl

theorem decisionOn_caller (site : CallSite) :
    (new (settings.tracingCallers value) target).decisionOn k site =
      ((new settings target).decisionOn k site).withCaller value := by
  have hprobe : ∀ operation resolution,
      (new (settings.tracingCallers value) target).probeOn k operation resolution =
        ((new settings target).probeOn k operation resolution).map
          fun probe => { probe with traceCaller := value } := by
    intro operation resolution
    rcases operation with _ | op
    · rfl
    · rcases resolution with type | cause
      · rw [probeOn, probeFor_caller, probeOn, apply_ite (Option.map _)]
        rfl
      · rfl
  unfold decisionOn
  rw [apply_ite (Decision.withCaller · value)]
  dsimp only
  rw [hprobe]
  rfl

/-- Only a join is treated otherwise if joins are traced. -/
theorem probeFor_traceJoin {op : Operation} {declaring : String} {probe : Probe}
    (h : (new settings.tracingJoins target).probeFor op declaring = some probe) :
    (new settings target).probeFor op declaring = some probe ∨
      op = .join ∧ probe.operation = .join ∧ probe.dumpStack = false := by
  cases op with
  | start => exact .inl h
  | join =>
    cases h
    exact .inr ⟨rfl, rfl, rfl⟩

theorem probeFor_of_traceJoin {op : Operation} {declaring : String} {probe : Probe}
    (h : (new settings target).probeFor op declaring = some probe) :
    (new settings.tracingJoins target).probeFor op declaring = some probe := by
  cases op with
  | start => exact h
  | join =>
    unfold probeFor at h
    dsimp only at h
    split at h
    · exact h
    · cases h

theorem addsJoin_decisionOn (site : CallSite) :
    ((new settings target).decisionOn k site).AddsJoin
      ((new settings.tracingJoins target).decisionOn k site) where
  site := by rw [site_decisionOn, site_decisionOn]
  resolution := by
    rw [resolution_decisionOn, resolution_decisionOn]
    rfl
  kept := by
    intro probe hprobe
    rw [probe_decisionOn, probeOn_eq_some] at hprobe ⊢
    obtain ⟨op, hop, hdeclared, hwatches, hfor⟩ := hprobe
    exact ⟨op, hop, hdeclared, hwatches, probeFor_of_traceJoin settings target hfor⟩
  added := by
    intro probe hnone hprobe
    rw [probe_decisionOn] at hnone hprobe
    obtain ⟨op, hop, hdeclared, hwatches, hfor⟩ := probeOn_eq_some.mp hprobe
    rcases probeFor_traceJoin settings target hfor with hold | ⟨rfl, hjoin, hstack⟩
    · have hsome : (new settings target).probeOn k (Operation.ofName? site.name)
          (k.resolve site.owner site.name site.descriptor) = some probe :=
        probeOn_eq_some.mpr ⟨op, hop, hdeclared, hwatches, hold⟩
      rw [hsome] at hnone
      cases hnone
    · rw [site_decisionOn]
      exact ⟨(Operation.name_of_ofName? hop).symm, hjoin, hstack⟩

end Single

/-! ### Whole classes -/

section Flags

variable {h : Host σ} {source : Host.Fixed} {lines : σ → List String}
  (hh : h.Steady source lines)

include hh

/-- Whether unresolved calls are reported makes no difference to what becomes of a class. Whether
callers are traced makes no difference to the decisions but this one. And if joins are traced as
well, each probe that was there stays, and only calls of joins get one in addition, which shows no
stack. -/
theorem flags_interfere_as_told (settings : Settings) (target : Option Target) (value : Bool)
    (p : Presented) (w : Workpiece) (s s' : σ) :
    let t := new settings target
    let reporting := new (settings.reporting value) target
    let calling := new (settings.tracingCallers value) target
    let joining := new settings.tracingJoins target
    ((reporting.transform h p).run s').1 = ((t.transform h p).run s).1 ∧
      ((calling.inspect h w).run s').1 =
        List.map (·.withCaller value) <$> ((t.inspect h w).run s).1 ∧
      FailAlike (List.Forall₂ Decision.AddsJoin) ((t.inspect h w).run s).1
        ((joining.inspect h w).run s').1 := by
  intro t reporting calling joining
  have hreporting : ∀ w s s', FailAlike (fun before after => edits after = edits before)
      ((t.inspect h w).run s).1 ((reporting.inspect h w).run s').1 := by
    intro w s s'
    refine (failAlike_inspect hh t reporting rfl (fun site => ?_) s s').imp fun _ _ => edits_congr
    exact ⟨by rw [site_decisionOn, site_decisionOn],
      probe_decisionOn_report settings target (t.summaries source w.info) value site⟩
  have houtcome : ((reporting.transform h p).run s').1 = ((t.transform h p).run s).1 :=
    transform_congr hh t reporting rfl (fun _ => rfl) hreporting p s s'
  refine ⟨houtcome, ?_, ?_⟩
  · rw [inspect_eq hh, inspect_eq hh, Functor.map_map]
    refine congrArg (· <$> w.callSites) (funext fun sites => ?_)
    rw [List.map_map]
    exact List.map_congr_left fun site _ =>
      decisionOn_caller settings target (t.summaries source w.info) value site
  · exact failAlike_inspect hh t joining rfl
      (addsJoin_decisionOn settings target (t.summaries source w.info)) s s'

end Flags

/-- No flag is set. -/
def flagless : Settings := .new [] .none

/-- Of the two calls that `joiner` makes, that of an array's method is reported as unresolved if it is
to be, and the join gets a probe if joins are traced. -/
theorem flags_interfere_as_told_joiner :
    ∃ data w before after, joiner.bytes = .ok data ∧ Workpiece.parse data = .ok w ∧
      let h := Host.recording nothing
      let p : Presented := ⟨some watchedType, none, data⟩
      let reporting := new (flagless.reporting true) none
      let joining := new flagless.tracingJoins none
      ((reporting.transform h p).run .empty).1 =
          (((new flagless none).transform h p).run .empty).1 ∧
        ((reporting.transform h p).run .empty).2.lines.size = 1 ∧
        (((new flagless none).inspect h w).run .empty).1 = .ok before ∧
        ((joining.inspect h w).run .empty).1 = .ok after ∧ (edits before).length = 0 ∧
        (edits after).length = 1 ∧ List.Forall₂ Decision.AddsJoin before after := by
  have hrun : (do
      let h := Host.recording nothing
      let data ← joiner.bytes
      let w ← Workpiece.parse data
      let reporting := new (flagless.reporting true) none
      let joining := new flagless.tracingJoins none
      let said := ((reporting.transform h ⟨some watchedType, none, data⟩).run .empty).2.lines.size
      let before ← (((new flagless none).inspect h w).run .empty).1
      let after ← ((joining.inspect h w).run .empty).1
      return (said, (edits before).length, (edits after).length)) = .ok (1, 0, 1) := by
    decide +kernel
  obtain ⟨data, hdata, hrun⟩ := bind_eq_ok.mp hrun
  obtain ⟨w, hw, hrun⟩ := bind_eq_ok.mp hrun
  obtain ⟨before, hbefore, hrun⟩ := bind_eq_ok.mp hrun
  obtain ⟨after, hafter, hrun⟩ := bind_eq_ok.mp hrun
  obtain ⟨hsaid, hlengths⟩ := Prod.mk.inj (pure_eq_ok.mp hrun)
  obtain ⟨hold, hnew⟩ := Prod.mk.inj hlengths
  obtain ⟨hsame, _, hadds⟩ := flags_interfere_as_told (Host.steady_recording nothing) flagless none
    true ⟨some watchedType, none, data⟩ w .empty .empty
  rw [hbefore, hafter] at hadds
  cases hadds with
  | ok hforall =>
    exact ⟨data, w, before, after, hdata, hw, hsame, hsaid, hbefore, hafter, hold, hnew, hforall⟩

end Instrument

end ThreadWatch
