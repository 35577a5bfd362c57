import ThreadWatch.Proofs.Instrument.Decisions
import ThreadWatch.Proofs.Types.Supertypes

/-!
# What a target adds

Without a target only the calls are watched that the watched type itself declares. The target's own
summary is the one that would be found anyway, so with it all calls are resolved alike, and the
probes that it adds are for subtypes.
-/

namespace ThreadWatch

variable {σ : Type}

namespace Summaries

/-- What is found anyway makes no difference in its own place. -/
theorem overlay_eq_self {k : Summaries} {info : TypeInfo} (h : k.find info.name = some info) :
    k.overlay info = k := by
  have hfind : (k.overlay info).find = k.find := by
    funext name
    unfold overlay
    dsimp only
    split
    next hname => rw [hname, h]
    next => rfl
  cases k
  exact (Summaries.mk.injEq ..).mpr hfind

end Summaries

namespace Target

variable {h : Host σ} {source : Host.Fixed} {lines : σ → List String}
  (hh : h.Steady source lines)

include hh

/-- The target is what the source has to offer under the watched name. -/
theorem find_of_resolve {target : Target} {s : σ}
    (htarget : ((resolve h).run s).1 = .ok target) :
    target.info.name = watchedType ∧
      (Summaries.ofSource source).find watchedType = some target.info := by
  have hanswer : ofAnswer (source watchedType) = .ok target := by
    rw [← (hh.load watchedType s).1]
    exact htarget
  unfold ofAnswer at hanswer
  split at hanswer
  · cases hanswer
  · cases hanswer
  next found hfound =>
    split at hanswer
    · cases hanswer
    next info hinfo =>
      split at hanswer
      next hname =>
        cases hanswer
        refine ⟨hname, ?_⟩
        unfold Summaries.ofSource
        dsimp only
        rw [hfound]
        dsimp only
        rw [hinfo]
        exact if_pos hname
      next => cases hanswer

end Target

/-- The probe of a call that the watched type itself declares stays; only the call of a method that
a proper subtype declares may get one. -/
structure Decision.AddsSubtype (k : Summaries) (d d' : Decision) : Prop where
  site : d'.site = d.site
  resolution : d'.resolution = d.resolution
  kept : ∀ probe, d.probe = some probe ↔ d'.probe = some probe ∧ probe.declaring = watchedType
  added : ∀ probe, d.probe = none → d'.probe = some probe →
    d.resolution = some (.declared probe.declaring) ∧ probe.declaring ≠ watchedType ∧
      k.Reaches probe.declaring watchedType

namespace Instrument

section Single

variable (settings : Settings) {target : Target} {k : Summaries}
  (hname : target.info.name = watchedType)

include hname

theorem probe_decisionOn_target (site : CallSite) (probe : Probe) :
    ((new settings none).decisionOn k site).probe = some probe ↔
      ((new settings (some target)).decisionOn k site).probe = some probe ∧
        probe.declaring = watchedType := by
  rw [probe_decisionOn, probe_decisionOn, probeOn_eq_some, probeOn_eq_some]
  constructor
  · rintro ⟨op, hop, hdeclared, hwatches, hfor⟩
    have hdeclaring : probe.declaring = watchedType := of_decide_eq_true hwatches
    refine ⟨⟨op, hop, hdeclared, ?_, hfor⟩, hdeclaring⟩
    show k.isSubtype probe.declaring target.info.name = true
    rw [Summaries.isSubtype, if_pos (hdeclaring.trans hname.symm)]
  · rintro ⟨⟨op, hop, hdeclared, _, hfor⟩, hdeclaring⟩
    exact ⟨op, hop, hdeclared, decide_eq_true hdeclaring, hfor⟩

theorem reaches_of_probe {site : CallSite} {probe : Probe}
    (hprobe : ((new settings (some target)).decisionOn k site).probe = some probe) :
    k.Reaches probe.declaring watchedType := by
  rw [probe_decisionOn, probeOn_eq_some] at hprobe
  obtain ⟨op, _, _, hwatches, _⟩ := hprobe
  rw [← hname]
  exact Summaries.reaches_of_isSubtype hwatches

theorem addsSubtype_decisionOn (site : CallSite) :
    ((new settings none).decisionOn k site).AddsSubtype k
      ((new settings (some target)).decisionOn k site) where
  site := by rw [site_decisionOn, site_decisionOn]
  resolution := by
    rw [resolution_decisionOn, resolution_decisionOn]
    rfl
  kept := probe_decisionOn_target settings hname site
  added := by
    intro probe hnone hprobe
    refine ⟨?_, fun hdeclaring => ?_, reaches_of_probe settings hname hprobe⟩
    · have hresolution := resolution_of_probe hprobe
      rw [resolution_decisionOn] at hresolution ⊢
      exact hresolution
    · rw [(probe_decisionOn_target settings hname site probe).mpr ⟨hprobe, hdeclaring⟩] at hnone
      cases hnone

end Single

section Classes

variable {h : Host σ} {source : Host.Fixed} {lines : σ → List String}
  (hh : h.Steady source lines)

include hh

/-- With a target that was resolved from the same source, a class is inspected from the same
summaries as without. -/
theorem summaries_of_resolve {target : Target} {s : σ}
    (htarget : ((Target.resolve h).run s).1 = .ok target) (settings : Settings) (info : TypeInfo) :
    (new settings (some target)).summaries source info =
      (new settings none).summaries source info := by
  obtain ⟨hname, hfind⟩ := Target.find_of_resolve hh htarget
  have hsame : (Summaries.ofSource source).overlay target.info = .ofSource source :=
    Summaries.overlay_eq_self (by rw [hname, hfind])
  show ((Summaries.ofSource source).overlay target.info).overlay info = _
  rw [hsame]
  rfl

/-- Without a target calls may be missed, but nothing else changes: the resolutions are the same,
the probes are those for the watched type itself, and what gets a probe only with the target is
declared by a proper subtype, among what the source has to offer and the class itself. -/
theorem inspect_adds_subtypes {target : Target} {s₀ : σ}
    (htarget : ((Target.resolve h).run s₀).1 = .ok target) (settings : Settings) (w : Workpiece)
    (s s' : σ) :
    FailAlike
      (List.Forall₂ (Decision.AddsSubtype ((Summaries.ofSource source).overlay w.info)))
      (((new settings none).inspect h w).run s).1
      (((new settings (some target)).inspect h w).run s').1 := by
  obtain ⟨hname, _⟩ := Target.find_of_resolve hh htarget
  exact failAlike_inspect hh _ _ (summaries_of_resolve hh htarget settings w.info)
    (addsSubtype_decisionOn settings hname) s s'

end Classes

/-- All that is there is the watched type. -/
def watchedAlone : Host.Fixed := fun name =>
  if name = watchedType then joiner.bytes.map fun data => some ⟨.owned, data⟩ else .ok none

/-- A subtype that declares `join` itself; it calls the inherited method and its own. -/
def subtype : ClassFile := { joiner with
  pool := ⟨joiner.pool.slots.set! 8 (some (.utf8 (ModifiedUtf8.encode "A")))⟩
  thisClass := 9
  superClass := 3 }

theorem inspect_adds_subtypes_subtype :
    ∃ target w before after, let h := Host.recording watchedAlone
      ((Target.resolve h).run .empty).1 = .ok target ∧
        (subtype.bytes >>= Workpiece.parse) = .ok w ∧
        (((new tracing none).inspect h w).run .empty).1 = .ok before ∧
        (((new tracing (some target)).inspect h w).run .empty).1 = .ok after ∧
        (edits before).length = 1 ∧
        (edits after).map (Probe.declaring ∘ Prod.snd) = [watchedType, "A"] ∧
        List.Forall₂ (Decision.AddsSubtype ((Summaries.ofSource watchedAlone).overlay w.info))
          before after := by
  have hrun : (do
      let h := Host.recording watchedAlone
      let target ← ((Target.resolve h).run .empty).1
      let w ← subtype.bytes >>= Workpiece.parse
      let before ← (((new tracing none).inspect h w).run .empty).1
      let after ← (((new tracing (some target)).inspect h w).run .empty).1
      return ((edits before).length, (edits after).map (Probe.declaring ∘ Prod.snd))) =
        .ok (1, [watchedType, "A"]) := by
    decide +kernel
  obtain ⟨target, htarget, hrun⟩ := bind_eq_ok.mp hrun
  obtain ⟨w, hw, hrun⟩ := bind_eq_ok.mp hrun
  obtain ⟨before, hbefore, hrun⟩ := bind_eq_ok.mp hrun
  obtain ⟨after, hafter, hrun⟩ := bind_eq_ok.mp hrun
  obtain ⟨hold, hnew⟩ := Prod.mk.inj (pure_eq_ok.mp hrun)
  have hadds := inspect_adds_subtypes (Host.steady_recording watchedAlone) htarget tracing w
    .empty .empty
  rw [hbefore, hafter] at hadds
  cases hadds with
  | ok hforall =>
    exact ⟨target, w, before, after, htarget, hw, hbefore, hafter, hold, hnew, hforall⟩

end Instrument

end ThreadWatch
