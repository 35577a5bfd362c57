import ThreadWatch.Proofs.Editing.Weaving
import ThreadWatch.Proofs.Instrument.Transform
import ThreadWatch.Proofs.Types.Settled

/-!
# Preludes are not watched

A class that came out rewritten is inspected again: each call that was watched is watched as
before, at the place it was moved to, and no call of a prelude is.
-/

namespace ThreadWatch

variable {σ : Type}

namespace Instrument

/-- The decisions that ask for a prelude. -/
def probed (decisions : List Decision) : List Decision := decisions.filter (·.probe.isSome)

theorem length_edits (decisions : List Decision) :
    (edits decisions).length = (probed decisions).length := by
  induction decisions with
  | nil => rfl
  | cons d rest ih =>
    cases hprobe : d.probe with
    | none => simpa [edits, probed, hprobe] using ih
    | some probe => simpa [edits, probed, hprobe] using ih

theorem mem_edits {decisions : List Decision} {d : Decision} (h : d ∈ probed decisions) :
    ∃ probe, (d.site, probe) ∈ edits decisions := by
  obtain ⟨hd, hprobe⟩ := List.mem_filter.mp h
  obtain ⟨probe, hprobe⟩ := Option.isSome_iff_exists.mp hprobe
  exact ⟨probe, List.mem_filterMap.mpr ⟨d, hd, by rw [hprobe]; rfl⟩⟩

/-! ### Single calls -/

section Single

variable {h : Host σ} (t : Instrument) (memo : Memo) (s : σ)

/-- What becomes of a call is a matter of the method it names. -/
theorem probe_decide_congr {site moved : CallSite} (hsame : site.SameCall moved) :
    ((t.decide h moved).answer memo s).1.probe = ((t.decide h site).answer memo s).1.probe := by
  unfold decide
  rw [hsame.name, hsame.owner, hsame.descriptor]
  dsimp only
  split
  · rfl
  · rfl

theorem probe_decide_of_unwatched {site : CallSite} (hname : Operation.ofName? site.name = none) :
    ((t.decide h site).answer memo s).1.probe = none := by
  have hprobe : ∀ resolution, t.probe? h none resolution = pure none := by
    intro resolution
    cases resolution <;> rfl
  unfold decide
  rw [hname]
  dsimp only
  split
  · rfl
  · simp only [hprobe]
    rfl

end Single

/-! ### Whole classes -/

section Classes

variable {h : Host σ} {source : Host.Fixed} {lines : σ → List String}
  (hh : h.Steady source lines) (t : Instrument)

include hh

/-- The decisions about woven calls are woven, none of the added ones asking for a prelude. -/
theorem weaves_decisions {r : CallSite → CallSite → Prop} {sites sites' : List CallSite}
    (hr : ∀ site moved, r site moved → site.SameCall moved)
    (hsites : Weaves r (·.name ∈ Prelude.callees) sites sites') (memo : Memo) (s₀ s₁ : σ) :
    Weaves (fun d d' => r d.site d'.site ∧ d'.probe = d.probe) (·.probe = none)
      (t.decisions h s₀ memo sites) (t.decisions h s₁ memo sites') := by
  rw [t.decisions_eq_map hh, t.decisions_eq_map hh]
  refine hsites.map (fun site moved hmoved => ?_) fun site hname => ?_
  · rw [t.site_of_decide hh, t.site_of_decide hh, t.probe_decide_congr memo s₁ (hr _ _ hmoved)]
    exact ⟨hmoved, congrArg (fun found => found.1.probe) (t.quiet_decide hh site memo s₁ s₀).1⟩
  · exact t.probe_decide_of_unwatched memo s₁ (Prelude.ofName?_callees _ hname)

end Classes

/-- Only a class that is named, not excluded and can be parsed is worked on. -/
theorem exists_of_transform {h : Host σ} {t : Instrument} {p : Presented} {outcome : Outcome}
    {s : σ} (hdone : ((t.transform h p).run s).1 = outcome)
    (hwork : outcome ≠ .unnamed ∧ outcome ≠ .excluded ∧ outcome ≠ .unparseable) :
    ∃ name w, p.name = some name ∧ t.settings.excludes name = none ∧
      Workpiece.parse p.bytes = .ok w := by
  rw [transform_eq] at hdone
  cases hname : p.name with
  | none =>
    rw [hname] at hdone
    exact absurd hdone.symm hwork.1
  | some name =>
    rw [hname] at hdone
    dsimp only at hdone
    split at hdone
    next => exact absurd hdone.symm hwork.2.1
    next hkept =>
      cases hw : Workpiece.parse p.bytes with
      | error fault =>
        rw [hw] at hdone
        exact absurd hdone.symm hwork.2.2
      | ok w => exact ⟨name, w, rfl, by simpa using hkept, rfl⟩

theorem outcomeOf_eq_rewritten {finish : Workpiece → Except Fault Bytes} {w : Workpiece}
    {found : Except Fault (List Decision)} {out : Bytes} {n : Nat}
    (hdone : outcomeOf finish w found = .rewritten out n) :
    ∃ decisions edited, found = .ok decisions ∧
      Workpiece.replaceAll (edits decisions) w = .ok () edited ∧ finish edited = .ok out ∧
      (edits decisions).length = n := by
  unfold outcomeOf at hdone
  split at hdone
  · exact absurd hdone (outcomeOfFault_ne_rewritten _ _ _)
  next decisions =>
    split at hdone
    · cases hdone
    · split at hdone
      · exact absurd hdone (outcomeOfFault_ne_rewritten _ _ _)
      next edited hedited =>
        split at hdone
        · exact absurd hdone (outcomeOfFault_ne_rewritten _ _ _)
        next hfinished =>
          cases hdone
          exact ⟨decisions, edited, rfl, hedited, hfinished, rfl⟩

section Again

variable {h : Host σ} {source : Host.Fixed} {lines : σ → List String}
  (hh : h.Steady source lines)

include hh

/-- Inspected again, a rewritten class shows the probes that it showed before, for the same calls in
the same order, each where the call's instruction is moved to. There are as many as were counted,
and none is within a prelude. -/
theorem inspect_rewritten (settings : Settings) (target : Option Target) {p : Presented}
    {out : Bytes} {n : Nat} {s : σ}
    (hdone : (((new settings target).transform h p).run s).1 = .rewritten out n) (s₀ s₁ : σ) :
    let t := new settings target
    ∃ w edited v before after, Workpiece.parse p.bytes = .ok w ∧
      ((t.inspect h w).run s₀).1 = .ok before ∧
      Workpiece.replaceAll (edits before) w = .ok () edited ∧ edited.serialize = .ok out ∧
      Workpiece.parse out = .ok v ∧ ((t.inspect h v).run s₁).1 = .ok after ∧
      (probed after).length = n ∧
      List.Forall₂ (fun d d' => d.site.SameCall d'.site ∧ d'.probe = d.probe ∧
        ∃ l, edited.LaysOut d.site.method l ∧ l.instruction d.site.offset = .ok d'.site.offset)
        (probed before) (probed after) ∧
      ∀ d ∈ after, ∀ l, edited.LaysOut d.site.method l → ∀ place ∈ l.places,
        place.group ≤ d.site.offset → d.site.offset < place.start → d.probe = none := by
  intro t
  obtain ⟨name, w, hname, hkept, hw⟩ := exists_of_transform hdone ⟨nofun, nofun, nofun⟩
  have houtcome := (t.run_transform hh hname hkept hw s₀ s).1.symm.trans hdone
  obtain ⟨before, edited, hbefore, hedited, hout, rfl⟩ := outcomeOf_eq_rewritten houtcome
  obtain ⟨⟨touched, hleaves⟩, hinserts⟩ := Workpiece.leaves_of_replaceAll hw hedited
  have hfound := hbefore
  rw [run_inspect, map_eq_ok] at hfound
  obtain ⟨sites, hsites, rfl⟩ := hfound
  obtain ⟨v, sites', hv, hinfo, hsites', hweaves⟩ :=
    hleaves.weaves_callSites hw hinserts hout hsites
  have hafter : ((t.inspect h v).run s₁).1 =
      .ok (t.decisions h s₁ (t.memo w.info) sites') := by
    rw [run_inspect, hsites', hinfo]
    rfl
  have hwoven := t.weaves_decisions hh (fun _ _ hmoves => hmoves.1) hweaves (t.memo w.info) s₀ s₁
  generalize t.decisions h s₀ (t.memo w.info) sites = before at *
  generalize t.decisions h s₁ (t.memo w.info) sites' = after at *
  have hprobed := hwoven.forall₂_filter (p := fun d => d.probe.isSome)
    (q := fun d => d.probe.isSome) (fun d d' hd => by rw [hd.2]) fun d hd => by rw [hd]; rfl
  have hlaid : ∀ d ∈ probed before, ∃ l, edited.LaysOut d.site.method l := by
    intro d hd
    obtain ⟨_, hedit⟩ := mem_edits hd
    exact (Workpiece.isProbed_of_replaceAll hedited _ hedit).exists_laysOut hw hleaves hout
  refine ⟨w, edited, v, before, after, hw, hbefore, hedited, hout, hv, hafter, ?_, ?_, ?_⟩
  · rw [length_edits]
    exact hprobed.length_eq.symm
  · refine ((List.forall₂_and_left _ _).mpr ⟨hlaid, hprobed⟩).imp ?_
    rintro d d' ⟨⟨l, hl⟩, ⟨hsame, hmoves⟩, hprobe⟩
    exact ⟨hsame, hprobe, l, hl, hmoves l hl⟩
  · intro d hd l hl place hplace hgroup hstart
    obtain ⟨_, _, hlays⟩ := hl.lays hw hleaves
    obtain hnone | ⟨d₀, _, ⟨hsame, hmoves⟩, _⟩ := hwoven.of_mem_right hd
    · exact hnone
    · rw [hsame.method] at hl
      rcases hlays.lt_group_or_start_le (hmoves l hl) hplace with hlt | hle
      · omega
      · omega

end Again

theorem inspect_rewritten_joiner :
    ∃ data out w v before after, joiner.bytes = .ok data ∧
      (((new tracing none).transform (Host.recording nothing)
        ⟨some watchedType, none, data⟩).run .empty).1 = .rewritten out 1 ∧
      Workpiece.parse data = .ok w ∧ Workpiece.parse out = .ok v ∧
      (((new tracing none).inspect (Host.recording nothing) w).run .empty).1 = .ok before ∧
      (((new tracing none).inspect (Host.recording nothing) v).run .empty).1 = .ok after ∧
      before.length = 2 ∧ after.length = 8 ∧ (probed before).length = 1 ∧
      (probed after).length = 1 := by
  have hrun : (do
      let t := new tracing none
      let h := Host.recording nothing
      let data ← joiner.bytes
      let done := ((t.transform h ⟨some watchedType, none, data⟩).run .empty).1
      let w ← Workpiece.parse data
      let v ← Workpiece.parse (done.bytesOr data)
      let before ← ((t.inspect h w).run .empty).1
      let after ← ((t.inspect h v).run .empty).1
      return (done.sites, before.length, after.length)) = .ok (1, 2, 8) := by
    decide +kernel
  obtain ⟨data, hdata, hrun⟩ := bind_eq_ok.mp hrun
  obtain ⟨w, hw, hrun⟩ := bind_eq_ok.mp hrun
  obtain ⟨v, hv, hrun⟩ := bind_eq_ok.mp hrun
  obtain ⟨before, hbefore, hrun⟩ := bind_eq_ok.mp hrun
  obtain ⟨after, hafter, hrun⟩ := bind_eq_ok.mp hrun
  obtain ⟨hsites, hlengths⟩ := Prod.mk.inj (pure_eq_ok.mp hrun)
  obtain ⟨hold, hnew⟩ := Prod.mk.inj hlengths
  cases hdone : (((new tracing none).transform (Host.recording nothing)
      ⟨some watchedType, none, data⟩).run .empty).1 with
  | rewritten out n =>
    rw [hdone] at hsites hv
    cases hsites
    obtain ⟨w', _, v', before', after', hw', hbefore', _, _, hv', hafter', hcount, hforall, _⟩ :=
      inspect_rewritten (Host.steady_recording nothing) tracing none hdone .empty .empty
    cases hw.symm.trans hw'
    cases hv.symm.trans hv'
    cases hbefore.symm.trans hbefore'
    cases hafter.symm.trans hafter'
    exact ⟨data, out, w, v, before, after, hdata, hdone, hw, hv, hbefore, hafter, hold, hnew,
      hforall.length_eq.trans hcount, hcount⟩
  | _ =>
    rw [hdone] at hsites
    cases hsites

end Instrument

end ThreadWatch
