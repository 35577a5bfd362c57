import ThreadWatch.Proofs.Instrument.Transform
import ThreadWatch.Proofs.Types.Querying

/-!
# Decisions from summaries at hand

What is decided about a call is read off summaries alone. On a steady host these are the ones its
source has to offer, with that of the watched type and then that of the class itself in the place
of what is found under their names. Neither the memo nor the order of the calls shows.
-/

namespace ThreadWatch

variable {σ α : Type}

/-! ### Steady hosts and their sources -/

section Steady

variable {h : Host σ} {source : Host.Fixed} {lines : σ → List String}
  (hh : h.Steady source lines)

include hh

theorem Summaries.Completes.view_eq {k : Summaries} {memo : Memo}
    (hk : k.Completes (.ofSource source) memo) (s : σ) : Hierarchy.view h s memo = k.find := by
  funext name
  rw [hk name, Hierarchy.view]
  cases memo.lookup name with
  | some known => rfl
  | none =>
    exact (Hierarchy.run_summary (P := fun _ => True) (hh.load name s).1 trivial
      fun _ _ _ _ => trivial).1

/-- A question is answered from what is known and what the source has to offer. -/
theorem Asking.Reads.answer_of_completes {n : Nat} {x : Asking σ α} {r : Summaries → α}
    (hx : Reads h n x r) {k : Summaries} {memo : Memo} (hk : k.Completes (.ofSource source) memo)
    (s : σ) : (x.answer memo s).1 = r k := by
  refine hx.answer_eq fun name found hfound => ?_
  have hview := congrFun ((hx.looksUp.settled hh s).view memo) name
  rw [← hk.view_eq hh s, ← hview, Hierarchy.view, hfound]

end Steady

namespace Instrument

section Pure

variable (t : Instrument) (k : Summaries)

/-! ### What is read off the summaries -/

/-- Whether calls of methods are watched that this type declares. -/
def watches (declaring : String) : Bool :=
  match t.target with
  | some target => k.isSubtype declaring target.info.name
  | none => declaring = watchedType

def probeOn (operation : Option Operation) (resolution : Resolution) : Option Probe :=
  match operation, resolution with
  | some operation, .declared type =>
    if t.watches k type then t.probeFor operation type else none
  | _, _ => none

def decisionOn (site : CallSite) : Decision :=
  let operation := Operation.ofName? site.name
  if operation.isNone && !t.settings.flags.reportUnresolved then ⟨site, none, none⟩
  else
    let resolution := k.resolve site.owner site.name site.descriptor
    ⟨site, some resolution, t.probeOn k operation resolution⟩

/-- What is at hand for a class: the watched type, if there is a target, and over it the class
itself. -/
def summaries (source : Host.Fixed) (info : TypeInfo) : Summaries :=
  match t.target with
  | some target => ((Summaries.ofSource source).overlay target.info).overlay info
  | none => (Summaries.ofSource source).overlay info

theorem completes_memo (source : Host.Fixed) (info : TypeInfo) :
    (t.summaries source info).Completes (.ofSource source) (t.memo info) := by
  have hnil : (Summaries.ofSource source).Completes (.ofSource source) [] := fun _ => rfl
  unfold summaries memo
  cases t.target with
  | none => exact hnil.overlay info
  | some target => exact (hnil.overlay target.info).overlay info

variable {t k} {site : CallSite}

@[simp] theorem site_decisionOn : (t.decisionOn k site).site = site := by
  unfold decisionOn
  dsimp only
  split
  · rfl
  · rfl

theorem resolution_decisionOn :
    (t.decisionOn k site).resolution =
      if (Operation.ofName? site.name).isNone && !t.settings.flags.reportUnresolved then none
      else some (k.resolve site.owner site.name site.descriptor) := by
  unfold decisionOn
  rw [apply_ite Decision.resolution]

/-- Only a call by a watched name gets a probe, whether or not other calls are resolved. -/
theorem probe_decisionOn :
    (t.decisionOn k site).probe =
      t.probeOn k (Operation.ofName? site.name)
        (k.resolve site.owner site.name site.descriptor) := by
  unfold decisionOn
  dsimp only
  split
  next hskip =>
    rw [Bool.and_eq_true, Option.isNone_iff_eq_none] at hskip
    rw [hskip.1]
    rfl
  next => rfl

/-- A probe is for the type that declares the called method, and one whose calls are watched. -/
theorem probeOn_eq_some {operation : Option Operation} {resolution : Resolution} {probe : Probe} :
    t.probeOn k operation resolution = some probe ↔
      ∃ op, operation = some op ∧ resolution = .declared probe.declaring ∧
        t.watches k probe.declaring = true ∧ t.probeFor op probe.declaring = some probe := by
  have hdeclaring : ∀ {op : Operation} {type : String}, t.probeFor op type = some probe →
      probe.declaring = type := by
    intro op type hprobe
    cases op with
    | start =>
      cases hprobe
      rfl
    | join =>
      unfold probeFor at hprobe
      dsimp only at hprobe
      split at hprobe
      · cases hprobe
        rfl
      · cases hprobe
  constructor
  · intro hprobe
    unfold probeOn at hprobe
    split at hprobe
    next op type =>
      split at hprobe
      next hwatches =>
        obtain rfl := hdeclaring hprobe
        exact ⟨op, rfl, rfl, hwatches, hprobe⟩
      next => cases hprobe
    next => cases hprobe
  · rintro ⟨op, rfl, rfl, hwatches, hprobe⟩
    rw [probeOn, if_pos hwatches, hprobe]

/-- A call that gets a probe has been resolved to the type that the probe is for. -/
theorem resolution_of_probe {probe : Probe} (hprobe : (t.decisionOn k site).probe = some probe) :
    (t.decisionOn k site).resolution = some (.declared probe.declaring) := by
  rw [probe_decisionOn] at hprobe
  obtain ⟨op, hop, hdeclared, _⟩ := probeOn_eq_some.mp hprobe
  rw [resolution_decisionOn, hop, hdeclared]
  rfl

end Pure

/-! ### What is asked for it -/

section Reading

open Asking (Reads)

variable (h : Host σ) (t : Instrument)

theorem reads_isWatched (declaring : String) :
    Reads h Hierarchy.maxTypes (t.isWatched h declaring) fun k => t.watches k declaring := by
  unfold isWatched watches
  cases t.target with
  | none => exact .pure _
  | some target =>
    dsimp only
    unfold Target.isDeclaredBy
    split
    next hsame =>
      simp only [Summaries.isSubtype, if_pos hsame]
      exact .pure true
    next => exact Hierarchy.reads_isSubtype h _ _

theorem reads_probe? (operation : Option Operation) (resolution : Resolution) :
    Reads h Hierarchy.maxTypes (t.probe? h operation resolution)
      fun k => t.probeOn k operation resolution := by
  cases operation with
  | none => exact .pure none
  | some operation =>
    cases resolution with
    | unresolved cause => exact .pure none
    | declared type =>
      refine ((t.reads_isWatched h type).bind (n := 0)
        (q := fun watched _ => if watched then t.probeFor operation type else none)
        fun watched => ?_).mono (Nat.le_refl _)
      split
      · exact .pure _
      · exact .pure _

/-- A decision takes one resolution and one search for the watched type. -/
theorem reads_decide (site : CallSite) :
    Reads h (3 * Hierarchy.maxTypes) (t.decide h site) fun k => t.decisionOn k site := by
  unfold decide decisionOn
  dsimp only
  split
  · exact .pure _
  · refine ((Hierarchy.reads_resolve h _ _ _).bind fun resolution =>
      (t.reads_probe? h _ resolution).bind fun probe => .pure (n := 0) _).mono ?_
    decide

end Reading

section Classes

variable {h : Host σ} {source : Host.Fixed} {lines : σ → List String}
  (hh : h.Steady source lines)

include hh

/-- An inspection gives what is read off the summaries at hand, call by call. -/
theorem inspect_eq (t : Instrument) (w : Workpiece) (s : σ) :
    ((t.inspect h w).run s).1 =
      List.map (t.decisionOn (t.summaries source w.info)) <$> w.callSites := by
  rw [run_inspect]
  refine congrArg (· <$> w.callSites) (funext fun sites => ?_)
  rw [t.decisions_eq_map hh]
  refine List.map_congr_left fun site _ => ?_
  exact (t.reads_decide h site).answer_of_completes hh (t.completes_memo source w.info) s

/-- What holds between two decisions on each call, read off the same summaries, holds all along two
inspections. -/
theorem failAlike_inspect (t t' : Instrument) {w : Workpiece} {r : Decision → Decision → Prop}
    (hsame : t'.summaries source w.info = t.summaries source w.info)
    (hr : ∀ site, r (t.decisionOn (t.summaries source w.info) site)
      (t'.decisionOn (t.summaries source w.info) site)) (s s' : σ) :
    FailAlike (List.Forall₂ r) ((t.inspect h w).run s).1 ((t'.inspect h w).run s').1 := by
  rw [inspect_eq hh, inspect_eq hh, hsame]
  refine .map (fun sites => ?_) _
  rw [List.forall₂_map_left_iff, List.forall₂_map_right_iff, List.forall₂_same]
  exact fun site _ => hr site

end Classes

end Instrument

end ThreadWatch
