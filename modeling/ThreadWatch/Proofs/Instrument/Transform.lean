import ThreadWatch.Proofs.Editing.Leftovers
import ThreadWatch.Proofs.Editing.Locals
import ThreadWatch.Proofs.Types.Settled

/-!
# Instrumenting does what inspecting tells

Deciding, reporting and editing take turns over the calls of a class. On a steady host the
decisions are those of an inspection all the same, and the class comes out as if they had been made
first and the preludes put in afterwards.
-/

namespace ThreadWatch

variable {σ : Type}

namespace Workpiece

variable {w v : Workpiece} {touched : List Nat}

theorem info_of_replace_ok {site : CallSite} {probe : Probe} {next : Workpiece}
    (h : replaceCallSite site probe v = .ok () next) : next.info = v.info := by
  obtain ⟨_, _, _, _, _, rfl⟩ := replaceCallSite_eq_ok h
  rfl

/-- Edits do not change what messages call a method. -/
theorem enclosingMethod_eq {data : Bytes} (hw : parse data = .ok w) (h : w.Leaves touched v)
    (hinfo : v.info = w.info) (site : CallSite) :
    v.enclosingMethod site = w.enclosingMethod site := by
  obtain ⟨_, hsummary, _⟩ := parse_eq_ok.mp hw
  obtain ⟨keys, hkeys, _⟩ := bind_eq_ok.mp hsummary
  have hmethods : v.file.methods = w.file.methods := by rw [h.file]
  unfold enclosingMethod
  dsimp only
  rw [hinfo, hmethods]
  cases hm : w.file.methods[site.method]? with
  | none => rfl
  | some m =>
    obtain ⟨key, _, hkey⟩ := exists_of_getElem?_left (mapM_eq_ok.mp hkeys) hm
    obtain ⟨name, hname, hkey⟩ := bind_eq_ok.mp hkey
    obtain ⟨descriptor, hdescriptor, _⟩ := bind_eq_ok.mp hkey
    have hname' : v.file.memberName m = .ok name := h.pool.utf8 hname
    have hdescriptor' : v.file.memberDescriptor m = .ok descriptor := h.pool.utf8 hdescriptor
    simp only [Option.bind_some, hname, hname', hdescriptor, hdescriptor']

end Workpiece

/-- A prelude is wanted for a call that has more parameters than there can be fresh locals for. -/
def Decision.IsTooWide (d : Decision) : Prop :=
  d.probe.isSome = true ∧
    ∃ descriptor, MethodDescriptor.parse d.site.descriptor = .ok descriptor ∧
      65533 < descriptor.width

namespace Instrument

/-! ### What is expected -/

/-- The preludes that decisions ask for. -/
def edits (decisions : List Decision) : List (CallSite × Probe) :=
  decisions.filterMap fun d => d.probe.map fun probe => (d.site, probe)

/-- What becomes of a class when this goes wrong with it. -/
def outcomeOfFault : Fault → Outcome
  | .overflow => .panicked
  | fault => .failed fault

/-- What becomes of a class when these decisions are carried out, `finish` making it bytes. -/
def outcomeOf (finish : Workpiece → Except Fault Bytes) (w : Workpiece) :
    Except Fault (List Decision) → Outcome
  | .error fault => outcomeOfFault fault
  | .ok decisions =>
    if (edits decisions).isEmpty then .untouched
    else
      match Workpiece.replaceAll (edits decisions) w with
      | .error fault _ => outcomeOfFault fault
      | .ok _ edited =>
        match finish edited with
        | .error fault => outcomeOfFault fault
        | .ok bytes => .rewritten bytes (edits decisions).length

theorem outcomeOfFault_of_ne {fault : Fault} (h : fault ≠ .overflow) :
    outcomeOfFault fault = .failed fault := by
  cases fault with
  | overflow => exact absurd rfl h
  | _ => rfl

theorem outcomeOfFault_eq_failed {cause fault : Fault} (h : outcomeOfFault cause = .failed fault) :
    cause = fault := by
  by_cases hoverflow : cause = .overflow
  · rw [hoverflow] at h
    cases h
  · rw [outcomeOfFault_of_ne hoverflow] at h
    exact Outcome.failed.inj h

theorem outcomeOfFault_ne_rewritten (cause : Fault) (bytes : Bytes) (sites : Nat) :
    outcomeOfFault cause ≠ .rewritten bytes sites := by
  cases cause <;> exact nofun

theorem outcomeOfFault_eq_panicked {cause : Fault} :
    outcomeOfFault cause = .panicked ↔ cause = .overflow := by
  constructor
  · intro h
    by_contra hoverflow
    rw [outcomeOfFault_of_ne hoverflow] at h
    cases h
  · rintro rfl
    rfl

/-- The decisions that are come to, the last of them that whose prelude is refused. -/
def reached : Workpiece → List Decision → List Decision
  | _, [] => []
  | w, d :: rest =>
    d :: match d.probe with
      | none => reached w rest
      | some probe =>
        match w.replaceCallSite d.site probe with
        | .error _ _ => []
        | .ok _ next => reached next rest

theorem mem_of_mem_reached {w : Workpiece} {decisions : List Decision} {d : Decision}
    (h : d ∈ reached w decisions) : d ∈ decisions := by
  induction decisions generalizing w with
  | nil => cases h
  | cons first rest ih =>
    unfold reached at h
    rcases List.mem_cons.mp h with rfl | hrest
    · exact List.mem_cons_self ..
    · refine List.mem_cons_of_mem _ ?_
      split at hrest
      · exact ih hrest
      · split at hrest
        · cases hrest
        · exact ih hrest

/-- What is said of a call that could not be resolved. -/
def reportOf (t : Instrument) (w : Workpiece) (d : Decision) : Option String :=
  match d.resolution with
  | some (.unresolved cause) =>
    if t.settings.flags.reportUnresolved then
      some ("Could not find method '" ++ d.site.signature ++ "' called from " ++
        w.enclosingMethod d.site ++ ": " ++ cause.message)
    else none
  | _ => none

def reports (t : Instrument) (w : Workpiece) : Except Fault (List Decision) → List String
  | .error _ => []
  | .ok decisions => (reached w decisions).filterMap (t.reportOf w)

/-- What is said of a class that failed. -/
def complaints (name : String) (p : Presented) : Outcome → List String
  | .failed fault =>
    ["Could not instrument " ++ name ++ "/" ++ p.display.getD "null" ++ ", exception: " ++
      fault.message]
  | _ => []

/-! ### Decisions -/

section Decisions

variable {h : Host σ} {source : Host.Fixed} {lines : σ → List String}
  (hh : h.Steady source lines) (t : Instrument)

include hh

theorem quiet_decide (site : CallSite) : Asking.Quiet lines (t.decide h site) :=
  (t.looksUp_decide site).quiet hh

theorem site_of_decide (site : CallSite) (memo : Memo) (s : σ) :
    ((t.decide h site).answer memo s).1.site = site := by
  unfold decide
  dsimp only
  split
  · rfl
  · rw [Asking.answer_bind fun resolution =>
      ((t.looksUp_probe? _ _).quiet hh).bind fun probe => .pure _, Asking.answer_bind_pure]

/-- The decisions about a list of calls, asked from state `s` on. -/
def decisions (t : Instrument) (h : Host σ) (s : σ) (memo : Memo) (sites : List CallSite) :
    List Decision :=
  ((sites.mapM (t.decide h)).answer memo s).1

theorem decisions_cons (s : σ) (memo : Memo) (site : CallSite) (rest : List CallSite) :
    t.decisions h s memo (site :: rest) =
      ((t.decide h site).answer memo s).1 ::
        t.decisions h s ((t.decide h site).answer memo s).2 rest := by
  unfold decisions
  rw [List.mapM_cons,
    Asking.answer_bind fun d => ((Asking.LooksUp.mapM t.looksUp_decide rest).quiet hh).bind
      fun _ => .pure _,
    Asking.answer_bind_pure]

/-- The calls of a class are decided on one by one, as it were. -/
theorem decisions_eq_map (s : σ) (memo : Memo) (sites : List CallSite) :
    t.decisions h s memo sites = sites.map fun site => ((t.decide h site).answer memo s).1 :=
  Asking.answer_mapM hh s t.looksUp_decide memo sites

theorem map_site_decisions (s : σ) (memo : Memo) (sites : List CallSite) :
    (t.decisions h s memo sites).map (·.site) = sites := by
  rw [t.decisions_eq_map hh, List.map_map]
  exact (List.map_congr_left fun site _ => t.site_of_decide hh site memo s).trans (List.map_id _)

end Decisions

/-! ### The loop over the calls -/

section Loop

variable {h : Host σ} {source : Host.Fixed} {lines : σ → List String}
  (hh : h.Steady source lines) (t : Instrument)

/-- One decision, its report, and what is left to do. -/
theorem run_editSites_cons {site : CallSite} {rest : List CallSite} {v : Workpiece} {n : Nat}
    {memo memo' : Memo} {d : Decision} {s s₁ s₂ : σ}
    (hdecide : ((t.decide h site).run memo).run s = ((d, memo'), s₁))
    (hreport : (t.report h v d).run s₁ = ((), s₂)) :
    ((t.editSites h (site :: rest) v n).run memo).run s =
      match d.probe with
      | none => ((t.editSites h rest v n).run memo').run s₂
      | some probe =>
        match Workpiece.replaceCallSite d.site probe v with
        | .error fault _ => ((.error fault, memo'), s₂)
        | .ok () next => ((t.editSites h rest next (n + 1)).run memo').run s₂ := by
  rw [editSites, Asking.run_bind, hdecide]
  dsimp only
  rw [Asking.run_lift_bind, hreport]
  cases d.probe with
  | none => rfl
  | some probe =>
    dsimp only
    cases Workpiece.replaceCallSite d.site probe v with
    | error fault next => rfl
    | ok _ next => rfl

theorem report_eq (v : Workpiece) (d : Decision) :
    t.report h v d = match t.reportOf v d with
      | some text => h.line text
      | none => pure () := by
  unfold report reportOf
  cases d.resolution with
  | none => rfl
  | some resolution =>
    cases resolution with
    | declared type => rfl
    | unresolved cause =>
      dsimp only
      split
      · rfl
      · rfl

include hh in
theorem lines_report (v : Workpiece) (d : Decision) (s : σ) :
    lines ((t.report h v d).run s).2 = lines s ++ ((t.reportOf v d).map marked).toList := by
  rw [report_eq]
  cases t.reportOf v d with
  | none => exact (List.append_nil _).symm
  | some text => exact hh.print _ s

theorem reportOf_congr {w v : Workpiece}
    (hsame : ∀ site, v.enclosingMethod site = w.enclosingMethod site) (d : Decision) :
    t.reportOf v d = t.reportOf w d := by
  unfold reportOf
  simp only [hsame]

/-- What the loop gives, for the decisions that are made in it. -/
def loopResult (w : Workpiece) (n : Nat) (decisions : List Decision) :
    Except Fault (Workpiece × Nat) :=
  match Workpiece.replaceAll (edits decisions) w with
  | .error fault _ => .error fault
  | .ok _ edited => .ok (edited, n + (edits decisions).length)

section Carrying

variable {v next : Workpiece} {d : Decision} {probe : Probe} {fault : Fault} (n : Nat)
  (rest : List Decision)

theorem loopResult_cons_of_none (hprobe : d.probe = none) :
    loopResult v n (d :: rest) = loopResult v n rest := by
  unfold loopResult
  rw [show edits (d :: rest) = edits rest by simp [edits, hprobe]]

theorem loopResult_cons_of_ok (hprobe : d.probe = some probe)
    (hnext : Workpiece.replaceCallSite d.site probe v = .ok () next) :
    loopResult v n (d :: rest) = loopResult next (n + 1) rest := by
  have hedits : edits (d :: rest) = (d.site, probe) :: edits rest := by simp [edits, hprobe]
  unfold loopResult
  rw [hedits, Workpiece.replaceAll_cons_of_ok hnext, List.length_cons]
  cases Workpiece.replaceAll (edits rest) next with
  | error cause last => rfl
  | ok _ last =>
    dsimp only
    rw [Nat.add_assoc, Nat.add_comm 1]

theorem loopResult_cons_of_error (hprobe : d.probe = some probe)
    (hnext : Workpiece.replaceCallSite d.site probe v = .error fault next) :
    loopResult v n (d :: rest) = .error fault := by
  have hedits : edits (d :: rest) = (d.site, probe) :: edits rest := by simp [edits, hprobe]
  unfold loopResult
  rw [hedits, Workpiece.replaceAll_cons_of_error hnext]

theorem map_marked_filterMap_cons (f : Decision → Option String) :
    ((d :: rest).filterMap f).map marked =
      ((f d).map marked).toList ++ (rest.filterMap f).map marked := by
  cases hd : f d <;> simp [hd]

end Carrying

include hh in
/-- The loop makes the decisions of an inspection, and edits and reports as far as they are come
to. -/
theorem run_editSites {data : Bytes} {w : Workpiece} (hw : Workpiece.parse data = .ok w)
    (s₀ : σ) (sites : List CallSite) {touched : List Nat} {v : Workpiece}
    (hleaves : w.Leaves touched v) (hinfo : v.info = w.info) (n : Nat) (memo : Memo) (s : σ) :
    (((t.editSites h sites v n).run memo).run s).1.1 =
        loopResult v n (t.decisions h s₀ memo sites) ∧
      lines (((t.editSites h sites v n).run memo).run s).2 =
        lines s ++
          ((reached v (t.decisions h s₀ memo sites)).filterMap (t.reportOf w)).map marked := by
  induction sites generalizing v touched n memo s with
  | nil => exact ⟨rfl, (List.append_nil _).symm⟩
  | cons site rest ih =>
    obtain ⟨hsame, hquiet⟩ := t.quiet_decide hh site memo s s₀
    have hsaid := t.lines_report hh v
    rw [t.decisions_cons hh]
    unfold Asking.answer
    rw [← hsame]
    rcases hdecide : ((t.decide h site).run memo).run s with ⟨⟨d, memo'⟩, s₁⟩
    rcases hreport : (t.report h v d).run s₁ with ⟨_, s₂⟩
    have hlines₂ := hsaid d s₁
    rw [hdecide] at hquiet
    rw [hreport, t.reportOf_congr (Workpiece.enclosingMethod_eq hw hleaves hinfo), hquiet] at hlines₂
    rw [t.run_editSites_cons hdecide hreport]
    dsimp only at hlines₂ ⊢
    cases hprobe : d.probe with
    | none =>
      obtain ⟨hvalue, hlines⟩ := ih hleaves hinfo n memo' s₂
      dsimp only
      rw [hvalue, hlines, hlines₂, loopResult_cons_of_none n _ hprobe]
      simp only [reached, hprobe, map_marked_filterMap_cons, List.append_assoc, true_and]
    | some probe =>
      dsimp only
      cases hnext : Workpiece.replaceCallSite d.site probe v with
      | error fault last =>
        dsimp only
        rw [hlines₂, loopResult_cons_of_error n _ hprobe hnext]
        simp only [reached, hprobe, hnext, map_marked_filterMap_cons, List.filterMap_nil,
          List.map_nil, List.append_nil, true_and]
      | ok _ next =>
        obtain ⟨hvalue, hlines⟩ := ih (hleaves.replace_ok hnext)
          ((Workpiece.info_of_replace_ok hnext).trans hinfo) (n + 1) memo' s₂
        dsimp only
        rw [hvalue, hlines, hlines₂, loopResult_cons_of_ok n _ hprobe hnext]
        simp only [reached, hprobe, hnext, map_marked_filterMap_cons, List.append_assoc, true_and]

/-! ### Whole classes -/

/-- What editing gives for a class with these decisions. -/
def editResult (finish : Workpiece → Except Fault Bytes) (w : Workpiece) :
    Except Fault (List Decision) → Except Fault (Option (Bytes × Nat))
  | .error fault => .error fault
  | .ok decisions =>
    match loopResult w 0 decisions with
    | .error fault => .error fault
    | .ok (_, 0) => .ok none
    | .ok (edited, n) => (finish edited).map fun bytes => some (bytes, n)

theorem run_inspect (w : Workpiece) (s : σ) :
    ((t.inspect h w).run s).1 = (t.decisions h s (t.memo w.info)) <$> w.callSites := by
  unfold inspect
  cases w.callSites with
  | error fault => rfl
  | ok sites => rfl

include hh in
theorem run_edit {data : Bytes} {w : Workpiece} (hw : Workpiece.parse data = .ok w) (s₀ s : σ) :
    ((t.edit h w).run s).1 = editResult t.finish w ((t.inspect h w).run s₀).1 ∧
      lines ((t.edit h w).run s).2 =
        lines s ++ (t.reports w ((t.inspect h w).run s₀).1).map marked := by
  rw [run_inspect]
  unfold edit
  cases w.callSites with
  | error fault => exact ⟨rfl, (List.append_nil _).symm⟩
  | ok sites =>
    obtain ⟨hvalue, hlines⟩ := t.run_editSites hh hw s₀ sites (Workpiece.leaves_of_parse hw) rfl 0
      (t.memo w.info) s
    change _ = editResult t.finish w (.ok _) ∧ _ = _ ++ List.map _ (t.reports w (.ok _))
    dsimp only
    rw [Asking.run_run'_bind, hvalue]
    unfold editResult
    dsimp only
    cases loopResult w 0 (t.decisions h s₀ (t.memo w.info) sites) with
    | error fault => exact ⟨rfl, hlines⟩
    | ok result =>
      obtain ⟨edited, _ | n⟩ := result
      · exact ⟨rfl, hlines⟩
      · exact ⟨rfl, hlines⟩

/-- What editing gave, as an outcome. -/
def outcomeOfEdit : Except Fault (Option (Bytes × Nat)) → Outcome
  | .ok none => .untouched
  | .ok (some (bytes, sites)) => .rewritten bytes sites
  | .error fault => outcomeOfFault fault

theorem outcomeOfEdit_editResult (finish : Workpiece → Except Fault Bytes) (w : Workpiece)
    (found : Except Fault (List Decision)) :
    outcomeOfEdit (editResult finish w found) = outcomeOf finish w found := by
  cases found with
  | error fault => rfl
  | ok decisions =>
    unfold editResult outcomeOf loopResult
    dsimp only
    cases hedits : edits decisions with
    | nil => rfl
    | cons edit rest =>
      rw [List.isEmpty_cons, if_neg Bool.false_ne_true, List.length_cons, Nat.zero_add]
      cases Workpiece.replaceAll (edit :: rest) w with
      | error fault last => rfl
      | ok _ edited =>
        show outcomeOfEdit ((finish edited).map fun bytes => some (bytes, rest.length + 1)) =
          match finish edited with
          | .error fault => outcomeOfFault fault
          | .ok bytes => .rewritten bytes (rest.length + 1)
        cases finish edited with
        | error fault => rfl
        | ok bytes => rfl

/-- What becomes of a class that is presented: whatever is said of it, it is edited just if it is
named, not excluded and can be parsed. -/
theorem transform_eq (p : Presented) (s : σ) :
    ((t.transform h p).run s).1 =
      match p.name with
      | none => .unnamed
      | some name =>
        if (t.settings.excludes name).isSome then .excluded
        else
          match Workpiece.parse p.bytes with
          | .error _ => .unparseable
          | .ok w => outcomeOfEdit ((t.edit h w).run s).1 := by
  unfold transform
  cases p.name with
  | none => rfl
  | some name =>
    dsimp only
    split
    · rfl
    · cases Workpiece.parse p.bytes with
      | error fault => rfl
      | ok w =>
        dsimp only
        rw [StateT.run_bind]
        rcases (t.edit h w).run s with ⟨fault | _ | _, s₁⟩
        · cases fault <;> rfl
        · rfl
        · rfl

include hh in
/-- Of a class that is named, not excluded and can be parsed, all that can happen is the outcome of
the edits and a complaint if that is a failure. -/
theorem run_transform {p : Presented} {name : String} {w : Workpiece} (hname : p.name = some name)
    (hkept : t.settings.excludes name = none) (hw : Workpiece.parse p.bytes = .ok w) (s₀ s : σ) :
    ((t.transform h p).run s).1 = outcomeOf t.finish w ((t.inspect h w).run s₀).1 ∧
      lines ((t.transform h p).run s).2 =
        lines s ++ (t.reports w ((t.inspect h w).run s₀).1 ++
          complaints name p (outcomeOf t.finish w ((t.inspect h w).run s₀).1)).map marked := by
  obtain ⟨hvalue, hlines⟩ := t.run_edit hh hw s₀ s
  rw [← outcomeOfEdit_editResult, ← hvalue]
  unfold transform
  simp only [hname, hkept, Option.isSome_none, Bool.false_eq_true, if_false, hw]
  rw [List.map_append, ← List.append_assoc, ← hlines, StateT.run_bind]
  rcases (t.edit h w).run s with ⟨result, s₁⟩
  cases result with
  | error fault =>
    cases fault with
    | overflow => exact ⟨rfl, (List.append_nil _).symm⟩
    | _ => exact ⟨rfl, hh.print _ s₁⟩
  | ok result =>
    cases result with
    | none => exact ⟨rfl, (List.append_nil _).symm⟩
    | some result => exact ⟨rfl, (hh.note _ _ s₁).trans (List.append_nil _).symm⟩

end Loop

/-! ### Edits that are asked for -/

section Edits

variable {data : Bytes} {w : Workpiece} {sites : List CallSite} {decisions : List Decision}

theorem accepts_of_mem_edits (hw : Workpiece.parse data = .ok w) (hsites : w.callSites = .ok sites)
    (hmap : decisions.map (·.site) = sites) : ∀ edit ∈ edits decisions, w.Accepts edit.1 := by
  intro edit hedit
  obtain ⟨d, hd, hprobe⟩ := List.mem_filterMap.mp hedit
  obtain ⟨_, _, rfl⟩ := Option.map_eq_some_iff.mp hprobe
  exact Workpiece.accepts_of_parse hw hsites (hmap ▸ List.mem_map_of_mem hd)

theorem pairwise_edits (h : (decisions.map (·.site)).Pairwise fun a b => a.place ≠ b.place) :
    (edits decisions).Pairwise fun a b => a.1.place ≠ b.1.place := by
  rw [List.pairwise_map] at h
  refine h.filterMap _ fun d d' hne edit hedit edit' hedit' => ?_
  obtain ⟨_, _, rfl⟩ := Option.map_eq_some_iff.mp hedit
  obtain ⟨_, _, rfl⟩ := Option.map_eq_some_iff.mp hedit'
  exact hne

/-- Edits of calls that were found, each once, are not refused as repeated, nor is the result. -/
theorem noRepeat_outcomeOf_decisions (hw : Workpiece.parse data = .ok w)
    (hsites : w.callSites = .ok sites) (hmap : decisions.map (·.site) = sites) {fault : Fault}
    (hfailed : outcomeOf Workpiece.serialize w (.ok decisions) = .failed fault) :
    fault.isRepeat = false := by
  have haccepts := accepts_of_mem_edits hw hsites hmap
  have hplaces := pairwise_edits (hmap ▸ Workpiece.pairwise_callSites hsites)
  unfold outcomeOf at hfailed
  dsimp only at hfailed
  split at hfailed
  · cases hfailed
  · split at hfailed
    next hreplaced =>
      cases outcomeOfFault_eq_failed hfailed
      exact Workpiece.noRepeat_replaceAll haccepts hplaces hreplaced
    next edited _ =>
      split at hfailed
      next hfinished =>
        cases outcomeOfFault_eq_failed hfailed
        exact edited.noPreludes_serialize.noRepeat _ hfinished
      next => cases hfailed

/-- Where a prelude is accepted, it is refused by an overflow if the call is too wide, and put in
only if it is not. -/
theorem overflows_iff {v : Workpiece} (hp : v.file.pool.IsIndexed) {d : Decision} {probe : Probe}
    (hprobe : d.probe = some probe) (haccepts : v.Accepts d.site) :
    d.IsTooWide ↔ ∃ next, Workpiece.replaceCallSite d.site probe v = .error .overflow next := by
  obtain ⟨body, hbody⟩ := haccepts
  have hoverflow : (∃ q, Prelude.compile probe d.site.descriptor body.code.maxLocals v.file.pool =
      .error .overflow q) ↔ _ := Prelude.compile_eq_overflow_iff hp
  rw [Decision.IsTooWide, hprobe, ← hoverflow]
  constructor
  · rintro ⟨_, q, hq⟩
    refine ⟨{ v with file := { v.file with pool := q } }, ?_⟩
    unfold Workpiece.replaceCallSite
    rw [hbody]
    dsimp only
    rw [hq]
  · rintro ⟨next, hnext⟩
    obtain ⟨hrefused, _⟩ | ⟨_, q, hfound, hq, _⟩ := Workpiece.replaceCallSite_eq_error hnext
    · cases hbody.symm.trans hrefused
    · cases hbody.symm.trans hfound
      exact ⟨rfl, q, hq⟩

/-- Edits of calls that were found, each once, overflow if they come to one that is too wide. -/
theorem replaceAll_eq_overflow_iff {v : Workpiece} {touched : List Nat}
    (hleaves : w.Leaves touched v) (haccepts : ∀ edit ∈ edits decisions, v.Accepts edit.1)
    (hplaces : (edits decisions).Pairwise fun a b => a.1.place ≠ b.1.place) :
    (∃ next, Workpiece.replaceAll (edits decisions) v = .error .overflow next) ↔
      ∃ d ∈ reached v decisions, d.IsTooWide := by
  induction decisions generalizing v touched with
  | nil =>
    constructor
    · rintro ⟨_, h⟩
      cases h
    · rintro ⟨d, hd, _⟩
      cases hd
  | cons d rest ih =>
    cases hprobe : d.probe with
    | none =>
      have hnarrow : ¬ d.IsTooWide := by
        rintro ⟨hsome, _⟩
        rw [hprobe] at hsome
        cases hsome
      have hedits : edits (d :: rest) = edits rest := by simp [edits, hprobe]
      rw [hedits] at haccepts hplaces ⊢
      rw [ih hleaves haccepts hplaces]
      simp [reached, hprobe, hnarrow]
    | some probe =>
      have hedits : edits (d :: rest) = (d.site, probe) :: edits rest := by simp [edits, hprobe]
      rw [hedits] at haccepts hplaces ⊢
      rw [List.forall_mem_cons] at haccepts
      rw [List.pairwise_cons] at hplaces
      have hover := overflows_iff hleaves.pool.indexed hprobe haccepts.1
      cases hnext : Workpiece.replaceCallSite d.site probe v with
      | error fault next =>
        rw [Workpiece.replaceAll_cons_of_error hnext]
        rw [hnext] at hover
        simp [reached, hprobe, hnext, hover]
      | ok _ next =>
        rw [Workpiece.replaceAll_cons_of_ok hnext, ih (hleaves.replace_ok hnext) ?_ hplaces.2]
        · rw [hnext] at hover
          simp [reached, hprobe, hnext, hover]
        · intro other hother
          exact (haccepts.2 other hother).replace_ok (hplaces.1 other hother).symm hnext

/-- A class is given up if such a call is come to, and for nothing else. -/
theorem outcomeOf_eq_panicked_iff (hw : Workpiece.parse data = .ok w)
    (hsites : w.callSites = .ok sites) (hmap : decisions.map (·.site) = sites) :
    outcomeOf Workpiece.serialize w (.ok decisions) = .panicked ↔
      ∃ d ∈ reached w decisions, d.IsTooWide := by
  have haccepts := accepts_of_mem_edits hw hsites hmap
  have hplaces := pairwise_edits (hmap ▸ Workpiece.pairwise_callSites hsites)
  rw [← replaceAll_eq_overflow_iff (Workpiece.leaves_of_parse hw) haccepts hplaces]
  unfold outcomeOf
  dsimp only
  cases hedits : edits decisions with
  | nil => simp [Workpiece.replaceAll, pure, EStateM.pure]
  | cons edit rest =>
    rw [List.isEmpty_cons, if_neg Bool.false_ne_true]
    cases Workpiece.replaceAll (edit :: rest) w with
    | error fault next =>
      rw [outcomeOfFault_eq_panicked]
      simp
    | ok _ edited =>
      cases hfinished : edited.serialize with
      | error fault =>
        have hne := Fault.ne_overflow_of_isOfPreludes (edited.noPreludes_serialize fault hfinished)
        simp [outcomeOfFault_eq_panicked, hne, hfinished]
      | ok bytes => simp [hfinished]

end Edits

section Agreement

variable {h : Host σ} {source : Host.Fixed} {lines : σ → List String}
  (hh : h.Steady source lines)

include hh in
/-- No outcome is that a call has its prelude already. -/
theorem noRepeat_outcomeOf (t : Instrument) {data : Bytes} {w : Workpiece}
    (hw : Workpiece.parse data = .ok w) (s₀ : σ) {fault : Fault}
    (hfailed : outcomeOf Workpiece.serialize w ((t.inspect h w).run s₀).1 = .failed fault) :
    fault.isRepeat = false := by
  rw [run_inspect] at hfailed
  cases hsites : w.callSites with
  | error cause =>
    rw [hsites] at hfailed
    cases outcomeOfFault_eq_failed hfailed
    exact (w.supported_callSites.noPreludes).noRepeat _ hsites
  | ok sites =>
    rw [hsites] at hfailed
    exact noRepeat_outcomeOf_decisions hw hsites (t.map_site_decisions hh s₀ _ sites) hfailed

include hh in
/-- A class is given up if a call that is too wide is come to, and for nothing else. -/
theorem outcomeOf_inspect_eq_panicked_iff (t : Instrument) {data : Bytes} {w : Workpiece}
    (hw : Workpiece.parse data = .ok w) (s₀ : σ) :
    outcomeOf Workpiece.serialize w ((t.inspect h w).run s₀).1 = .panicked ↔
      ∃ decisions, ((t.inspect h w).run s₀).1 = .ok decisions ∧
        ∃ d ∈ reached w decisions, d.IsTooWide := by
  rw [run_inspect]
  cases hsites : w.callSites with
  | error cause =>
    have hne := Fault.ne_overflow_of_isOfPreludes (w.supported_callSites.noPreludes cause hsites)
    constructor
    · intro h
      exact absurd (outcomeOfFault_eq_panicked.mp h) hne
    · rintro ⟨_, hfound, _⟩
      cases hfound
  | ok sites =>
    have hiff := outcomeOf_eq_panicked_iff hw hsites
      (t.map_site_decisions hh s₀ (t.memo w.info) sites)
    constructor
    · intro h
      exact ⟨_, rfl, hiff.mp h⟩
    · rintro ⟨_, hfound, hwide⟩
      cases hfound
      exact hiff.mpr hwide

include hh in
/-- Instrumenting a class that is named, not excluded and can be parsed comes to what an inspection
tells, all of it or nothing; and all that is printed is what could not be resolved, as far as it was
come to, and the complaint about a failure. The class is given up without a word just if a prelude
is come to whose locals cannot be counted. -/
theorem transform_agrees (settings : Settings) (target : Option Target) {p : Presented}
    {name : String} {w : Workpiece} (hname : p.name = some name)
    (hkept : settings.excludes name = none) (hw : Workpiece.parse p.bytes = .ok w) (s₀ s : σ) :
    let t := new settings target
    let found := ((t.inspect h w).run s₀).1
    let done := (t.transform h p).run s
    done.1 = outcomeOf Workpiece.serialize w found ∧
      (done.1 = .panicked ↔ ∃ decisions, found = .ok decisions ∧
        ∃ d ∈ reached w decisions, d.IsTooWide) ∧
      (∀ signature position,
        done.1 ≠ .failed (.notSupported (.alreadyInstrumented signature position))) ∧
      (done.1.isRewritten = false → done.1.bytesOr p.bytes = p.bytes) ∧
      lines done.2 = lines s ++ (t.reports w found ++ complaints name p done.1).map marked := by
  intro t found done
  obtain ⟨hvalue, hlines⟩ := t.run_transform hh hname hkept hw s₀ s
  refine ⟨hvalue, ?_, fun signature position hfailed => ?_, fun hkind => ?_, ?_⟩
  · have hiff := t.outcomeOf_inspect_eq_panicked_iff hh hw s₀
    rwa [← show done.1 = outcomeOf Workpiece.serialize w found from hvalue] at hiff
  · have hnot := t.noRepeat_outcomeOf hh hw s₀ (hvalue.symm.trans hfailed)
    cases hnot
  · cases hdone : done.1 with
    | rewritten bytes sites =>
      rw [hdone] at hkind
      cases hkind
    | _ => rfl
  · rw [hlines, ← hvalue]

/-- The watched type, with a method that joins a thread and calls a method of an array. -/
def joiner : ClassFile := { Workpiece.starter with
  pool := ⟨#[none, some (.utf8 (ModifiedUtf8.encode "Code")),
    some (.utf8 (ModifiedUtf8.encode watchedType)), some (.type 2),
    some (.utf8 (ModifiedUtf8.encode "join")), some (.utf8 (ModifiedUtf8.encode "()V")),
    some (.nameAndType 4 5), some (.member .method 3 6),
    some (.utf8 (ModifiedUtf8.encode "[I")), some (.type 8), some (.member .method 9 6)]⟩
  thisClass := 3
  methods := [⟨9, 4, 5, [⟨1, [0, 1, 0, 0, 0, 0, 0, 9, 0x01, 0xB6, 0, 7, 0x01, 0xB6, 0, 10, 0xB1,
    0, 0, 0, 0]⟩]⟩] }

/-- Joins are traced, and what cannot be resolved is reported. -/
def tracing : Settings := .new [] ⟨true, true, false⟩

def nothing : Host.Fixed := fun _ => .ok none

theorem transform_agrees_joiner :
    ∃ data w, joiner.bytes = .ok data ∧ Workpiece.parse data = .ok w ∧
      let p : Presented := ⟨some watchedType, none, data⟩
      let t := new tracing none
      let h := Host.recording nothing
      let found := ((t.inspect h w).run .empty).1
      let done := (t.transform h p).run .empty
      tracing.excludes watchedType = none ∧ done.1 = outcomeOf Workpiece.serialize w found ∧
        done.1.sites = 1 ∧
        done.2.lines.toList = (t.reports w found ++ complaints watchedType p done.1).map marked ∧
        done.2.lines.size = 1 := by
  have hrun : (do
      let data ← joiner.bytes
      let _ ← Workpiece.parse data
      let done := ((new tracing none).transform (Host.recording nothing)
        ⟨some watchedType, none, data⟩).run .empty
      return (done.1.sites, done.2.lines.size)) = .ok (1, 1) := by
    decide +kernel
  obtain ⟨data, hdata, hrun⟩ := bind_eq_ok.mp hrun
  obtain ⟨w, hw, hrun⟩ := bind_eq_ok.mp hrun
  obtain ⟨hsites, hsize⟩ := Prod.mk.inj (pure_eq_ok.mp hrun)
  have hname : (Presented.mk (some watchedType) none data).name = some watchedType := rfl
  obtain ⟨houtcome, _, _, _, hlines⟩ := transform_agrees (Host.steady_recording nothing) tracing
    none hname rfl hw .empty .empty
  exact ⟨data, w, hdata, hw, rfl, houtcome, hsites, hlines, hsize⟩

/-! ### A call that is too wide -/

/-- `starter`, with a call of a method that its constants do not name yet. -/
def caller : ClassFile := { Workpiece.starter with
  methods := [⟨9, 6, 7, [⟨3, [0, 1, 0, 0, 0, 0, 0, 5, 0x01, 0xB6, 0, 12, 0xB1, 0, 0, 0, 0]⟩]⟩] }

/-- The pool of `caller`, and behind it a method `start` of this descriptor. -/
def calling (descriptor : String) : Pool :=
  let added : List (Option Constant) := [some (.utf8 (ModifiedUtf8.encode descriptor)),
    some (.nameAndType 6 10), some (.member .method 5 11)]
  ⟨(caller.pool.slots.toList ++ added).toArray⟩

def call (descriptor : String) : CallSite := ⟨0, 1, 1, .virtual, watchedType, "start", descriptor⟩

/-- The watched type, with nothing but that method. -/
def declaring (descriptor : String) : Target :=
  ⟨⟨watchedType, none, [], false, [⟨"start", descriptor⟩]⟩⟩

section Wide

variable {descriptor : String}

theorem grown_calling (hunsought : (Constant.utf8 (ModifiedUtf8.encode descriptor)).IsUnsought)
    (hlength : (ModifiedUtf8.encode descriptor).length < 65536) :
    Pool.Grown (fun c => c.IsUnsought ∧ c.IsWritable) caller.pool (calling descriptor) where
  indexed := by
    show 13 ≤ 65535
    decide
  slots := by
    refine ⟨[.utf8 (ModifiedUtf8.encode descriptor), .nameAndType 6 10, .member .method 5 11],
      ?_, rfl⟩
    simp only [List.forall_mem_cons, List.not_mem_nil, false_implies, implies_true, and_true]
    exact ⟨⟨hunsought, Constant.isWritable_utf8 hlength⟩,
      ⟨fun _ _ => nofun, Constant.isWritable_of_ne_utf8 fun _ => nofun⟩,
      ⟨fun _ _ => nofun, Constant.isWritable_of_ne_utf8 fun _ => nofun⟩⟩

theorem memberRef_calling :
    (calling descriptor).memberRef 12 = .ok ⟨.method, watchedType, "start", descriptor⟩ := by
  have htext (index : UInt16) (text : String)
      (h : (calling descriptor).get index = .ok (.utf8 (ModifiedUtf8.encode text))) :
      (calling descriptor).utf8 index = .ok text :=
    Pool.utf8_eq_ok.mpr ⟨_, Pool.utf8Bytes_eq_ok.mpr h, ModifiedUtf8.decode_encode text⟩
  refine Pool.memberRef_eq_ok.mpr ⟨5, 11, rfl, Pool.nameAndType_eq_ok.mpr ⟨6, 10, rfl, ?_, ?_⟩,
    Pool.typeName_eq_ok.mpr ⟨4, rfl, ?_⟩⟩
  · exact htext 6 "start" rfl
  · exact htext 10 descriptor rfl
  · exact htext 4 watchedType rfl

/-- The instructions of `caller`. -/
def callerCode : List Instruction :=
  [⟨0, 0x01, false, .fixed []⟩, ⟨1, 0xB6, false, .fixed [0, 12]⟩, ⟨4, 0xB1, false, .fixed []⟩]

theorem callSites_calling {w : Workpiece} {body : Body} (hbodies : w.bodies = [some body])
    (hitems : body.items.map (·.instruction) = callerCode) :
    (w.withPool (calling descriptor)).callSites = .ok [call descriptor] := by
  have hcall : Workpiece.siteAt (calling descriptor) 0 1 ⟨1, 0xB6, false, .fixed [0, 12]⟩ =
      .ok (some (call descriptor)) :=
    Workpiece.siteAt_eq_ok.mpr (.inr ⟨.virtual, 12, _, rfl, rfl, memberRef_calling, nofun, rfl⟩)
  have hsites : callerCode.zipIdx.mapM (fun x =>
      Workpiece.siteAt (calling descriptor) 0 x.2 x.1) = .ok [none, some (call descriptor), none] :=
    mapM_eq_ok.mpr (.cons rfl (.cons hcall (.cons rfl .nil)))
  have hmethod : Workpiece.sitesOf (calling descriptor) 0 body = .ok [call descriptor] := by
    rw [Workpiece.sitesOf_eq, hitems, hsites]
    rfl
  have hmethods : [some body].zipIdx.mapM (fun x =>
      Workpiece.sitesIn (calling descriptor) x.2 x.1) = .ok [[call descriptor]] :=
    mapM_eq_ok.mpr (.cons hmethod .nil)
  have hsame : (w.withPool (calling descriptor)).bodies = [some body] := hbodies
  rw [Workpiece.callSites_eq, hsame]
  exact congrArg _ hmethods

/-- The call is found to be one of the watched type, and a prelude is wanted for it. -/
theorem decide_call (settings : Settings) (h : Host σ) (info : TypeInfo) (hinfo : info.name = "A")
    (s : σ) :
    let t := new settings (some (declaring descriptor))
    ((t.decide h (call descriptor)).answer (t.memo info) s).1 =
      ⟨call descriptor, some (.declared watchedType),
        some ⟨.start, watchedType, settings.flags.traceCaller, true⟩⟩ := by
  intro t
  have hknown : (t.memo info).lookup watchedType = some (some (declaring descriptor).info) := by
    show List.lookup watchedType [(info.name, some info), (watchedType, _)] = _
    rw [hinfo]
    rfl
  have hdeclares : (declaring descriptor).info.declares "start" descriptor = true := by
    simp [TypeInfo.declares, declaring]
  have hresolve := Hierarchy.answer_resolve_of_known h s (t.memo info) hknown (by decide) hdeclares
  show (((Hierarchy.resolve h watchedType "start" descriptor) >>= fun resolution =>
    t.probe? h (some .start) resolution >>= fun probe =>
      pure ⟨call descriptor, some resolution, probe⟩ : Asking σ Decision).answer _ s).1 = _
  rw [Asking.answer_bind_run, hresolve]
  rfl

/-- Where that call is too wide, the class is given up in silence. -/
theorem transform_caller {d : MethodDescriptor} (hd : MethodDescriptor.parse descriptor = .ok d)
    (hwide : 65533 < d.width)
    (hunsought : (Constant.utf8 (ModifiedUtf8.encode descriptor)).IsUnsought)
    (hlength : (ModifiedUtf8.encode descriptor).length < 65536) :
    ∃ data w, Workpiece.parse data = .ok w ∧
      let t := new tracing (some (declaring descriptor))
      let h := Host.recording nothing
      let done := (t.transform h ⟨some "A", none, data⟩).run .empty
      ((t.inspect h w).run .empty).1 = .ok [⟨call descriptor, some (.declared watchedType),
        some ⟨.start, watchedType, false, true⟩⟩] ∧
      done.1 = .panicked ∧ done.2.lines = #[] := by
  have hrun : (do
      let data ← caller.bytes
      let w ← Workpiece.parse data
      return (w.file.pool, w.info.name, w.bodies.map (Option.map fun b : Body =>
        b.items.map fun item : Item => item.instruction))) =
      .ok (caller.pool, "A", [some callerCode]) := by
    decide +kernel
  obtain ⟨_, _, hrun⟩ := bind_eq_ok.mp hrun
  obtain ⟨w, hw, hrun⟩ := bind_eq_ok.mp hrun
  obtain ⟨hpool, hrest⟩ := Prod.mk.inj (pure_eq_ok.mp hrun)
  obtain ⟨hname, hbodies⟩ := Prod.mk.inj hrest
  obtain ⟨_, hbodies, hsome⟩ := List.map_eq_singleton_iff.mp hbodies
  obtain ⟨body, rfl, hitems⟩ := Option.map_eq_some_iff.mp hsome
  have hgrown := grown_calling hunsought hlength
  rw [← hpool] at hgrown
  obtain ⟨data, hdata⟩ := Workpiece.exists_parse_withPool hw hgrown
  let v := w.withPool (calling descriptor)
  let t := new tracing (some (declaring descriptor))
  have hh := Host.steady_recording nothing
  let wanted : Decision := ⟨call descriptor, some (.declared watchedType),
    some ⟨.start, watchedType, false, true⟩⟩
  have hfound : ((t.inspect (Host.recording nothing) v).run .empty).1 = .ok [wanted] := by
    rw [run_inspect, callSites_calling hbodies hitems]
    show Except.ok (t.decisions _ _ (t.memo w.info) [call descriptor]) = _
    rw [t.decisions_eq_map hh, List.map_singleton, decide_call tracing _ w.info hname]
    rfl
  have hgivenUp : outcomeOf Workpiece.serialize v (.ok [wanted]) = .panicked := by
    rw [← hfound, t.outcomeOf_inspect_eq_panicked_iff hh hdata]
    exact ⟨_, hfound, wanted, List.mem_cons_self .., rfl, d, hd, hwide⟩
  have hreports : t.reports v (.ok [wanted]) = [] := by
    have hreached : reached v [wanted] = [wanted] := by
      unfold reached
      dsimp only [wanted]
      split <;> rfl
    rw [reports, hreached]
    rfl
  obtain ⟨hdone, hlines⟩ := t.run_transform hh (p := ⟨some "A", none, data⟩) rfl rfl hdata
    .empty .empty
  rw [hfound] at hdone hlines
  have hgiven : outcomeOf t.finish v (.ok [wanted]) = .panicked := hgivenUp
  rw [hreports, hgiven] at hlines
  exact ⟨data, v, hdata, hfound, hdone.trans hgiven, Array.toList_inj.mp hlines⟩

end Wide

theorem encode_longsText (n : Nat) : ModifiedUtf8.encode (Prelude.longsText n) =
    0x28 :: (List.replicate n 0x4A ++ [0x29, 0x56]) := by
  have hlong : (Units.ofChar 'J').flatMap ModifiedUtf8.encodeUnit = [0x4A] := rfl
  rw [ModifiedUtf8.encode, Prelude.longsText, String.toList_ofList, List.flatMap_cons,
    List.flatMap_append, List.flatMap_replicate, hlong, List.flatten_replicate_singleton]
  rfl

theorem isUnsought_longsText (n : Nat) :
    (Constant.utf8 (ModifiedUtf8.encode (Prelude.longsText n))).IsUnsought := by
  intro name hname hsame
  rw [encode_longsText] at hsame
  have hheads : ∀ name ∈ Prelude.soughtNames, name.toUTF8.toList.head? ≠ some 0x28 := by
    decide +kernel
  apply hheads name hname
  rw [← Constant.utf8.inj hsame]
  rfl

/-- A class that calls a method with 65534 parameter slots: no outcome is told and nothing is
printed, though a prelude is wanted and cannot be made. -/
theorem transform_caller_longs :
    ∃ data w, Workpiece.parse data = .ok w ∧
      let t := new tracing (some (declaring (Prelude.longsText 32767)))
      let h := Host.recording nothing
      let done := (t.transform h ⟨some "A", none, data⟩).run .empty
      tracing.excludes "A" = none ∧
      ((t.inspect h w).run .empty).1 =
        .ok [⟨call (Prelude.longsText 32767), some (.declared watchedType),
          some ⟨.start, watchedType, false, true⟩⟩] ∧
      done.1 = .panicked ∧ (∀ fault, done.1 ≠ .failed fault) ∧ done.2.lines = #[] := by
  have hlength : (ModifiedUtf8.encode (Prelude.longsText 32767)).length < 65536 := by
    rw [encode_longsText, List.length_cons, List.length_append, List.length_replicate]
    decide
  have hwide : 65533 < (Prelude.longs 32767).width := by
    rw [Prelude.width_longs]
    decide
  obtain ⟨data, w, hw, hfound, hdone, hlines⟩ :=
    transform_caller (Prelude.parse_longsText 32767) hwide (isUnsought_longsText 32767) hlength
  refine ⟨data, w, hw, rfl, hfound, hdone, fun fault hfailed => ?_, hlines⟩
  cases hdone.symm.trans hfailed

end Agreement

end Instrument

end ThreadWatch
