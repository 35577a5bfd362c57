import ThreadWatch.Proofs.Editing.Callees

/-!
# The calls of a class, whatever is edited

The list of calls leaves none out: it has every call that the code makes on an object, once, with
the method that the call's constant denotes. Edits change nothing about that, so a list that was
taken before them can still be used: each call of it is open until it is given a prelude, and then
refused.
-/

namespace ThreadWatch

/-! ### Calls in the code -/

namespace InvokeKind

def opcode : InvokeKind → UInt8
  | virtual => Opcode.invokeVirtual
  | special => Opcode.invokeSpecial
  | interface => Opcode.invokeInterface

theorem ofOpcode?_eq_some_iff {op : UInt8} {kind : InvokeKind} :
    ofOpcode? op = some kind ↔ op = kind.opcode := by
  constructor
  · intro h
    unfold ofOpcode? at h
    split at h
    next hop =>
      cases h
      exact hop
    · split at h
      next hop =>
        cases h
        exact hop
      · split at h
        next hop =>
          cases h
          exact hop
        · cases h
  · rintro rfl
    cases kind <;> rfl

end InvokeKind

namespace Instruction

/-- An instruction's constant stands behind its opcode. -/
theorem Stands.exists_eq_be16 {position : Nat} {i : Instruction} {bytes : Bytes} {constant : UInt16}
    (h : Stands position i bytes) (hconstant : i.constant? = some constant) :
    ∃ rest, bytes = i.opcode :: (be16 constant ++ rest) := by
  obtain ⟨opcode, tail, rfl, h⟩ := h
  generalize Opcode.shape opcode = shape at h
  cases h with
  | fixed =>
    simp only [constant?] at hconstant
    split at hconstant
    · split at hconstant
      next high low rest hbytes =>
        cases hconstant
        cases hbytes
        exact ⟨rest, by rw [be16_join]; rfl⟩
      · cases hconstant
    · cases hconstant
  | wide => simp [constant?] at hconstant
  | _ =>
    simp only [constant?] at hconstant
    split at hconstant <;> cases hconstant

end Instruction

namespace Workpiece

variable {w v next : Workpiece} {site other : CallSite} {probe : Probe} {data : Bytes}
  {sites : List CallSite}

/-- The call is in the code and the pool: its opcode stands at its offset, and behind it a constant
that denotes the method. -/
def Spells (w : Workpiece) (site : CallSite) : Prop :=
  ∃ body instrs i constant kind rest, w.bodies[site.method]? = some (some body) ∧
    Instruction.decode body.code.code = .ok instrs ∧ instrs[site.instruction]? = some i ∧
    i.offset = site.offset ∧
    body.code.code.drop site.offset = site.kind.opcode :: (be16 constant ++ rest) ∧
    w.file.pool.memberRef constant = .ok ⟨kind, site.owner, site.name, site.descriptor⟩ ∧
    kind ≠ .field

/-- The calls on objects that the decoded bodies make, each once, in their order. -/
structure Lists (w : Workpiece) (sites : List CallSite) : Prop where
  spelled : ∀ site ∈ sites, w.Spells site
  complete : ∀ (method index : Nat) (body : Body) (instrs : List Instruction) (i : Instruction)
    (kind : InvokeKind), w.bodies[method]? = some (some body) →
    Instruction.decode body.code.code = .ok instrs → instrs[index]? = some i →
    i.opcode = kind.opcode → ∃ site ∈ sites, site.place = (method, index)
  ordered : sites.Pairwise fun a b =>
    a.method < b.method ∨ a.method = b.method ∧ a.instruction < b.instruction

section Listing

variable (hw : parse data = .ok w) (h : w.callSites = .ok sites)

include hw h

theorem spells_of_mem_callSites (hsite : site ∈ sites) : w.Spells site := by
  obtain ⟨body, item, hbody, hitem, hat⟩ := (mem_callSites_iff h).mp hsite
  obtain ⟨_, hnone⟩ | ⟨kind, constant, ref, hkind, hconstant, href, hfield, heq⟩ :=
    siteAt_eq_ok.mp hat
  · cases hnone
  obtain ⟨hoffset, hsame, howner, hname, hdescriptor⟩ : site.offset = item.instruction.offset ∧
      site.kind = kind ∧ site.owner = ref.owner ∧ site.name = ref.name ∧
      site.descriptor = ref.descriptor := by
    rw [Option.some.inj heq]
    exact ⟨rfl, rfl, rfl, rfl, rfl⟩
  have hdecode := decode_of_parse hw hbody
  have hmem : item.instruction ∈ body.items.map (·.instruction) :=
    List.mem_map_of_mem (List.mem_of_getElem? hitem)
  obtain ⟨_, bytes, behind, hstands, hdrop⟩ :=
    (Instruction.decode_eq_ok_iff.mp hdecode).exists_drop hmem
  obtain ⟨rest, rfl⟩ := hstands.exists_eq_be16 hconstant
  refine ⟨body, _, item.instruction, constant, ref.kind, rest ++ behind, hbody, hdecode, ?_,
    hoffset.symm, ?_, ?_, hfield⟩
  · rw [List.getElem?_map, hitem]
    rfl
  · rw [hoffset, hsame, ← InvokeKind.ofOpcode?_eq_some_iff.mp hkind]
    simpa using hdrop
  · rw [howner, hname, hdescriptor]
    exact href

/-- No call on an object is left out. -/
theorem exists_mem_callSites {method index : Nat} {body : Body} {instrs : List Instruction}
    {i : Instruction} {kind : InvokeKind} (hbody : w.bodies[method]? = some (some body))
    (hinstrs : Instruction.decode body.code.code = .ok instrs) (hi : instrs[index]? = some i)
    (hopcode : i.opcode = kind.opcode) : ∃ site ∈ sites, site.place = (method, index) := by
  cases hinstrs.symm.trans (decode_of_parse hw hbody)
  rw [List.getElem?_map] at hi
  obtain ⟨item, hitem, rfl⟩ := Option.map_eq_some_iff.mp hi
  obtain ⟨lists, hlists, rfl⟩ := callSites_eq_ok h
  have hmem : (some body, method) ∈ w.bodies.zipIdx := List.mem_zipIdx_iff_getElem?.mpr hbody
  obtain ⟨list, hlist, hmade⟩ := exists_of_mem_left hlists hmem
  obtain ⟨found, hfound, rfl⟩ := sitesOf_eq_ok hmade
  have hmem' : (item, index) ∈ body.items.zipIdx := List.mem_zipIdx_iff_getElem?.mpr hitem
  obtain ⟨r, hr, hat⟩ := exists_of_mem_left hfound hmem'
  obtain ⟨hnone, _⟩ | ⟨_, _, _, _, _, _, _, rfl⟩ := siteAt_eq_ok.mp hat
  · cases hnone.symm.trans (InvokeKind.ofOpcode?_eq_some_iff.mpr hopcode)
  · exact ⟨_, List.mem_flatten.mpr ⟨_, hlist, List.reduceOption_mem_iff.mpr hr⟩, rfl⟩

theorem lists_callSites : w.Lists sites where
  spelled _ := spells_of_mem_callSites hw h
  complete _ _ _ _ _ _ := exists_mem_callSites hw h
  ordered := ordered_callSites h

end Listing

/-! ### Edits -/

/-- The calls that are given a prelude, one edit asked for after the other. -/
def accepted : Workpiece → List (CallSite × Probe) → List CallSite
  | _, [] => []
  | v, (site, probe) :: rest =>
    match replaceCallSite site probe v with
    | .ok _ next => site :: accepted next rest
    | .error _ next => accepted next rest

/-- Edits leave the calls of a class as they are. -/
theorem Leaves.callSites {touched : List Nat} (h : w.Leaves touched v)
    (hsites : w.callSites = .ok sites) : v.callSites = .ok sites := by
  refine callSites_kept h.pool (h.bodies.imp fun b b' hrel => ?_) hsites
  cases hrel with
  | none => exact .none
  | some hextends => exact .some hextends.instructions

theorem Accepts.not_isProbed (h : v.Accepts site) : ¬ v.IsProbed site := by
  rintro ⟨body, item, hbody, hitem, hinserted⟩
  obtain ⟨found, hfound⟩ := h
  obtain ⟨hbody', item', hitem', _, hfresh⟩ := editable_eq_ok.mp hfound
  cases hbody.symm.trans hbody'
  cases hitem.symm.trans hitem'
  rw [hfresh] at hinserted
  cases hinserted

/-- A prelude is refused where there is one. -/
theorem IsProbed.replaceCallSite_eq (h : v.IsProbed site) {body : Body}
    (hbody : v.bodies[site.method]? = some (some body)) (hstands : Stands site body)
    (probe : Probe) : replaceCallSite site probe v =
      .error (.notSupported (.alreadyInstrumented site.signature site.offset)) v := by
  obtain ⟨found, item, hfound, hitem, hinserted⟩ := h
  obtain ⟨item', hitem', hmatches⟩ := hstands
  cases hbody.symm.trans hfound
  cases hitem.symm.trans hitem'
  have heditable : v.editable site =
      .error (.notSupported (.alreadyInstrumented site.signature site.offset)) := by
    unfold editable
    rw [hbody]
    dsimp only
    rw [hitem]
    dsimp only
    rw [hmatches, hinserted]
    rfl
  unfold replaceCallSite
  rw [heditable]

theorem IsProbed.congr (h : v.IsProbed site) (hplace : other.place = site.place) :
    v.IsProbed other := by
  obtain ⟨hmethod, hinstruction⟩ := Prod.mk.inj hplace
  unfold IsProbed
  rw [hmethod, hinstruction]
  exact h

theorem IsProbed.replace_error (h : v.IsProbed other) {fault : Fault}
    (hnext : replaceCallSite site probe v = .error fault next) : next.IsProbed other := by
  obtain ⟨_, rfl⟩ | ⟨_, _, _, _, rfl⟩ := replaceCallSite_eq_error hnext
  · exact h
  · exact h

theorem Accepts.replace_error (h : v.Accepts other) {fault : Fault}
    (hnext : replaceCallSite site probe v = .error fault next) : next.Accepts other := by
  obtain ⟨_, rfl⟩ | ⟨_, _, _, _, rfl⟩ := replaceCallSite_eq_error hnext
  · exact h
  · exact h

section Runs

variable (edits : List (CallSite × Probe))

theorem IsProbed.editAll (h : v.IsProbed site) : (v.editAll edits).2.IsProbed site := by
  induction edits generalizing v with
  | nil => exact h
  | cons edit rest ih =>
    rw [Workpiece.editAll]
    cases hnext : Workpiece.replaceCallSite edit.1 edit.2 v with
    | ok _ next => exact ih (h.replace_ok hnext)
    | error fault next => exact ih (h.replace_error hnext)

/-- Nothing is accepted where a prelude is. -/
theorem IsProbed.place_ne (h : v.IsProbed site) :
    ∀ made ∈ v.accepted edits, made.place ≠ site.place := by
  induction edits generalizing v with
  | nil => simp [accepted]
  | cons edit rest ih =>
    rw [accepted]
    cases hnext : Workpiece.replaceCallSite edit.1 edit.2 v with
    | ok _ next =>
      obtain ⟨body, _, _, hbody, _⟩ := replaceCallSite_eq_ok hnext
      rw [List.forall_mem_cons]
      exact ⟨fun hplace => Accepts.not_isProbed ⟨body, hbody⟩ (h.congr hplace),
        ih (h.replace_ok hnext)⟩
    | error fault next => exact ih (h.replace_error hnext)

/-- No place is given two preludes. -/
theorem pairwise_accepted (v : Workpiece) :
    (v.accepted edits).Pairwise fun a b => a.place ≠ b.place := by
  induction edits generalizing v with
  | nil => exact .nil
  | cons edit rest ih =>
    rw [accepted]
    cases hnext : replaceCallSite edit.1 edit.2 v with
    | ok _ next =>
      refine .cons (fun made hmade => ?_) (ih next)
      exact ((isProbed_of_replace_ok hnext).place_ne rest made hmade).symm
    | error fault next => exact ih next

/-- What was accepted has its prelude in the end. -/
theorem isProbed_of_mem_accepted (hsite : site ∈ v.accepted edits) :
    (v.editAll edits).2.IsProbed site := by
  induction edits generalizing v with
  | nil => cases hsite
  | cons edit rest ih =>
    rw [accepted] at hsite
    rw [Workpiece.editAll]
    cases hnext : replaceCallSite edit.1 edit.2 v with
    | ok _ next =>
      rw [hnext] at hsite
      rcases List.mem_cons.mp hsite with rfl | hsite
      · exact (isProbed_of_replace_ok hnext).editAll rest
      · exact ih hsite
    | error fault next =>
      rw [hnext] at hsite
      exact ih hsite

/-- A place stays open as long as nothing is accepted there. -/
theorem Accepts.editAll (h : v.Accepts site)
    (hplace : ∀ made ∈ v.accepted edits, made.place ≠ site.place) :
    (v.editAll edits).2.Accepts site := by
  induction edits generalizing v with
  | nil => exact h
  | cons edit rest ih =>
    rw [accepted] at hplace
    rw [Workpiece.editAll]
    cases hnext : Workpiece.replaceCallSite edit.1 edit.2 v with
    | ok _ next =>
      rw [hnext, List.forall_mem_cons] at hplace
      exact ih (h.replace_ok hplace.1.symm hnext) hplace.2
    | error fault next =>
      rw [hnext] at hplace
      exact ih (h.replace_error hnext) hplace

end Runs

/-- What an edit finds of listed calls when preludes have been put in front of some calls. -/
structure Keeps (v : Workpiece) (sites made : List CallSite) : Prop where
  callSites : v.callSites = .ok sites
  /-- No call was given two preludes. -/
  once : made.Pairwise fun a b => a.place ≠ b.place
  stands : ∀ site ∈ sites, ∃ body, v.bodies[site.method]? = some (some body) ∧ Stands site body
  /-- A call without a prelude can be given one, -/
  fresh : ∀ site ∈ sites, (∀ other ∈ made, other.place ≠ site.place) → v.Accepts site
  /-- and a call that has one is refused. -/
  taken : ∀ site ∈ sites, ∀ other ∈ made, other.place = site.place → ∀ probe,
    replaceCallSite site probe v =
      .error (.notSupported (.alreadyInstrumented site.signature site.offset)) v

/-- All calls are listed, and whatever is edited, the list stays and can be worked through. -/
theorem callSites_complete_and_kept (hw : parse data = .ok w) (hsites : w.callSites = .ok sites) :
    w.Lists sites ∧
      ∀ edits, (w.editAll edits).2.Keeps sites (w.accepted edits) := by
  refine ⟨lists_callSites hw hsites, fun edits => ?_⟩
  have hkept := ((leaves_of_parse hw).editAll edits).callSites hsites
  have hstands := fun (site : CallSite) (hsite : site ∈ sites) =>
    stands_of_mem_callSites hkept hsite
  refine ⟨hkept, pairwise_accepted edits w, hstands, fun site hsite hplace => ?_, ?_⟩
  · exact (accepts_of_parse hw hsites hsite).editAll edits hplace
  · intro site hsite other hother hplace probe
    obtain ⟨body, hbody, hat⟩ := hstands site hsite
    have hprobed := (isProbed_of_mem_accepted edits hother).congr hplace.symm
    exact hprobed.replaceCallSite_eq hbody hat probe

theorem callSites_complete_and_kept_repeated :
    ∃ data w, starter.bytes = .ok data ∧ parse data = .ok w ∧ w.callSites = .ok [startCall] ∧
      w.Lists [startCall] ∧ w.accepted startTwice = [startCall] ∧
      (w.editAll startTwice).2.Keeps [startCall] [startCall] := by
  have hrun : (do
      let data ← starter.bytes
      let w ← parse data
      return (← w.callSites, w.accepted startTwice)) = .ok ([startCall], [startCall]) := by
    decide +kernel
  obtain ⟨data, hdata, hrun⟩ := bind_eq_ok.mp hrun
  obtain ⟨w, hw, hrun⟩ := bind_eq_ok.mp hrun
  obtain ⟨sites, hsites, hrun⟩ := bind_eq_ok.mp hrun
  obtain ⟨rfl, haccepted⟩ := Prod.mk.inj (pure_eq_ok.mp hrun)
  obtain ⟨hlists, hkept⟩ := callSites_complete_and_kept hw hsites
  exact ⟨data, w, hdata, hw, hsites, hlists, haccepted, haccepted ▸ hkept startTwice⟩

end Workpiece

end ThreadWatch
