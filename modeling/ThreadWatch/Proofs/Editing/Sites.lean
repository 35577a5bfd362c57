import Mathlib.Data.List.ReduceOption
import ThreadWatch.Proofs.Editing.Refusal
import ThreadWatch.Proofs.Editing.Rewriting

/-!
# The calls of a class

Every call that is listed stands where it says, no two at the same place. So each can be given one
prelude, whatever preludes the others have got.
-/

namespace ThreadWatch

/-- The method that holds the call and which of its instructions makes it. -/
def CallSite.place (s : CallSite) : Nat × Nat := (s.method, s.instruction)

theorem pairwise_zipIdx {α : Type} (xs : List α) :
    xs.zipIdx.Pairwise fun a b : α × Nat => a.2 < b.2 := by
  have h := List.pairwise_lt_range' (s := 0) (n := xs.length)
  rwa [← List.zipIdx_map_snd 0 xs, List.pairwise_map] at h

namespace Workpiece

variable {w v : Workpiece} {site other : CallSite} {probe : Probe} {pool : Pool}

/-! ### Listing -/

/-- The instruction stands where the call says and makes a call of its kind. -/
def Stands (site : CallSite) (body : Body) : Prop :=
  ∃ item, body.items[site.instruction]? = some item ∧ matchesSite site item = true

theorem siteAt_eq_ok {method index : Nat} {i : Instruction} {r : Option CallSite} :
    siteAt pool method index i = .ok r ↔
      InvokeKind.ofOpcode? i.opcode = none ∧ r = none ∨
      ∃ kind constant ref, InvokeKind.ofOpcode? i.opcode = some kind ∧
        i.constant? = some constant ∧ pool.memberRef constant = .ok ref ∧ ref.kind ≠ .field ∧
        r = some ⟨method, index, i.offset, kind, ref.owner, ref.name, ref.descriptor⟩ := by
  constructor
  · intro h
    unfold siteAt at h
    split at h
    next hkind => exact .inl ⟨hkind, (pure_eq_ok.mp h).symm⟩
    next kind hkind =>
      split at h
      · cases h
      next constant hconstant =>
        obtain ⟨ref, href, h⟩ := bind_eq_ok.mp h
        split at h
        · cases h
        next hfield =>
          exact .inr ⟨kind, constant, ref, hkind, hconstant, href, hfield, (pure_eq_ok.mp h).symm⟩
  · rintro (⟨hkind, rfl⟩ | ⟨kind, constant, ref, hkind, hconstant, href, hfield, rfl⟩)
    · rw [siteAt, hkind]
      rfl
    · rw [siteAt, hkind, hconstant]
      refine bind_eq_ok.mpr ⟨ref, href, ?_⟩
      rw [if_neg hfield]
      rfl

theorem siteAt_eq_some {method index : Nat} {i : Instruction}
    (h : siteAt pool method index i = .ok (some site)) :
    site.method = method ∧ site.instruction = index ∧ site.offset = i.offset ∧
      InvokeKind.ofOpcode? i.opcode = some site.kind := by
  obtain ⟨_, hnone⟩ | ⟨kind, _, _, hkind, _, _, _, hsite⟩ := siteAt_eq_ok.mp h
  · cases hnone
  · cases hsite
    exact ⟨rfl, rfl, rfl, hkind⟩

theorem matchesSite_of_siteAt {method index : Nat} {item : Item}
    (h : siteAt pool method index item.instruction = .ok (some site)) :
    matchesSite site item = true := by
  obtain ⟨_, _, hoffset, hkind⟩ := siteAt_eq_some h
  rw [matchesSite, hkind, hoffset]
  simp

section Method

variable {method : Nat} {body : Body} {sites : List CallSite}

theorem sitesOf_eq_ok (h : sitesOf pool method body = .ok sites) :
    ∃ found, List.Forall₂ (fun (x : Item × Nat) r => siteAt pool method x.2 x.1.instruction = .ok r)
      body.items.zipIdx found ∧ found.reduceOption = sites := by
  obtain ⟨found, hfound, rfl⟩ := map_eq_ok.mp h
  exact ⟨found, mapM_eq_ok.mp hfound, rfl⟩

/-- A call is listed if its instruction makes it. -/
theorem mem_sitesOf_iff (h : sitesOf pool method body = .ok sites) : site ∈ sites ↔
    site.method = method ∧ ∃ item, body.items[site.instruction]? = some item ∧
      siteAt pool method site.instruction item.instruction = .ok (some site) := by
  obtain ⟨found, hfound, rfl⟩ := sitesOf_eq_ok h
  rw [List.reduceOption_mem_iff]
  constructor
  · intro hsite
    obtain ⟨⟨item, index⟩, hmem, hat⟩ := exists_of_mem_right hfound hsite
    obtain ⟨hmethod, rfl, _, _⟩ := siteAt_eq_some hat
    exact ⟨hmethod, item, List.mem_zipIdx_iff_getElem?.mp hmem, hat⟩
  · rintro ⟨_, item, hitem, hat⟩
    have hmem : (item, site.instruction) ∈ body.items.zipIdx :=
      List.mem_zipIdx_iff_getElem?.mpr hitem
    obtain ⟨r, hr, hmade⟩ := exists_of_mem_left hfound hmem
    cases hat.symm.trans hmade
    exact hr

theorem stands_of_mem_sitesOf (h : sitesOf pool method body = .ok sites) (hsite : site ∈ sites) :
    site.method = method ∧ Stands site body := by
  obtain ⟨hmethod, item, hitem, hat⟩ := (mem_sitesOf_iff h).mp hsite
  exact ⟨hmethod, item, hitem, matchesSite_of_siteAt hat⟩

theorem pairwise_sitesOf (h : sitesOf pool method body = .ok sites) :
    sites.Pairwise fun a b => a.instruction < b.instruction := by
  obtain ⟨found, hfound, rfl⟩ := sitesOf_eq_ok h
  have hordered : found.Pairwise fun r r' => ∀ a, r = some a → ∀ b, r' = some b →
      a.instruction < b.instruction := by
    refine pairwise_of_forall₂ hfound (pairwise_zipIdx _) ?_
    rintro x x' _ _ hx hx' hlt a rfl b rfl
    obtain ⟨_, ha, _⟩ := siteAt_eq_some hx
    obtain ⟨_, hb, _⟩ := siteAt_eq_some hx'
    rwa [ha, hb]
  exact hordered.filterMap _ fun r r' hr a ha b hb => hr a ha b hb

end Method

/-- The calls of a method, which has none without a body. -/
def sitesIn (pool : Pool) (method : Nat) : Option Body → Except Fault (List CallSite)
  | some body => sitesOf pool method body
  | none => .ok []

theorem callSites_eq (w : Workpiece) : w.callSites =
    List.flatten <$> w.bodies.zipIdx.mapM fun x => sitesIn w.file.pool x.2 x.1 := by
  unfold callSites
  congr 2
  funext ⟨body, method⟩
  cases body <;> rfl

theorem method_of_mem_sitesIn {method : Nat} {b : Option Body} {sites : List CallSite}
    (h : sitesIn pool method b = .ok sites) (hsite : site ∈ sites) : site.method = method := by
  cases b with
  | none =>
    cases h
    cases hsite
  | some body => exact (stands_of_mem_sitesOf h hsite).1

theorem pairwise_sitesIn {method : Nat} {b : Option Body} {sites : List CallSite}
    (h : sitesIn pool method b = .ok sites) :
    sites.Pairwise fun a b => a.instruction < b.instruction := by
  cases b with
  | none =>
    cases h
    exact .nil
  | some body => exact pairwise_sitesOf h

section Class

variable {sites : List CallSite} (h : w.callSites = .ok sites)

include h

theorem callSites_eq_ok : ∃ lists, List.Forall₂ (fun (x : Option Body × Nat) list =>
    sitesIn w.file.pool x.2 x.1 = .ok list) w.bodies.zipIdx lists ∧ sites = lists.flatten := by
  rw [callSites_eq, map_eq_ok] at h
  obtain ⟨lists, hlists, rfl⟩ := h
  exact ⟨lists, mapM_eq_ok.mp hlists, rfl⟩

theorem mem_callSites_iff : site ∈ sites ↔ ∃ body item,
    w.bodies[site.method]? = some (some body) ∧ body.items[site.instruction]? = some item ∧
      siteAt w.file.pool site.method site.instruction item.instruction = .ok (some site) := by
  obtain ⟨lists, hlists, rfl⟩ := callSites_eq_ok h
  rw [List.mem_flatten]
  constructor
  · rintro ⟨list, hlist, hsite⟩
    obtain ⟨⟨b, method⟩, hmem, hmade⟩ := exists_of_mem_right hlists hlist
    cases b with
    | none =>
      cases hmade
      cases hsite
    | some body =>
      obtain ⟨rfl, item, hitem, hat⟩ := (mem_sitesOf_iff hmade).mp hsite
      exact ⟨body, item, List.mem_zipIdx_iff_getElem?.mp hmem, hitem, hat⟩
  · rintro ⟨body, item, hbody, hitem, hat⟩
    have hmem : (some body, site.method) ∈ w.bodies.zipIdx :=
      List.mem_zipIdx_iff_getElem?.mpr hbody
    obtain ⟨list, hlist, hmade⟩ := exists_of_mem_left hlists hmem
    exact ⟨list, hlist, (mem_sitesOf_iff hmade).mpr ⟨rfl, item, hitem, hat⟩⟩

theorem stands_of_mem_callSites (hsite : site ∈ sites) :
    ∃ body, w.bodies[site.method]? = some (some body) ∧ Stands site body := by
  obtain ⟨body, item, hbody, hitem, hat⟩ := (mem_callSites_iff h).mp hsite
  exact ⟨body, hbody, item, hitem, matchesSite_of_siteAt hat⟩

/-- Calls are listed method by method, and those of a method along its code. -/
theorem ordered_callSites : sites.Pairwise fun a b =>
    a.method < b.method ∨ a.method = b.method ∧ a.instruction < b.instruction := by
  obtain ⟨lists, hlists, rfl⟩ := callSites_eq_ok h
  rw [List.pairwise_flatten]
  constructor
  · intro list hlist
    obtain ⟨x, _, hmade⟩ := exists_of_mem_right hlists hlist
    refine (pairwise_sitesIn hmade).imp_of_mem fun {a b} ha hb hlt => .inr ⟨?_, hlt⟩
    rw [method_of_mem_sitesIn hmade ha, method_of_mem_sitesIn hmade hb]
  · refine pairwise_of_forall₂ hlists (pairwise_zipIdx _) ?_
    intro x x' list list' hmade hmade' hlt a ha b hb
    rw [method_of_mem_sitesIn hmade ha, method_of_mem_sitesIn hmade' hb]
    exact .inl hlt

/-- No two calls are listed for one place. -/
theorem pairwise_callSites : sites.Pairwise fun a b => a.place ≠ b.place := by
  refine (ordered_callSites h).imp fun {a b} hbefore hsame => ?_
  obtain ⟨hmethod, hinstruction⟩ := Prod.mk.inj hsame
  omega

end Class

/-! ### Other pools -/

section Kept

variable {q : Pool} {allowed : Constant → Prop} {method index : Nat}

theorem siteAt_kept (hpool : Pool.Grown allowed pool q) {i : Instruction} {r : Option CallSite}
    (hat : siteAt pool method index i = .ok r) : siteAt q method index i = .ok r := by
  rw [siteAt_eq_ok] at hat ⊢
  refine hat.imp_right ?_
  rintro ⟨kind, constant, ref, hkind, hconstant, href, hrest⟩
  exact ⟨kind, constant, ref, hkind, hconstant, hpool.memberRef href, hrest⟩

/-- The calls of a body are a matter of its instructions, inserted code being none of them. -/
theorem sitesOf_eq (pool : Pool) (method : Nat) (body : Body) :
    sitesOf pool method body = List.reduceOption <$>
      (body.items.map (·.instruction)).zipIdx.mapM fun x => siteAt pool method x.2 x.1 := by
  rw [List.zipIdx_map, List.mapM_map]
  rfl

theorem sitesOf_kept (hpool : Pool.Grown allowed pool q) {body body' : Body}
    (hinstrs : body'.items.map (·.instruction) = body.items.map (·.instruction))
    {sites : List CallSite} (hsites : sitesOf pool method body = .ok sites) :
    sitesOf q method body' = .ok sites := by
  rw [sitesOf_eq, map_eq_ok] at hsites
  obtain ⟨found, hfound, rfl⟩ := hsites
  rw [sitesOf_eq, hinstrs, map_eq_ok]
  exact ⟨found, mapM_eq_ok.mpr ((mapM_eq_ok.mp hfound).imp fun _ _ => siteAt_kept hpool), rfl⟩

/-- The calls of a class stay where its bodies have the same instructions and its pool but grows. -/
theorem callSites_kept (hpool : Pool.Grown allowed w.file.pool v.file.pool)
    (hbodies : List.Forall₂ (Option.Rel fun b b' : Body =>
      b'.items.map (·.instruction) = b.items.map (·.instruction)) w.bodies v.bodies)
    {sites : List CallSite} (hsites : w.callSites = .ok sites) : v.callSites = .ok sites := by
  rw [callSites_eq, map_eq_ok] at hsites ⊢
  obtain ⟨lists, hlists, rfl⟩ := hsites
  refine ⟨lists, mapM_eq_ok.mpr ?_, rfl⟩
  refine forall₂_of_common (forall₂_zipIdx hbodies 0) (mapM_eq_ok.mp hlists) ?_
  rintro ⟨b, method⟩ ⟨b', _⟩ list ⟨hrel, rfl⟩ hlist
  cases hrel with
  | none => exact hlist
  | some hinstrs => exact sitesOf_kept hpool hinstrs hlist

end Kept

/-! ### Editing -/

theorem editable_eq_ok {body : Body} :
    v.editable site = .ok body ↔ v.bodies[site.method]? = some (some body) ∧
      ∃ item, body.items[site.instruction]? = some item ∧ matchesSite site item = true ∧
        item.inserted = none := by
  constructor
  · intro h
    have hbody := of_editable h
    refine ⟨hbody, ?_⟩
    unfold editable at h
    rw [hbody] at h
    dsimp only at h
    split at h
    next item hitem =>
      split at h
      · cases h
      next hmatches =>
        split at h
        · cases h
        next hfresh => exact ⟨item, hitem, by simpa using hmatches, by simpa using hfresh⟩
    · cases h
  · rintro ⟨hbody, item, hitem, hmatches, hfresh⟩
    unfold editable
    rw [hbody]
    dsimp only
    rw [hitem]
    dsimp only
    rw [hmatches, hfresh]
    rfl

/-- The call can be given a prelude. -/
def Accepts (v : Workpiece) (site : CallSite) : Prop := ∃ body, v.editable site = .ok body

/-- No call of a class that was read has a prelude. -/
theorem accepts_of_parse {data : Bytes} (hw : parse data = .ok w) {sites : List CallSite}
    (hsites : w.callSites = .ok sites) (hsite : site ∈ sites) : w.Accepts site := by
  obtain ⟨body, hbody, item, hitem, hmatches⟩ := stands_of_mem_callSites hsites hsite
  obtain ⟨_, _, hbodies⟩ := parse_eq_ok.mp hw
  obtain ⟨m, _, hread⟩ := exists_of_getElem?_right hbodies hbody
  obtain ⟨_, _, _, _, hparse⟩ := bodyOf_eq_some hread
  have hfresh := (Body.of_parse hparse).2.2.2 item (List.mem_of_getElem? hitem)
  exact ⟨body, editable_eq_ok.mpr ⟨hbody, item, hitem, hmatches, hfresh⟩⟩

/-- A prelude leaves all other places open. -/
theorem Accepts.replace_ok (h : v.Accepts other) (hplace : other.place ≠ site.place)
    {next : Workpiece} (hnext : replaceCallSite site probe v = .ok () next) :
    next.Accepts other := by
  obtain ⟨found, hfound⟩ := h
  obtain ⟨hbody, item, hitem, hmatches, hfresh⟩ := editable_eq_ok.mp hfound
  obtain ⟨body, prelude, pool, heditable, _, rfl⟩ := replaceCallSite_eq_ok hnext
  have hedited := of_editable heditable
  by_cases hmethod : other.method = site.method
  · -- in the same body, but in front of another instruction
    have hother : site.instruction ≠ other.instruction := by
      intro hsame
      exact hplace (Prod.ext hmethod hsame.symm)
    rw [hmethod, hedited] at hbody
    cases hbody
    refine ⟨insert found site.instruction prelude, editable_eq_ok.mpr ⟨?_, item, ?_, hmatches,
      hfresh⟩⟩
    · dsimp only
      rw [hmethod, List.getElem?_set_self (List.getElem?_eq_some_iff.mp hedited).1]
    · simp only [insert, List.getElem?_modify, hitem, if_neg hother]
      rfl
  · refine ⟨found, editable_eq_ok.mpr ⟨?_, item, hitem, hmatches, hfresh⟩⟩
    dsimp only
    rw [List.getElem?_set_ne (Ne.symm hmethod)]
    exact hbody

/-- Where a prelude is accepted, only compiling it can fail. -/
theorem Accepts.noRepeat (h : v.Accepts site) {fault : Fault} {next : Workpiece}
    (hnext : replaceCallSite site probe v = .error fault next) : fault.isRepeat = false := by
  obtain ⟨body, hbody⟩ := h
  obtain ⟨hrefused, _⟩ | ⟨_, _, _, hcompile, _⟩ := replaceCallSite_eq_error hnext
  · cases hbody.symm.trans hrefused
  · exact Prelude.noRepeat_compile _ _ _ _ _ _ hcompile

/-- One prelude after the other, up to the first that is refused. -/
def replaceAll : List (CallSite × Probe) → EStateM Fault Workpiece Unit
  | [] => pure ()
  | (site, probe) :: rest => do
    replaceCallSite site probe
    replaceAll rest

theorem replaceAll_cons_of_ok {rest : List (CallSite × Probe)} {next : Workpiece}
    (h : replaceCallSite site probe v = .ok () next) :
    replaceAll ((site, probe) :: rest) v = replaceAll rest next := by
  simp only [replaceAll, bind, EStateM.bind, h]

theorem replaceAll_cons_of_error {rest : List (CallSite × Probe)} {fault : Fault}
    {next : Workpiece} (h : replaceCallSite site probe v = .error fault next) :
    replaceAll ((site, probe) :: rest) v = .error fault next := by
  simp only [replaceAll, bind, EStateM.bind, h]

/-- Calls at different places are never found to have a prelude already. -/
theorem noRepeat_replaceAll {edits : List (CallSite × Probe)}
    (haccepts : ∀ edit ∈ edits, v.Accepts edit.1)
    (hplaces : edits.Pairwise fun a b => a.1.place ≠ b.1.place) {fault : Fault} {next : Workpiece}
    (h : replaceAll edits v = .error fault next) : fault.isRepeat = false := by
  induction edits generalizing v with
  | nil => cases h
  | cons edit edits ih =>
    rw [List.forall_mem_cons] at haccepts
    rw [List.pairwise_cons] at hplaces
    obtain ⟨site, probe⟩ := edit
    cases hnext : replaceCallSite site probe v with
    | ok _ middle =>
      rw [replaceAll_cons_of_ok hnext] at h
      refine ih (fun other hother => ?_) hplaces.2 h
      exact (haccepts.2 other hother).replace_ok (hplaces.1 other hother).symm hnext
    | error cause middle =>
      rw [replaceAll_cons_of_error hnext] at h
      cases h
      exact haccepts.1.noRepeat hnext

end Workpiece

end ThreadWatch
