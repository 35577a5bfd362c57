import ThreadWatch.Proofs.Editing.Callees

/-!
# The calls of an edited class

The calls of a class that was written after edits are the calls it had, in their order, each at the
place its instruction was moved to. What stands between them are the calls of preludes.
-/

namespace ThreadWatch

variable {α β α' β' : Type}

/-! ### Woven lists -/

/-- The second list is the first, each element moved, with added elements anywhere between. -/
inductive Weaves (moved : α → β → Prop) (added : β → Prop) : List α → List β → Prop
  | nil : Weaves moved added [] []
  | moved {x : α} {y : β} {xs : List α} {ys : List β} : moved x y → Weaves moved added xs ys →
    Weaves moved added (x :: xs) (y :: ys)
  | added {y : β} {xs : List α} {ys : List β} : added y → Weaves moved added xs ys →
    Weaves moved added xs (y :: ys)

namespace Weaves

variable {r : α → β → Prop} {s : β → Prop} {xs xs' : List α} {ys ys' : List β}

theorem append (h : Weaves r s xs ys) (h' : Weaves r s xs' ys') :
    Weaves r s (xs ++ xs') (ys ++ ys') := by
  induction h with
  | nil => exact h'
  | moved hxy _ ih => exact .moved hxy ih
  | added hy _ ih => exact .added hy ih

theorem all_added (h : ∀ y ∈ ys, s y) : Weaves r s [] ys := by
  induction ys with
  | nil => exact .nil
  | cons y ys ih =>
    rw [List.forall_mem_cons] at h
    exact .added h.1 (ih h.2)

theorem all_moved {r : α → α → Prop} {s : α → Prop} (h : ∀ x ∈ xs, r x x) : Weaves r s xs xs := by
  induction xs with
  | nil => exact .nil
  | cons x xs ih =>
    rw [List.forall_mem_cons] at h
    exact .moved h.1 (ih h.2)

theorem flatten {lists : List (List α)} {lists' : List (List β)}
    (h : List.Forall₂ (Weaves r s) lists lists') : Weaves r s lists.flatten lists'.flatten := by
  induction h with
  | nil => exact .nil
  | cons hxy _ ih => exact hxy.append ih

theorem imp {r' : α → β → Prop} (h : Weaves r s xs ys) (himp : ∀ x ∈ xs, ∀ y, r x y → r' x y) :
    Weaves r' s xs ys := by
  induction h with
  | nil => exact .nil
  | moved hxy _ ih =>
    rw [List.forall_mem_cons] at himp
    exact .moved (himp.1 _ hxy) (ih himp.2)
  | added hy _ ih => exact .added hy (ih himp)

theorem map {r' : α' → β' → Prop} {s' : β' → Prop} (h : Weaves r s xs ys) {f : α → α'} {g : β → β'}
    (hmoved : ∀ x y, r x y → r' (f x) (g y)) (hadded : ∀ y, s y → s' (g y)) :
    Weaves r' s' (xs.map f) (ys.map g) := by
  induction h with
  | nil => exact .nil
  | moved hxy _ ih => exact .moved (hmoved _ _ hxy) ih
  | added hy _ ih => exact .added (hadded _ hy) ih

theorem of_mem_right (h : Weaves r s xs ys) {y : β} (hy : y ∈ ys) :
    s y ∨ ∃ x ∈ xs, r x y := by
  induction h with
  | nil => simp at hy
  | moved hxy _ ih =>
    rcases List.mem_cons.mp hy with rfl | hy
    · exact .inr ⟨_, List.mem_cons_self .., hxy⟩
    · exact (ih hy).imp_right fun ⟨x, hx, hxy⟩ => ⟨x, List.mem_cons_of_mem _ hx, hxy⟩
  | added hs _ ih =>
    rcases List.mem_cons.mp hy with rfl | hy
    · exact .inl hs
    · exact ih hy

/-- What marks no added element, and a moved one where it marked the old, marks as many in the
same order. -/
theorem forall₂_filter (h : Weaves r s xs ys) {p : α → Bool} {q : β → Bool}
    (hmoved : ∀ x y, r x y → q y = p x) (hadded : ∀ y, s y → q y = false) :
    List.Forall₂ r (xs.filter p) (ys.filter q) := by
  induction h with
  | nil => exact .nil
  | @moved x y _ _ hxy _ ih =>
    rw [List.filter_cons, List.filter_cons, hmoved _ _ hxy]
    split
    · exact .cons hxy ih
    · exact ih
  | @added y _ _ hy _ ih =>
    rw [List.filter_cons, hadded _ hy]
    exact ih

end Weaves

/-! ### One method -/

/-- The same call of the same method, wherever it stands. -/
structure CallSite.SameCall (a b : CallSite) : Prop where
  method : b.method = a.method
  kind : b.kind = a.kind
  owner : b.owner = a.owner
  name : b.name = a.name
  descriptor : b.descriptor = a.descriptor

theorem CallSite.SameCall.refl (a : CallSite) : a.SameCall a := ⟨rfl, rfl, rfl, rfl, rfl⟩

namespace Workpiece

variable {w u : Workpiece} {p q : Pool} {allowed : Constant → Prop} {names : List String}
  {method index : Nat}

/-- The same call is found in the same instruction, though the pool has grown. -/
theorem siteAt_grown (hgrown : Pool.Grown allowed p q) {i moved : Instruction}
    (hopcode : moved.opcode = i.opcode) (hconstant : moved.constant? = i.constant?)
    {r : Option CallSite} (h : siteAt p method index i = .ok r) (index' : Nat) :
    siteAt q method index' moved = .ok (r.map fun site =>
      { site with instruction := index', offset := moved.offset }) := by
  rw [siteAt_eq_ok, hopcode, hconstant]
  obtain ⟨hkind, rfl⟩ | ⟨kind, constant, ref, hkind, hsome, href, hfield, rfl⟩ := siteAt_eq_ok.mp h
  · exact .inl ⟨hkind, rfl⟩
  · exact .inr ⟨kind, constant, ref, hkind, hsome, hgrown.memberRef href, hfield, rfl⟩

/-- A call of a prelude is found, too. -/
theorem exists_siteAt_of_callsOnly {i : Instruction} (h : i.CallsOnly names q) :
    ∃ r, siteAt q method index i = .ok r ∧ ∀ site, r = some site → site.name ∈ names := by
  cases hkind : InvokeKind.ofOpcode? i.opcode with
  | none => exact ⟨none, siteAt_eq_ok.mpr (.inl ⟨hkind, rfl⟩), nofun⟩
  | some kind =>
    obtain ⟨constant, ref, hconstant, href, hmethod, hname⟩ := h kind hkind
    refine ⟨_, siteAt_eq_ok.mpr
      (.inr ⟨kind, constant, ref, hkind, hconstant, href, by simp [hmethod], rfl⟩), ?_⟩
    rintro site ⟨⟩
    exact hname

/-- The instructions make these calls, the first of them having this index. -/
inductive Makes (pool : Pool) (method : Nat) : Nat → List Instruction → List CallSite → Prop
  | nil (index : Nat) : Makes pool method index [] []
  | cons {index : Nat} {i : Instruction} {rest : List Instruction} {r : Option CallSite}
    {sites : List CallSite} : siteAt pool method index i = .ok r →
    Makes pool method (index + 1) rest sites →
    Makes pool method index (i :: rest) (r.toList ++ sites)

theorem makes_iff {items : List Item} {sites : List CallSite} :
    Makes p method index (items.map (·.instruction)) sites ↔
      List.reduceOption <$> (items.zipIdx index).mapM (fun (item, k) =>
        siteAt p method k item.instruction) = .ok sites := by
  induction items generalizing index sites with
  | nil =>
    constructor
    · intro h
      cases h
      rfl
    · intro h
      cases h
      exact .nil index
  | cons item items ih =>
    rw [List.zipIdx_cons, map_eq_ok]
    constructor
    · intro h
      cases h with
      | @cons _ _ _ r _ hat hrest =>
        obtain ⟨found, hfound, rfl⟩ := map_eq_ok.mp (ih.mp hrest)
        refine ⟨r :: found, mapM_eq_ok.mpr (.cons hat (mapM_eq_ok.mp hfound)), ?_⟩
        cases r <;> rfl
    · rintro ⟨found, hfound, rfl⟩
      cases mapM_eq_ok.mp hfound with
      | @cons _ r _ found hat hrest =>
        have hmakes : Makes p method index (item.instruction :: items.map (·.instruction))
            (r.toList ++ found.reduceOption) :=
          .cons hat (ih.mpr (map_eq_ok.mpr ⟨found, mapM_eq_ok.mpr hrest, rfl⟩))
        cases r <;> exact hmakes

theorem sitesOf_eq_ok_iff {body : Body} {sites : List CallSite} :
    sitesOf p method body = .ok sites ↔
      Makes p method 0 (body.items.map (·.instruction)) sites :=
  makes_iff.symm

namespace Makes

theorem append {instrs instrs' : List Instruction} {sites sites' : List CallSite}
    (h : Makes p method index instrs sites)
    (h' : Makes p method (index + instrs.length) instrs' sites') :
    Makes p method index (instrs ++ instrs') (sites ++ sites') := by
  induction h with
  | nil index => exact h'
  | @cons index i rest r sites hat _ ih =>
    rw [List.cons_append, List.append_assoc]
    refine .cons hat (ih ?_)
    rwa [List.length_cons, Nat.add_comm rest.length, ← Nat.add_assoc] at h'

theorem of_callsOnly {instrs : List Instruction} (h : ∀ i ∈ instrs, i.CallsOnly names q)
    (method index : Nat) :
    ∃ sites, Makes q method index instrs sites ∧ ∀ site ∈ sites, site.name ∈ names := by
  induction instrs generalizing index with
  | nil => exact ⟨[], .nil index, by simp⟩
  | cons i instrs ih =>
    rw [List.forall_mem_cons] at h
    obtain ⟨r, hat, hname⟩ := exists_siteAt_of_callsOnly h.1
    obtain ⟨sites, hsites, hnames⟩ := ih h.2 (index + 1)
    refine ⟨r.toList ++ sites, .cons hat hsites, ?_⟩
    rw [List.forall_mem_append]
    exact ⟨fun site hsite => hname site (Option.mem_toList.mp hsite), hnames⟩

theorem weaves {l : Layout} {items : List Item} {groups : List Group} {sites : List CallSite}
    (h : Makes p method index (items.map (·.instruction)) sites)
    (hgrown : Pool.Grown allowed p q) (hgroups : List.Forall₂ (Item.Becomes l) items groups)
    (hcalls : ∀ item ∈ items, item.CallsOnly names q) (index' : Nat) :
    ∃ sites', Makes q method index' (groups.flatMap Group.instructions) sites' ∧
      Weaves (fun site moved => site.SameCall moved ∧ l.instruction site.offset = .ok moved.offset)
        (·.name ∈ names) sites sites' := by
  induction hgroups generalizing index index' sites with
  | nil =>
    cases h
    exact ⟨[], .nil _, .nil⟩
  | @cons item g items groups hbecomes _ ih =>
    rw [List.forall_mem_cons] at hcalls
    cases h with
    | @cons _ _ _ r sites hat hrest =>
      obtain ⟨inserted, hdecode, hinserted⟩ := hbecomes.inserted
      obtain ⟨_, hdecode', hnames⟩ := hcalls.1
      cases hdecode.symm.trans hdecode'
      have hprelude : ∀ i ∈ g.inserted, i.CallsOnly names q := by
        rw [hinserted, List.forall_mem_map]
        exact hnames
      obtain ⟨added, hadded, hnames'⟩ := of_callsOnly hprelude method index'
      have hmoved := siteAt_grown hgrown hbecomes.moved.opcode hbecomes.moved.constant? hat
        (index' + g.inserted.length)
      obtain ⟨sites', hsites', hweaves⟩ := ih hrest hcalls.2 (index' + g.inserted.length + 1)
      have hgroup := hadded.append (.cons hmoved hsites')
      rw [List.flatMap_cons, Group.instructions, List.append_assoc]
      refine ⟨_, hgroup, (Weaves.all_added hnames').append (Weaves.append ?_ hweaves)⟩
      cases r with
      | none => exact .nil
      | some site =>
        obtain ⟨_, _, hoffset, _⟩ := siteAt_eq_some hat
        refine .moved ⟨⟨rfl, rfl, rfl, rfl, rfl⟩, ?_⟩ .nil
        rw [hoffset]
        exact hbecomes.instruction

end Makes

/-! ### Whole classes -/

/-- The edited body of the method is laid out so. -/
def LaysOut (u : Workpiece) (method : Nat) (l : Layout) : Prop :=
  ∃ body r, u.bodies[method]? = some (some body) ∧ body.isEdited = true ∧
    relocate body.code.code.length body.items = .ok r ∧ r.layout = l

theorem LaysOut.unique {l l' : Layout} (h : u.LaysOut method l) (h' : u.LaysOut method l') :
    l = l' := by
  obtain ⟨body, r, hbody, _, hr, rfl⟩ := h
  obtain ⟨body', r', hbody', _, hr', rfl⟩ := h'
  cases hbody.symm.trans hbody'
  cases hr.symm.trans hr'
  rfl

/-- The same call; in a method that is edited, where its instruction is moved to. -/
def Moves (u : Workpiece) (site moved : CallSite) : Prop :=
  site.SameCall moved ∧ ∀ l, u.LaysOut site.method l → l.instruction site.offset = .ok moved.offset

theorem Written.weaves {b₀ b b' : Option Body} (h : Written q b₀ b b')
    (hgrown : Pool.Grown allowed p q)
    (hread : ∀ body, b₀ = some body →
      Instruction.decode body.code.code = .ok (body.items.map (·.instruction)))
    (hread' : ∀ body, b' = some body →
      Instruction.decode body.code.code = .ok (body.items.map (·.instruction)))
    (hcalls : ∀ body, b = some body → ∀ item ∈ body.items, item.CallsOnly names q)
    (hb : u.bodies[method]? = some b) {sites : List CallSite}
    (hsites : sitesIn p method b₀ = .ok sites) :
    ∃ sites', sitesIn q method b' = .ok sites' ∧ Weaves u.Moves (·.name ∈ names) sites sites' := by
  cases h with
  | none =>
    cases hsites
    exact ⟨[], rfl, .nil⟩
  | @kept b₀ b _ hedited =>
    refine ⟨sites, sitesOf_kept hgrown rfl hsites, Weaves.all_moved fun site hsite => ?_⟩
    refine ⟨.refl site, ?_⟩
    rintro l ⟨found, r, hfound, hfoundEdited, _⟩
    rw [(stands_of_mem_sitesOf hsites hsite).1, hb] at hfound
    cases hfound
    cases hedited.symm.trans hfoundEdited
  | @edited b₀ b b' hextends hedited hcode =>
    obtain ⟨r, hr, hmoved⟩ := Body.relocate_of_toCode hcode
    have hdecode := hread b₀ rfl
    rw [← hextends.code, ← hextends.instructions] at hdecode
    obtain ⟨groups, hgroups, hdecode'⟩ := exists_groups_of_relocate hdecode hr hextends.straight
    rw [← hmoved] at hdecode'
    have hinstrs := Except.ok.inj ((hread' b' rfl).symm.trans hdecode')
    have hmakes := sitesOf_eq_ok_iff.mp hsites
    rw [← hextends.instructions] at hmakes
    obtain ⟨sites', hmakes', hweaves⟩ := hmakes.weaves hgrown hgroups (hcalls b rfl) 0
    rw [← hinstrs] at hmakes'
    refine ⟨sites', sitesOf_eq_ok_iff.mpr hmakes', hweaves.imp ?_⟩
    rintro site hsite moved ⟨hsame, hoffset⟩
    refine ⟨hsame, ?_⟩
    intro l hl
    rw [(stands_of_mem_sitesOf hsites hsite).1] at hl
    obtain rfl := hl.unique ⟨b, r, hb, hedited, hr, rfl⟩
    exact hoffset

section Written

variable {data out : Bytes} {touched : List Nat} (hw : parse data = .ok w)
  (h : w.Leaves touched u)

include hw h

theorem LaysOut.lays {l : Layout} (hl : u.LaysOut method l) :
    ∃ oldLength items, l.Lays oldLength items := by
  obtain ⟨body, r, hbody, _, hr, rfl⟩ := hl
  obtain ⟨_, hold, hrel⟩ := exists_of_getElem?_right h.bodies hbody
  cases hrel with
  | some hextends =>
    have hdecode := decode_of_parse hw hold
    rw [← hextends.code, ← hextends.instructions] at hdecode
    exact ⟨_, _, lays_of_relocate hdecode hr⟩

/-- What is written with a prelude has a layout for it. -/
theorem IsProbed.exists_laysOut {site : CallSite} (hprobed : u.IsProbed site)
    (hout : u.serialize = .ok out) : ∃ l, u.LaysOut site.method l := by
  obtain ⟨body, item, hbody, hitem, hinserted⟩ := hprobed
  have hedited : body.isEdited = true :=
    List.any_eq_true.mpr ⟨item, List.mem_of_getElem? hitem, hinserted⟩
  obtain ⟨_, _, _, _, _, hwritten⟩ := h.exists_written hw hout
  obtain ⟨b₀, hb₀, _⟩ := exists_of_getElem?_right h.bodies hbody
  obtain ⟨b, b', hb, _, hmade⟩ := hwritten _ b₀ hb₀
  cases hbody.symm.trans hb
  cases hmade with
  | kept _ hkept => cases hkept.symm.trans hedited
  | edited _ _ hcode =>
    obtain ⟨r, hr, _⟩ := Body.relocate_of_toCode hcode
    exact ⟨r.layout, body, r, hbody, hedited, hr, rfl⟩

end Written

/-- The calls of what is written after edits are those of the class that was read, moved, and those
of the preludes. -/
theorem Leaves.weaves_callSites {data out : Bytes} {touched : List Nat}
    (hw : parse data = .ok w) (h : w.Leaves touched u) (hcalls : u.InsertsOnly names)
    (hout : u.serialize = .ok out) {sites : List CallSite} (hsites : w.callSites = .ok sites) :
    ∃ v sites', parse out = .ok v ∧ v.info = w.info ∧ v.callSites = .ok sites' ∧
      Weaves u.Moves (·.name ∈ names) sites sites' := by
  obtain ⟨v, hv, hpool, hinfo, hlength, hwritten⟩ := h.exists_written hw hout
  rw [callSites_eq, map_eq_ok] at hsites
  obtain ⟨lists, hlists, rfl⟩ := hsites
  have hpairs : List.Forall₂ (fun x y : Option Body × Nat => y.2 = x.2 ∧
      w.bodies[x.2]? = some x.1 ∧ v.bodies[x.2]? = some y.1 ∧
      ∃ b, u.bodies[x.2]? = some b ∧ Written u.file.pool x.1 b y.1)
      w.bodies.zipIdx v.bodies.zipIdx := by
    refine forall₂_of_getElem? (by simp [hlength]) fun k x hx => ?_
    rw [List.getElem?_zipIdx] at hx
    obtain ⟨b₀, hb₀, rfl⟩ := Option.map_eq_some_iff.mp hx
    obtain ⟨b, b', hb, hb', hmade⟩ := hwritten k b₀ hb₀
    refine ⟨(b', 0 + k), ?_, rfl, ?_⟩
    · rw [List.getElem?_zipIdx, hb']
      rfl
    · rw [Nat.zero_add]
      exact ⟨hb₀, hb', b, hb, hmade⟩
  obtain ⟨lists', hlists', hweaves⟩ := exists_forall₂_of_common
    (t := fun y list => sitesIn v.file.pool y.2 y.1 = .ok list)
    (u := Weaves u.Moves (·.name ∈ names)) hpairs (mapM_eq_ok.mp hlists) (by
      rintro ⟨b₀, k⟩ ⟨b', _⟩ list ⟨rfl, hb₀, hb', b, hb, hmade⟩ hlist
      rw [hpool]
      refine hmade.weaves h.pool ?_ ?_ ?_ hb hlist
      · rintro body rfl
        exact decode_of_parse hw hb₀
      · rintro body rfl
        exact decode_of_parse hv hb'
      · rintro body rfl
        exact hcalls body (List.mem_of_getElem? hb))
  refine ⟨v, lists'.flatten, hv, hinfo, ?_, Weaves.flatten hweaves⟩
  rw [callSites_eq, map_eq_ok]
  exact ⟨lists', mapM_eq_ok.mpr hlists', rfl⟩

end Workpiece

end ThreadWatch
