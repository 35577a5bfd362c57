import ThreadWatch.Proofs.Editing.Locals
import ThreadWatch.Proofs.Editing.Refusal
import ThreadWatch.Proofs.Editing.Sites

/-!
# The limits of edited methods

The preludes of a method use the same locals, one after the other, and each of them stands on the
stack of its own call. So a method needs as much more as the most needy of its preludes, whatever
the calls are and in whatever order they were edited.
-/

namespace ThreadWatch

/-! ### Preludes that fit a method -/

namespace Prelude

/-- In a method whose limits were those of `old` and are those of `new`, the prelude touches only
locals between the two, and its stack stays below the new limit, if at its call no more than the old
one was on it, and receiver and arguments were. -/
def StaysWithin (prelude : Prelude) (pool : Pool) (descriptor : String)
    (old new : CodeAttribute) : Prop :=
  ∃ d instrs, MethodDescriptor.parse descriptor = .ok d ∧
    Instruction.decode prelude.code = .ok instrs ∧
    (∀ i ∈ instrs, ∃ action, i.action? pool = some action ∧
      ∀ n ∈ action.touches, old.maxLocals.toNat ≤ n ∧ n < new.maxLocals.toNat) ∧
    ∀ (α : Type) (reply : Nat → Nat → α) (locals : Nat → α) (stack : List α),
      d.width + 1 ≤ stack.length → stack.length ≤ old.maxStack.toNat →
      ∃ s, Slots.run pool reply instrs (Slots.start stack locals) = some s ∧
        s.peak ≤ new.maxStack.toNat

theorem staysWithin_of_compile {probe : Probe} {descriptor : String} {p q r : Pool}
    {prelude : Prelude} {old new : CodeAttribute} (hp : p.IsIndexed)
    (h : compile probe descriptor old.maxLocals p = .ok prelude q) (hr : q.GrowsTo r)
    (hstack : old.maxStack.toNat + prelude.extraStack.toNat ≤ new.maxStack.toNat)
    (hlocals : old.maxLocals.toNat + prelude.extraLocals.toNat ≤ new.maxLocals.toNat) :
    prelude.StaysWithin r descriptor old new := by
  obtain ⟨d, _, hd, _⟩ := Stateful.bind_eq_ok.mp h
  obtain ⟨hparse, _⟩ := Interning.ofExcept_eq_ok.mp hd
  obtain ⟨_, instrs, hdecode, htouches, hruns⟩ :=
    exists_run_compiled hp hparse (compile_eq_ok hparse h).1 h hr
  refine ⟨d, instrs, hparse, hdecode, fun i hi => ?_, fun α reply locals stack hheld hheight => ?_⟩
  · obtain ⟨action, haction, hbounds⟩ := htouches i hi
    refine ⟨action, haction, fun n hn => ?_⟩
    have hn := hbounds n hn
    omega
  · obtain ⟨s, hs, hpeak⟩ := hruns α reply locals stack hheld
    exact ⟨s, hs, by omega⟩

end Prelude

/-! ### Growing limits -/

namespace Body

theorem grow_eq_ok {limit : UInt16 → UInt16 → Limit} {slots more grown : UInt16}
    (h : grow limit slots more = .ok grown) : grown.toNat = slots.toNat + more.toNat := by
  unfold grow at h
  split at h
  next hlt =>
    cases h
    rw [UInt16.toNat_add]
    exact Nat.mod_eq_of_lt hlt
  next => cases h

theorem unsupported_grow_iff (limit : UInt16 → UInt16 → Limit) {slots more : UInt16} :
    Unsupported (grow limit slots more) ↔ 65535 < slots.toNat + more.toNat := by
  unfold grow
  split
  next hlt => exact iff_of_false (not_unsupported_ok _) (by omega)
  next hge => exact iff_of_true ⟨_, rfl⟩ (by omega)

theorem exists_grow_iff (limit : UInt16 → UInt16 → Limit) {slots more : UInt16} :
    (∃ grown, grow limit slots more = .ok grown) ↔ slots.toNat + more.toNat ≤ 65535 := by
  unfold grow
  split
  next hlt => exact iff_of_true ⟨_, rfl⟩ (by omega)
  next hge => exact iff_of_false nofun (by omega)

/-- Code and tables of the body can be moved. -/
def Moves (pool : Pool) (b : Body) : Prop :=
  ∃ r exceptions attributes, relocate b.code.code.length b.items = .ok r ∧
    b.code.exceptions.mapM (moveException r.layout) = .ok exceptions ∧
    b.code.attributes.mapM (moveAttribute pool r.layout) = .ok attributes

variable {pool : Pool} {b : Body}

theorem limits_of_toCode {code : CodeAttribute} (h : b.toCode pool = .ok code) :
    code.maxStack.toNat = b.code.maxStack.toNat + b.extraStack.toNat ∧
      code.maxLocals.toNat = b.code.maxLocals.toNat + b.extraLocals.toNat := by
  obtain ⟨_, _, h⟩ := bind_eq_ok.mp h
  obtain ⟨_, _, h⟩ := bind_eq_ok.mp h
  obtain ⟨_, _, h⟩ := bind_eq_ok.mp h
  obtain ⟨_, hstack, h⟩ := bind_eq_ok.mp h
  obtain ⟨_, hlocals, h⟩ := bind_eq_ok.mp h
  rw [← pure_eq_ok.mp h]
  exact ⟨grow_eq_ok hstack, grow_eq_ok hlocals⟩

/-- Two limits grow unless one of them grows too far. -/
theorem unsupported_growBoth_iff {α : Type} {limit limit' : UInt16 → UInt16 → Limit}
    {slots more slots' more' : UInt16} {make : UInt16 → UInt16 → α} :
    Unsupported (do
      let grown ← grow limit slots more
      let grown' ← grow limit' slots' more'
      return make grown grown') ↔
      65535 < slots.toNat + more.toNat ∨ 65535 < slots'.toNat + more'.toNat := by
  constructor
  · rintro ⟨cause, h⟩
    rcases bind_eq_error.mp h with hfirst | ⟨_, _, h⟩
    · exact .inl ((unsupported_grow_iff limit).mp ⟨cause, hfirst⟩)
    · rcases bind_eq_error.mp h with hsecond | ⟨_, _, h⟩
      · exact .inr ((unsupported_grow_iff limit').mp ⟨cause, hsecond⟩)
      · cases h
  · intro h
    by_cases hfirst : 65535 < slots.toNat + more.toNat
    · obtain ⟨cause, hgrow⟩ := (unsupported_grow_iff limit).mpr hfirst
      exact ⟨cause, bind_eq_error.mpr (.inl hgrow)⟩
    · obtain ⟨grown, hgrow⟩ := (exists_grow_iff limit).mpr (Nat.not_lt.mp hfirst)
      obtain ⟨cause, hgrow'⟩ := (unsupported_grow_iff limit').mpr (h.resolve_left hfirst)
      exact ⟨cause, bind_eq_error.mpr (.inr ⟨grown, hgrow, bind_eq_error.mpr (.inl hgrow')⟩)⟩

/-- A body is refused when it can be moved and one of its limits grows too far. -/
theorem unsupported_toCode_iff : Unsupported (b.toCode pool) ↔ b.Moves pool ∧
    (65535 < b.code.maxStack.toNat + b.extraStack.toNat ∨
      65535 < b.code.maxLocals.toNat + b.extraLocals.toNat) := by
  have hexceptions (r : Relocated) :
      Supported (b.code.exceptions.mapM (moveException r.layout)) :=
    Spares.mapM (supported_moveException r.layout) _
  have hattributes (r : Relocated) :
      Supported (b.code.attributes.mapM (moveAttribute pool r.layout)) :=
    Spares.mapM (supported_moveAttribute r.layout pool) _
  unfold toCode
  rw [(supported_relocate _ _).unsupported_bind_iff]
  constructor
  · rintro ⟨r, hr, h⟩
    obtain ⟨exceptions, hexception, h⟩ := (hexceptions r).unsupported_bind_iff.mp h
    obtain ⟨attributes, hattribute, h⟩ := (hattributes r).unsupported_bind_iff.mp h
    exact ⟨⟨r, exceptions, attributes, hr, hexception, hattribute⟩,
      unsupported_growBoth_iff.mp h⟩
  · rintro ⟨⟨r, exceptions, attributes, hr, hexception, hattribute⟩, h⟩
    exact ⟨r, hr, (hexceptions r).unsupported_bind_iff.mpr ⟨exceptions, hexception,
      (hattributes r).unsupported_bind_iff.mpr ⟨attributes, hattribute,
        unsupported_growBoth_iff.mpr h⟩⟩⟩

end Body

namespace Workpiece

variable {v w : Workpiece}

theorem unsupported_editedMethod_iff {pool : Pool} {m : Member} {body : Option Body} :
    Unsupported (editedMethod pool m body) ↔
      ∃ b, body = some b ∧ b.isEdited = true ∧ Unsupported (b.toCode pool) := by
  cases body with
  | none => exact iff_of_false (not_unsupported_ok m) (by simp)
  | some b =>
    unfold editedMethod
    dsimp only
    have hwritten (code : CodeAttribute) : Supported (do
        let info ← code.bytes
        return { m with
          attributes := m.attributes.modify b.holder fun a => { a with info } }) :=
      code.supported_bytes.bind fun _ => .pure _
    cases hedited : b.isEdited with
    | false => exact iff_of_false (not_unsupported_ok m) (by simp [hedited])
    | true =>
      refine (unsupported_bind_iff_left hwritten).trans ?_
      simp [hedited]

/-- A class is refused for a method that is, when those in front of it are written. -/
theorem unsupported_serialize_iff : Unsupported v.serialize ↔ ∃ k m b,
    v.file.methods[k]? = some m ∧ v.bodies[k]? = some (some b) ∧
      (∀ edit ∈ (v.file.methods.zip v.bodies).take k,
        ∃ m', editedMethod v.file.pool edit.1 edit.2 = .ok m') ∧
      b.isEdited = true ∧ Unsupported (b.toCode v.file.pool) := by
  unfold serialize
  rw [unsupported_bind_iff_left fun methods => ClassFile.supported_bytes _, unsupported_mapM_iff]
  constructor
  · rintro ⟨k, ⟨m, body⟩, hk, hbefore, h⟩
    obtain ⟨hm, hbody⟩ := List.getElem?_zip_eq_some.mp hk
    obtain ⟨b, rfl, hedited, hcode⟩ := unsupported_editedMethod_iff.mp h
    exact ⟨k, m, b, hm, hbody, hbefore, hedited, hcode⟩
  · rintro ⟨k, m, b, hm, hbody, hbefore, hedited, hcode⟩
    exact ⟨k, (m, some b), List.getElem?_zip_eq_some.mpr ⟨hm, hbody⟩, hbefore,
      unsupported_editedMethod_iff.mpr ⟨b, rfl, hedited, hcode⟩⟩

end Workpiece

/-! ### What many preludes need -/

/-- The most that one of the preludes needs. -/
def greatest (need : Prelude → UInt16) (placed : List (CallSite × Prelude)) : Nat :=
  (placed.map fun (_, prelude) => (need prelude).toNat).foldr max 0

/-- The preludes in front of calls of method `k`. -/
def inMethod (k : Nat) (placed : List (CallSite × Prelude)) : List (CallSite × Prelude) :=
  placed.filter (·.1.method = k)

section Needs

variable {need : Prelude → UInt16} {placed : List (CallSite × Prelude)} {site : CallSite}
  {prelude : Prelude} {k : Nat}

theorem greatest_concat : greatest need (placed ++ [(site, prelude)]) =
    max (greatest need placed) (need prelude).toNat := by
  unfold greatest
  rw [List.map_append, List.foldr_append]
  induction placed.map fun (_, prelude) => (need prelude).toNat with
  | nil => simp
  | cons n ns ih => rw [List.foldr_cons, List.foldr_cons, ih, Nat.max_assoc]

theorem le_greatest (h : (site, prelude) ∈ placed) : (need prelude).toNat ≤ greatest need placed := by
  induction placed with
  | nil => cases h
  | cons head placed ih =>
    have hhead : greatest need (head :: placed) =
        max (need head.2).toNat (greatest need placed) := rfl
    rw [hhead]
    rcases List.mem_cons.mp h with rfl | h
    · exact Nat.le_max_left _ _
    · exact Nat.le_trans (ih h) (Nat.le_max_right _ _)

theorem mem_inMethod : (site, prelude) ∈ inMethod k placed ↔
    (site, prelude) ∈ placed ∧ site.method = k := by
  rw [inMethod, List.mem_filter, decide_eq_true_eq]

theorem inMethod_concat_same :
    inMethod site.method (placed ++ [(site, prelude)]) =
      inMethod site.method placed ++ [(site, prelude)] := by
  simp [inMethod]

theorem inMethod_concat_other (h : site.method ≠ k) :
    inMethod k (placed ++ [(site, prelude)]) = inMethod k placed := by
  simp [inMethod, h]

end Needs

namespace Body

theorem Extends.length_items {b₀ b : Body} (h : b₀.Extends b) :
    b.items.length = b₀.items.length := by
  simpa using congrArg List.length h.instructions

/-- What is inserted in the body are these preludes, each in front of its call, and the limits grow
by what the most needy of them needs. -/
structure Carries (b : Body) (placed : List (CallSite × Prelude)) : Prop where
  stack : b.extraStack.toNat = greatest (·.extraStack) placed
  locals : b.extraLocals.toNat = greatest (·.extraLocals) placed
  inserted : ∀ index item, b.items[index]? = some item → ∀ code, item.inserted = some code ↔
    ∃ site prelude, (site, prelude) ∈ placed ∧ site.instruction = index ∧ prelude.code = code

variable {b : Body} {placed : List (CallSite × Prelude)}

theorem carries_of_parse {holder : Nat} {info : Bytes} (h : parse holder info = .ok b) :
    b.Carries [] := by
  obtain ⟨_, _, _, hnone⟩ := of_parse h
  obtain ⟨_, _, h⟩ := bind_eq_ok.mp h
  obtain ⟨_, _, h⟩ := bind_eq_ok.mp h
  obtain rfl := pure_eq_ok.mp h
  refine ⟨rfl, rfl, fun index item hitem code => ?_⟩
  rw [hnone item (List.mem_of_getElem? hitem)]
  simp

/-- One more prelude, in front of a call that had none. -/
theorem Carries.insert (h : b.Carries placed) {site : CallSite} {item : Item}
    (hitem : b.items[site.instruction]? = some item) (hfresh : item.inserted = none)
    (prelude : Prelude) :
    (Workpiece.insert b site.instruction prelude).Carries (placed ++ [(site, prelude)]) where
  stack := by
    rw [greatest_concat, ← h.stack]
    exact UInt16.toNat_max _ _
  locals := by
    rw [greatest_concat, ← h.locals]
    exact UInt16.toNat_max _ _
  inserted := by
    intro index found hfound code
    rw [Workpiece.insert, List.getElem?_modify] at hfound
    simp only [List.mem_append, List.mem_singleton]
    split at hfound
    next hindex =>
      subst hindex
      rw [hitem] at hfound
      cases hfound
      constructor
      · rintro ⟨⟩
        exact ⟨site, prelude, .inr rfl, rfl, rfl⟩
      · rintro ⟨other, before, hmem | hnew, hinstruction, rfl⟩
        · have hold := (h.inserted _ item hitem before.code).mpr
            ⟨other, before, hmem, hinstruction, rfl⟩
          rw [hfresh] at hold
          cases hold
        · cases hnew
          rfl
    next hindex =>
      rw [id_map'] at hfound
      rw [h.inserted index found hfound code]
      constructor
      · rintro ⟨other, before, hmem, hplace⟩
        exact ⟨other, before, .inl hmem, hplace⟩
      · rintro ⟨other, before, hmem | hnew, hplace⟩
        · exact ⟨other, before, hmem, hplace⟩
        · cases hnew
          exact absurd hplace.1 hindex

end Body

namespace Workpiece

variable {v w : Workpiece}

/-- The prelude that an edit would insert. -/
def prelude? (v : Workpiece) (site : CallSite) (probe : Probe) : Option Prelude :=
  match v.editable site with
  | .error _ => none
  | .ok body =>
    match Prelude.compile probe site.descriptor body.code.maxLocals v.file.pool with
    | .error _ _ => none
    | .ok prelude _ => some prelude

/-- The preludes that edits insert, one after the other, each with its call. -/
def preludes : Workpiece → List (CallSite × Probe) → List (CallSite × Prelude)
  | _, [] => []
  | v, (site, probe) :: rest =>
    match replaceCallSite site probe v with
    | .ok _ next => (v.prelude? site probe).toList.map (site, ·) ++ preludes next rest
    | .error _ next => preludes next rest

/-- `v` is what edits have made of the class `w` with these preludes, which were compiled one after
the other. -/
structure Carries (w : Workpiece) (placed : List (CallSite × Prelude)) (v : Workpiece) : Prop where
  bodies : ∀ k (b : Body), v.bodies[k]? = some (some b) → b.Carries (inMethod k placed)
  compiled : ∀ site prelude, (site, prelude) ∈ placed → ∃ b₀ probe p q,
    w.bodies[site.method]? = some (some b₀) ∧ site.instruction < b₀.items.length ∧ p.IsIndexed ∧
      Prelude.compile probe site.descriptor b₀.code.maxLocals p = .ok prelude q ∧
      q.GrowsTo v.file.pool

theorem carries_of_parse {data : Bytes} (hw : parse data = .ok w) : w.Carries [] w := by
  refine ⟨fun k b hb => ?_, by simp⟩
  obtain ⟨_, _, hbodies⟩ := parse_eq_ok.mp hw
  obtain ⟨m, _, hbody⟩ := exists_of_getElem?_right hbodies hb
  obtain ⟨_, _, _, _, hparse⟩ := bodyOf_eq_some hbody
  exact Body.carries_of_parse hparse

section Edits

variable {placed : List (CallSite × Prelude)} {touched : List Nat} {site : CallSite} {probe : Probe}

theorem Carries.grow (h : w.Carries placed v) {pool : Pool} (hpool : v.file.pool.GrowsTo pool) :
    w.Carries placed { v with file := { v.file with pool } } where
  bodies := h.bodies
  compiled := by
    intro site prelude hmem
    obtain ⟨b₀, probe, p, q, hb₀, hlt, hp, hcompile, hq⟩ := h.compiled site prelude hmem
    exact ⟨b₀, probe, p, q, hb₀, hlt, hp, hcompile, hq.trans hpool⟩

theorem Carries.replace_ok (h : w.Carries placed v) (hleaves : w.Leaves touched v)
    {next : Workpiece} (hnext : replaceCallSite site probe v = .ok () next) :
    ∃ prelude, v.prelude? site probe = some prelude ∧
      w.Carries (placed ++ [(site, prelude)]) next := by
  obtain ⟨body, prelude, pool, heditable, hcompile, rfl⟩ := replaceCallSite_eq_ok hnext
  obtain ⟨hbody, item, hitem, _, hfresh⟩ := editable_eq_ok.mp heditable
  have hprelude : v.prelude? site probe = some prelude := by
    rw [prelude?, heditable]
    dsimp only
    rw [hcompile]
  have hgrown : v.file.pool.GrowsTo pool :=
    (Prelude.grows_compile _ _ _).of_ok hleaves.pool.indexed hcompile
  refine ⟨prelude, hprelude, fun k b hb => ?_, fun other before hmem => ?_⟩
  · by_cases hk : site.method = k
    · subst hk
      dsimp only at hb
      rw [List.getElem?_set_self (List.getElem?_eq_some_iff.mp hbody).1] at hb
      cases hb
      rw [inMethod_concat_same]
      exact (h.bodies _ body hbody).insert hitem hfresh prelude
    · dsimp only at hb
      rw [List.getElem?_set_ne hk] at hb
      rw [inMethod_concat_other hk]
      exact h.bodies k b hb
  · rcases List.mem_append.mp hmem with hmem | hmem
    · exact (h.grow hgrown).compiled other before hmem
    · cases List.mem_singleton.mp hmem
      obtain ⟨_, hb₀, hrel⟩ := exists_of_getElem?_right hleaves.bodies hbody
      cases hrel with
      | @some b₀ _ hextends =>
        have hlength := hextends.length_items
        have hlt := (List.getElem?_eq_some_iff.mp hitem).1
        rw [hextends.code] at hcompile
        exact ⟨b₀, probe, v.file.pool, pool, hb₀, by omega, hleaves.pool.indexed, hcompile,
          .refl hgrown.indexed⟩

theorem Carries.replace_error (h : w.Carries placed v) (hleaves : w.Leaves touched v)
    {fault : Fault} {next : Workpiece} (hnext : replaceCallSite site probe v = .error fault next) :
    w.Carries placed next := by
  obtain ⟨_, rfl⟩ | ⟨body, pool, _, hcompile, rfl⟩ := replaceCallSite_eq_error hnext
  · exact h
  · have hgrown := Prelude.grows_compile probe site.descriptor body.code.maxLocals _
      hleaves.pool.indexed
    rw [Interning.after, hcompile] at hgrown
    exact h.grow hgrown

theorem Carries.editAll (h : w.Carries placed v) (hleaves : w.Leaves touched v)
    (edits : List (CallSite × Probe)) :
    w.Carries (placed ++ v.preludes edits) (v.editAll edits).2 := by
  induction edits generalizing v placed touched with
  | nil =>
    rw [preludes, List.append_nil]
    exact h
  | cons edit rest ih =>
    obtain ⟨site, probe⟩ := edit
    rw [preludes, Workpiece.editAll]
    cases hnext : replaceCallSite site probe v with
    | ok _ next =>
      obtain ⟨prelude, hprelude, hcarries⟩ := h.replace_ok hleaves hnext
      have hrest := ih hcarries (hleaves.replace_ok hnext)
      rw [List.append_assoc] at hrest
      rw [hprelude]
      exact hrest
    | error fault next =>
      exact ih (h.replace_error hleaves hnext) (hleaves.replace_error hnext)

end Edits

end Workpiece

/-! ### The limits that are written -/

/-- A method with the limits of `old` and room for the most needy of these preludes, in which each of
them stays. -/
structure CodeAttribute.Houses (new : CodeAttribute) (pool : Pool)
    (placed : List (CallSite × Prelude)) (old : CodeAttribute) : Prop where
  stack : new.maxStack.toNat = old.maxStack.toNat + greatest (·.extraStack) placed
  locals : new.maxLocals.toNat = old.maxLocals.toNat + greatest (·.extraLocals) placed
  within : ∀ site prelude, (site, prelude) ∈ placed →
    prelude.StaysWithin pool site.descriptor old new

namespace Workpiece

variable {v w : Workpiece} {placed : List (CallSite × Prelude)} {touched : List Nat}

/-- Nothing fails before the limits of method `k` grow: the methods in front of it are written, and
its code and tables are moved. -/
def ReachesLimits (v : Workpiece) (k : Nat) : Prop :=
  (∀ edit ∈ (v.file.methods.zip v.bodies).take k,
    ∃ m, editedMethod v.file.pool edit.1 edit.2 = .ok m) ∧
  ∃ b, v.bodies[k]? = some (some b) ∧ b.Moves v.file.pool

theorem Carries.exists_item (h : w.Carries placed v) (hleaves : w.Leaves touched v) {k : Nat}
    {b : Body} (hb : v.bodies[k]? = some (some b)) {site : CallSite} {prelude : Prelude}
    (hmem : (site, prelude) ∈ inMethod k placed) :
    ∃ item ∈ b.items, item.inserted = some prelude.code := by
  obtain ⟨hplaced, hk⟩ := mem_inMethod.mp hmem
  obtain ⟨b₀, _, _, _, hb₀, hlt, _⟩ := h.compiled site prelude hplaced
  rw [hk] at hb₀
  obtain ⟨_, hfound, hrel⟩ := exists_of_getElem?_left hleaves.bodies hb₀
  cases hfound.symm.trans hb
  cases hrel with
  | some hextends =>
    have hlength := hextends.length_items
    have hitem : b.items[site.instruction]? = some b.items[site.instruction] :=
      List.getElem?_eq_getElem (by omega)
    exact ⟨_, List.mem_of_getElem? hitem,
      ((h.bodies k b hb).inserted _ _ hitem _).mpr ⟨site, prelude, hmem, rfl, rfl⟩⟩

theorem Carries.isEdited (h : w.Carries placed v) (hleaves : w.Leaves touched v) {k : Nat}
    {b : Body} (hb : v.bodies[k]? = some (some b)) {site : CallSite} {prelude : Prelude}
    (hmem : (site, prelude) ∈ inMethod k placed) : b.isEdited = true := by
  obtain ⟨item, hitem, hinserted⟩ := h.exists_item hleaves hb hmem
  rw [Body.isEdited, List.any_eq_true]
  exact ⟨item, hitem, by rw [hinserted]; rfl⟩

/-- A method that is written houses its preludes. -/
theorem Carries.houses (h : w.Carries placed v)
    (hleaves : w.Leaves touched v) {k : Nat} {b₀ b b' : Body}
    (hb₀ : w.bodies[k]? = some (some b₀)) (hb : v.bodies[k]? = some (some b))
    (hwritten : Written v.file.pool (some b₀) (some b) (some b')) :
    b'.code.Houses v.file.pool (inMethod k placed) b₀.code := by
  cases hwritten with
  | kept hextends hkept =>
    have hnone : inMethod k placed = [] := by
      rw [List.eq_nil_iff_forall_not_mem]
      rintro ⟨site, prelude⟩ hmem
      rw [h.isEdited hleaves hb hmem] at hkept
      cases hkept
    rw [hnone]
    exact ⟨rfl, rfl, by simp⟩
  | edited hextends hedited hcode =>
    obtain ⟨hstack, hlocals⟩ := Body.limits_of_toCode hcode
    rw [hextends.code, (h.bodies k b hb).stack] at hstack
    rw [hextends.code, (h.bodies k b hb).locals] at hlocals
    refine ⟨hstack, hlocals, fun site prelude hmem => ?_⟩
    obtain ⟨hplaced, hk⟩ := mem_inMethod.mp hmem
    obtain ⟨_, probe, p, q, hfound, _, hp, hcompile, hq⟩ := h.compiled site prelude hplaced
    rw [hk, hb₀] at hfound
    cases hfound
    refine Prelude.staysWithin_of_compile hp hcompile hq ?_ ?_
    · rw [hstack]
      exact Nat.add_le_add_left (le_greatest hmem) _
    · rw [hlocals]
      exact Nat.add_le_add_left (le_greatest hmem) _

/-- A class is refused when the limits of a method are reached and grow too far. -/
theorem Carries.unsupported_iff {data : Bytes} (hw : parse data = .ok w) (h : w.Carries placed v)
    (hleaves : w.Leaves touched v) :
    Unsupported v.serialize ↔ ∃ k b₀, w.bodies[k]? = some (some b₀) ∧ v.ReachesLimits k ∧
      (65535 < b₀.code.maxStack.toNat + greatest (·.extraStack) (inMethod k placed) ∨
        65535 < b₀.code.maxLocals.toNat + greatest (·.extraLocals) (inMethod k placed)) := by
  rw [unsupported_serialize_iff]
  constructor
  · rintro ⟨k, m, b, _, hb, hbefore, _, hcode⟩
    obtain ⟨hmoves, hsum⟩ := Body.unsupported_toCode_iff.mp hcode
    obtain ⟨_, hb₀, hrel⟩ := exists_of_getElem?_right hleaves.bodies hb
    cases hrel with
    | @some b₀ _ hextends =>
      rw [hextends.code, (h.bodies k b hb).stack, (h.bodies k b hb).locals] at hsum
      exact ⟨k, b₀, hb₀, ⟨hbefore, b, hb, hmoves⟩, hsum⟩
  · rintro ⟨k, b₀, hb₀, ⟨hbefore, b, hb, hmoves⟩, hsum⟩
    obtain ⟨_, hfound, hrel⟩ := exists_of_getElem?_right hleaves.bodies hb
    cases hb₀.symm.trans hfound
    cases hrel with
    | some hextends =>
      obtain ⟨_, _, hbodies⟩ := parse_eq_ok.mp hw
      obtain ⟨m, hm, _⟩ := exists_of_getElem?_right hbodies hb₀
      have hedited : b.isEdited = true := by
        cases hplaced : inMethod k placed with
        | nil =>
          -- the limits that were read fit
          have hstack := b₀.code.maxStack.toNat_lt
          have hlocals := b₀.code.maxLocals.toNat_lt
          rw [hplaced] at hsum
          simp only [greatest, List.map_nil, List.foldr_nil] at hsum
          omega
        | cons entry rest => exact h.isEdited hleaves hb (hplaced ▸ List.mem_cons_self ..)
      refine ⟨k, m, b, by rw [hleaves.file]; exact hm, hb, hbefore, hedited,
        Body.unsupported_toCode_iff.mpr ⟨hmoves, ?_⟩⟩
      rwa [hextends.code, (h.bodies k b hb).stack, (h.bodies k b hb).locals]

/-- Whatever calls were edited, the class that is written houses the preludes of each method; and it
is refused when there is a method that cannot, and nothing failed before. -/
theorem serialize_houses {data : Bytes} (hw : parse data = .ok w)
    (edits : List (CallSite × Probe)) :
    (∀ out, (w.editAll edits).2.serialize = .ok out → ∃ v, parse out = .ok v ∧
      ∀ k (b₀ : Body), w.bodies[k]? = some (some b₀) →
        ∃ b : Body, v.bodies[k]? = some (some b) ∧
          b.code.Houses v.file.pool (inMethod k (w.preludes edits)) b₀.code) ∧
    ((∃ limit, (w.editAll edits).2.serialize = .error (.notSupported limit)) ↔
      ∃ k b₀, w.bodies[k]? = some (some b₀) ∧ (w.editAll edits).2.ReachesLimits k ∧
        (65535 < b₀.code.maxStack.toNat +
            greatest (·.extraStack) (inMethod k (w.preludes edits)) ∨
          65535 < b₀.code.maxLocals.toNat +
            greatest (·.extraLocals) (inMethod k (w.preludes edits)))) := by
  have hleaves := (leaves_of_parse hw).editAll edits
  have hcarries := (carries_of_parse hw).editAll (leaves_of_parse hw) edits
  rw [List.nil_append] at hcarries
  refine ⟨fun out hout => ?_, hcarries.unsupported_iff hw hleaves⟩
  obtain ⟨v, hv, hpool, _, _, hwritten⟩ := hleaves.exists_written hw hout
  refine ⟨v, hv, fun k b₀ hb₀ => ?_⟩
  obtain ⟨_, _, hb, hb', hbody⟩ := hwritten k (some b₀) hb₀
  rw [hpool]
  cases hbody with
  | kept hextends hkept =>
    exact ⟨b₀, hb', hcarries.houses hleaves hb₀ hb (.kept hextends hkept)⟩
  | edited hextends hedited hcode =>
    exact ⟨_, hb', hcarries.houses hleaves hb₀ hb (.edited hextends hedited hcode)⟩

theorem serialize_houses_twice : ∃ (data : Bytes) (w : Workpiece) (out : Bytes) (v : Workpiece)
    (b₀ b : Body), starter.bytes = .ok data ∧ parse data = .ok w ∧
      (w.editAll startTwice).2.serialize = .ok out ∧ parse out = .ok v ∧
      w.bodies[0]? = some (some b₀) ∧ v.bodies[0]? = some (some b) ∧
      b₀.code.maxStack = 1 ∧ b.code.maxStack = 5 ∧
      b.code.Houses v.file.pool (inMethod 0 (w.preludes startTwice)) b₀.code := by
  have hrun : (do
      let data ← starter.bytes
      let w ← parse data
      let out ← (w.editAll startTwice).2.serialize
      let v ← parse out
      return (w.bodies[0]?.join.map fun b : Body => b.code.maxStack,
        v.bodies[0]?.join.map fun b : Body => b.code.maxStack)) = .ok (some 1, some 5) := by
    decide +kernel
  obtain ⟨data, hdata, hrun⟩ := bind_eq_ok.mp hrun
  obtain ⟨w, hw, hrun⟩ := bind_eq_ok.mp hrun
  obtain ⟨out, hout, hrun⟩ := bind_eq_ok.mp hrun
  obtain ⟨v, hv, hrun⟩ := bind_eq_ok.mp hrun
  obtain ⟨hold, hnew⟩ := Prod.mk.inj (pure_eq_ok.mp hrun)
  obtain ⟨b₀, hb₀, hstack₀⟩ := Option.map_eq_some_iff.mp hold
  obtain ⟨b, hb, hstack⟩ := Option.map_eq_some_iff.mp hnew
  rw [Option.join_eq_some_iff] at hb₀ hb
  obtain ⟨_, hread, hhouses⟩ := (serialize_houses hw startTwice).1 out hout
  cases hv.symm.trans hread
  obtain ⟨_, hfound, hhouse⟩ := hhouses 0 b₀ hb₀
  cases hb.symm.trans hfound
  exact ⟨data, w, out, v, b₀, b, hdata, hw, hout, hv, hb₀, hb, hstack₀, hstack, hhouse⟩

end Workpiece

end ThreadWatch
