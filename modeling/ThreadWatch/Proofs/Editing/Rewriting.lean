import ThreadWatch.Editing.Workpiece
import ThreadWatch.Proofs.ClassFile.Format
import ThreadWatch.Proofs.Code.Relocation
import ThreadWatch.Proofs.Editing.Prelude

/-!
# Edited classes are read again

Whatever preludes were asked for, a class that is written after them is a class again. It has all
that the class had before, in the same place; new constants stand behind the old ones, and of a
method that took a prelude only the payload of its first Code attribute is another.
-/

namespace ThreadWatch

/-! ### Names -/

/-- The constant spells no name that is looked for. -/
def Constant.IsUnsought (c : Constant) : Prop :=
  ∀ name ∈ Prelude.soughtNames, c ≠ .utf8 name.toUTF8.toList

/-- An index past the old pool may name a new constant, but not one that is looked for. -/
theorem Attribute.isNamed_grown {p q : Pool} (hgrown : Pool.Grown Constant.IsUnsought p q)
    {name : String} (hname : name ∈ Prelude.soughtNames) (a : Attribute) :
    a.isNamed q name = a.isNamed p name := by
  rw [Bool.eq_iff_iff, Attribute.isNamed_iff, Attribute.isNamed_iff]
  exact hgrown.get_iff fun h => h name hname rfl

theorem Prelude.toUTF8_sought :
    ∀ name ∈ soughtNames, name.toUTF8.toList = ModifiedUtf8.encode name := by
  decide +kernel

/-- An attribute has one name. -/
theorem Attribute.isNamed_eq_false {pool : Pool} {a : Attribute} {name other : String}
    (h : a.isNamed pool name = true) (hname : name ∈ Prelude.soughtNames)
    (hother : other ∈ Prelude.soughtNames) (hne : name ≠ other) : a.isNamed pool other = false := by
  rw [Bool.eq_false_iff]
  intro hnamed
  have hsame := (isNamed_iff.mp h).symm.trans (isNamed_iff.mp hnamed)
  rw [Except.ok.injEq, Constant.utf8.injEq, Prelude.toUTF8_sought name hname,
    Prelude.toUTF8_sought other hother] at hsame
  exact hne (ModifiedUtf8.encode_injective hsame)

theorem code_mem_soughtNames : "Code" ∈ Prelude.soughtNames := by decide

/-- Where the body is, is a matter of the attributes' names alone. -/
theorem Member.findAttribute_congr {m m' : Member} {p q : Pool}
    (hnames : m'.attributes.map (·.name) = m.attributes.map (·.name))
    (hgrown : Pool.Grown Constant.IsUnsought p q) :
    m'.findAttribute q "Code" = m.findAttribute p "Code" := by
  have hname : ∀ l : List Attribute, l.findIdx? (·.isNamed p "Code") =
      (l.map (·.name)).findIdx? fun name => Attribute.isNamed ⟨name, []⟩ p "Code" := by
    intro l
    rw [List.findIdx?_map]
    rfl
  unfold findAttribute
  simp only [Attribute.isNamed_grown hgrown code_mem_soughtNames]
  rw [hname, hname, hnames]

namespace Prelude

theorem isUnsought_of_oneOf {probe : Probe} {p : Pool} {c : Constant}
    (h : Symbol.OneOf (constants probe) p c) : c.IsUnsought := by
  rintro name hname rfl
  rw [toUTF8_sought name hname] at h
  obtain ⟨s, hs, hc⟩ := h
  obtain ⟨text, rfl, hsame⟩ := Symbol.utf8_of_constant? hc
  rw [ModifiedUtf8.encode_injective hsame] at hs
  exact sought_not_mem_constants hname probe hs

/-- No prelude brings in a name that is looked for. -/
theorem grows_compile_unsought (probe : Probe) (descriptor : String) (first : UInt16) :
    (compile probe descriptor first).Grows Constant.IsUnsought :=
  fun p hp => Pool.Grown.mono (brings_compile probe descriptor first p hp) fun _ =>
    isUnsought_of_oneOf

end Prelude

/-! ### Bodies -/

theorem map_modify_of_eq {α β : Type} {f : α → α} {g : α → β} (l : List α) (i : Nat)
    (h : ∀ a, g (f a) = g a) : (l.modify i f).map g = l.map g := by
  apply List.ext_getElem?
  intro k
  rw [List.getElem?_map, List.getElem?_map, List.getElem?_modify]
  split
  · cases l[k]? <;> simp [h]
  · simp

theorem forall_mem_modify {α : Type} {p : α → Prop} {f : α → α} {l : List α} {i : Nat}
    (h : ∀ a ∈ l, p a) (hf : ∀ a ∈ l, p (f a)) : ∀ a ∈ l.modify i f, p a := by
  intro a ha
  obtain ⟨k, hk⟩ := List.mem_iff_getElem?.mp ha
  rw [List.getElem?_modify] at hk
  obtain ⟨b, hb, rfl⟩ := Option.map_eq_some_iff.mp hk
  have hmem := List.mem_of_getElem? hb
  split
  · exact hf b hmem
  · exact h b hmem

theorem Item.isStraight_of_none {item : Item} (h : item.inserted = none) : item.IsStraight := by
  refine ⟨[], Instruction.decode_eq_ok_iff.mpr ?_, by simp⟩
  rw [insertedBytes, h]
  exact .nil 0

namespace Body

/-- `b` is `b₀` with straight code inserted. -/
structure Extends (b₀ b : Body) : Prop where
  holder : b.holder = b₀.holder
  code : b.code = b₀.code
  instructions : b.items.map (·.instruction) = b₀.items.map (·.instruction)
  straight : ∀ item ∈ b.items, item.IsStraight

/-- What was read is the instructions of the code, with nothing inserted. -/
theorem of_parse {holder : Nat} {info : Bytes} {b : Body} (h : parse holder info = .ok b) :
    b.holder = holder ∧ CodeAttribute.parse info = .ok b.code ∧
      Instruction.decode b.code.code = .ok (b.items.map (·.instruction)) ∧
      ∀ item ∈ b.items, item.inserted = none := by
  obtain ⟨code, hcode, h⟩ := bind_eq_ok.mp h
  obtain ⟨instrs, hinstrs, h⟩ := bind_eq_ok.mp h
  obtain rfl := pure_eq_ok.mp h
  refine ⟨rfl, hcode, ?_, ?_⟩
  · rw [hinstrs, List.map_map]
    exact congrArg Except.ok (List.map_id instrs).symm
  · rw [List.forall_mem_map]
    intro i _
    rfl

theorem extends_of_parse {holder : Nat} {info : Bytes} {b : Body} (h : parse holder info = .ok b) :
    b.Extends b := by
  obtain ⟨_, _, _, hnone⟩ := of_parse h
  exact ⟨rfl, rfl, rfl, fun item hitem => Item.isStraight_of_none (hnone item hitem)⟩

theorem isEdited_of_parse {holder : Nat} {info : Bytes} {b : Body}
    (h : parse holder info = .ok b) : b.isEdited = false := by
  obtain ⟨_, _, _, hnone⟩ := of_parse h
  rw [isEdited, List.any_eq_false]
  intro item hitem
  simp [hnone item hitem]

/-- A straight prelude is put in front of one of the instructions. -/
theorem Extends.insert {b₀ b : Body} (h : b₀.Extends b) (index : Nat) {prelude : Prelude}
    (hprelude : ∃ instrs, Instruction.decode prelude.code = .ok instrs ∧
      ∀ i ∈ instrs, i.IsStraight) : b₀.Extends (Workpiece.insert b index prelude) where
  holder := h.holder
  code := h.code
  instructions := by
    rw [← h.instructions]
    exact map_modify_of_eq _ _ fun item => rfl
  straight := by
    exact forall_mem_modify h.straight fun item _ => hprelude

theorem relocate_of_toCode {b : Body} {pool : Pool} {code : CodeAttribute}
    (h : b.toCode pool = .ok code) :
    ∃ r, relocate b.code.code.length b.items = .ok r ∧ code.code = r.code := by
  obtain ⟨⟨moved, l⟩, hr, h⟩ := bind_eq_ok.mp h
  refine ⟨_, hr, ?_⟩
  obtain ⟨_, _, h⟩ := bind_eq_ok.mp h
  obtain ⟨_, _, h⟩ := bind_eq_ok.mp h
  obtain ⟨_, _, h⟩ := bind_eq_ok.mp h
  obtain ⟨_, _, h⟩ := bind_eq_ok.mp h
  rw [← pure_eq_ok.mp h]

/-- An edited body is written as a body. -/
theorem exists_parse_of_toCode {holder : Nat} {info written : Bytes} {b₀ b : Body} {pool : Pool}
    {code : CodeAttribute} (hparse : parse holder info = .ok b₀) (h : b₀.Extends b)
    (hcode : b.toCode pool = .ok code) (hwritten : code.bytes = .ok written) :
    ∃ b', parse holder written = .ok b' ∧ b'.code = code := by
  obtain ⟨_, hinfo, hinstrs, _⟩ := of_parse hparse
  rw [← h.code, ← h.instructions] at hinstrs
  obtain ⟨r, hr, hmoved⟩ := relocate_of_toCode hcode
  obtain ⟨groups, hgroups, hdecode⟩ := exists_groups_of_relocate hinstrs hr h.straight
  rw [← hmoved] at hdecode
  have hold : b.code.code ≠ [] := by
    rw [h.code]
    exact List.ne_nil_of_length_pos (CodeAttribute.parse_eq_ok.mp hinfo).1
  have hitems : b.items ≠ [] := by
    intro hnil
    rw [hnil] at hinstrs
    exact hold ((Instruction.decode_eq_ok_iff.mp hinstrs).nil_iff.mp rfl)
  -- every group holds an instruction, so the new code is not empty either
  have hnew : code.code ≠ [] := by
    intro hnil
    have hnone := (Instruction.decode_eq_ok_iff.mp hdecode).nil_iff.mpr hnil
    cases groups with
    | nil => exact hitems (List.forall₂_nil_right_iff.mp hgroups)
    | cons g groups => simp [Group.instructions] at hnone
  refine ⟨⟨holder, code, (groups.flatMap Group.instructions).map (⟨·, none⟩), 0, 0⟩,
    bind_eq_ok.mpr ⟨code, ?_, bind_eq_ok.mpr ⟨_, hdecode, rfl⟩⟩, rfl⟩
  exact CodeAttribute.parse_eq_ok.mpr ⟨List.length_pos_iff.mpr hnew, hwritten⟩

end Body

/-- `m'` is `m` with another payload in the first Code attribute. -/
def Member.EqualButCode (pool : Pool) (m m' : Member) : Prop :=
  ∃ holder info, m.findAttribute pool "Code" = some holder ∧
    m' = { m with attributes := m.attributes.modify holder fun a => { a with info } }

namespace TypeInfo

variable {allowed : Constant → Prop} {c : ClassFile} {q : Pool} {methods : List Member}

theorem methodKey_grown (hgrown : Pool.Grown allowed c.pool q) {m m' : Member} {key : MethodKey}
    (hname : m'.name = m.name) (hdescriptor : m'.descriptor = m.descriptor)
    (h : methodKey c m = .ok key) : methodKey { c with pool := q, methods } m' = .ok key := by
  obtain ⟨name, hm, h⟩ := bind_eq_ok.mp h
  obtain ⟨descriptor, hd, h⟩ := bind_eq_ok.mp h
  refine bind_eq_ok.mpr ⟨name, ?_, bind_eq_ok.mpr ⟨descriptor, ?_, h⟩⟩
  · rw [ClassFile.memberName, hname]
    exact hgrown.utf8 hm
  · rw [ClassFile.memberDescriptor, hdescriptor]
    exact hgrown.utf8 hd

theorem superName_grown (hgrown : Pool.Grown allowed c.pool q) {name : Option String}
    (h : c.superName = .ok name) :
    ClassFile.superName { c with pool := q, methods } = .ok name := by
  unfold ClassFile.superName at h ⊢
  dsimp only
  split
  next hzero => rwa [if_pos hzero] at h
  next hzero =>
    rw [if_neg hzero] at h
    obtain ⟨found, hfound, h⟩ := map_eq_ok.mp h
    exact map_eq_ok.mpr ⟨found, hgrown.typeName hfound, h⟩

/-- A longer pool and other payloads of the methods do not change the summary of a class. -/
theorem ofClass_grown {info : TypeInfo} (hgrown : Pool.Grown allowed c.pool q)
    (hmethods : List.Forall₂ (fun m m' : Member => m'.name = m.name ∧ m'.descriptor = m.descriptor)
      c.methods methods)
    (h : ofClass c = .ok info) : ofClass { c with pool := q, methods } = .ok info := by
  obtain ⟨keys, hkeys, h⟩ := bind_eq_ok.mp h
  obtain ⟨name, hname, h⟩ := bind_eq_ok.mp h
  obtain ⟨superName, hsuper, h⟩ := bind_eq_ok.mp h
  obtain ⟨interfaces, hinterfaces, h⟩ := bind_eq_ok.mp h
  refine bind_eq_ok.mpr ⟨keys, ?_, bind_eq_ok.mpr ⟨name, hgrown.typeName hname,
    bind_eq_ok.mpr ⟨superName, superName_grown hgrown hsuper,
      bind_eq_ok.mpr ⟨interfaces, ?_, h⟩⟩⟩⟩
  · refine mapM_eq_ok.mpr (forall₂_of_common hmethods (mapM_eq_ok.mp hkeys) ?_)
    rintro m m' key ⟨hname, hdescriptor⟩ hkey
    exact methodKey_grown hgrown hname hdescriptor hkey
  · show c.interfaces.mapM (Pool.typeName q) = .ok interfaces
    exact mapM_eq_ok.mpr ((mapM_eq_ok.mp hinterfaces).imp fun _ _ => hgrown.typeName)

end TypeInfo

/-! ### Runs of edits -/

namespace Workpiece

/-- One edit asked for after the other: the methods whose edits were accepted, and the class that
is left. -/
def editAll : Workpiece → List (CallSite × Probe) → List Nat × Workpiece
  | w, [] => ([], w)
  | w, (site, probe) :: rest =>
    match replaceCallSite site probe w with
    | .ok _ next =>
      let (touched, last) := editAll next rest
      (site.method :: touched, last)
    | .error _ next => editAll next rest

/-- What edits leave of the class `w`: all but its pool, which grows, and the bodies of the methods
that took a prelude. -/
structure Leaves (w : Workpiece) (touched : List Nat) (v : Workpiece) : Prop where
  file : v.file = { w.file with pool := v.file.pool }
  pool : Pool.Grown Constant.IsUnsought w.file.pool v.file.pool
  bodies : List.Forall₂ (Option.Rel Body.Extends) w.bodies v.bodies
  untouched : ∀ k ∉ touched, v.bodies[k]? = w.bodies[k]?
  touched : ∀ k ∈ touched, ∃ b, w.bodies[k]? = some (some b)

variable {w v : Workpiece} {touched : List Nat} {site : CallSite} {probe : Probe}

theorem of_editable {body : Body} (h : v.editable site = .ok body) :
    v.bodies[site.method]? = some (some body) := by
  unfold editable at h
  split at h
  next found hfound =>
    split at h
    next item _ =>
      split at h
      · cases h
      · split at h
        · cases h
        · cases h
          exact hfound
    · cases h
  · cases h

/-- An edit that is made puts a compiled prelude where there was none. -/
theorem replaceCallSite_eq_ok {next : Workpiece} (h : replaceCallSite site probe v = .ok () next) :
    ∃ body prelude pool, v.editable site = .ok body ∧
      Prelude.compile probe site.descriptor body.code.maxLocals v.file.pool = .ok prelude pool ∧
      next = { v with
        file := { v.file with pool }
        bodies := v.bodies.set site.method (some (insert body site.instruction prelude)) } := by
  unfold replaceCallSite at h
  split at h
  · cases h
  next body hbody =>
    split at h
    · cases h
    next prelude pool hcompile =>
      cases h
      exact ⟨body, prelude, pool, hbody, hcompile, rfl⟩

/-- An edit that is not made is refused, or its prelude fails and leaves constants behind. -/
theorem replaceCallSite_eq_error {fault : Fault} {next : Workpiece}
    (h : replaceCallSite site probe v = .error fault next) :
    v.editable site = .error fault ∧ next = v ∨ ∃ body pool, v.editable site = .ok body ∧
      Prelude.compile probe site.descriptor body.code.maxLocals v.file.pool = .error fault pool ∧
      next = { v with file := { v.file with pool } } := by
  unfold replaceCallSite at h
  split at h
  next hbody =>
    cases h
    exact .inl ⟨hbody, rfl⟩
  next body hbody =>
    split at h
    next hcompile =>
      cases h
      exact .inr ⟨body, _, hbody, hcompile, rfl⟩
    · cases h

theorem Leaves.grow (h : w.Leaves touched v) {pool : Pool}
    (hpool : Pool.Grown Constant.IsUnsought v.file.pool pool) :
    w.Leaves touched { v with file := { v.file with pool } } where
  file := by
    rw [h.file]
  pool := h.pool.trans hpool
  bodies := h.bodies
  untouched := h.untouched
  touched := h.touched

theorem Leaves.replace_error (h : w.Leaves touched v) {fault : Fault} {next : Workpiece}
    (hnext : replaceCallSite site probe v = .error fault next) : w.Leaves touched next := by
  obtain ⟨_, rfl⟩ | ⟨body, pool, _, hcompile, rfl⟩ := replaceCallSite_eq_error hnext
  · exact h
  · -- the constants of the prelude that did not fit stay
    have hgrown := Prelude.grows_compile_unsought probe site.descriptor body.code.maxLocals _
      h.pool.indexed
    rw [Interning.after, hcompile] at hgrown
    exact h.grow hgrown

theorem Leaves.replace_ok (h : w.Leaves touched v) {next : Workpiece}
    (hnext : replaceCallSite site probe v = .ok () next) :
    w.Leaves (touched ++ [site.method]) next := by
  obtain ⟨body, prelude, pool, heditable, hcompile, rfl⟩ := replaceCallSite_eq_ok hnext
  have hgrown := (Prelude.grows_compile_unsought probe site.descriptor body.code.maxLocals).of_ok
    h.pool.indexed hcompile
  have hstraight := Prelude.compile_straight h.pool.indexed hcompile
  obtain ⟨_, hold, hrel⟩ := exists_of_getElem?_right h.bodies (of_editable heditable)
  cases hrel with
  | @some b₀ _ hextends =>
    refine ⟨(h.grow hgrown).file, (h.grow hgrown).pool, ?_, ?_, ?_⟩
    · refine forall₂_set h.bodies fun b hb => ?_
      cases hold.symm.trans hb
      exact .some (hextends.insert _ hstraight)
    · intro k hk
      rw [List.mem_append, List.mem_singleton, not_or] at hk
      dsimp only
      rw [List.getElem?_set_ne (Ne.symm hk.2)]
      exact h.untouched k hk.1
    · intro k hk
      rcases List.mem_append.mp hk with hk | hk
      · exact h.touched k hk
      · obtain rfl := List.mem_singleton.mp hk
        exact ⟨b₀, hold⟩

theorem Leaves.editAll (h : w.Leaves touched v) (edits : List (CallSite × Probe)) :
    w.Leaves (touched ++ (v.editAll edits).1) (v.editAll edits).2 := by
  induction edits generalizing v touched with
  | nil =>
    rw [Workpiece.editAll, List.append_nil]
    exact h
  | cons edit rest ih =>
    obtain ⟨site, probe⟩ := edit
    rw [Workpiece.editAll]
    cases hnext : replaceCallSite site probe v with
    | ok _ next =>
      have hrest := ih (h.replace_ok hnext)
      rwa [List.append_assoc] at hrest
    | error fault next => exact ih (h.replace_error hnext)

/-! ### Reading what was written -/

theorem parse_eq_ok {data : Bytes} {w : Workpiece} :
    parse data = .ok w ↔ ClassFile.parse data = .ok w.file ∧ TypeInfo.ofClass w.file = .ok w.info ∧
      List.Forall₂ (fun m b => bodyOf w.file.pool m = .ok b) w.file.methods w.bodies := by
  unfold parse
  simp only [bind_eq_ok, pure_eq_ok, ← mapM_eq_ok]
  constructor
  · rintro ⟨file, hfile, info, hinfo, bodies, hbodies, rfl⟩
    exact ⟨hfile, hinfo, hbodies⟩
  · rintro ⟨hfile, hinfo, hbodies⟩
    exact ⟨w.file, hfile, w.info, hinfo, w.bodies, hbodies, rfl⟩

theorem bodyOf_eq_some {pool : Pool} {m : Member} {b : Body} (h : bodyOf pool m = .ok (some b)) :
    ∃ holder a, m.findAttribute pool "Code" = some holder ∧ m.attributes[holder]? = some a ∧
      Body.parse holder a.info = .ok b := by
  unfold bodyOf at h
  split at h
  · cases h
  next holder hholder =>
    split at h
    · cases h
    next a ha =>
      obtain ⟨_, hparse, hb⟩ := map_eq_ok.mp h
      cases hb
      exact ⟨holder, a, hholder, ha, hparse⟩

theorem extends_of_bodyOf {pool : Pool} {m : Member} {b : Option Body}
    (h : bodyOf pool m = .ok b) : Option.Rel Body.Extends b b := by
  cases b with
  | none => exact .none
  | some b =>
    obtain ⟨_, _, _, _, hparse⟩ := bodyOf_eq_some h
    exact .some (Body.extends_of_parse hparse)

/-- A class that was read leaves itself. -/
theorem leaves_of_parse {data : Bytes} (h : parse data = .ok w) : w.Leaves [] w := by
  obtain ⟨hfile, _, hbodies⟩ := parse_eq_ok.mp h
  obtain ⟨_, hbytes, _⟩ := ClassFile.parse_eq_ok.mp hfile
  obtain ⟨_, _, _, _, _, hpool, _⟩ := ClassFile.bytes_eq_ok.mp hbytes
  refine ⟨rfl, .refl (Pool.isIndexed_of_bytes hpool), ?_, fun _ _ => rfl, by simp⟩
  rw [List.forall₂_same]
  intro b hb
  obtain ⟨m, _, hm⟩ := exists_of_mem_right hbodies hb
  exact extends_of_bodyOf hm

/-- The items of a body that was read are the instructions of its code. -/
theorem decode_of_parse {data : Bytes} (hw : parse data = .ok w) {k : Nat} {b : Body}
    (hb : w.bodies[k]? = some (some b)) :
    Instruction.decode b.code.code = .ok (b.items.map (·.instruction)) := by
  obtain ⟨_, _, hbodies⟩ := parse_eq_ok.mp hw
  obtain ⟨m, _, hbody⟩ := exists_of_getElem?_right hbodies hb
  obtain ⟨_, _, _, _, hparse⟩ := bodyOf_eq_some hbody
  exact (Body.of_parse hparse).2.2.1

/-- A method with a body may have another payload where its body is. -/
theorem bodyOf_modify {p q : Pool} {m : Member} {holder : Nat} {a : Attribute} {info : Bytes}
    {b : Body} (hgrown : Pool.Grown Constant.IsUnsought p q)
    (hholder : m.findAttribute p "Code" = some holder) (ha : m.attributes[holder]? = some a)
    (hparse : Body.parse holder info = .ok b) :
    bodyOf q { m with attributes := m.attributes.modify holder fun a => { a with info } } =
      .ok (some b) := by
  have hfind : Member.findAttribute { m with
      attributes := m.attributes.modify holder fun a => { a with info } } q "Code" = some holder := by
    rw [← hholder]
    exact Member.findAttribute_congr (map_modify_of_eq _ _ fun _ => rfl) hgrown
  have hinfo : (m.attributes.modify holder fun a => { a with info })[holder]? =
      some { a with info } := by
    rw [List.getElem?_modify_eq, ha]
    rfl
  unfold bodyOf
  rw [hfind]
  dsimp only
  rw [hinfo]
  dsimp only
  rw [hparse]
  rfl

theorem bodyOf_grown {p q : Pool} {m : Member} (hgrown : Pool.Grown Constant.IsUnsought p q) :
    bodyOf q m = bodyOf p m := by
  unfold bodyOf
  rw [Member.findAttribute_congr rfl hgrown]

theorem equalButCode_self {pool : Pool} {m : Member} {b : Body}
    (h : bodyOf pool m = .ok (some b)) : m.EqualButCode pool m := by
  obtain ⟨holder, a, hholder, ha, _⟩ := bodyOf_eq_some h
  refine ⟨holder, a.info, hholder, ?_⟩
  have hsame : m.attributes.modify holder (fun found => { found with info := a.info }) =
      m.attributes := by
    apply List.ext_getElem?
    intro k
    rw [List.getElem?_modify]
    split
    next hk =>
      rw [← hk, ha]
      rfl
    next => simp
  rw [hsame]

/-- A method is written with its own payload or with that of its edited body, which can be read. -/
theorem editedMethod_spec {p q : Pool} {m m' : Member} {b₀ b : Body}
    (hgrown : Pool.Grown Constant.IsUnsought p q) (hm : bodyOf p m = .ok (some b₀))
    (hextends : b₀.Extends b) (h : editedMethod q m (some b) = .ok m') :
    m.EqualButCode p m' ∧ ∃ b', bodyOf q m' = .ok (some b') ∧
      (b.isEdited = true → b.toCode q = .ok b'.code) := by
  unfold editedMethod at h
  dsimp only at h
  split at h
  next =>
    obtain ⟨code, hcode, h⟩ := bind_eq_ok.mp h
    obtain ⟨info, hinfo, h⟩ := bind_eq_ok.mp h
    obtain rfl := pure_eq_ok.mp h
    obtain ⟨holder, a, hholder, ha, hparse⟩ := bodyOf_eq_some hm
    obtain ⟨b', hparse', rfl⟩ := Body.exists_parse_of_toCode hparse hextends hcode hinfo
    have hplace : b.holder = holder := hextends.holder.trans (Body.of_parse hparse).1
    rw [hplace]
    exact ⟨⟨holder, info, hholder, rfl⟩, b', bodyOf_modify hgrown hholder ha hparse', fun _ => hcode⟩
  next hedited =>
    obtain rfl := pure_eq_ok.mp h
    exact ⟨equalButCode_self hm, b₀, (bodyOf_grown hgrown).trans hm, fun h => absurd h hedited⟩

theorem editedMethod_of_bodyOf {p q : Pool} {m m' : Member} {b : Option Body}
    (hm : bodyOf p m = .ok b) (h : editedMethod q m b = .ok m') : m' = m := by
  cases b with
  | none => exact (pure_eq_ok.mp h).symm
  | some b =>
    obtain ⟨_, _, _, _, hparse⟩ := bodyOf_eq_some hm
    unfold editedMethod at h
    dsimp only at h
    rw [Body.isEdited_of_parse hparse] at h
    exact (pure_eq_ok.mp h).symm

theorem editedMethod_reads {p q : Pool} {m m' : Member} {b₀ b : Option Body}
    (hgrown : Pool.Grown Constant.IsUnsought p q) (hm : bodyOf p m = .ok b₀)
    (hrel : Option.Rel Body.Extends b₀ b) (h : editedMethod q m b = .ok m') :
    (∃ b', bodyOf q m' = .ok b') ∧ m'.name = m.name ∧ m'.descriptor = m.descriptor := by
  cases hrel with
  | none =>
    obtain rfl := editedMethod_of_bodyOf hm h
    exact ⟨⟨none, (bodyOf_grown hgrown).trans hm⟩, rfl, rfl⟩
  | some hextends =>
    obtain ⟨⟨holder, info, _, rfl⟩, b', hbody, _⟩ := editedMethod_spec hgrown hm hextends h
    exact ⟨⟨some b', hbody⟩, rfl, rfl⟩

/-- A body as it was read, under edits, and read again from what is written with `pool`. -/
inductive Written (pool : Pool) : Option Body → Option Body → Option Body → Prop
  | none : Written pool none none none
  | kept {b₀ b : Body} : b₀.Extends b → b.isEdited = false →
    Written pool (some b₀) (some b) (some b₀)
  | edited {b₀ b b' : Body} : b₀.Extends b → b.isEdited = true → b.toCode pool = .ok b'.code →
    Written pool (some b₀) (some b) (some b')

theorem written_of_editedMethod {p q : Pool} {m m' : Member} {b₀ b b' : Option Body}
    (hgrown : Pool.Grown Constant.IsUnsought p q) (hm : bodyOf p m = .ok b₀)
    (hrel : Option.Rel Body.Extends b₀ b) (h : editedMethod q m b = .ok m')
    (hm' : bodyOf q m' = .ok b') : Written q b₀ b b' := by
  cases hrel with
  | none =>
    obtain rfl := editedMethod_of_bodyOf hm h
    rw [bodyOf_grown hgrown, hm] at hm'
    cases hm'
    exact .none
  | @some _ b hextends =>
    cases hedited : b.isEdited with
    | false =>
      unfold editedMethod at h
      dsimp only at h
      rw [hedited] at h
      obtain rfl := pure_eq_ok.mp h
      rw [bodyOf_grown hgrown, hm] at hm'
      cases hm'
      exact .kept hextends hedited
    | true =>
      obtain ⟨_, _, hbody, hcode⟩ := editedMethod_spec hgrown hm hextends h
      cases hm'.symm.trans hbody
      exact .edited hextends hedited (hcode hedited)

/-- `v` is `w` with constants added behind its own, and with other payloads in the first Code
attributes of the methods `touched`. -/
structure Rewritten (touched : List Nat) (w v : Workpiece) : Prop where
  minor : v.file.minor = w.file.minor
  major : v.file.major = w.file.major
  access : v.file.access = w.file.access
  thisClass : v.file.thisClass = w.file.thisClass
  superClass : v.file.superClass = w.file.superClass
  interfaces : v.file.interfaces = w.file.interfaces
  fields : v.file.fields = w.file.fields
  attributes : v.file.attributes = w.file.attributes
  pool : w.file.pool.slots.toList <+: v.file.pool.slots.toList
  info : v.info = w.info
  methods : v.file.methods.length = w.file.methods.length
  untouched : ∀ k ∉ touched, v.file.methods[k]? = w.file.methods[k]?
  touched : ∀ k ∈ touched, ∃ m m', w.file.methods[k]? = some m ∧ v.file.methods[k]? = some m' ∧
    m.EqualButCode w.file.pool m'

theorem serialize_eq_ok {out : Bytes} :
    v.serialize = .ok out ↔ ∃ methods, List.Forall₂
      (fun mb m' => editedMethod v.file.pool mb.1 mb.2 = .ok m') (v.file.methods.zip v.bodies) methods ∧
      ClassFile.bytes { v.file with methods } = .ok out := by
  unfold serialize
  simp only [bind_eq_ok, mapM_eq_ok]

section Methods

variable {methods : List Member} (h : w.Leaves touched v)
  (hbodies : List.Forall₂ (fun m b => bodyOf w.file.pool m = .ok b) w.file.methods w.bodies)
  (hmethods : List.Forall₂ (fun mb m' => editedMethod v.file.pool mb.1 mb.2 = .ok m')
    (v.file.methods.zip v.bodies) methods)

include h hbodies hmethods

/-- Each method, as it was read and as it is written. -/
theorem exists_edited {k : Nat} {m : Member} (hm : w.file.methods[k]? = some m) :
    ∃ b₀ b m', w.bodies[k]? = some b₀ ∧ v.bodies[k]? = some b ∧ methods[k]? = some m' ∧
      bodyOf w.file.pool m = .ok b₀ ∧ Option.Rel Body.Extends b₀ b ∧
      editedMethod v.file.pool m b = .ok m' := by
  obtain ⟨b₀, hb₀, hbody⟩ := exists_of_getElem?_left hbodies hm
  obtain ⟨b, hb, hrel⟩ := exists_of_getElem?_left h.bodies hb₀
  have hv : v.file.methods[k]? = some m := by
    rw [h.file]
    exact hm
  have hzip : (v.file.methods.zip v.bodies)[k]? = some (m, b) :=
    List.getElem?_zip_eq_some.mpr ⟨hv, hb⟩
  obtain ⟨m', hm', hedited⟩ := exists_of_getElem?_left hmethods hzip
  exact ⟨b₀, b, m', hb₀, hb, hm', hbody, hrel, hedited⟩

theorem length_edited : methods.length = w.file.methods.length := by
  have hzip := hmethods.length_eq
  rw [List.length_zip, ← h.bodies.length_eq, ← hbodies.length_eq, h.file] at hzip
  dsimp only at hzip
  omega

theorem forall₂_edited : List.Forall₂ (fun m m' : Member =>
    (∃ b, bodyOf v.file.pool m' = .ok b) ∧ m'.name = m.name ∧ m'.descriptor = m.descriptor)
    w.file.methods methods := by
  refine forall₂_of_getElem? (length_edited h hbodies hmethods) fun k m hm => ?_
  obtain ⟨_, _, m', _, _, hm', hbody, hrel, hedited⟩ := exists_edited h hbodies hmethods hm
  exact ⟨m', hm', editedMethod_reads h.pool hbody hrel hedited⟩

theorem getElem?_of_untouched {k : Nat} (hk : k ∉ touched) :
    methods[k]? = w.file.methods[k]? := by
  cases hm : w.file.methods[k]? with
  | none =>
    rw [List.getElem?_eq_none_iff] at hm ⊢
    rwa [length_edited h hbodies hmethods]
  | some m =>
    obtain ⟨_, _, _, hb₀, hb, hm', hbody, _, hedited⟩ := exists_edited h hbodies hmethods hm
    rw [h.untouched k hk, hb₀] at hb
    cases hb
    rw [hm', editedMethod_of_bodyOf hbody hedited]

theorem equalButCode_of_touched {k : Nat} (hk : k ∈ touched) :
    ∃ m m', w.file.methods[k]? = some m ∧ methods[k]? = some m' ∧
      m.EqualButCode w.file.pool m' := by
  obtain ⟨b₀, hb₀⟩ := h.touched k hk
  obtain ⟨m, hm, _⟩ := exists_of_getElem?_right hbodies hb₀
  obtain ⟨_, b, m', hfound, _, hm', hbody, hrel, hedited⟩ := exists_edited h hbodies hmethods hm
  cases hb₀.symm.trans hfound
  cases hrel with
  | some hextends =>
    exact ⟨m, m', hm, hm', (editedMethod_spec h.pool hbody hextends hedited).1⟩

end Methods

/-- What is written of a class after edits is read again. -/
theorem Leaves.exists_parse {data out : Bytes} (hw : parse data = .ok w) (h : w.Leaves touched v)
    (hout : v.serialize = .ok out) :
    ∃ methods bodies, List.Forall₂ (fun mb m' => editedMethod v.file.pool mb.1 mb.2 = .ok m')
        (v.file.methods.zip v.bodies) methods ∧
      parse out = .ok ⟨{ w.file with pool := v.file.pool, methods }, w.info, bodies⟩ := by
  obtain ⟨hfile, hinfo, hbodies⟩ := parse_eq_ok.mp hw
  obtain ⟨hshaped, _, name, hname⟩ := ClassFile.parse_eq_ok.mp hfile
  obtain ⟨methods, hmethods, hwritten⟩ := serialize_eq_ok.mp hout
  have hkept := forall₂_edited h hbodies hmethods
  have hclass : ClassFile.bytes { w.file with pool := v.file.pool, methods } = .ok out := by
    rw [← hwritten, h.file]
  have hread : ClassFile.parse out = .ok { w.file with pool := v.file.pool, methods } :=
    ClassFile.parse_eq_ok.mpr ⟨h.pool.isShaped hshaped, hclass, name, h.pool.typeName hname⟩
  have hsame := TypeInfo.ofClass_grown h.pool (hkept.imp fun _ _ => And.right) hinfo
  have hdecode : ∀ m' ∈ methods, ∃ b, bodyOf v.file.pool m' = .ok b := by
    intro m' hm'
    obtain ⟨_, _, hbody, _⟩ := exists_of_mem_right hkept hm'
    exact hbody
  obtain ⟨bodies, hdecoded⟩ := exists_forall₂ hdecode
  exact ⟨methods, bodies, hmethods, parse_eq_ok.mpr ⟨hread, hsame, hdecoded⟩⟩

/-- What is written of each body is read again. -/
theorem Leaves.exists_written {data out : Bytes} (hw : parse data = .ok w) (h : w.Leaves touched v)
    (hout : v.serialize = .ok out) :
    ∃ u, parse out = .ok u ∧ u.file.pool = v.file.pool ∧ u.info = w.info ∧
      u.bodies.length = w.bodies.length ∧ ∀ (k : Nat) (b₀ : Option Body),
        w.bodies[k]? = some b₀ → ∃ b b', v.bodies[k]? = some b ∧ u.bodies[k]? = some b' ∧
          Written v.file.pool b₀ b b' := by
  obtain ⟨methods, bodies, hmethods, hread⟩ := h.exists_parse hw hout
  obtain ⟨_, _, hbodies⟩ := parse_eq_ok.mp hw
  obtain ⟨_, _, hwritten⟩ := parse_eq_ok.mp hread
  refine ⟨_, hread, rfl, rfl, ?_, fun k b₀ hb₀ => ?_⟩
  · exact hwritten.length_eq.symm.trans
      ((length_edited h hbodies hmethods).trans hbodies.length_eq)
  · obtain ⟨m, hm, hbody⟩ := exists_of_getElem?_right hbodies hb₀
    obtain ⟨_, b, m', hfound, hb, hm', _, hrel, hedited⟩ := exists_edited h hbodies hmethods hm
    cases hb₀.symm.trans hfound
    obtain ⟨b', hb', hbody'⟩ := exists_of_getElem?_left hwritten hm'
    exact ⟨b, b', hb, hb', written_of_editedMethod h.pool hbody hrel hedited hbody'⟩

/-- After any edits, what is written is read again, and it is the class that was edited but for the
constants and the bodies that were added. -/
theorem serialize_rewritten {data out : Bytes} (hw : parse data = .ok w)
    (edits : List (CallSite × Probe)) (hout : (w.editAll edits).2.serialize = .ok out) :
    ∃ v, parse out = .ok v ∧ Rewritten (w.editAll edits).1 w v := by
  obtain ⟨_, _, hbodies⟩ := parse_eq_ok.mp hw
  have h := (leaves_of_parse hw).editAll edits
  rw [List.nil_append] at h
  generalize (w.editAll edits).1 = touched at h ⊢
  generalize (w.editAll edits).2 = u at h hout
  obtain ⟨methods, bodies, hmethods, hread⟩ := h.exists_parse hw hout
  exact ⟨_, hread, {
    minor := rfl
    major := rfl
    access := rfl
    thisClass := rfl
    superClass := rfl
    interfaces := rfl
    fields := rfl
    attributes := rfl
    pool := h.pool.isPrefix
    info := rfl
    methods := length_edited h hbodies hmethods
    untouched := fun _ hk => getElem?_of_untouched h hbodies hmethods hk
    touched := fun _ hk => equalButCode_of_touched h hbodies hmethods hk }⟩

/-- A class with a method that starts a thread. -/
def starter : ClassFile where
  minor := 0
  major := 52
  pool := ⟨#[none, some (.utf8 (ModifiedUtf8.encode "A")), some (.type 1),
    some (.utf8 (ModifiedUtf8.encode "Code")),
    some (.utf8 (ModifiedUtf8.encode "java/lang/Thread")), some (.type 4),
    some (.utf8 (ModifiedUtf8.encode "start")), some (.utf8 (ModifiedUtf8.encode "()V")),
    some (.nameAndType 6 7), some (.member .method 5 8)]⟩
  access := 0x21
  thisClass := 2
  superClass := 0
  interfaces := []
  fields := []
  methods := [⟨9, 6, 7, [⟨3, [0, 1, 0, 0, 0, 0, 0, 5, 0x01, 0xB6, 0, 9, 0xB1, 0, 0, 0, 0]⟩]⟩]
  attributes := []

/-- The call that `starter` makes. -/
def startCall : CallSite := ⟨0, 1, 1, .virtual, "java/lang/Thread", "start", "()V"⟩

def startProbe : Probe := ⟨.start, "java/lang/Thread", false, false⟩

/-- Its call, asked for twice. -/
def startTwice : List (CallSite × Probe) := [(startCall, startProbe), (startCall, startProbe)]

theorem serialize_rewritten_twice :
    ∃ data w out v, starter.bytes = .ok data ∧ parse data = .ok w ∧
      (w.editAll startTwice).2.serialize = .ok out ∧ (w.editAll startTwice).1 = [0] ∧
      parse out = .ok v ∧ Rewritten [0] w v := by
  have hrun : (do
      let data ← starter.bytes
      let w ← parse data
      let _ ← (w.editAll startTwice).2.serialize
      return (w.editAll startTwice).1) = .ok [0] := by
    decide +kernel
  obtain ⟨data, hdata, hrun⟩ := bind_eq_ok.mp hrun
  obtain ⟨w, hw, hrun⟩ := bind_eq_ok.mp hrun
  obtain ⟨out, hout, hrun⟩ := bind_eq_ok.mp hrun
  have htouched := pure_eq_ok.mp hrun
  obtain ⟨v, hv, hrewritten⟩ := serialize_rewritten hw startTwice hout
  rw [htouched] at hrewritten
  exact ⟨data, w, out, v, hdata, hw, hout, htouched, hv, hrewritten⟩

end Workpiece

end ThreadWatch
