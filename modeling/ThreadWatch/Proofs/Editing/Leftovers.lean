import ThreadWatch.Proofs.Editing.Room
import ThreadWatch.Proofs.Editing.Sites

/-!
# What refused edits leave

An edit that is refused leaves the class as it was, unless it is refused for want of room in the
pool. Then the constants that found room stay: the class is written with them, and is otherwise what
it was.
-/

namespace ThreadWatch

/-! ### Writing more constants -/

namespace Constant

/-- The constant has bytes; only a text can be too long for them. -/
def IsWritable (c : Constant) : Prop := ∃ bytes, c.bytes = .ok bytes

theorem isWritable_utf8 {text : Bytes} (h : text.length < 65536) : (utf8 text).IsWritable :=
  ⟨_, bytes_eq_ok.mpr ⟨_, prefixedBytes_eq_ok.mpr ⟨h, rfl⟩, rfl⟩⟩

theorem isWritable_of_ne_utf8 {c : Constant} (h : ∀ text, c ≠ utf8 text) : c.IsWritable := by
  cases c with
  | utf8 text => exact absurd rfl (h text)
  | _ => exact ⟨_, rfl⟩

end Constant

namespace Pool

variable {p q : Pool}

/-- A pool with an index for every slot can be written if its constants can. -/
theorem exists_bytes_iff : (∃ bytes, p.bytes = .ok bytes) ↔
    p.IsIndexed ∧ ∀ c, some c ∈ p.slots.toList.drop 1 → c.IsWritable := by
  constructor
  · rintro ⟨bytes, hbytes⟩
    refine ⟨isIndexed_of_bytes hbytes, fun c hc => ?_⟩
    obtain ⟨_, _, ⟨parts, hparts, _⟩, _⟩ := bytes_eq_ok.mp hbytes
    obtain ⟨part, _, hpart⟩ := exists_of_mem_left (mapM_eq_ok.mp hparts) hc
    exact ⟨part, hpart⟩
  · rintro ⟨hindexed, hwritable⟩
    have hslots : ∀ slot ∈ p.slots.toList.drop 1, ∃ bytes, slotBytes slot = .ok bytes := by
      intro slot hslot
      cases slot with
      | none => exact ⟨[], rfl⟩
      | some c => exact hwritable c hslot
    obtain ⟨parts, hparts⟩ := exists_forall₂ hslots
    have hcount : p.count < 65536 := Nat.lt_succ_of_le hindexed
    exact ⟨_, bytes_eq_ok.mpr ⟨hcount, _, ⟨parts, mapM_eq_ok.mpr hparts, rfl⟩, rfl⟩⟩

theorem exists_bytes_grown (h : Grown Constant.IsWritable p q) {bytes : Bytes}
    (hp : p.bytes = .ok bytes) : ∃ bytes', q.bytes = .ok bytes' := by
  obtain ⟨_, hold⟩ := exists_bytes_iff.mp ⟨bytes, hp⟩
  obtain ⟨cs, hcs, hslots⟩ := h.slots
  refine exists_bytes_iff.mpr ⟨h.indexed, fun c hc => ?_⟩
  rw [hslots, List.drop_append, List.mem_append] at hc
  rcases hc with hc | hc
  · exact hold c hc
  · obtain ⟨d, hd, hmem⟩ := List.mem_flatMap.mp (List.mem_of_mem_drop hc)
    rw [mem_spread_iff.mp hmem]
    exact hcs d hd

/-- A constant that was in no slot is in none, if it is not one of the others. -/
theorem Grown.find?_eq_none {allowed : Constant → Prop} (h : Grown allowed p q) {c : Constant}
    (hc : ¬ allowed c) (hp : p.find? c = none) : q.find? c = none := by
  rw [find?_eq_none_iff] at hp ⊢
  obtain ⟨cs, hcs, hslots⟩ := h.slots
  intro i hi
  rw [← Array.getElem?_toList, hslots] at hi
  rcases List.mem_append.mp (List.mem_of_getElem? hi) with hold | hnew
  · obtain ⟨k, hk⟩ := List.mem_iff_getElem?.mp hold
    exact hp k (Array.getElem?_toList ▸ hk)
  · obtain ⟨d, hd, hmem⟩ := List.mem_flatMap.mp hnew
    exact hc (mem_spread_iff.mp hmem ▸ hcs d hd)

end Pool

theorem ClassFile.exists_bytes_grown {c : ClassFile} {q : Pool}
    (h : Pool.Grown Constant.IsWritable c.pool q) {out : Bytes} (hc : c.bytes = .ok out) :
    ∃ out', { c with pool := q }.bytes = .ok out' := by
  obtain ⟨_, interfaces, fields, methods, attributes, hpool, hrest⟩ := bytes_eq_ok.mp hc
  obtain ⟨pool, hpool⟩ := Pool.exists_bytes_grown h hpool
  exact ⟨_, bytes_eq_ok.mpr ⟨pool, interfaces, fields, methods, attributes, hpool, hrest.1,
    hrest.2.1, hrest.2.2.1, hrest.2.2.2.1, rfl⟩⟩

/-- Of the constants of a prelude only the line it prints can be too long. -/
theorem Prelude.isWritable_of_oneOf {probe : Probe} {p : Pool} {c : Constant}
    (hdetection : (ModifiedUtf8.encode probe.detection).length < 65536)
    (h : Symbol.OneOf (constants probe) p c) : c.IsWritable := by
  have hfixed : ∀ s ∈ constants ⟨.start, "", true, true⟩, ∀ text, s = .utf8 text →
      (ModifiedUtf8.encode text).length < 65536 := by
    have hshort : (constants ⟨.start, "", true, true⟩).all (fun s => match s with
        | .utf8 text => decide ((ModifiedUtf8.encode text).length < 65536)
        | _ => true) = true := by
      decide +kernel
    rintro s hs text rfl
    exact of_decide_eq_true (List.all_eq_true.mp hshort _ hs)
  by_cases htext : ∃ bytes, c = .utf8 bytes
  · obtain ⟨bytes, rfl⟩ := htext
    obtain ⟨s, hs, hc⟩ := h
    obtain ⟨text, rfl, rfl⟩ := Symbol.utf8_of_constant? hc
    apply Constant.isWritable_utf8
    rcases eq_detection_or_utf8_mem hs with rfl | hmem
    · exact hdetection
    · exact hfixed _ hmem text rfl
  · exact Constant.isWritable_of_ne_utf8 fun bytes hbytes => htext ⟨bytes, hbytes⟩

/-! ### Classes with more constants -/

section Grown

variable {p q : Pool} (h : Pool.Grown Constant.IsUnsought p q)

include h

/-- What becomes of a body depends on names that no prelude brings in. -/
theorem Body.toCode_grown (b : Body) : b.toCode q = b.toCode p := by
  have hmove : Body.moveAttribute q = Body.moveAttribute p := by
    funext l a
    unfold moveAttribute
    simp only [Attribute.isNamed_grown h (show "RuntimeVisibleTypeAnnotations" ∈ _ by decide),
      Attribute.isNamed_grown h (show "RuntimeInvisibleTypeAnnotations" ∈ _ by decide),
      Attribute.isNamed_grown h (show "LineNumberTable" ∈ _ by decide),
      Attribute.isNamed_grown h (show "LocalVariableTable" ∈ _ by decide),
      Attribute.isNamed_grown h (show "LocalVariableTypeTable" ∈ _ by decide),
      Attribute.isNamed_grown h (show "StackMapTable" ∈ _ by decide)]
  unfold toCode
  rw [hmove]

namespace Workpiece

theorem editedMethod_grown (m : Member) (body : Option Body) :
    editedMethod q m body = editedMethod p m body := by
  unfold editedMethod
  cases body with
  | none => rfl
  | some body =>
    dsimp only
    rw [body.toCode_grown h]

end Workpiece

end Grown

namespace Workpiece

variable {w v next : Workpiece} {data out : Bytes} {touched : List Nat}

/-- The class with another pool. -/
def withPool (v : Workpiece) (pool : Pool) : Workpiece := { v with file := { v.file with pool } }

theorem callSites_withPool {pool : Pool} (h : Pool.Grown Constant.IsUnsought v.file.pool pool)
    {sites : List CallSite} (hsites : v.callSites = .ok sites) :
    (v.withPool pool).callSites = .ok sites := by
  have hbodies : List.Forall₂ (Option.Rel fun b b' : Body =>
      b'.items.map (·.instruction) = b.items.map (·.instruction)) v.bodies v.bodies := by
    refine List.forall₂_same.mpr fun b _ => ?_
    cases b with
    | none => exact .none
    | some body => exact .some rfl
  exact callSites_kept (v := v.withPool pool) h hbodies hsites

/-- What was read is written as it was. -/
theorem serialize_of_parse (hw : parse data = .ok w) : w.serialize = .ok data := by
  obtain ⟨hfile, _, hbodies⟩ := parse_eq_ok.mp hw
  obtain ⟨_, hbytes, _⟩ := ClassFile.parse_eq_ok.mp hfile
  refine serialize_eq_ok.mpr ⟨w.file.methods, ?_, hbytes⟩
  refine forall₂_of_getElem? ?_ fun k mb hmb => ?_
  · rw [List.length_zip, ← hbodies.length_eq, Nat.min_self]
  obtain ⟨hm, hb⟩ := List.getElem?_zip_eq_some.mp hmb
  obtain ⟨b, hfound, hbody⟩ := exists_of_getElem?_left hbodies hm
  cases hb.symm.trans hfound
  refine ⟨mb.1, hm, ?_⟩
  unfold editedMethod
  cases hbody' : mb.2 with
  | none => rfl
  | some body =>
    rw [hbody'] at hbody
    obtain ⟨_, _, _, _, hparse⟩ := bodyOf_eq_some hbody
    dsimp only
    rw [Body.isEdited_of_parse hparse]
    rfl

/-- With more constants a class is written as it is without them, but for its pool. -/
theorem serialize_withPool (hw : parse data = .ok w) (h : w.Leaves touched v)
    (hout : v.serialize = .ok out) {pool : Pool}
    (hpool : Pool.Grown Constant.IsUnsought v.file.pool pool) :
    ∃ c, ClassFile.parse out = .ok c ∧ c.pool = v.file.pool ∧
      (v.withPool pool).serialize = { c with pool }.bytes := by
  obtain ⟨methods, bodies, hmethods, hread⟩ := h.exists_parse hw hout
  refine ⟨_, (parse_eq_ok.mp hread).1, rfl, ?_⟩
  have hsame : ((v.withPool pool).file.methods.zip (v.withPool pool).bodies).mapM (fun mb =>
      editedMethod (v.withPool pool).file.pool mb.1 mb.2) = .ok methods := by
    refine mapM_eq_ok.mpr (hmethods.imp fun mb m' hm' => ?_)
    exact (editedMethod_grown hpool mb.1 mb.2).trans hm'
  have hserialize : (v.withPool pool).serialize =
      (((v.withPool pool).file.methods.zip (v.withPool pool).bodies).mapM fun mb =>
        editedMethod (v.withPool pool).file.pool mb.1 mb.2) >>= fun methods =>
          ClassFile.bytes { (v.withPool pool).file with methods } := rfl
  rw [hserialize, hsame]
  show ClassFile.bytes { (v.withPool pool).file with methods } = _
  rw [withPool, h.file]

/-! ### Refused edits -/

/-- The faults of the edits that are refused, one edit asked for after the other. -/
def refusals : Workpiece → List (CallSite × Probe) → List Fault
  | _, [] => []
  | w, (site, probe) :: rest =>
    match replaceCallSite site probe w with
    | .ok _ next => refusals next rest
    | .error fault next => fault :: refusals next rest

/-- What is left of a class when a probe is refused for this fault. -/
structure Leftover (v : Workpiece) (probe : Probe) (fault : Fault) (next : Workpiece) : Prop where
  /-- Nothing changes but for want of room, -/
  same : fault ≠ .poolFull → next = v
  /-- and then the pool is full. -/
  full : fault = .poolFull → next.file.pool.count = Pool.capacity
  /-- Behind the constants that were there are some that the steps of the prelude ask for, -/
  pool : Pool.Grown (Symbol.OneOf (Prelude.constants probe) next.file.pool) v.file.pool
    next.file.pool
  /-- and nothing else is changed. -/
  others : next = v.withPool next.file.pool
  isEdited : next.isEdited = v.isEdited
  callSites : ∀ sites, v.callSites = .ok sites → next.callSites = .ok sites
  /-- It is written as before, but for the pool, -/
  serialize : ∀ out, v.serialize = .ok out → ∃ c, ClassFile.parse out = .ok c ∧
    c.pool = v.file.pool ∧ next.serialize = { c with pool := next.file.pool }.bytes
  /-- and can be written if the line that the prelude prints is not too long. -/
  writable : (ModifiedUtf8.encode probe.detection).length < 65536 →
    ∀ out, v.serialize = .ok out → ∃ out', next.serialize = .ok out'

theorem editable_eq_error {site : CallSite} {fault : Fault} (h : v.editable site = .error fault) :
    fault ≠ .poolFull := by
  unfold editable at h
  split at h
  · split at h
    · split at h
      · cases h
        exact nofun
      · split at h
        · cases h
          exact nofun
        · cases h
    · cases h
      exact nofun
  · cases h
    exact nofun

theorem leftover_withPool (hw : parse data = .ok w) (h : w.Leaves touched v) {probe : Probe}
    {fault : Fault} {pool : Pool}
    (hpool : Pool.Grown (Symbol.OneOf (Prelude.constants probe) pool) v.file.pool pool)
    (hfault : fault ≠ .poolFull ∧ pool = v.file.pool ∨
      fault = .poolFull ∧ pool.count = Pool.capacity) :
    Leftover v probe fault (v.withPool pool) where
  same := by
    rintro hne
    rcases hfault with ⟨_, rfl⟩ | ⟨hfull, _⟩
    · rfl
    · exact absurd hfull hne
  full := by
    rintro rfl
    exact (hfault.resolve_left fun hne => hne.1 rfl).2
  pool := hpool
  others := rfl
  isEdited := rfl
  callSites _ := callSites_withPool (hpool.mono fun _ => Prelude.isUnsought_of_oneOf)
  serialize _ hout :=
    serialize_withPool hw h hout (hpool.mono fun _ => Prelude.isUnsought_of_oneOf)
  writable := by
    intro hdetection out hout
    obtain ⟨c, hc, hold, hserialize⟩ :=
      serialize_withPool hw h hout (hpool.mono fun _ => Prelude.isUnsought_of_oneOf)
    rw [hserialize]
    refine ClassFile.exists_bytes_grown ?_ (ClassFile.parse_eq_ok.mp hc).2.1
    rw [hold]
    exact hpool.mono fun _ => Prelude.isWritable_of_oneOf hdetection

theorem leftover_of_refused (hw : parse data = .ok w) (h : w.Leaves touched v) {site : CallSite}
    {probe : Probe} {fault : Fault} (hnext : replaceCallSite site probe v = .error fault next) :
    Leftover v probe fault next := by
  obtain ⟨hrefused, rfl⟩ | ⟨body, pool, _, hcompile, rfl⟩ := replaceCallSite_eq_error hnext
  · exact leftover_withPool hw h (.refl h.pool.indexed) (.inl ⟨editable_eq_error hrefused, rfl⟩)
  · have hgrown := Prelude.brings_compile probe site.descriptor body.code.maxLocals v.file.pool
      h.pool.indexed
    rw [Interning.BringsTo, Interning.after, hcompile] at hgrown
    exact leftover_withPool hw h hgrown (Prelude.compile_eq_error h.pool.indexed hcompile)

/-- A run of edits that are all refused, none of them for want of room, leaves the class alone. -/
theorem editAll_of_refused (hw : parse data = .ok w) {edits : List (CallSite × Probe)}
    (hnone : (w.editAll edits).1 = []) (hroom : Fault.poolFull ∉ w.refusals edits) :
    (w.editAll edits).2 = w := by
  induction edits with
  | nil => rfl
  | cons edit rest ih =>
    obtain ⟨site, probe⟩ := edit
    rw [editAll] at hnone ⊢
    rw [refusals] at hroom
    cases hnext : replaceCallSite site probe w with
    | ok _ next =>
      rw [hnext] at hnone
      cases hnone
    | error fault next =>
      rw [hnext] at hnone hroom
      rw [List.mem_cons, not_or] at hroom
      obtain rfl := (leftover_of_refused hw (leaves_of_parse hw) hnext).same (Ne.symm hroom.1)
      exact ih hnone hroom.2

/-- After any edits, one that is refused leaves the class as it is, but for constants that found
room before the pool was full. A class that no edit was made in, and none refused for want of room,
is written as it was read. -/
theorem refused_edits_leave_constants (hw : parse data = .ok w) (edits : List (CallSite × Probe)) :
    (∀ site probe fault next, replaceCallSite site probe (w.editAll edits).2 = .error fault next →
      Leftover (w.editAll edits).2 probe fault next) ∧
    ((w.editAll edits).1 = [] → Fault.poolFull ∉ w.refusals edits →
      (w.editAll edits).2.serialize = .ok data) := by
  refine ⟨fun site probe fault next hnext => ?_, fun hnone hroom => ?_⟩
  · exact leftover_of_refused hw ((leaves_of_parse hw).editAll edits) hnext
  · rw [editAll_of_refused hw hnone hroom]
    exact serialize_of_parse hw

theorem refused_edits_leave_constants_repeated :
    ∃ data w fault next, starter.bytes = .ok data ∧ parse data = .ok w ∧
      replaceCallSite startCall startProbe (w.editAll startTwice).2 = .error fault next ∧
      next = (w.editAll startTwice).2 ∧
      let elsewhere := [({ startCall with method := 7 }, startProbe)]
      (w.editAll elsewhere).1 = [] ∧ (w.editAll elsewhere).2.serialize = .ok data := by
  let elsewhere := [({ startCall with method := 7 }, startProbe)]
  let refused (w : Workpiece) : Bool :=
    match replaceCallSite startCall startProbe (w.editAll startTwice).2 with
    | .error fault _ => fault ≠ .poolFull
    | .ok _ _ => false
  have hrun : (do
      let data ← starter.bytes
      let w ← parse data
      return refused w && (w.editAll elsewhere).1.isEmpty &&
        !(w.refusals elsewhere).contains .poolFull) = .ok true := by
    decide +kernel
  obtain ⟨data, hdata, hrun⟩ := bind_eq_ok.mp hrun
  obtain ⟨w, hw, hrun⟩ := bind_eq_ok.mp hrun
  have hfacts := pure_eq_ok.mp hrun
  rw [Bool.and_eq_true, Bool.and_eq_true, List.isEmpty_iff, Bool.not_eq_true',
    List.contains_eq_mem, decide_eq_false_iff_not] at hfacts
  obtain ⟨⟨hrefused, hnone⟩, hroom⟩ := hfacts
  dsimp only [refused] at hrefused
  split at hrefused
  next fault next hnext =>
    obtain ⟨hleft, _⟩ := refused_edits_leave_constants hw startTwice
    obtain ⟨_, hsame⟩ := refused_edits_leave_constants hw elsewhere
    exact ⟨data, w, fault, next, hdata, hw, hnext,
      (hleft _ _ fault next hnext).same (of_decide_eq_true hrefused), hnone, hsame hnone hroom⟩
  · cases hrefused

/-! ### A pool with room for one constant -/

/-- `starter`, with numbers up to the last slot but one. -/
def crowded : ClassFile :=
  { starter with
    pool := ⟨starter.pool.slots ++ Array.replicate 65524 (some (.integer 0))⟩ }

theorem count_crowded : crowded.pool.count = 65534 := by
  have hstarter : starter.pool.slots.size = 10 := by decide
  rw [Pool.count, crowded, Array.size_append, Array.size_replicate, hstarter]

theorem grown_crowded : Pool.Grown (· = .integer 0) starter.pool crowded.pool where
  indexed := by
    rw [Pool.IsIndexed, count_crowded]
    decide
  slots := by
    refine ⟨List.replicate 65524 (.integer 0), fun c => List.eq_of_mem_replicate, ?_⟩
    have hspread : Pool.spread (.integer 0) = [some (.integer 0)] := rfl
    rw [crowded, Array.toList_append, Array.toList_replicate, List.flatMap_replicate, hspread,
      List.flatten_replicate_singleton]

/-- The first text of the prelude finds room, and the type of that name finds none. -/
theorem addType_crowded :
    ∃ q, Pool.addType Prelude.system crowded.pool = .error .poolFull q := by
  let text : Constant := .utf8 (ModifiedUtf8.encode Prelude.system)
  have htext : crowded.pool.find? text = none :=
    grown_crowded.find?_eq_none nofun (by decide +kernel)
  have htype : crowded.pool.find? (.type 65534) = none :=
    grown_crowded.find?_eq_none nofun (by decide +kernel)
  -- the text takes the last slot, so the type cannot be added behind it
  let full : Pool := ⟨Pool.push crowded.pool.slots text⟩
  have hcount : full.count = 65535 := by
    rw [Pool.count, Pool.size_push, ← Pool.count, count_crowded]
    rfl
  have hadd : Pool.addUtf8 Prelude.system crowded.pool = .ok 65534 full := by
    rw [Pool.addUtf8, Pool.add_eq, htext, count_crowded]
    rfl
  have hgrown : Pool.Grown (fun c => ∃ bytes, c = .utf8 bytes) crowded.pool full :=
    (Interning.grows_add ⟨_, rfl⟩).of_ok grown_crowded.indexed hadd
  have hlast : Pool.add (.type 65534) full = .error .poolFull full := by
    rw [Pool.add_eq, hgrown.find?_eq_none (by simp) htype, hcount]
    rfl
  exact ⟨full, Stateful.bind_eq_error.mpr (.inr ⟨65534, full, hadd, hlast⟩)⟩

/-- A prelude begins with the type of the stream that it prints to. -/
theorem compile_of_addType {p q : Pool} {fault : Fault}
    (h : Pool.addType Prelude.system p = .error fault q) :
    Prelude.compile startProbe startCall.descriptor 0 p = .error fault q := by
  obtain ⟨b, hdup⟩ : ∃ b, Step.dup.assemble.on (Assembly.start 1) p = .ok b p ∧ b.depth = 2 :=
    ⟨_, Step.on_assemble_eq_ok.mpr ⟨1, 2, 0, rfl, rfl, by decide, by decide, rfl⟩, rfl⟩
  obtain ⟨c, hstore⟩ : ∃ c, (Step.store .reference 0).assemble.on b p = .ok c p := by
    refine ⟨_, Step.on_assemble_eq_ok.mpr ⟨1, 0, 0, rfl, rfl, ?_, ?_, rfl⟩⟩
    · rw [hdup.2]
      decide
    · rw [hdup.2]
      decide
  have hout : Prelude.out.assemble.on c p = .error fault q := by
    have heffect : Prelude.out.effect? = some (0, 1) := rfl
    rw [Step.on_assemble heffect]
    exact Stateful.bind_eq_error.mpr (.inl (Stateful.bind_eq_error.mpr (.inl h)))
  obtain ⟨rest, hsteps⟩ : ∃ rest, Prelude.steps startProbe ⟨[], none⟩ 0 =
      .dup :: .store .reference 0 :: Prelude.out :: rest := ⟨_, rfl⟩
  have hrun : (assembleAll (Prelude.steps startProbe ⟨[], none⟩ 0)).on (Assembly.start 1) p =
      .error fault q := by
    rw [hsteps, Assembly.on_assembleAll_cons]
    refine Stateful.bind_eq_error.mpr (.inr ⟨b, p, hdup.1, ?_⟩)
    rw [Assembly.on_assembleAll_cons]
    refine Stateful.bind_eq_error.mpr (.inr ⟨c, p, hstore, ?_⟩)
    rw [Assembly.on_assembleAll_cons]
    exact Stateful.bind_eq_error.mpr (.inl hout)
  have hd : MethodDescriptor.parse startCall.descriptor = .ok ⟨[], none⟩ := by cbv
  rw [Prelude.compile_of_parse hd, if_neg (by decide), if_neg (by decide)]
  exact Stateful.bind_eq_error.mpr (.inl hrun)

/-- Some constants can be put behind those of a class that was read. -/
theorem exists_parse_withPool (hw : parse data = .ok w) {pool : Pool}
    (h : Pool.Grown (fun c => c.IsUnsought ∧ c.IsWritable) w.file.pool pool) :
    ∃ data', parse data' = .ok (w.withPool pool) := by
  obtain ⟨hfile, hinfo, hbodies⟩ := parse_eq_ok.mp hw
  obtain ⟨hshaped, hbytes, name, hname⟩ := ClassFile.parse_eq_ok.mp hfile
  obtain ⟨data', hdata'⟩ := ClassFile.exists_bytes_grown (h.mono fun _ => And.right) hbytes
  have hunsought := h.mono fun _ => And.left
  refine ⟨data', parse_eq_ok.mpr ⟨ClassFile.parse_eq_ok.mpr
    ⟨h.isShaped hshaped, hdata', name, h.typeName hname⟩, ?_, ?_⟩⟩
  · exact TypeInfo.ofClass_grown h (List.forall₂_same.mpr fun _ _ => ⟨rfl, rfl⟩) hinfo
  · exact hbodies.imp fun m b hm => (bodyOf_grown hunsought).trans hm

theorem editable_withPool (v : Workpiece) (pool : Pool) (site : CallSite) :
    (v.withPool pool).editable site = v.editable site := rfl

theorem replaceCallSite_withPool {site : CallSite} {probe : Probe} {body : Body} {pool q : Pool}
    {fault : Fault} (hbody : v.editable site = .ok body)
    (h : Prelude.compile probe site.descriptor body.code.maxLocals pool = .error fault q) :
    replaceCallSite site probe (v.withPool pool) = .error fault (v.withPool q) := by
  unfold replaceCallSite
  rw [editable_withPool, hbody]
  dsimp only [withPool]
  rw [h]

/-- `starter` with a pool that has room for one constant is another class when its call was to be
given a prelude. -/
theorem exists_refused_edit {pool q : Pool}
    (hgrown : Pool.Grown (fun c => c.IsUnsought ∧ c.IsWritable) starter.pool pool)
    (hcount : pool.count = 65534) (hadd : Pool.addType Prelude.system pool = .error .poolFull q) :
    ∃ data w next, parse data = .ok w ∧ w.serialize = .ok data ∧ w.file.pool = pool ∧
      replaceCallSite startCall startProbe w = .error .poolFull next ∧
      next.file.pool.count = 65535 ∧ next.serialize ≠ w.serialize := by
  have hrun : (do
      let data ← starter.bytes
      let w ← parse data
      let body ← w.editable startCall
      return (w.file, body.code.maxLocals)) = .ok (starter, 0) := by
    decide +kernel
  obtain ⟨_, _, hrun⟩ := bind_eq_ok.mp hrun
  obtain ⟨w, hw, hrun⟩ := bind_eq_ok.mp hrun
  obtain ⟨body, hbody, hrun⟩ := bind_eq_ok.mp hrun
  obtain ⟨hfile, hlocals⟩ := Prod.mk.inj (pure_eq_ok.mp hrun)
  rw [← hfile] at hgrown
  obtain ⟨data, hdata⟩ := exists_parse_withPool hw hgrown
  have hnext : replaceCallSite startCall startProbe (w.withPool pool) =
      .error .poolFull (w.withPool q) := by
    refine replaceCallSite_withPool hbody ?_
    rw [hlocals]
    exact compile_of_addType hadd
  have hfull : q.count = 65535 :=
    (leftover_of_refused hdata (leaves_of_parse hdata) hnext).full rfl
  have hserialize := serialize_of_parse hdata
  refine ⟨data, _, _, hdata, hserialize, rfl, hnext, hfull, fun hsame => ?_⟩
  -- if the same bytes were written, the same pool would be read from them
  obtain ⟨methods, bodies, _, hread⟩ := ((leaves_of_parse hdata).replace_error hnext).exists_parse
    hdata (hsame.trans hserialize)
  have hpools : q = pool := congrArg (·.file.pool) (Except.ok.inj (hread.symm.trans hdata))
  rw [hpools] at hfull
  omega

/-- An edit that is refused for want of room is not undone. -/
theorem refused_edit_kept_constants :
    ∃ data w next, parse data = .ok w ∧ w.serialize = .ok data ∧ w.file.pool = crowded.pool ∧
      replaceCallSite startCall startProbe w = .error .poolFull next ∧
      next.file.pool.count = 65535 ∧ next.serialize ≠ w.serialize := by
  obtain ⟨q, hadd⟩ := addType_crowded
  refine exists_refused_edit (grown_crowded.mono ?_) count_crowded hadd
  rintro c rfl
  exact ⟨fun _ _ => nofun, Constant.isWritable_of_ne_utf8 fun _ => nofun⟩

end Workpiece

end ThreadWatch
