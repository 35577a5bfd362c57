import ThreadWatch.Editing.Workpiece
import ThreadWatch.Proofs.Fallible

/-!
# What edits are refused for

Three things are not supported: another prelude for a call that has one, locals for a prelude where
there are none left, and limits of a method beyond sixteen bits. Whatever else happens to a class
under edit fails otherwise, so a call that has no prelude yet is never refused for having one.
-/

namespace ThreadWatch

variable {α β σ : Type}

namespace Fault

/-- Something was asked for that is not supported or cannot be counted. -/
def isUnsupported : Fault → Bool
  | .notSupported _ | .overflow => true
  | _ => false

/-- A call was to be given a second prelude. -/
def isRepeat : Fault → Bool
  | .notSupported (.alreadyInstrumented _ _) => true
  | _ => false

/-- A prelude was asked for where there is one, or one whose locals cannot be counted. -/
def isOfPreludes : Fault → Bool
  | .overflow => true
  | fault => fault.isRepeat

theorem isOfPreludes_of_supported {fault : Fault} (h : fault.isUnsupported = false) :
    fault.isOfPreludes = false := by
  cases fault <;> first | rfl | cases h

theorem isRepeat_of_isOfPreludes {fault : Fault} (h : fault.isOfPreludes = false) :
    fault.isRepeat = false := by
  cases fault <;> first | rfl | exact h

theorem ne_overflow_of_isOfPreludes {fault : Fault} (h : fault.isOfPreludes = false) :
    fault ≠ .overflow := by
  rintro rfl
  cases h

end Fault

/-- If the step fails, then not with a fault of this kind. -/
def Spares (kind : Fault → Bool) (x : Except Fault α) : Prop :=
  ∀ fault, x = .error fault → kind fault = false

/-- If the step fails, then neither for want of support nor of a count that is large enough. -/
abbrev Supported (x : Except Fault α) : Prop := Spares Fault.isUnsupported x

/-- If the step fails, then not for a second prelude. -/
abbrev NoRepeat (x : Except Fault α) : Prop := Spares Fault.isRepeat x

/-- If the step fails, then as one that puts no preludes in. -/
abbrev NoPreludes (x : Except Fault α) : Prop := Spares Fault.isOfPreludes x

namespace Spares

variable {kind : Fault → Bool}

theorem ok (a : α) : Spares kind (.ok a) := nofun

theorem pure (a : α) : Spares kind (pure a) := nofun

theorem error {fault : Fault} (h : kind fault = false) :
    Spares kind (.error fault : Except Fault α) := by
  rintro _ ⟨⟩
  exact h

theorem bind {x : Except Fault α} {f : α → Except Fault β} (hx : Spares kind x)
    (hf : ∀ a, Spares kind (f a)) : Spares kind (x >>= f) := by
  intro fault h
  cases x with
  | error cause =>
    cases h
    exact hx _ rfl
  | ok a => exact hf a fault h

theorem map {x : Except Fault α} (hx : Spares kind x) (f : α → β) : Spares kind (f <$> x) := by
  intro fault h
  cases x with
  | error cause =>
    cases h
    exact hx _ rfl
  | ok a => cases h

theorem mapM {f : α → Except Fault β} (hf : ∀ a, Spares kind (f a)) (xs : List α) :
    Spares kind (xs.mapM f) := by
  induction xs with
  | nil => exact pure _
  | cons x xs ih =>
    rw [List.mapM_cons]
    exact (hf x).bind fun _ => ih.bind fun _ => pure _

theorem ite {p : Prop} [Decidable p] {x y : Except Fault α} (hx : Spares kind x)
    (hy : Spares kind y) : Spares kind (if p then x else y) := by
  split
  · exact hx
  · exact hy

theorem noPreludes {x : Except Fault α} (hx : Supported x) : NoPreludes x :=
  fun fault h => Fault.isOfPreludes_of_supported (hx fault h)

theorem noRepeat {x : Except Fault α} (hx : NoPreludes x) : NoRepeat x :=
  fun fault h => Fault.isRepeat_of_isOfPreludes (hx fault h)

end Spares

theorem Supported.damaged (cause : Damage) : Supported (damaged cause : Except Fault α) :=
  Spares.error rfl

/-- The step fails for want of support. -/
def Unsupported (x : Except Fault α) : Prop := ∃ limit, x = .error (.notSupported limit)

theorem Supported.not_unsupported {x : Except Fault α} (hx : Supported x) : ¬ Unsupported x := by
  rintro ⟨limit, h⟩
  cases hx _ h

theorem not_unsupported_ok (a : α) : ¬ Unsupported (.ok a : Except Fault α) := nofun

/-- Where the first of two steps is supported, it is the second that may be not. -/
theorem Supported.unsupported_bind_iff {x : Except Fault α} {f : α → Except Fault β}
    (hx : Supported x) : Unsupported (x >>= f) ↔ ∃ a, x = .ok a ∧ Unsupported (f a) := by
  constructor
  · rintro ⟨limit, h⟩
    rcases bind_eq_error.mp h with h | ⟨a, ha, h⟩
    · exact absurd ⟨limit, h⟩ hx.not_unsupported
    · exact ⟨a, ha, limit, h⟩
  · rintro ⟨a, ha, limit, h⟩
    exact ⟨limit, bind_eq_error.mpr (.inr ⟨a, ha, h⟩)⟩

/-- Where the second of two steps is supported, it is the first that may be not. -/
theorem unsupported_bind_iff_left {x : Except Fault α} {f : α → Except Fault β}
    (hf : ∀ a, Supported (f a)) : Unsupported (x >>= f) ↔ Unsupported x := by
  constructor
  · rintro ⟨limit, h⟩
    rcases bind_eq_error.mp h with h | ⟨a, _, h⟩
    · exact ⟨limit, h⟩
    · exact absurd ⟨limit, h⟩ (hf a).not_unsupported
  · rintro ⟨limit, h⟩
    exact ⟨limit, bind_eq_error.mpr (.inl h)⟩

/-- A list cannot be worked through for want of support if that is what the first element that fails
is in want of. -/
theorem unsupported_mapM_iff {f : α → Except Fault β} {xs : List α} :
    Unsupported (xs.mapM f) ↔ ∃ k x, xs[k]? = some x ∧
      (∀ b ∈ xs.take k, ∃ y, f b = .ok y) ∧ Unsupported (f x) := by
  constructor
  · rintro ⟨limit, h⟩
    obtain ⟨before, x, after, rfl, hbefore, hx⟩ := mapM_eq_error.mp h
    refine ⟨before.length, x, ?_, ?_, limit, hx⟩
    · rw [List.getElem?_append_right (Nat.le_refl _), Nat.sub_self]
      rfl
    · rwa [List.take_left']
      rfl
  · rintro ⟨k, x, hk, hbefore, limit, hx⟩
    obtain ⟨hlt, rfl⟩ := List.getElem?_eq_some_iff.mp hk
    refine ⟨limit, mapM_eq_error.mpr ⟨xs.take k, xs[k], xs.drop (k + 1), ?_, hbefore, hx⟩⟩
    rw [← List.drop_eq_getElem_cons hlt, List.take_append_drop]

/-- From no state the step fails with a fault of this kind. -/
def SparesFrom (kind : Fault → Bool) (x : EStateM Fault σ α) : Prop :=
  ∀ s fault s', x s = .error fault s' → kind fault = false

/-- From no state the step fails for want of support or of a count that is large enough. -/
abbrev SupportedFrom (x : EStateM Fault σ α) : Prop := SparesFrom Fault.isUnsupported x

/-- From no state the step fails for a second prelude. -/
abbrev NoRepeatFrom (x : EStateM Fault σ α) : Prop := SparesFrom Fault.isRepeat x

namespace SparesFrom

variable {kind : Fault → Bool}

theorem pure (a : α) : SparesFrom kind (pure a : EStateM Fault σ α) := nofun

theorem throw {fault : Fault} (h : kind fault = false) :
    SparesFrom kind (throw fault : EStateM Fault σ α) := by
  rintro _ _ _ ⟨⟩
  exact h

theorem bind {x : EStateM Fault σ α} {f : α → EStateM Fault σ β} (hx : SparesFrom kind x)
    (hf : ∀ a, SparesFrom kind (f a)) : SparesFrom kind (x >>= f) := by
  intro s fault s' h
  rcases Stateful.bind_eq_error.mp h with h | ⟨a, middle, _, h⟩
  · exact hx _ _ _ h
  · exact hf a _ _ _ h

theorem map {x : EStateM Fault σ α} (hx : SparesFrom kind x) (f : α → β) :
    SparesFrom kind (f <$> x) :=
  hx.bind fun _ => pure _

theorem ite {p : Prop} [Decidable p] {x y : EStateM Fault σ α} (hx : SparesFrom kind x)
    (hy : SparesFrom kind y) : SparesFrom kind (if p then x else y) := by
  split
  · exact hx
  · exact hy

theorem ofExcept {x : Except Fault α} (hx : Spares kind x) :
    SparesFrom kind (MonadExcept.ofExcept x : EStateM Fault σ α) := by
  cases x with
  | ok a => exact pure a
  | error fault => exact throw (hx fault rfl)

theorem noRepeat {x : EStateM Fault σ α} (hx : SupportedFrom x) : NoRepeatFrom x :=
  fun s fault s' h =>
    Fault.isRepeat_of_isOfPreludes (Fault.isOfPreludes_of_supported (hx s fault s' h))

end SparesFrom

/-! ### Reading -/

namespace Cursor

theorem supported_take (n : Nat) : SupportedFrom (take n) := by
  intro c fault c' h
  unfold take at h
  dsimp only at h
  split at h
  · cases h
  · cases h
    rfl

theorem supported_u8 : SupportedFrom u8 := (supported_take 1).map _

theorem supported_u16 : SupportedFrom u16 := (supported_take 2).map _

theorem supported_damage (cause : Damage) : SupportedFrom (damage cause : Reader α) := .throw rfl

theorem supported_times {item : Reader α} (h : SupportedFrom item) (n : Nat) :
    SupportedFrom (times item n) := by
  induction n with
  | zero => exact .pure _
  | succ n ih => exact h.bind fun _ => ih.bind fun _ => .pure _

end Cursor

theorem Reader.supported_run' {r : Reader α} (h : SupportedFrom r) (data : Bytes) :
    Supported (r.run' data) := by
  intro fault hrun
  unfold Reader.run' at hrun
  split at hrun
  · cases hrun
  next hfailed =>
    cases hrun
    exact h _ _ _ hfailed

open Cursor in
theorem LineNumber.supported_read : SupportedFrom read :=
  supported_u16.bind fun _ => supported_u16.bind fun _ => .pure _

open Cursor in
theorem LocalVariable.supported_read : SupportedFrom read :=
  supported_u16.bind fun _ => supported_u16.bind fun _ => supported_u16.bind fun _ =>
    supported_u16.bind fun _ => supported_u16.bind fun _ => .pure _

theorem supported_readTable {row : Reader α} (h : SupportedFrom row) : SupportedFrom (readTable row) :=
  Cursor.supported_u16.bind fun _ => Cursor.supported_times h _

theorem Verification.supported_read : SupportedFrom read := by
  refine Cursor.supported_u8.bind fun tag => ?_
  split
  case h_8 => exact Cursor.supported_u16.map _
  case h_9 => exact Cursor.supported_u16.map _
  case h_10 => exact Cursor.supported_damage _
  all_goals exact .pure _

theorem FrameKind.supported_readItems : SupportedFrom readItems :=
  Cursor.supported_u16.bind fun _ => Cursor.supported_times Verification.supported_read _

theorem FrameKind.supported_read : SupportedFrom read := by
  have hitem := Verification.supported_read
  have hdelta := Cursor.supported_u16
  refine Cursor.supported_u8.bind fun tag => ?_
  refine .ite (.pure _) (.ite (hitem.bind fun _ => .pure _)
    (.ite (hdelta.bind fun _ => hitem.bind fun _ => .pure _)
    (.ite (hdelta.bind fun _ => .pure _) (.ite (hdelta.bind fun _ => .pure _) (.ite ?_ (.ite ?_
      (Cursor.supported_damage _)))))))
  · exact hdelta.bind fun _ => (Cursor.supported_times hitem _).bind fun _ => .pure _
  · exact hdelta.bind fun _ => supported_readItems.bind fun _ =>
      supported_readItems.bind fun _ => .pure _

theorem Frame.supported_decode (info : Bytes) : Supported (decode info) := by
  refine Reader.supported_run' (Cursor.supported_u16.bind fun _ =>
    (Cursor.supported_times FrameKind.supported_read _).bind fun _ => ?_) info
  have hatEnd : SupportedFrom Cursor.atEnd := nofun
  refine hatEnd.bind fun _ => ?_
  split
  · exact (Cursor.supported_damage _).bind fun _ => .pure _
  · exact .pure _

/-! ### Relocating -/

theorem supported_placesFrom (position : Nat) (items : List Item) :
    Supported (placesFrom position items) := by
  induction items generalizing position with
  | nil => exact .ok _
  | cons item items ih =>
    unfold placesFrom
    dsimp only
    split
    · exact .error rfl
    · exact (ih _).bind fun _ => .pure _

namespace Layout

variable (l : Layout)

theorem supported_find (old : Nat) : Supported (l.find old) := by
  unfold find
  split
  · exact .ok _
  · exact Supported.damaged _

theorem supported_group (old : Nat) : Supported (l.group old) := (l.supported_find old).map _

theorem supported_instruction (old : Nat) : Supported (l.instruction old) :=
  (l.supported_find old).map _

theorem supported_distance (i : Instruction) (start : Nat) (delta : Int32) :
    Supported (l.distance i start delta) := by
  unfold distance
  dsimp only
  split
  · exact Supported.damaged _
  · exact (l.supported_group _).bind fun _ => .pure _

theorem supported_distanceBytes (i : Instruction) (start : Nat) (delta : Int32) :
    Supported (l.distanceBytes i start delta) :=
  (l.supported_distance i start delta).bind fun _ => .pure _

theorem supported_bytesAt (i : Instruction) (start : Nat) : Supported (i.bytesAt l start) := by
  have hbytes := l.supported_distanceBytes i start
  unfold Instruction.bytesAt
  split
  · exact .ok _
  · exact (l.supported_distance _ _ _).bind fun _ => .ite (.pure _) (.ite (.pure _) (.error rfl))
  · exact (hbytes _).bind fun _ => (Spares.mapM hbytes _).bind fun _ => .pure _
  · refine (hbytes _).bind fun _ => Spares.bind (Spares.mapM ?_ _) fun _ => .pure _
    rintro ⟨key, delta⟩
    exact (hbytes delta).bind fun _ => .pure _

end Layout

theorem supported_relocate (oldLength : Nat) (items : List Item) :
    Supported (relocate oldLength items) := by
  refine Spares.bind ((supported_placesFrom 0 items).bind fun _ => .pure _) fun l => ?_
  refine Spares.bind (Spares.mapM ?_ _) fun _ => .pure _
  rintro ⟨item, place⟩
  exact (l.supported_bytesAt _ _).bind fun _ => .pure _

/-! ### Tables -/

theorem Frame.supported_encodeFrom (previous : Option Nat) (frames : List Frame) :
    Supported (encodeFrom previous frames) := by
  induction frames generalizing previous with
  | nil => exact .ok _
  | cons frame frames ih =>
    unfold encodeFrom
    split
    · exact Supported.damaged _
    · refine Spares.bind ?_ fun _ => (ih _).bind fun _ => .pure _
      unfold FrameKind.bytes
      split
      case h_3 => exact .ite (.ok _) (Supported.damaged _)
      case h_4 => exact .ite (.ok _) (Supported.damaged _)
      all_goals exact .ok _

theorem Frame.supported_encode (frames : List Frame) : Supported (encode frames) :=
  Spares.bind (.ite (.ok _) (Supported.damaged _)) fun _ =>
    (supported_encodeFrom _ _).bind fun _ => .pure _

namespace Body

theorem supported_narrow (offset : Nat) : Supported (narrow offset) := .ite (.ok _) (.error rfl)

variable (l : Layout)

theorem supported_movedGroup (offset : UInt16) : Supported (movedGroup l offset) :=
  (l.supported_group _).bind fun _ => supported_narrow _

theorem supported_moveException (e : ExceptionEntry) : Supported (moveException l e) :=
  (supported_movedGroup l _).bind fun _ => (supported_movedGroup l _).bind fun _ =>
    (supported_movedGroup l _).bind fun _ => .pure _

theorem supported_moveLine (n : LineNumber) : Supported (moveLine l n) :=
  (supported_movedGroup l _).bind fun _ => .pure _

theorem supported_moveScope (v : LocalVariable) : Supported (moveScope l v) :=
  (l.supported_group _).bind fun _ => (l.supported_group _).bind fun _ =>
    (supported_narrow _).bind fun _ => (supported_narrow _).bind fun _ => .pure _

theorem supported_mapUninitialized {move : UInt16 → Except Fault UInt16}
    (hmove : ∀ offset, Supported (move offset)) (kind : FrameKind) :
    Supported (kind.mapUninitialized move) := by
  have hitem : ∀ item : Verification, Supported (item.mapUninitialized move) := by
    intro item
    unfold Verification.mapUninitialized
    split
    · exact (hmove _).map _
    · exact .ok _
  cases kind with
  | same => exact .ok _
  | chop count => exact .ok _
  | sameOne item => exact (hitem item).map _
  | append items => exact (Spares.mapM hitem items).map _
  | full locals stack =>
    exact (Spares.mapM hitem locals).bind fun _ =>
      (Spares.mapM hitem stack).bind fun _ => .pure _

theorem supported_moveFrame (f : Frame) : Supported (moveFrame l f) :=
  (l.supported_group _).bind fun _ => (supported_mapUninitialized (fun _ =>
    (l.supported_instruction _).bind fun _ => supported_narrow _) _).bind fun _ => .pure _

theorem supported_moveAttribute (pool : Pool) (a : Attribute) :
    Supported (moveAttribute pool l a) := by
  refine .ite (.pure _) (.ite ?_ (.ite ?_ (.ite ?_ (.pure _))))
  · exact (Reader.supported_run' (supported_readTable LineNumber.supported_read) _).bind fun _ =>
      (Spares.mapM (supported_moveLine l) _).bind fun _ => .pure _
  · exact (Reader.supported_run' (supported_readTable LocalVariable.supported_read) _).bind fun _ =>
      (Spares.mapM (supported_moveScope l) _).bind fun _ => .pure _
  · exact (Frame.supported_decode _).bind fun _ => (Spares.mapM (supported_moveFrame l) _).bind
      fun _ => (Frame.supported_encode _).bind fun _ => .pure _

theorem noPreludes_toCode (pool : Pool) (b : Body) : NoPreludes (b.toCode pool) := by
  refine (supported_relocate _ _).noPreludes.bind fun r => ?_
  refine (Spares.mapM (supported_moveException r.layout) _).noPreludes.bind fun _ => ?_
  refine (Spares.mapM (supported_moveAttribute r.layout pool) _).noPreludes.bind fun _ => ?_
  exact Spares.bind (.ite (.ok _) (.error rfl)) fun _ =>
    Spares.bind (.ite (.ok _) (.error rfl)) fun _ => .pure _

end Body

/-! ### Writing -/

theorem supported_countBytes (n : Nat) (cause : Damage) : Supported (countBytes n cause) :=
  .ite (.ok _) (Supported.damaged _)

theorem Attribute.supported_listBytes (attributes : List Attribute) :
    Supported (listBytes attributes) :=
  (supported_countBytes _ _).bind fun _ =>
    (Spares.mapM (fun _ => .ite (.ok _) (Supported.damaged _)) _).bind fun _ => .pure _

theorem CodeAttribute.supported_bytes (c : CodeAttribute) : Supported c.bytes := by
  unfold bytes
  split
  · exact .error rfl
  · exact (supported_countBytes _ _).bind fun _ =>
      (Attribute.supported_listBytes _).bind fun _ => .pure _

theorem Member.supported_bytes (m : Member) : Supported m.bytes :=
  (Attribute.supported_listBytes _).bind fun _ => .pure _

theorem Constant.supported_bytes (c : Constant) : Supported c.bytes := by
  refine Spares.bind ?_ fun _ => .pure _
  cases c with
  | utf8 text => exact .ite (.ok _) (Supported.damaged _)
  | _ => exact .ok _

theorem Pool.supported_bytes (p : Pool) : Supported p.bytes := by
  unfold bytes
  split
  · exact .error rfl
  · refine (Spares.mapM (fun slot => ?_) _).bind fun _ => .pure _
    cases slot with
    | none => exact .ok _
    | some c => exact c.supported_bytes

namespace ClassFile

theorem supported_countedBytes {write : α → Except Fault Bytes} (h : ∀ a, Supported (write a))
    (what : String) (items : List α) : Supported (countedBytes what items write) :=
  (supported_countBytes _ _).bind fun _ => (Spares.mapM h _).bind fun _ => .pure _

theorem supported_bytes (c : ClassFile) : Supported c.bytes :=
  (c.pool.supported_bytes).bind fun _ => (supported_countedBytes (fun _ => .ok _) _ _).bind fun _ =>
    (supported_countedBytes Member.supported_bytes _ _).bind fun _ =>
    (supported_countedBytes Member.supported_bytes _ _).bind fun _ =>
    (Attribute.supported_listBytes _).bind fun _ => .pure _

end ClassFile

/-! ### Compiling -/

namespace Pool

theorem supported_add (c : Constant) : SupportedFrom (add c) := by
  intro p fault p' h
  unfold add at h
  split at h
  · cases h
  · split at h
    · cases h
      rfl
    · cases h

theorem supported_addType (name : String) : SupportedFrom (addType name) :=
  (supported_add _).bind fun _ => supported_add _

theorem supported_addMember (kind : MemberKind) (owner name descriptor : String) :
    SupportedFrom (addMember kind owner name descriptor) :=
  (supported_addType owner).bind fun _ => SparesFrom.bind
    ((supported_add _).bind fun _ => (supported_add _).bind fun _ => supported_add _)
    fun _ => supported_add _

end Pool

theorem MethodDescriptor.supported_parse (text : String) : Supported (parse text) := by
  unfold parse
  split
  · exact .ok _
  · exact Supported.damaged _

theorem noRepeat_slotCount (n : Nat) : NoRepeat (slotCount n) :=
  .ite (.ok _) (.error rfl)

theorem MethodDescriptor.noRepeat_parameterSlots (d : MethodDescriptor) :
    NoRepeat d.parameterSlots := by
  have hfold (kinds : List ValueKind) : ∀ n : UInt16,
      NoRepeat (kinds.foldlM (fun n kind => addSlots n kind.slots) n) := by
    induction kinds with
    | nil => exact fun n => .ok n
    | cons kind kinds ih => exact fun n => (noRepeat_slotCount _).bind fun m => ih m
  exact hfold d.parameters 0

namespace Assembling

theorem noRepeat_intern {x : Interning α} (hx : SupportedFrom x) : NoRepeatFrom (intern x) := by
  intro s fault s' h
  unfold intern at h
  split at h
  · cases h
  next cause pool hcause =>
    cases h
    exact hx.noRepeat _ _ _ hcause

theorem noRepeat_on {x : Assembling Unit} (hx : NoRepeatFrom x) (a : Assembly) :
    NoRepeatFrom (x.on a) := by
  intro p fault p' h
  unfold on at h
  split at h
  · cases h
  next cause s hcause =>
    cases h
    exact hx _ _ _ hcause

end Assembling

namespace Assembly

open Assembling

theorem noRepeat_emit (bytes : Bytes) (pops pushes : UInt16) :
    NoRepeatFrom (emit bytes pops pushes) := by
  have hread : NoRepeatFrom (get : Assembling Assembler) := nofun
  refine hread.bind fun s => ?_
  dsimp only
  split
  · exact .throw rfl
  · exact (SparesFrom.ofExcept (noRepeat_slotCount _)).bind fun _ => nofun

theorem noRepeat_emitLocal (opcode : UInt8) (slot pops pushes : UInt16) :
    NoRepeatFrom (emitLocal opcode slot pops pushes) :=
  .ite (noRepeat_emit _ _ _) (noRepeat_emit _ _ _)

theorem noRepeat_assemble (step : Step) : NoRepeatFrom step.assemble := by
  cases step with
  | load kind slot => exact noRepeat_emitLocal _ _ _ _
  | store kind slot => exact noRepeat_emitLocal _ _ _ _
  | dup => exact noRepeat_emit _ _ _
  | iconst value => exact noRepeat_emit _ _ _
  | isub => exact noRepeat_emit _ _ _
  | ldc text =>
    refine SparesFrom.bind (noRepeat_intern ?_) fun index => ?_
    · exact (Pool.supported_add _).bind fun _ => Pool.supported_add _
    · exact .ite (noRepeat_emit _ _ _) (noRepeat_emit _ _ _)
  | getStatic owner name descriptor =>
    exact (noRepeat_intern (Pool.supported_addMember _ _ _ _)).bind fun _ => noRepeat_emit _ _ _
  | newObject type =>
    exact (noRepeat_intern (Pool.supported_addType _)).bind fun _ => noRepeat_emit _ _ _
  | invoke dispatch owner name descriptor =>
    have hparse := (MethodDescriptor.supported_parse descriptor).noPreludes.noRepeat
    refine (SparesFrom.ofExcept hparse).bind fun d => ?_
    refine (noRepeat_intern (Pool.supported_addMember _ _ _ _)).bind fun _ => ?_
    refine (SparesFrom.ofExcept d.noRepeat_parameterSlots).bind fun _ => ?_
    exact (SparesFrom.ofExcept (noRepeat_slotCount _)).bind fun _ => noRepeat_emit _ _ _

theorem noRepeat_assembleAll (steps : List Step) : NoRepeatFrom (assembleAll steps) := by
  induction steps with
  | nil => exact .pure _
  | cons step steps ih => exact (noRepeat_assemble step).bind fun _ => ih

end Assembly

theorem Prelude.noRepeat_compile (probe : Probe) (descriptor : String) (first : UInt16) :
    NoRepeatFrom (compile probe descriptor first) := by
  refine .bind (.ofExcept (MethodDescriptor.supported_parse _).noPreludes.noRepeat) fun d => ?_
  refine .bind (.ofExcept d.noRepeat_parameterSlots) fun slots => ?_
  refine .bind (.ofExcept (noRepeat_slotCount _)) fun extraLocals => ?_
  dsimp only
  split
  · exact .throw rfl
  · refine .bind (.ofExcept (noRepeat_slotCount _)) fun initial => ?_
    have hsteps := Assembly.noRepeat_assembleAll (steps probe d first)
    refine .bind (Assembling.noRepeat_on hsteps _) fun done => ?_
    split
    · exact .throw rfl
    · exact .pure _

/-! ### Listing calls -/

theorem ModifiedUtf8.supported_decode (bytes : Bytes) : Supported (decode bytes) := by
  have hunits : ∀ pos, Supported (unitsFrom pos bytes) := by
    intro pos
    fun_induction unitsFrom pos bytes
    all_goals first | exact .ok _ | exact Supported.damaged _ | exact Spares.map (by assumption) _
  exact .ite (.ok _) ((hunits 0).bind fun _ => .pure _)

namespace Pool

variable (p : Pool)

theorem supported_get (index : UInt16) : Supported (p.get index) := by
  unfold get
  split
  · exact .ok _
  · exact Supported.damaged _

theorem supported_utf8 (index : UInt16) : Supported (p.utf8 index) := by
  refine Spares.bind ((p.supported_get index).bind fun found => ?_) ModifiedUtf8.supported_decode
  split
  · exact .pure _
  · exact Supported.damaged _

theorem supported_typeName (index : UInt16) : Supported (p.typeName index) := by
  refine (p.supported_get index).bind fun found => ?_
  split
  · exact p.supported_utf8 _
  · exact Supported.damaged _

theorem supported_nameAndType (index : UInt16) : Supported (p.nameAndType index) := by
  refine (p.supported_get index).bind fun found => ?_
  split
  · exact (p.supported_utf8 _).bind fun _ => (p.supported_utf8 _).bind fun _ => .pure _
  · exact Supported.damaged _

theorem supported_memberRef (index : UInt16) : Supported (p.memberRef index) := by
  refine (p.supported_get index).bind fun found => ?_
  split
  · exact (p.supported_nameAndType _).bind fun _ => (p.supported_typeName _).bind fun _ => .pure _
  · exact Supported.damaged _

end Pool

namespace Workpiece

theorem supported_siteAt (pool : Pool) (method index : Nat) (i : Instruction) :
    Supported (siteAt pool method index i) := by
  unfold siteAt
  split
  · exact .pure _
  · split
    · exact Supported.damaged _
    · refine (pool.supported_memberRef _).bind fun ref => ?_
      split
      · exact Supported.damaged _
      · exact .pure _

theorem supported_callSites (w : Workpiece) : Supported w.callSites := by
  refine Spares.map (Spares.mapM ?_ _) _
  rintro ⟨_ | body, method⟩
  · exact .ok _
  · refine Spares.map (Spares.mapM ?_ _) _
    rintro ⟨item, index⟩
    exact supported_siteAt _ _ _ _

theorem noPreludes_editedMethod (pool : Pool) (m : Member) (body : Option Body) :
    NoPreludes (editedMethod pool m body) := by
  cases body with
  | none => exact .pure _
  | some body =>
    exact .ite ((body.noPreludes_toCode pool).bind fun code =>
      code.supported_bytes.noPreludes.bind fun _ => .pure _) (.pure _)

theorem noPreludes_serialize (w : Workpiece) : NoPreludes w.serialize :=
  (Spares.mapM (fun _ => noPreludes_editedMethod _ _ _) _).bind fun _ =>
    (ClassFile.supported_bytes _).noPreludes

end Workpiece

end ThreadWatch
