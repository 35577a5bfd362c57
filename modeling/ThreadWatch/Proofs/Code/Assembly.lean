import ThreadWatch.Proofs.Code.Listing
import ThreadWatch.Proofs.Code.Slots
import ThreadWatch.Proofs.Pool.Enlarging

/-!
# Assembled steps

A step is assembled to one instruction that does what the step is meant to do, also when the pool
has grown since, and the counted stack slots follow it.
-/

namespace ThreadWatch

/-- The slots of a field of this type. A text that is no type is taken for what it begins with. -/
def fieldWidth (descriptor : String) : Nat :=
  match fieldKind? descriptor with
  | some kind => kind.width
  | none => if descriptor.toList.head? = some 'J' || descriptor.toList.head? = some 'D' then 2 else 1

namespace Step

/-- What a step does to the slots, if its descriptor is one. -/
def action? : Step → Option Action
  | load kind slot => some (.load kind.width slot.toNat)
  | store kind slot => some (.store kind.width slot.toNat)
  | dup => some .dup
  | iconst _ => some (.work 0 1)
  | isub => some (.work 2 1)
  | ldc _ => some (.work 0 1)
  | getStatic _ _ descriptor => (fieldKind? descriptor).map fun kind => .work 0 kind.width
  | newObject _ => some (.work 0 1)
  | invoke dispatch _ _ descriptor =>
    (MethodDescriptor.parse descriptor).toOption.map fun d =>
      .work (d.width + dispatch.receiverSlots.toNat) d.resultWidth

/-- The constant that the step needs. -/
def symbol? : Step → Option Symbol
  | ldc text => some (.string text)
  | getStatic owner name descriptor => some (.member .field owner name descriptor)
  | newObject type => some (.type type)
  | invoke _ owner name descriptor => some (.member .method owner name descriptor)
  | _ => none

/-- Add the constant, if there is one. -/
def addConstant (step : Step) : Interning UInt16 :=
  match step.symbol? with
  | some s => s.intern
  | none => pure 0

/-- The slots that the step takes off the stack and those that it puts there; nothing is known of a
call whose descriptor is none. -/
def effect? : Step → Option (Nat × Nat)
  | load kind _ => some (0, kind.width)
  | store kind _ => some (kind.width, 0)
  | dup => some (1, 2)
  | iconst _ => some (0, 1)
  | isub => some (2, 1)
  | ldc _ => some (0, 1)
  | getStatic _ _ descriptor => some (0, fieldWidth descriptor)
  | newObject _ => some (0, 1)
  | invoke dispatch _ _ descriptor =>
    (MethodDescriptor.parse descriptor).toOption.map fun d =>
      (d.width + dispatch.receiverSlots.toNat, d.resultWidth)

def localBytes (opcode : UInt8) (slot : UInt16) : Bytes :=
  if slot ≤ 255 then [opcode, slot.toUInt8] else Opcode.wide :: opcode :: be16 slot

/-- The instruction of the step, when its constant is at `index`. -/
def bytes (index : UInt16) : Step → Bytes
  | load kind slot => localBytes kind.loadOpcode slot
  | store kind slot => localBytes kind.storeOpcode slot
  | dup => [Opcode.dup]
  | iconst value => iconstBytes value
  | isub => [Opcode.isub]
  | ldc _ => if index ≤ 255 then [Opcode.ldc, index.toUInt8] else Opcode.ldcW :: be16 index
  | getStatic _ _ _ => Opcode.getStatic :: be16 index
  | newObject _ => Opcode.newObject :: be16 index
  | invoke dispatch _ _ _ => dispatch.opcode :: be16 index

end Step

/-! ### Counts -/

theorem slotCount_of_lt {n : Nat} (h : n < 65536) : slotCount n = .ok (UInt16.ofNat n) := if_pos h

theorem slotCount_of_not_lt {n : Nat} (h : ¬ n < 65536) : slotCount n = .error .overflow := if_neg h

/-- Counting on from a count is counting it all. -/
theorem slotCount_bind_slotCount (m n : Nat) :
    (slotCount m >>= fun count => slotCount (count.toNat + n)) = slotCount (m + n) := by
  by_cases h : m < 65536
  · rw [slotCount_of_lt h]
    show slotCount ((UInt16.ofNat m).toNat + n) = _
    rw [UInt16.toNat_ofNat_of_lt' h]
  · rw [slotCount_of_not_lt h, slotCount_of_not_lt (by omega)]
    rfl

theorem ValueKind.slots_eq (kind : ValueKind) : kind.slots = UInt16.ofNat kind.width := by
  cases kind <;> rfl

namespace MethodDescriptor

theorem foldlM_addSlots (kinds : List ValueKind) (n : UInt16) :
    kinds.foldlM (fun n kind => addSlots n kind.slots) n =
      slotCount (n.toNat + (kinds.map ValueKind.width).sum) := by
  induction kinds generalizing n with
  | nil =>
    have hself : slotCount n.toNat = .ok n := by rw [slotCount_of_lt n.toNat_lt, UInt16.ofNat_toNat]
    exact hself.symm
  | cons kind kinds ih =>
    simp only [List.foldlM_cons, ih]
    rw [addSlots, slotCount_bind_slotCount, List.map_cons, List.sum_cons, Nat.add_assoc]
    rfl

/-- The parameters are counted right, if they can be counted. -/
theorem parameterSlots_eq (d : MethodDescriptor) : d.parameterSlots = slotCount d.width := by
  rw [parameterSlots, foldlM_addSlots]
  exact congrArg slotCount (Nat.zero_add _)

theorem resultSlots_eq (d : MethodDescriptor) : d.resultSlots = UInt16.ofNat d.resultWidth := by
  unfold resultSlots resultWidth
  cases d.result with
  | none => rfl
  | some kind => exact kind.slots_eq

end MethodDescriptor

/-! ### Emitting -/

namespace Assembling

variable {x : Assembling Unit} {a b : Assembly} {p q : Pool}

theorem on_eq_ok : x.on a p = .ok b q ↔ x ⟨a, p⟩ = .ok () ⟨b, q⟩ := by
  unfold on
  cases x ⟨a, p⟩ with
  | ok _ s =>
    constructor
    · intro h
      cases h
      rfl
    · intro h
      cases h
      rfl
  | error fault s => simp

theorem intern_eq_ok {y : Interning UInt16} {index : UInt16} {s s' : Assembler} :
    intern y s = .ok index s' ↔ y s.pool = .ok index s'.pool ∧ s'.assembly = s.assembly := by
  unfold intern
  cases y s.pool with
  | ok found q =>
    constructor
    · intro h
      cases h
      exact ⟨rfl, rfl⟩
    · rintro ⟨h, hsame⟩
      cases h
      rw [← hsame]
  | error fault q => simp

theorem intern_eq_error {y : Interning UInt16} {fault : Fault} {s s' : Assembler} :
    intern y s = .error fault s' ↔ y s.pool = .error fault s'.pool ∧ s'.assembly = s.assembly := by
  unfold intern
  cases y s.pool with
  | ok found q => simp
  | error fault' q =>
    constructor
    · intro h
      cases h
      exact ⟨rfl, rfl⟩
    · rintro ⟨h, hsame⟩
      cases h
      rw [← hsame]

/-- A constant is added before the instruction that names it. -/
theorem on_intern_bind (x : Interning UInt16) (f : UInt16 → Assembling Unit) (a : Assembly) :
    (intern x >>= f).on a = x >>= fun index => (f index).on a := by
  funext p
  simp only [on, bind, EStateM.bind, intern]
  cases x p <;> rfl

theorem on_bind (x : Assembling Unit) (f : Unit → Assembling Unit) (a : Assembly) :
    (x >>= f).on a = x.on a >>= fun b => (f ()).on b := by
  funext p
  simp only [on, bind, EStateM.bind]
  cases x ⟨a, p⟩ <;> rfl

end Assembling

namespace Assembly

/-- The assembly with an instruction appended that takes and gives so many slots. -/
def emitted (a : Assembly) (bytes : Bytes) (pops pushes : Nat) : Assembly :=
  let depth := UInt16.ofNat (a.depth.toNat - pops + pushes)
  ⟨a.code ++ bytes, depth, max a.maxDepth depth⟩

variable {a b : Assembly} {p q : Pool}

/-- An instruction is appended if the stack has what it takes and what it gives can be counted;
otherwise nothing is changed. -/
theorem emit_eq (bytes : Bytes) (pops pushes : UInt16) (s : Assembler) :
    emit bytes pops pushes s =
      if s.assembly.depth.toNat < pops.toNat then
        .error (.malformed (.stackUnderflow s.assembly.code.size s.assembly.depth pops)) s
      else if s.assembly.depth.toNat - pops.toNat + pushes.toNat < 65536 then
        .ok () ⟨s.assembly.emitted bytes pops.toNat pushes.toNat, s.pool⟩
      else .error .overflow s := by
  change (if s.assembly.depth < pops then _ else _ : Assembling Unit) s = _
  by_cases hunder : s.assembly.depth.toNat < pops.toNat
  · rw [if_pos (UInt16.lt_iff_toNat_lt.mpr hunder), if_pos hunder]
    rfl
  · have hover : ¬ s.assembly.depth < pops := fun h => hunder (UInt16.lt_iff_toNat_lt.mp h)
    have hleft : (s.assembly.depth - pops).toNat = s.assembly.depth.toNat - pops.toNat :=
      UInt16.toNat_sub_of_le _ _ (UInt16.not_lt.mp hover)
    rw [if_neg hover, if_neg hunder, addSlots, hleft]
    by_cases hfits : s.assembly.depth.toNat - pops.toNat + pushes.toNat < 65536
    · rw [if_pos hfits, slotCount_of_lt hfits]
      rfl
    · rw [if_neg hfits, slotCount_of_not_lt hfits]
      rfl

/-- Append an instruction; the slots that it takes are counted first. -/
def emitCounted (bytes : Bytes) (pops pushes : Nat) : Assembling Unit := do
  let pops ← MonadExcept.ofExcept (slotCount pops)
  emit bytes pops (UInt16.ofNat pushes)

/-- Either the stack has what the instruction takes and what it gives can be counted, and it is
appended; or nothing is changed. -/
theorem emitCounted_cases (bytes : Bytes) {pops pushes : Nat} (hpushes : pushes < 65536)
    (s : Assembler) :
    (pops ≤ s.assembly.depth.toNat ∧ s.assembly.depth.toNat - pops + pushes < 65536 ∧
      emitCounted bytes pops pushes s = .ok () ⟨s.assembly.emitted bytes pops pushes, s.pool⟩) ∨
    ¬ (pops ≤ s.assembly.depth.toNat ∧ s.assembly.depth.toNat - pops + pushes < 65536) ∧
      ∃ fault, (fault = .overflow → 65535 < pops ∨ pops ≤ s.assembly.depth.toNat) ∧
        emitCounted bytes pops pushes s = .error fault s := by
  have hdepth := s.assembly.depth.toNat_lt
  by_cases hpops : pops < 65536
  · have hcounted : emitCounted bytes pops pushes s =
        emit bytes (UInt16.ofNat pops) (UInt16.ofNat pushes) s := by
      rw [emitCounted, slotCount_of_lt hpops]
      rfl
    rw [hcounted, emit_eq, UInt16.toNat_ofNat_of_lt' hpops, UInt16.toNat_ofNat_of_lt' hpushes]
    by_cases hunder : s.assembly.depth.toNat < pops
    · rw [if_pos hunder]
      exact .inr ⟨by omega, .malformed _, nofun, rfl⟩
    · rw [if_neg hunder]
      by_cases hfits : s.assembly.depth.toNat - pops + pushes < 65536
      · rw [if_pos hfits]
        exact .inl ⟨by omega, hfits, rfl⟩
      · rw [if_neg hfits]
        exact .inr ⟨by omega, _, fun _ => .inr (by omega), rfl⟩
  · refine .inr ⟨by omega, .overflow, fun _ => .inl (by omega), ?_⟩
    rw [emitCounted, slotCount_of_not_lt hpops]
    rfl

theorem on_emitCounted_eq_ok {bytes : Bytes} {pops pushes : Nat} (hpushes : pushes < 65536) :
    (emitCounted bytes pops pushes).on a p = .ok b q ↔
      pops ≤ a.depth.toNat ∧ a.depth.toNat - pops + pushes < 65536 ∧
        b = a.emitted bytes pops pushes ∧ q = p := by
  rw [Assembling.on_eq_ok]
  obtain ⟨hpops, hfits, heq⟩ | ⟨hnot, fault, _, heq⟩ := emitCounted_cases bytes hpushes ⟨a, p⟩
  · rw [heq]
    simp [hpops, hfits, eq_comm]
  · rw [heq]
    constructor
    · intro h
      cases h
    · rintro ⟨hpops, hfits, _⟩
      exact absurd ⟨hpops, hfits⟩ hnot

/-- Sixteen bits count the slots behind an instruction if they are enough. -/
theorem toNat_depth_emitted {bytes : Bytes} {pops pushes : Nat}
    (h : a.depth.toNat - pops + pushes < 65536) :
    (a.emitted bytes pops pushes).depth.toNat = a.depth.toNat - pops + pushes :=
  UInt16.toNat_ofNat_of_lt' h

theorem toNat_maxDepth_emitted {bytes : Bytes} {pops pushes : Nat}
    (h : a.depth.toNat - pops + pushes < 65536) :
    (a.emitted bytes pops pushes).maxDepth.toNat =
      max a.maxDepth.toNat (a.depth.toNat - pops + pushes) := by
  rw [emitted, UInt16.toNat_max, UInt16.toNat_ofNat_of_lt' h]

theorem emitLocal_eq (opcode : UInt8) (slot pops pushes : UInt16) :
    emitLocal opcode slot pops pushes = emit (Step.localBytes opcode slot) pops pushes := by
  unfold emitLocal Step.localBytes
  split <;> rfl

/-- No constants come in with an instruction. -/
theorem after_emitCounted (bytes : Bytes) {pops pushes : Nat} (hpushes : pushes < 65536)
    (a : Assembly) (p : Pool) : ((emitCounted bytes pops pushes).on a).after p = p := by
  unfold Interning.after Assembling.on
  obtain ⟨_, _, heq⟩ | ⟨_, fault, _, heq⟩ := emitCounted_cases bytes hpushes ⟨a, p⟩
  · rw [heq]
  · rw [heq]

end Assembly

namespace Instruction

theorem stands_fixed {op : UInt8} {operands : Bytes} (position : Nat)
    (h : Opcode.shape op = .fixed operands.length) :
    Stands position ⟨position, op, false, .fixed operands⟩ (op :: operands) :=
  ⟨op, operands, rfl, h ▸ .fixed operands⟩

theorem stands_wide {op : UInt8} {operands : Bytes} (position : Nat)
    (h : Opcode.wideOperands op = some operands.length) :
    Stands position ⟨position, op, true, .fixed operands⟩ (Opcode.wide :: op :: operands) :=
  ⟨Opcode.wide, _, rfl, .wide op operands h⟩

end Instruction

/-- The bytes are one straight instruction that does this, in the pool and in any it grows to. -/
def Pool.Encodes (q : Pool) (bytes : Bytes) (action : Action) : Prop :=
  ∃ i, Instruction.Stands 0 i bytes ∧ i.IsStraight ∧ ∀ r, q.GrowsTo r → i.action? r = some action

namespace Pool

variable {q : Pool}

theorem encodes_fixed {op : UInt8} {operands : Bytes} {action : Action}
    (hshape : Opcode.shape op = .fixed operands.length)
    (hflow : Opcode.flow op = .sequential ∨ Opcode.flow op = .call)
    (haction : ∀ r, q.GrowsTo r →
      Instruction.action? r ⟨0, op, false, .fixed operands⟩ = some action) :
    q.Encodes (op :: operands) action :=
  ⟨_, Instruction.stands_fixed 0 hshape, hflow, haction⟩

theorem beNat_be16 (n : UInt16) : beNat (be16 n) = n.toNat :=
  beNat_beBytes_of_lt n.toNat_lt

theorem beNat_low {n : UInt16} (h : n ≤ 255) : beNat [n.toUInt8] = n.toNat := by
  have hle : n.toNat ≤ 255 := UInt16.le_iff_toNat_le.mp h
  simp [beNat]
  omega

/-- A local is named in one byte or, behind the wide prefix, in two. -/
theorem encodes_local {op : UInt8} {slot : UInt16} {action : Nat → Action}
    (hshape : Opcode.shape op = .fixed 1) (hwide : Opcode.wideOperands op = some 2)
    (hflow : Opcode.flow op = .sequential ∨ Opcode.flow op = .call)
    (haction : ∀ r wide operands, Instruction.action? r ⟨0, op, wide, .fixed operands⟩ =
      some (action (beNat operands))) :
    q.Encodes (Step.localBytes op slot) (action slot.toNat) := by
  unfold Step.localBytes
  split
  next h =>
    rw [← beNat_low h]
    exact encodes_fixed hshape hflow fun r _ => haction r _ _
  next h =>
    rw [← beNat_be16]
    exact ⟨_, Instruction.stands_wide 0 hwide, hflow, fun r _ => haction r _ _⟩

theorem encodes_load (kind : ValueKind) (slot : UInt16) :
    q.Encodes (Step.localBytes kind.loadOpcode slot) (.load kind.width slot.toNat) := by
  cases kind <;> exact encodes_local rfl rfl (.inl rfl) fun r wide operands => rfl

theorem encodes_store (kind : ValueKind) (slot : UInt16) :
    q.Encodes (Step.localBytes kind.storeOpcode slot) (.store kind.width slot.toNat) := by
  cases kind <;> exact encodes_local rfl rfl (.inl rfl) fun r wide operands => rfl

theorem eq_of_small {value : Int16} (h : (-1 ≤ value && value ≤ 5) = true) :
    value = -1 ∨ value = 0 ∨ value = 1 ∨ value = 2 ∨ value = 3 ∨ value = 4 ∨ value = 5 := by
  simp only [Bool.and_eq_true, decide_eq_true_eq, Int16.le_iff_toInt_le] at h
  simp only [← Int16.toInt_inj]
  change -1 ≤ value.toInt ∧ value.toInt ≤ 5 at h
  change value.toInt = -1 ∨ value.toInt = 0 ∨ value.toInt = 1 ∨ value.toInt = 2 ∨
    value.toInt = 3 ∨ value.toInt = 4 ∨ value.toInt = 5
  omega

theorem encodes_iconst (value : Int16) : q.Encodes (iconstBytes value) (.work 0 1) := by
  unfold iconstBytes
  split
  next hsmall =>
    rcases eq_of_small hsmall with rfl | rfl | rfl | rfl | rfl | rfl | rfl <;>
      exact encodes_fixed rfl (.inl rfl) fun r _ => rfl
  next =>
    split
    · exact encodes_fixed rfl (.inl rfl) fun r _ => rfl
    · exact encodes_fixed rfl (.inl rfl) fun r _ => rfl

theorem ofNat_beNat_be16 (n : UInt16) : UInt16.ofNat (beNat (be16 n)) = n := by
  rw [beNat_be16, UInt16.ofNat_toNat]

/-- An instruction that names a constant does what the constant says. -/
theorem encodes_indexed {op : UInt8} {operands : Bytes} {index : UInt16} {pops pushes : Nat}
    (hshape : Opcode.shape op = .fixed operands.length)
    (hflow : Opcode.flow op = .sequential ∨ Opcode.flow op = .call)
    (haction : ∀ r, Instruction.action? r ⟨0, op, false, .fixed operands⟩ =
      (Instruction.effect? r op (UInt16.ofNat (beNat operands))).map
        fun (pops, pushes) => .work pops pushes)
    (hindex : UInt16.ofNat (beNat operands) = index)
    (heffect : ∀ r, q.GrowsTo r → Instruction.effect? r op index = some (pops, pushes)) :
    q.Encodes (op :: operands) (.work pops pushes) := by
  refine encodes_fixed hshape hflow fun r hr => ?_
  rw [haction, hindex, heffect r hr]
  rfl

theorem encodes_ldc {index text : UInt16} (h : q.get index = .ok (.string text)) :
    q.Encodes (if index ≤ 255 then [Opcode.ldc, index.toUInt8] else Opcode.ldcW :: be16 index)
      (.work 0 1) := by
  have heffect : ∀ op, op = Opcode.ldc ∨ op = Opcode.ldcW → ∀ r, q.GrowsTo r →
      Instruction.effect? r op index = some (0, 1) := by
    intro op hop r hr
    have hconstant : Instruction.effect? r op index = (do
        let c ← (r.get index).toOption
        if c.isWide then none else some (0, 1)) := by
      rcases hop with rfl | rfl <;> rfl
    rw [hconstant, hr.get h]
    rfl
  split
  next hlow =>
    refine encodes_indexed rfl (.inl rfl) (fun _ => rfl) ?_ (heffect _ (.inl rfl))
    rw [beNat_low hlow, UInt16.ofNat_toNat]
  next =>
    exact encodes_indexed rfl (.inl rfl) (fun _ => rfl) (ofNat_beNat_be16 index)
      (heffect _ (.inr rfl))

theorem encodes_getStatic {index : UInt16} {owner name descriptor : String} {kind : ValueKind}
    (h : q.memberRef index = .ok ⟨.field, owner, name, descriptor⟩)
    (hkind : fieldKind? descriptor = some kind) :
    q.Encodes (Opcode.getStatic :: be16 index) (.work 0 kind.width) := by
  refine encodes_indexed rfl (.inl rfl) (fun _ => rfl) (ofNat_beNat_be16 index) fun r hr => ?_
  have heffect : Instruction.effect? r Opcode.getStatic index = (do
      let ref ← (r.memberRef index).toOption
      let kind ← fieldKind? ref.descriptor
      some (0, kind.width)) := rfl
  rw [heffect, hr.memberRef h]
  simp [Except.toOption, hkind]

theorem encodes_new {index : UInt16} {type : String} (h : q.typeName index = .ok type) :
    q.Encodes (Opcode.newObject :: be16 index) (.work 0 1) := by
  refine encodes_indexed rfl (.inl rfl) (fun _ => rfl) (ofNat_beNat_be16 index) fun r hr => ?_
  have heffect : Instruction.effect? r Opcode.newObject index = (do
      let _ ← (r.typeName index).toOption
      some (0, 1)) := rfl
  rw [heffect, hr.typeName h]
  rfl

theorem encodes_invoke (dispatch : Dispatch) {index : UInt16} {owner name descriptor : String}
    {d : MethodDescriptor} (h : q.memberRef index = .ok ⟨.method, owner, name, descriptor⟩)
    (hd : MethodDescriptor.parse descriptor = .ok d) :
    q.Encodes (dispatch.opcode :: be16 index)
      (.work (d.width + dispatch.receiverSlots.toNat) d.resultWidth) := by
  refine encodes_indexed (by cases dispatch <;> rfl) (by cases dispatch <;> exact .inr rfl)
    (fun _ => by cases dispatch <;> rfl) (ofNat_beNat_be16 index) fun r hr => ?_
  have heffect : Instruction.effect? r dispatch.opcode index = (do
      let ref ← (r.memberRef index).toOption
      let d ← (MethodDescriptor.parse ref.descriptor).toOption
      some (d.width + dispatch.receiverSlots.toNat, d.resultWidth)) := by
    cases dispatch <;> rfl
  rw [heffect, hr.memberRef h]
  simp [Except.toOption, hd]

end Pool

theorem fieldSlots_eq {descriptor : String} {kind : ValueKind}
    (h : fieldKind? descriptor = some kind) : fieldSlots descriptor = UInt16.ofNat kind.width := by
  unfold fieldKind? at h
  unfold fieldSlots
  generalize descriptor.toList = text at h ⊢
  split at h
  next found hfound =>
    cases h
    unfold MethodDescriptor.fieldType at hfound
    split at hfound
    next rest =>
      obtain ⟨_, _, hkind⟩ := Option.map_eq_some_iff.mp hfound
      obtain rfl := congrArg Prod.fst hkind
      rfl
    next =>
      unfold MethodDescriptor.elementType at hfound
      split at hfound
      case h_9 rest =>
        split at hfound
        · cases hfound
          rfl
        · cases hfound
      all_goals cases hfound
      all_goals rfl
  · cases h

theorem fieldSlots_eq_fieldWidth (descriptor : String) :
    fieldSlots descriptor = UInt16.ofNat (fieldWidth descriptor) := by
  unfold fieldWidth
  split
  next kind hkind => exact fieldSlots_eq hkind
  next =>
    unfold fieldSlots
    cases descriptor.toList with
    | nil => rfl
    | cons first rest =>
      by_cases hlong : first = 'J'
      · simp [hlong]
      by_cases hdouble : first = 'D'
      · simp [hdouble]
      · simp [hlong, hdouble]

namespace Step

open Assembly

variable {a b : Assembly} {p q : Pool} {step : Step} {action : Action} {pops pushes : Nat}
  {index : UInt16}

theorem pushes_lt (h : step.effect? = some (pops, pushes)) : pushes < 65536 := by
  have hkind : ∀ kind : ValueKind, kind.width < 65536 := fun kind => kind.slots.toNat_lt
  cases step with
  | load kind slot =>
    cases h
    exact hkind kind
  | getStatic owner name descriptor =>
    cases h
    unfold fieldWidth
    split
    next kind _ => exact hkind kind
    next => split <;> decide
  | invoke dispatch owner name descriptor =>
    obtain ⟨d, _, heffect⟩ := Option.map_eq_some_iff.mp h
    cases heffect
    unfold MethodDescriptor.resultWidth
    split
    next kind _ => exact hkind kind
    next => decide
  | _ =>
    cases h
    decide

theorem ofExcept_bind {α β : Type} (x : Except Fault α) (f : α → Except Fault β) :
    (MonadExcept.ofExcept (x >>= f) : Assembling β) =
      MonadExcept.ofExcept x >>= fun a => MonadExcept.ofExcept (f a) := by
  cases x <;> rfl

/-- The slots of a call are counted once its constant is added. -/
theorem assemble_invoke {dispatch : Dispatch} {owner name descriptor : String}
    {d : MethodDescriptor} (hd : MethodDescriptor.parse descriptor = .ok d) :
    (invoke dispatch owner name descriptor).assemble = (do
      let index ← Assembling.intern (Pool.addMember .method owner name descriptor)
      emitCounted (dispatch.opcode :: be16 index) (d.width + dispatch.receiverSlots.toNat)
        d.resultWidth) := by
  have hslots : (MonadExcept.ofExcept (slotCount (d.width + dispatch.receiverSlots.toNat)) :
      Assembling UInt16) = MonadExcept.ofExcept d.parameterSlots >>= fun slots =>
        MonadExcept.ofExcept (addSlots slots dispatch.receiverSlots) := by
    rw [← ofExcept_bind, d.parameterSlots_eq]
    exact congrArg _ (slotCount_bind_slotCount _ _).symm
  unfold emitCounted
  rw [assemble, hd, hslots, ← d.resultSlots_eq]
  simp only [bind_assoc]
  rfl

/-- A step adds its constant and appends its instruction. -/
theorem assemble_eq (h : step.effect? = some (pops, pushes)) :
    step.assemble = Assembling.intern step.addConstant >>= fun index =>
      emitCounted (step.bytes index) pops pushes := by
  cases step with
  | load kind slot =>
    cases h
    rw [assemble, emitLocal_eq, kind.slots_eq]
    rfl
  | store kind slot =>
    cases h
    rw [assemble, emitLocal_eq]
    cases kind <;> rfl
  | dup | iconst | isub =>
    cases h
    rfl
  | ldc text =>
    cases h
    show (Assembling.intern (Pool.addString text) >>= _) = _
    congr 1
    funext index
    unfold bytes
    split <;> rfl
  | getStatic owner name descriptor =>
    cases h
    rw [assemble, fieldSlots_eq_fieldWidth]
    rfl
  | newObject type =>
    cases h
    rfl
  | invoke dispatch owner name descriptor =>
    obtain ⟨d, hd, heffect⟩ := Option.map_eq_some_iff.mp h
    cases heffect
    rw [assemble_invoke (toOption_eq_some.mp hd)]
    rfl

theorem on_assemble (h : step.effect? = some (pops, pushes)) (a : Assembly) :
    step.assemble.on a = step.addConstant >>= fun index =>
      (emitCounted (step.bytes index) pops pushes).on a := by
  rw [assemble_eq h, Assembling.on_intern_bind]

/-- A step of which nothing is known is a call that fails before it adds anything. -/
theorem assemble_of_unknown (h : step.effect? = none) (s : Assembler) :
    ∃ cause, step.assemble s = .error (.malformed cause) s := by
  cases step with
  | invoke dispatch owner name descriptor =>
    rw [effect?, Option.map_eq_none_iff] at h
    have hparse : MethodDescriptor.parse descriptor = damaged (.descriptor descriptor) := by
      unfold MethodDescriptor.parse at h ⊢
      split
      next found =>
        rw [found] at h
        cases h
      next => rfl
    rw [assemble, hparse]
    exact ⟨_, rfl⟩
  | _ => cases h

/-- A step is assembled if its constant is added, the stack has what the step takes, and what it
leaves can be counted. -/
theorem on_assemble_eq_ok {a a' : Assembly} :
    step.assemble.on a p = .ok a' q ↔ ∃ pops pushes index,
      step.effect? = some (pops, pushes) ∧ step.addConstant p = .ok index q ∧
        pops ≤ a.depth.toNat ∧ a.depth.toNat - pops + pushes < 65536 ∧
        a' = a.emitted (step.bytes index) pops pushes := by
  cases heffect : step.effect? with
  | none =>
    obtain ⟨cause, hcause⟩ := assemble_of_unknown heffect ⟨a, p⟩
    simp [Assembling.on, hcause]
  | some effect =>
    rw [congrFun (on_assemble heffect a) p, Stateful.bind_eq_ok]
    simp only [on_emitCounted_eq_ok (pushes_lt heffect)]
    constructor
    · rintro ⟨index, r, hadd, hpops, hfits, rfl, rfl⟩
      exact ⟨_, _, index, rfl, hadd, hpops, hfits, rfl⟩
    · rintro ⟨pops, pushes, index, h, hadd, hpops, hfits, rfl⟩
      cases h
      exact ⟨index, q, hadd, hpops, hfits, rfl, rfl⟩

theorem isAddition_addConstant (step : Step) : step.addConstant.IsAddition := by
  unfold addConstant
  split
  next s _ => exact s.isAddition_intern
  next => exact Interning.isAddition_pure 0

/-- A step that fails has left the assembly as it was. Where a count overflows, the constant is
added, and the step takes either more than can be counted or no more than the stack has. -/
theorem assemble_eq_error {s s' : Assembler} {fault : Fault} (hs : s.pool.IsIndexed)
    (h : step.assemble s = .error fault s') : s'.assembly = s.assembly ∧
      (fault = .overflow → ∃ pops pushes, step.effect? = some (pops, pushes) ∧
        step.addConstant.succeeds s.pool = true ∧
        (65535 < pops ∨ pops ≤ s.assembly.depth.toNat)) := by
  cases heffect : step.effect? with
  | none =>
    obtain ⟨cause, hcause⟩ := assemble_of_unknown heffect s
    cases hcause.symm.trans h
    exact ⟨rfl, nofun⟩
  | some effect =>
    obtain ⟨pops, pushes⟩ := effect
    rw [assemble_eq heffect] at h
    rcases Stateful.bind_eq_error.mp h with hadd | ⟨index, mid, hadd, hemit⟩
    · obtain ⟨hfull, hsame⟩ := Assembling.intern_eq_error.mp hadd
      obtain ⟨rfl, _⟩ := step.isAddition_addConstant.full _ _ _ hs hfull
      exact ⟨hsame, nofun⟩
    · obtain ⟨hadded, hsame⟩ := Assembling.intern_eq_ok.mp hadd
      obtain ⟨_, _, heq⟩ | ⟨_, cause, hcause, heq⟩ :=
        emitCounted_cases (step.bytes index) (pushes_lt heffect) mid
      · cases heq.symm.trans hemit
      · cases heq.symm.trans hemit
        have hsucceeds : step.addConstant.succeeds s.pool = true := by
          rw [Interning.succeeds, hadded]
        rw [hsame] at hcause
        exact ⟨hsame, fun hover => ⟨pops, pushes, rfl, hsucceeds, hcause hover⟩⟩

theorem denoted_of_addConstant (hp : p.IsIndexed) (h : step.addConstant p = .ok index q) :
    ∀ s, step.symbol? = some s → s.Denoted q index := by
  intro s hs
  rw [addConstant, hs] at h
  exact Symbol.denoted_of_intern hp h

theorem effect?_of_action? (h : step.action? = some action) :
    step.effect? = some (action.pops, action.pushes) := by
  cases step with
  | getStatic owner name descriptor =>
    obtain ⟨kind, hkind, rfl⟩ := Option.map_eq_some_iff.mp h
    rw [effect?, fieldWidth, hkind]
    rfl
  | invoke dispatch owner name descriptor =>
    obtain ⟨d, hd, rfl⟩ := Option.map_eq_some_iff.mp h
    rw [effect?, hd]
    rfl
  | _ =>
    cases h
    rfl

/-- The bytes of a step do what the step does, where its constant is denoted. -/
theorem encodes_bytes (haction : step.action? = some action)
    (h : ∀ s, step.symbol? = some s → s.Denoted q index) :
    q.Encodes (step.bytes index) action := by
  cases step with
  | load kind slot =>
    cases haction
    exact q.encodes_load kind slot
  | store kind slot =>
    cases haction
    exact q.encodes_store kind slot
  | dup | isub =>
    cases haction
    exact Pool.encodes_fixed rfl (.inl rfl) fun r _ => rfl
  | iconst value =>
    cases haction
    exact q.encodes_iconst value
  | ldc text =>
    cases haction
    obtain ⟨found, hfound, _⟩ := h _ rfl
    exact Pool.encodes_ldc hfound
  | getStatic owner name descriptor =>
    obtain ⟨kind, hkind, rfl⟩ := Option.map_eq_some_iff.mp haction
    exact Pool.encodes_getStatic (h _ rfl) hkind
  | newObject type =>
    cases haction
    exact Pool.encodes_new (h _ rfl)
  | invoke dispatch owner name descriptor =>
    obtain ⟨d, hd, rfl⟩ := Option.map_eq_some_iff.mp haction
    exact Pool.encodes_invoke dispatch (h _ rfl) (toOption_eq_some.mp hd)

/-- Assembling a step appends one instruction that does what the step does. -/
theorem on_assemble_of_ok (haction : step.action? = some action) (hp : p.IsIndexed)
    (h : step.assemble.on a p = .ok b q) :
    action.pops ≤ a.depth.toNat ∧ a.depth.toNat - action.pops + action.pushes < 65536 ∧
      ∃ bytes, q.Encodes bytes action ∧ b = a.emitted bytes action.pops action.pushes := by
  obtain ⟨pops, pushes, index, heffect, hadd, hpops, hfits, rfl⟩ := on_assemble_eq_ok.mp h
  cases heffect.symm.trans (effect?_of_action? haction)
  exact ⟨hpops, hfits, _, encodes_bytes haction (denoted_of_addConstant hp hadd), rfl⟩

theorem brings_addConstant (step : Step) :
    step.addConstant.Brings (step.symbol?.toList.flatMap Symbol.parts) := by
  unfold addConstant
  cases step.symbol? with
  | none => exact .of_after fun p => rfl
  | some s => exact s.brings_intern.mono (by simp)

/-- Assembling brings in the constants of the step alone. -/
theorem brings_assemble (step : Step) (a : Assembly) :
    (step.assemble.on a).Brings (step.symbol?.toList.flatMap Symbol.parts) := by
  cases heffect : step.effect? with
  | none =>
    refine .of_after fun p => ?_
    obtain ⟨cause, hcause⟩ := assemble_of_unknown heffect ⟨a, p⟩
    rw [Interning.after, Assembling.on, hcause]
  | some effect =>
    rw [on_assemble heffect]
    exact step.brings_addConstant.bind fun index =>
      .of_after fun p => after_emitCounted _ (pushes_lt heffect) a p

theorem grows_assemble (step : Step) (a : Assembly) :
    (step.assemble.on a).Grows fun _ => True :=
  (step.brings_assemble a).grows

end Step

namespace Assembly

variable {a b : Assembly} {p q : Pool} {steps : List Step} {actions : List Action}

theorem on_assembleAll_cons (step : Step) (steps : List Step) (a : Assembly) :
    (assembleAll (step :: steps)).on a =
      step.assemble.on a >>= fun b => (assembleAll steps).on b :=
  Assembling.on_bind step.assemble (fun _ => assembleAll steps) a

theorem brings_assembleAll (steps : List Step) (a : Assembly) :
    ((assembleAll steps).on a).Brings ((steps.filterMap Step.symbol?).flatMap Symbol.parts) := by
  induction steps generalizing a with
  | nil => exact .of_after fun p => rfl
  | cons step steps ih =>
    rw [on_assembleAll_cons]
    have hsplit : (step :: steps).filterMap Step.symbol? =
        step.symbol?.toList ++ steps.filterMap Step.symbol? := by
      cases hsymbol : step.symbol? <;> simp [hsymbol]
    rw [hsplit, List.flatMap_append]
    exact ((step.brings_assemble a).mono (List.subset_append_left _ _)).bind fun b =>
      (ih b).mono (List.subset_append_right _ _)

theorem grows_assembleAll (steps : List Step) (a : Assembly) :
    ((assembleAll steps).on a).Grows fun _ => True :=
  (brings_assembleAll steps a).grows

/-- Assembling steps appends straight instructions that do what the steps do, and the counts climb
with them. -/
theorem assembleAll_of_ok
    (hactions : List.Forall₂ (fun step action => step.action? = some action) steps actions)
    (hp : p.IsIndexed) (h : (assembleAll steps).on a p = .ok b q) :
    ∃ instrs code, b.code.toList = a.code.toList ++ code ∧
      Action.climb actions a.depth.toNat a.maxDepth.toNat =
        some (b.depth.toNat, b.maxDepth.toNat) ∧
      Instruction.Listing 0 instrs code ∧ (∀ i ∈ instrs, i.IsStraight) ∧
      ∀ r, q.GrowsTo r →
        List.Forall₂ (fun action (i : Instruction) => i.action? r = some action) actions instrs := by
  induction hactions generalizing a p with
  | nil =>
    cases h
    exact ⟨[], [], by simp, rfl, .nil _, by simp, fun _ _ => .nil⟩
  | @cons step action steps actions haction _ ih =>
    rw [on_assembleAll_cons] at h
    obtain ⟨mid, r, hfirst, hrest⟩ := Stateful.bind_eq_ok.mp h
    have hgrown := (step.grows_assemble a).of_ok hp hfirst
    obtain ⟨hpops, hfits, bytes, ⟨i, hstands, hstraight, hi⟩, rfl⟩ :=
      Step.on_assemble_of_ok haction hp hfirst
    obtain ⟨instrs, code, hcode, hclimb, hlisting, hall, hinstrs⟩ := ih hgrown.indexed hrest
    have hlater := (grows_assembleAll steps _).of_ok hgrown.indexed hrest
    refine ⟨i :: instrs.map (·.shift bytes.length), bytes ++ code, ?_, ?_, ?_, ?_, ?_⟩
    · rw [hcode]
      simp [emitted]
    · rw [toNat_depth_emitted hfits, toNat_maxDepth_emitted hfits] at hclimb
      rw [Action.climb, if_pos hpops, hclimb]
    · exact .cons hstands (hlisting.shift hall bytes.length)
    · rw [List.forall_mem_cons, List.forall_mem_map]
      exact ⟨hstraight, hall⟩
    · intro r hr
      refine .cons (hi r (hlater.trans hr)) ?_
      rw [List.forall₂_map_right_iff]
      exact hinstrs r hr

end Assembly

end ThreadWatch
