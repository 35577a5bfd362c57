import ThreadWatch.Proofs.Editing.Room

/-!
# The limit of locals

A prelude uses the locals behind those of its method, and there are 65535 for a method. They are
counted in sixteen bits before it is asked whether they are enough, so what is meant is what is done
up to 65533 parameter slots. Beyond, the count overflows, and the question is never asked.
-/

namespace ThreadWatch

namespace Action

/-- The locals that are read or written. -/
def touches : Action → List Nat
  | load width slot | store width slot => List.range' slot width
  | dup | work .. => []

/-- Where nothing is read that was not written, no more is touched than written. -/
theorem mem_writes_of_mem_touches {known : List Nat} {actions : List Action}
    (hreads : Reads known actions) {action : Action} (haction : action ∈ actions) {n : Nat}
    (hn : n ∈ action.touches) : n ∈ known ++ actions.flatMap writes := by
  induction actions generalizing known with
  | nil => cases haction
  | cons head rest ih =>
    obtain ⟨hload, hrest⟩ := reads_cons hreads
    rw [List.flatMap_cons, ← List.append_assoc]
    rcases List.mem_cons.mp haction with rfl | haction
    · refine List.mem_append_left _ ?_
      cases action with
      | load width slot => exact List.mem_append_left _ (hload width slot rfl n hn)
      | store width slot => exact List.mem_append_right _ hn
      | dup | work => cases hn
    · exact ih hrest haction

end Action

namespace Prelude

/-- The locals for a call of this type: where the arguments are parked, where the receiver is copied
to, and the one behind it. -/
def freshLocals (d : MethodDescriptor) (first : UInt16) : List Nat :=
  ((parking first d.parameters).flatMap fun (kind, slot) => List.range' slot.toNat kind.width) ++
    [(behind first d.parameters).toNat, (behind first d.parameters + 1).toNat]

theorem flatMap_parking {slot : UInt16} {kinds : List ValueKind}
    (h : slot.toNat + widths kinds < 65536) :
    ((parking slot kinds).flatMap fun (kind, slot) => List.range' slot.toNat kind.width) =
      List.range' slot.toNat (widths kinds) := by
  induction kinds generalizing slot with
  | nil => rfl
  | cons kind kinds ih =>
    rw [widths_cons] at h ⊢
    have hslot : (slot + kind.slots).toNat = slot.toNat + kind.width := toNat_add_slots (by omega)
    rw [parking, List.flatMap_cons, ih (by omega), hslot, List.range'_append_1]

/-- Locals that fit are counted up from the first. -/
theorem freshLocals_eq {d : MethodDescriptor} {first : UInt16}
    (h : first.toNat + d.width + 2 ≤ 65535) :
    freshLocals d first = List.range' first.toNat (d.width + 2) := by
  have hwidth : d.width = widths d.parameters := rfl
  have hreceiver : (behind first d.parameters).toNat = first.toNat + d.width :=
    toNat_behind (by omega)
  have hscratch : (behind first d.parameters + 1).toNat = first.toNat + d.width + 1 := by
    rw [UInt16.toNat_add, hreceiver]
    exact Nat.mod_eq_of_lt (by change _ + 1 < _; omega)
  rw [freshLocals, flatMap_parking (by omega), hreceiver, hscratch, ← hwidth,
    ← List.range'_append_1]
  rfl

section Compiled

variable {probe : Probe} {descriptor : String} {first : UInt16} {p q : Pool}
  {prelude : Prelude} {d : MethodDescriptor}

/-- A prelude touches the locals it names and no others, and any run of it reaches exactly the
height that it says, also where the pool has grown. -/
theorem exists_run_compiled (hp : p.IsIndexed) (hd : MethodDescriptor.parse descriptor = .ok d)
    (hfits : first.toNat + d.width + 2 ≤ 65535)
    (h : compile probe descriptor first p = .ok prelude q) {r : Pool} (hr : q.GrowsTo r) :
    prelude.extraLocals.toNat = d.width + 2 ∧ ∃ instrs,
      Instruction.decode prelude.code = .ok instrs ∧
      (∀ i ∈ instrs, ∃ action, i.action? r = some action ∧
        ∀ n ∈ action.touches, first.toNat ≤ n ∧ n < first.toNat + prelude.extraLocals.toNat) ∧
      ∀ (α : Type) (reply : Nat → Nat → α) (locals : Nat → α) (stack : List α),
        d.width + 1 ≤ stack.length →
        ∃ s, Slots.run r reply instrs (Slots.start stack locals) = some s ∧
          s.peak = stack.length + prelude.extraStack.toNat := by
  obtain ⟨instrs, top, hlisting, _, hgrown, hclimb, htop, hlocals⟩ :=
    exists_compiled_grown hp hd hfits h
  have hdoes := hgrown r hr
  have hreads := reads_actions probe d.parameters first.toNat
  refine ⟨hlocals, instrs, Instruction.decode_eq_ok_iff.mpr hlisting, ?_, ?_⟩
  · intro i hi
    obtain ⟨action, haction, hi⟩ := exists_of_mem_right hdoes hi
    refine ⟨action, hi, fun n hn => ?_⟩
    rw [hlocals]
    exact mem_writes_actions (Action.mem_writes_of_mem_touches hreads haction hn)
  · intro α reply locals stack hheight
    have hsplit := (List.take_append_drop (d.width + 1) stack).symm
    have hheld : (stack.take (d.width + 1)).length = d.width + 1 := by
      rw [List.length_take]
      omega
    obtain ⟨s, hs, _, hpeak, _⟩ := Slots.exists_run hdoes reply
      (Slots.leads_of_climb hclimb (s := Slots.start stack locals) hsplit hheld (by simp) hreads)
    have hbase : stack.length = (stack.drop (d.width + 1)).length + (d.width + 1) := by
      rw [List.length_drop]
      omega
    have hreached := hpeak hbase
    exact ⟨s, hs, by omega⟩

end Compiled

/-- The prelude adds the locals for a call of this type, all of them different and none of them
the last there can be, and as much stack as a run of it needs. -/
def IsWithin (prelude : Prelude) (d : MethodDescriptor) (first : UInt16) (q : Pool) : Prop :=
  prelude.extraLocals.toNat = d.width + 2 ∧ (freshLocals d first).Nodup ∧
    (∀ n ∈ freshLocals d first, n < 65535) ∧ ∃ instrs,
      Instruction.decode prelude.code = .ok instrs ∧
      (∀ i ∈ instrs, ∃ action, i.action? q = some action ∧
        ∀ n ∈ action.touches, n ∈ freshLocals d first) ∧
      ∀ (α : Type) (reply : Nat → Nat → α) (locals : Nat → α) (stack : List α),
        d.width + 1 ≤ stack.length →
        ∃ s, Slots.run q reply instrs (Slots.start stack locals) = some s ∧
          s.peak = stack.length + prelude.extraStack.toNat

/-- What the limit is meant to be: a prelude is compiled, and stays within it, if its locals are
among the 65535 of a method; if not, it is not supported. -/
def KeepsLimit (probe : Probe) (descriptor : String) (d : MethodDescriptor) (first : UInt16)
    (p : Pool) : Prop :=
  if first.toNat + d.width + 2 ≤ 65535 then
    ∃ prelude q, compile probe descriptor first p = .ok prelude q ∧ prelude.IsWithin d first q
  else ∃ limit q, compile probe descriptor first p = .error (.notSupported limit) q

section Limit

variable {descriptor : String} {p : Pool} {d : MethodDescriptor}
  (hp : p.IsIndexed) (hd : MethodDescriptor.parse descriptor = .ok d)

include hp hd

theorem isWithin_of_compile {probe : Probe} {first : UInt16} {prelude : Prelude} {q : Pool}
    (hfits : first.toNat + d.width + 2 ≤ 65535)
    (h : compile probe descriptor first p = .ok prelude q) : prelude.IsWithin d first q := by
  have hq := ((grows_compile probe descriptor first).of_ok hp h).indexed
  obtain ⟨hlocals, instrs, hdecode, htouches, hruns⟩ :=
    exists_run_compiled hp hd hfits h (.refl hq)
  have hmem (n : Nat) : n ∈ freshLocals d first ↔
      first.toNat ≤ n ∧ n < first.toNat + (d.width + 2) := by
    rw [freshLocals_eq hfits, List.mem_range'_1]
  refine ⟨hlocals, ?_, fun n hn => ?_, instrs, hdecode, fun i hi => ?_, hruns⟩
  · rw [freshLocals_eq hfits]
    exact List.nodup_range'
  · have hbounds := (hmem n).mp hn
    omega
  · obtain ⟨action, haction, hbounds⟩ := htouches i hi
    refine ⟨action, haction, fun n hn => (hmem n).mpr ?_⟩
    rw [← hlocals]
    exact hbounds n hn

/-- The limit is kept exactly where the locals can be counted, and where they cannot the count
overflows. -/
theorem compile_keepsLimit_iff (probe : Probe) (first : UInt16) :
    (p.count + 190 < Pool.capacity → ∀ q, compile probe descriptor first p ≠ .error .poolFull q) ∧
    ((∀ q, compile probe descriptor first p ≠ .error .poolFull q) →
      (KeepsLimit probe descriptor d first p ↔ d.width ≤ 65533)) ∧
    (65533 < d.width → compile probe descriptor first p = .error .overflow p) := by
  refine ⟨fun hroom q => compile_ne_poolFull hp hroom, fun hroom => ?_, fun hmany => ?_⟩
  · rw [KeepsLimit]
    obtain ⟨hover, heq⟩ | ⟨hfew, hfull, heq⟩ | ⟨hfits, ⟨q, _, heq⟩ | ⟨prelude, q, heq⟩⟩ :=
      compile_cases hd probe first hp
    · rw [if_neg (by omega), heq]
      constructor
      · rintro ⟨limit, q, hlimit⟩
        cases hlimit
      · omega
    · rw [if_neg (by omega), heq]
      exact ⟨fun _ => by omega, fun _ => ⟨_, p, rfl⟩⟩
    · exact absurd heq (hroom q)
    · rw [if_pos hfits]
      exact ⟨fun _ => by omega, fun _ => ⟨prelude, q, heq, isWithin_of_compile hp hd hfits heq⟩⟩
  · obtain ⟨_, heq⟩ | ⟨hfew, _⟩ | ⟨hfits, _⟩ := compile_cases hd probe first hp
    · exact heq
    · omega
    · omega

end Limit

theorem compile_keepsLimit_iff_long :
    Pool.empty.IsIndexed ∧ Pool.empty.count + 190 < Pool.capacity ∧
      MethodDescriptor.parse "(J)V" = .ok ⟨[.long], none⟩ ∧
      KeepsLimit ⟨.start, "T", false, false⟩ "(J)V" ⟨[.long], none⟩ 7 Pool.empty := by
  have hp : Pool.empty.IsIndexed := by decide
  have hroom : Pool.empty.count + 190 < Pool.capacity := by decide
  have hd : MethodDescriptor.parse "(J)V" = .ok ⟨[.long], none⟩ := by cbv
  obtain ⟨henough, hkeeps, _⟩ := compile_keepsLimit_iff hp hd ⟨.start, "T", false, false⟩ 7
  exact ⟨hp, hroom, hd, (hkeeps (henough hroom)).mpr (by decide)⟩

/-! ### A count that overflows -/

/-- A method with so many parameters of type long. -/
def longs (n : Nat) : MethodDescriptor := ⟨List.replicate n .long, none⟩

def longsText (n : Nat) : String := String.ofList ('(' :: (List.replicate n 'J' ++ [')', 'V']))

theorem width_longs (n : Nat) : (longs n).width = 2 * n := by
  have hlong : ValueKind.width .long = 2 := rfl
  simp [longs, MethodDescriptor.width, hlong, Nat.mul_comm]

theorem parameterTypes_replicate (n : Nat) (rest : List Char) :
    MethodDescriptor.parameterTypes (List.replicate n 'J' ++ ')' :: rest) =
      some (List.replicate n .long, rest) := by
  induction n with
  | zero => rw [List.replicate_zero, List.nil_append, MethodDescriptor.parameterTypes]; rfl
  | succ n ih =>
    have htype : MethodDescriptor.fieldType ('J' :: (List.replicate n 'J' ++ ')' :: rest)) =
        some (.long, List.replicate n 'J' ++ ')' :: rest) := rfl
    rw [List.replicate_succ, List.cons_append, MethodDescriptor.parameterTypes]
    · split
      next hnone =>
        rw [htype] at hnone
        cases hnone
      next kind later hsome =>
        cases htype.symm.trans hsome
        rw [ih]
        rfl
    · simp

theorem parse_longsText (n : Nat) : MethodDescriptor.parse (longsText n) = .ok (longs n) := by
  have htypes := parameterTypes_replicate n ['V']
  rw [MethodDescriptor.parse, longsText, String.toList_ofList]
  simp [MethodDescriptor.ofChars?, htypes, MethodDescriptor.resultType, longs]

/-- With 65534 parameter slots 65536 locals are wanted, and counting them overflows. -/
theorem not_keepsLimit_longs :
    MethodDescriptor.parse (longsText 32767) = .ok (longs 32767) ∧ (longs 32767).width = 65534 ∧
      Pool.empty.count + 190 < Pool.capacity ∧
      compile ⟨.start, "java/lang/Thread", false, false⟩ (longsText 32767) 0 Pool.empty =
        .error .overflow Pool.empty ∧
      ¬ KeepsLimit ⟨.start, "java/lang/Thread", false, false⟩ (longsText 32767) (longs 32767) 0
        Pool.empty := by
  have hp : Pool.empty.IsIndexed := by decide
  have hroom : Pool.empty.count + 190 < Pool.capacity := by decide
  have hd := parse_longsText 32767
  have hwidth : (longs 32767).width = 65534 := width_longs 32767
  obtain ⟨_, heq⟩ | ⟨hfew, _⟩ | ⟨hfits, _⟩ :=
    compile_cases hd ⟨.start, "java/lang/Thread", false, false⟩ 0 hp
  · refine ⟨hd, hwidth, hroom, heq, ?_⟩
    rw [KeepsLimit, hwidth, if_neg (by decide), heq]
    rintro ⟨limit, r, hlimit⟩
    cases hlimit
  · omega
  · omega

end Prelude

end ThreadWatch
