import Mathlib.Algebra.Ring.Int.Defs
import Mathlib.Data.List.Infix
import Mathlib.Order.Bounds.Basic
import ThreadWatch.Proofs.Code.Assembly

/-!
# Steps that are tried one after the other

Some of the steps may fail, and those behind them are tried all the same. The code is one
instruction for each step that went well, which says what the step asked for; the counts of stack
slots are what the steps do to the stack; and as long as sixteen bits are enough for them, a step is
kept from being assembled by its descriptor, by a full pool or by a stack that is too low, and by
nothing else.
-/

namespace ThreadWatch

namespace Instruction

/-- The local that the instruction moves a value from or to, behind the wide opcode where one byte
is not enough to name it. -/
def NamesLocal (i : Instruction) (slot : UInt16) : Prop :=
  (i.wide = true ↔ 255 < slot) ∧
    ∃ operands, i.operand = .fixed operands ∧ beNat operands = slot.toNat

/-- The number that the instruction pushes, if it is one that pushes a number. -/
def number? (i : Instruction) : Option Int :=
  match i.operand with
  | .fixed operands =>
    if 0x02 ≤ i.opcode && i.opcode ≤ 0x08 then some (i.opcode.toNat - 3)
    else if i.opcode = Opcode.bipush then some (Scalar.i8.value operands)
    else if i.opcode = Opcode.sipush then some (Scalar.i16.value operands)
    else none
  | _ => none

/-- The constant that the instruction refers to is the one that is meant. -/
def Means (i : Instruction) (pool : Pool) (s : Symbol) : Prop :=
  ∃ index, i.constant? = some index ∧ s.Denoted pool index

end Instruction

namespace Step

/-- The instruction says what the step asks for, when its constant is looked up in the pool. -/
def IsSaid (pool : Pool) (i : Instruction) : Step → Prop
  | load kind slot => i.opcode = kind.loadOpcode ∧ i.NamesLocal slot
  | store kind slot => i.opcode = kind.storeOpcode ∧ i.NamesLocal slot
  | dup => i.opcode = Opcode.dup ∧ i.operand = .fixed []
  | iconst value => i.number? = some value.toInt
  | isub => i.opcode = Opcode.isub ∧ i.operand = .fixed []
  | ldc text => ∃ index, (Symbol.string text).Denoted pool index ∧
      if index ≤ 255 then i.opcode = Opcode.ldc ∧ i.operand = .fixed [index.toUInt8]
      else i.opcode = Opcode.ldcW ∧ i.constant? = some index
  | getStatic owner name descriptor =>
    i.opcode = Opcode.getStatic ∧ i.Means pool (.member .field owner name descriptor)
  | newObject type => i.opcode = Opcode.newObject ∧ i.Means pool (.type type)
  | invoke dispatch owner name descriptor =>
    i.opcode = dispatch.opcode ∧ i.Means pool (.member .method owner name descriptor)

end Step

namespace Scalar

theorem value_i8 (b : UInt8) : i8.value [b] = b.toInt8.toInt := by
  revert b
  apply Opcode.forall_opcode
  decide +kernel

theorem value_i16 (value : Int16) : i16.value (be16 value.toUInt16) = value.toInt := by
  have hcond : value.toInt = if 2 * value.toUInt16.toNat < 65536 then (value.toUInt16.toNat : Int)
      else value.toUInt16.toNat - 65536 := BitVec.toInt_eq_toNat_cond value.toBitVec
  unfold Scalar.value
  rw [Pool.beNat_be16, hcond]
  simp [signed, size, spellable]
  split <;> split <;> omega

end Scalar

namespace Instruction

variable {op : UInt8} {pool : Pool} {symbol : Symbol}

theorem exists_namesLocal (position : Nat) (slot : UInt16) (hshape : Opcode.shape op = .fixed 1)
    (hwide : Opcode.wideOperands op = some 2) :
    ∃ i, Stands position i (Step.localBytes op slot) ∧ i.opcode = op ∧ i.NamesLocal slot := by
  unfold Step.localBytes
  split
  next h =>
    refine ⟨_, stands_fixed position hshape, rfl, ?_, _, rfl, Pool.beNat_low h⟩
    simp [UInt16.not_lt.mpr h]
  next h =>
    refine ⟨_, stands_wide position hwide, rfl, ?_, _, rfl, Pool.beNat_be16 slot⟩
    simp [UInt16.not_le.mp h]

theorem exists_constant (op : UInt8) (position : Nat) (index : UInt16)
    (hshape : Opcode.shape op = .fixed 2) (hconstant : Opcode.takesConstant op = true) :
    ∃ i, Stands position i (op :: be16 index) ∧ i.opcode = op ∧ i.constant? = some index := by
  obtain ⟨high, low, hbytes, hjoin⟩ := join_be16 index
  rw [hbytes, ← hjoin]
  exact ⟨_, stands_fixed position hshape, rfl, by simp [constant?, hconstant]⟩

theorem exists_means (op : UInt8) (position : Nat) {index : UInt16}
    (hshape : Opcode.shape op = .fixed 2) (hconstant : Opcode.takesConstant op = true)
    (h : symbol.Denoted pool index) :
    ∃ i, Stands position i (op :: be16 index) ∧ i.opcode = op ∧ i.Means pool symbol := by
  obtain ⟨i, hi, hopcode, hindex⟩ := exists_constant op position index hshape hconstant
  exact ⟨i, hi, hopcode, index, hindex, h⟩

theorem toInt_toInt8_of_byte {value : Int16} (h : (-128 ≤ value && value ≤ 127) = true) :
    value.toInt8.toInt = value.toInt := by
  simp only [Bool.and_eq_true, decide_eq_true_eq, Int16.le_iff_toInt_le] at h
  change -128 ≤ value.toInt ∧ value.toInt ≤ 127 at h
  rw [Int16.toInt_toInt8]
  exact Int.bmod_eq_of_le (by omega) (by omega)

theorem exists_number (position : Nat) (value : Int16) :
    ∃ i, Stands position i (iconstBytes value) ∧ i.number? = some value.toInt := by
  unfold iconstBytes
  split
  next hsmall =>
    rcases Pool.eq_of_small hsmall with rfl | rfl | rfl | rfl | rfl | rfl | rfl <;>
      exact ⟨_, stands_fixed position rfl, rfl⟩
  next =>
    split
    next hbyte =>
      have hvalue : Scalar.i8.value [value.toInt8.toUInt8] = value.toInt := by
        rw [Scalar.value_i8, Int8.toInt8_toUInt8]
        exact toInt_toInt8_of_byte hbyte
      refine ⟨_, stands_fixed position rfl, ?_⟩
      rw [← hvalue]
      rfl
    next =>
      refine ⟨_, stands_fixed position rfl, ?_⟩
      rw [← Scalar.value_i16]
      rfl

end Instruction

namespace Step

variable {step : Step} {i : Instruction} {p q : Pool} {index : UInt16}

theorem IsSaid.grow (hgrown : p.GrowsTo q) (h : step.IsSaid p i) : step.IsSaid q i := by
  cases step with
  | ldc text =>
    obtain ⟨index, hdenoted, hi⟩ := h
    exact ⟨index, hdenoted.grow hgrown, hi⟩
  | getStatic | newObject | invoke =>
    obtain ⟨hopcode, index, hi, hdenoted⟩ := h
    exact ⟨hopcode, index, hi, hdenoted.grow hgrown⟩
  | _ => exact h

/-- The bytes of a step are one instruction, which says it. -/
theorem exists_isSaid (step : Step) (position : Nat)
    (h : ∀ s, step.symbol? = some s → s.Denoted p index) :
    ∃ i, Instruction.Stands position i (step.bytes index) ∧ step.IsSaid p i := by
  cases step with
  | load kind slot =>
    exact Instruction.exists_namesLocal position slot (by cases kind <;> rfl) (by cases kind <;> rfl)
  | store kind slot =>
    exact Instruction.exists_namesLocal position slot (by cases kind <;> rfl) (by cases kind <;> rfl)
  | dup => exact ⟨_, Instruction.stands_fixed position rfl, rfl, rfl⟩
  | iconst value => exact Instruction.exists_number position value
  | isub => exact ⟨_, Instruction.stands_fixed position rfl, rfl, rfl⟩
  | ldc text =>
    unfold bytes IsSaid
    by_cases hlow : index ≤ 255
    · rw [if_pos hlow]
      refine ⟨_, Instruction.stands_fixed position rfl, index, h _ rfl, ?_⟩
      rw [if_pos hlow]
      exact ⟨rfl, rfl⟩
    · obtain ⟨i, hi, hsaid⟩ := Instruction.exists_constant Opcode.ldcW position index rfl rfl
      rw [if_neg hlow]
      refine ⟨i, hi, index, h _ rfl, ?_⟩
      rwa [if_neg hlow]
  | getStatic owner name descriptor =>
    exact Instruction.exists_means Opcode.getStatic position rfl rfl (h _ rfl)
  | newObject type => exact Instruction.exists_means Opcode.newObject position rfl rfl (h _ rfl)
  | invoke dispatch owner name descriptor =>
    exact Instruction.exists_means dispatch.opcode position (by cases dispatch <;> rfl)
      (by cases dispatch <;> rfl) (h _ rfl)

/-- The slots that the step takes off the stack. -/
def takes (step : Step) : Nat := (step.effect?.map Prod.fst).getD 0

/-- By how much the stack is higher afterwards. -/
def gain (step : Step) : Int := (step.effect?.map fun (pops, pushes) => (pushes - pops : Int)).getD 0

end Step

/-- An assembly and its pool, and the steps that went well so far. -/
structure Bench extends Assembler where
  done : List Step

namespace Bench

def start (depth : UInt16) (p : Pool) : Bench := ⟨⟨.start depth, p⟩, []⟩

/-- Try a step, and go on from what it leaves behind. -/
def attempt (b : Bench) (step : Step) : Bench :=
  match step.assemble b.toAssembler with
  | .ok _ s => ⟨s, b.done ++ [step]⟩
  | .error _ s => ⟨s, b.done⟩

def attemptAll (b : Bench) (steps : List Step) : Bench := steps.foldl attempt b

/-- The slots in use after these steps. -/
def height (depth : UInt16) (steps : List Step) : Int := depth.toNat + (steps.map Step.gain).sum

/-- The slots in use at the start and after each of these steps. -/
def heights (depth : UInt16) (steps : List Step) : Set Int :=
  {h | ∃ first, first <+: steps ∧ h = height depth first}

/-- The descriptor of the step is one, its constant has room, and the stack has what it takes. -/
def Allows (b : Bench) (depth : UInt16) (step : Step) : Prop :=
  ∃ pops pushes, step.effect? = some (pops, pushes) ∧ step.addConstant.succeeds b.pool = true ∧
    pops ≤ height depth b.done

/-- Sixteen bits are enough for the stack wherever a step is allowed. -/
def StaysCountable (b : Bench) (depth : UInt16) (steps : List Step) : Prop :=
  ∀ before step later, steps = before ++ step :: later → (b.attemptAll before).Allows depth step →
    height depth ((b.attemptAll before).done ++ [step]) ≤ 65535

/-- The code says what the steps ask for, and the counts are true. -/
structure IsExact (b : Bench) (depth : UInt16) : Prop where
  indexed : b.pool.IsIndexed
  said : ∃ instrs, Instruction.Listing 0 instrs b.assembly.code.toList ∧
    List.Forall₂ (fun step i => step.IsSaid b.pool i) b.done instrs
  depth_eq : (b.assembly.depth.toNat : Int) = height depth b.done
  greatest : IsGreatest (heights depth b.done) b.assembly.maxDepth.toNat

variable {b : Bench} {depth : UInt16} {step : Step} {steps : List Step} {p : Pool}

theorem height_concat (depth : UInt16) (steps : List Step) (step : Step) :
    height depth (steps ++ [step]) = height depth steps + step.gain := by
  simp [height, Int.add_assoc]

theorem heights_nil (depth : UInt16) : heights depth [] = {height depth []} := by
  ext h
  simp [heights]

theorem heights_concat (depth : UInt16) (steps : List Step) (step : Step) :
    heights depth (steps ++ [step]) =
      insert (height depth (steps ++ [step])) (heights depth steps) := by
  ext h
  simp only [heights, Set.mem_ofPred_eq, Set.mem_insert_iff, List.prefix_concat_iff]
  constructor
  · rintro ⟨first, rfl | hfirst, rfl⟩
    · exact .inl rfl
    · exact .inr ⟨first, hfirst, rfl⟩
  · rintro (rfl | ⟨first, hfirst, rfl⟩)
    · exact ⟨_, .inl rfl, rfl⟩
    · exact ⟨first, .inr hfirst, rfl⟩

theorem isExact_start (depth : UInt16) (hp : p.IsIndexed) : (start depth p).IsExact depth where
  indexed := hp
  said := ⟨[], .nil 0, .nil⟩
  depth_eq := by simp [start, Assembly.start, height]
  greatest := by
    rw [start, heights_nil]
    simp [Assembly.start, height]

theorem attempt_of_ok {s : Assembler} (h : step.assemble b.toAssembler = .ok () s) :
    b.attempt step = ⟨s, b.done ++ [step]⟩ := by
  rw [attempt, h]

theorem attempt_of_error {fault : Fault} {s : Assembler}
    (h : step.assemble b.toAssembler = .error fault s) : b.attempt step = ⟨s, b.done⟩ := by
  rw [attempt, h]

theorem pool_attempt (b : Bench) (step : Step) :
    (b.attempt step).pool = (step.assemble.on b.assembly).after b.pool := by
  unfold Interning.after Assembling.on
  cases hresult : step.assemble b.toAssembler with
  | ok _ s => rw [attempt_of_ok hresult]
  | error fault s => rw [attempt_of_error hresult]

theorem grows_attempt (hp : b.pool.IsIndexed) (step : Step) :
    b.pool.GrowsTo (b.attempt step).pool := by
  rw [pool_attempt]
  exact step.grows_assemble b.assembly b.pool hp

theorem height_of_effect {pops pushes : Nat} (heffect : step.effect? = some (pops, pushes)) :
    height depth (b.done ++ [step]) = height depth b.done + (pushes - pops) := by
  rw [height_concat, Step.gain, heffect]
  rfl

/-- While the counts are true and countable, a step is assembled where it is allowed and nowhere
else. -/
theorem IsExact.allows_iff (h : b.IsExact depth)
    (hlimit : b.Allows depth step → height depth (b.done ++ [step]) ≤ 65535) :
    b.Allows depth step ↔ ∃ s, step.assemble b.toAssembler = .ok () s := by
  have hdepth := h.depth_eq
  constructor
  · intro hallows
    have hle := hlimit hallows
    obtain ⟨pops, pushes, heffect, hadd, hpops⟩ := hallows
    obtain ⟨index, q, hadd⟩ := Interning.exists_of_succeeds hadd
    rw [height_of_effect heffect] at hle
    have hok := (Step.on_assemble_eq_ok (a := b.assembly)).mpr
      ⟨pops, pushes, index, heffect, hadd, by omega, by omega, rfl⟩
    exact ⟨_, Assembling.on_eq_ok.mp hok⟩
  · rintro ⟨⟨a, q⟩, hok⟩
    obtain ⟨pops, pushes, index, heffect, hadd, hpops, _⟩ :=
      (Step.on_assemble_eq_ok (a := b.assembly)).mp (Assembling.on_eq_ok.mpr hok)
    refine ⟨pops, pushes, heffect, ?_, by omega⟩
    rw [Interning.succeeds, hadd]

/-- Trying a step keeps the code and the counts true. -/
theorem IsExact.attempt (h : b.IsExact depth) (step : Step) : (b.attempt step).IsExact depth := by
  have hgrown := grows_attempt h.indexed step
  obtain ⟨instrs, hlisting, hsaid⟩ := h.said
  cases hresult : step.assemble b.toAssembler with
  | error fault s =>
    obtain ⟨hsame, _⟩ := Step.assemble_eq_error h.indexed hresult
    rw [attempt_of_error hresult] at hgrown ⊢
    refine ⟨hgrown.indexed, ⟨instrs, ?_, hsaid.imp fun _ _ hi => hi.grow hgrown⟩, ?_, ?_⟩
    · exact hsame ▸ hlisting
    · exact hsame ▸ h.depth_eq
    · exact hsame ▸ h.greatest
  | ok _ s =>
    rw [attempt_of_ok hresult] at hgrown ⊢
    obtain ⟨a, q⟩ := s
    obtain ⟨pops, pushes, index, heffect, hadd, hpops, hfits, ha⟩ :=
      (Step.on_assemble_eq_ok (a := b.assembly)).mp (Assembling.on_eq_ok.mpr hresult)
    have hbefore := h.depth_eq
    have hheight : height depth (b.done ++ [step]) = height depth b.done + (pushes - pops) :=
      height_of_effect heffect
    have hdepth : (a.depth.toNat : Int) = height depth (b.done ++ [step]) := by
      rw [ha, Assembly.toNat_depth_emitted hfits]
      omega
    have hmax : (a.maxDepth.toNat : Int) = max (a.depth.toNat : Int) b.assembly.maxDepth.toNat := by
      rw [ha, Assembly.toNat_depth_emitted hfits, Assembly.toNat_maxDepth_emitted hfits]
      omega
    obtain ⟨i, hstands, hi⟩ := step.exists_isSaid (0 + b.assembly.code.toList.length)
      (Step.denoted_of_addConstant h.indexed hadd)
    refine ⟨hgrown.indexed, ⟨instrs ++ [i], ?_, ?_⟩, hdepth, ?_⟩
    · have hcode := hlisting.append (.cons hstands (.nil _))
      simpa [ha, Assembly.emitted] using hcode
    · exact List.rel_append (hsaid.imp fun _ _ hj => hj.grow hgrown) (.cons hi .nil)
    · have htop := h.greatest.insert (height depth (b.done ++ [step]))
      rw [heights_concat, hmax, hdepth]
      exact htop

/-- A run keeps the code and the counts true. -/
theorem IsExact.attemptAll (h : b.IsExact depth) (steps : List Step) :
    (b.attemptAll steps).IsExact depth := by
  induction steps generalizing b with
  | nil => exact h
  | cons step steps ih => exact ih (h.attempt step)

/-- However steps are tried, as long as sixteen bits are enough for the slots: the code is one
instruction for each step that went well, which says it; the slots in use and the most there were
are those that these steps make; and a step goes well exactly where it is allowed. One that does not
is refused, and leaves all but the pool as it was. -/
theorem attemptAll_exact (hp : p.IsIndexed) (htakes : ∀ step ∈ steps, step.takes ≤ 65535)
    (hlimit : (start depth p).StaysCountable depth steps) :
    let b := (start depth p).attemptAll steps
    (∃ instrs, Instruction.decode b.assembly.code.toList = .ok instrs ∧
      List.Forall₂ (fun step i => step.IsSaid b.pool i) b.done instrs) ∧
    b.assembly.depth.toNat = height depth b.done ∧
    IsGreatest (heights depth b.done) b.assembly.maxDepth.toNat ∧
    ∀ before step later, steps = before ++ step :: later →
      let here := (start depth p).attemptAll before
      let next := here.attempt step
      here.pool.GrowsTo next.pool ∧
        (here.Allows depth step → next.done = here.done ++ [step]) ∧
        (¬ here.Allows depth step → next.done = here.done ∧ next.assembly = here.assembly ∧
          ∃ fault s, step.assemble here.toAssembler = .error fault s ∧ fault ≠ .overflow) := by
  intro b
  have hstart := isExact_start depth hp
  obtain ⟨_, ⟨instrs, hlisting, hsaid⟩, hdepth, htop⟩ := hstart.attemptAll steps
  refine ⟨⟨instrs, Instruction.decode_eq_ok_iff.mpr hlisting, hsaid⟩, hdepth, htop, ?_⟩
  intro before step later heq here next
  have hhere : here.IsExact depth := hstart.attemptAll before
  have hmay := hhere.allows_iff (hlimit before step later heq)
  refine ⟨grows_attempt hhere.indexed step, fun hallows => ?_, fun hrefuses => ?_⟩
  · obtain ⟨s, hresult⟩ := hmay.mp hallows
    exact congrArg Bench.done (attempt_of_ok hresult)
  · cases hresult : step.assemble here.toAssembler with
    | ok _ s => exact absurd (hmay.mpr ⟨s, hresult⟩) hrefuses
    | error fault s =>
      have hnext : next = ⟨s, here.done⟩ := attempt_of_error hresult
      obtain ⟨hsame, hover⟩ := Step.assemble_eq_error hhere.indexed hresult
      rw [hnext]
      refine ⟨rfl, hsame, fault, s, rfl, fun hfault => ?_⟩
      obtain ⟨pops, pushes, heffect, hadd, hpops⟩ := hover hfault
      have hstep : pops ≤ 65535 := by
        have hle := htakes step (by simp [heq])
        rwa [Step.takes, heffect] at hle
      have hdepth := hhere.depth_eq
      exact hrefuses ⟨pops, pushes, heffect, hadd, by omega⟩

/-- A call on an empty stack, whose constants stay in the pool, and a call whose descriptor is cut
off, among steps that go well. -/
def mixed : List Step := [
  .invoke .virtual "C" "g" "()V", .ldc "a", .load .long 300, .invoke .virtual "C" "f" "(J",
  .invoke .virtual "C" "f" "(J)I"]

theorem attemptAll_exact_mixed :
    let b := (start 0 .empty).attemptAll mixed
    b.done = [.ldc "a", .load .long 300, .invoke .virtual "C" "f" "(J)I"] ∧
      (∃ instrs, Instruction.decode b.assembly.code.toList = .ok instrs ∧
        List.Forall₂ (fun step i => step.IsSaid b.pool i) b.done instrs) ∧
      b.assembly.depth.toNat = height 0 b.done ∧
      IsGreatest (heights 0 b.done) b.assembly.maxDepth.toNat ∧
      ((start 0 .empty).attempt (.invoke .virtual "C" "g" "()V")).assembly = .start 0 := by
  intro b
  have hdone : b.done = [.ldc "a", .load .long 300, .invoke .virtual "C" "f" "(J)I"] := by
    decide +kernel
  have hlow : ∀ n < mixed.length, ∀ step ∈ mixed,
      height 0 (((start 0 .empty).attemptAll (mixed.take n)).done ++ [step]) ≤ 65535 := by
    decide +kernel
  have hlimit : (start 0 .empty).StaysCountable 0 mixed := by
    intro before step later heq _
    have hbefore : mixed.take before.length = before := by rw [heq, List.take_left]
    have hlength : before.length < mixed.length := by
      rw [heq, List.length_append, List.length_cons]
      omega
    have hheight := hlow before.length hlength step (by simp [heq])
    rwa [hbefore] at hheight
  have hrefuses : ¬ (start 0 .empty).Allows 0 (.invoke .virtual "C" "g" "()V") := by
    rintro ⟨pops, pushes, heffect, _, hpops⟩
    have heffect' : (Step.invoke .virtual "C" "g" "()V").effect? = some (1, 0) := by decide +kernel
    cases heffect.symm.trans heffect'
    exact absurd hpops (by decide)
  obtain ⟨hcode, hdepth, htop, hsteps⟩ := attemptAll_exact (by decide) (by decide +kernel) hlimit
  obtain ⟨_, _, hrefused⟩ := hsteps [] _ _ rfl
  exact ⟨hdone, hcode, hdepth, htop, (hrefused hrefuses).2.1⟩

end Bench

end ThreadWatch
