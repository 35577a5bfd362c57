import Mathlib.Algebra.GroupWithZero.Nat
import Mathlib.Data.List.Forall2
import ThreadWatch.Code.Assembly
import ThreadWatch.Code.Instruction

/-!
# Straight code over slots

Straight code run over the slots of an operand stack and of the locals. Values are of any kind: a
load or store copies them, and what a call or a constant puts on the stack may be anything.
-/

namespace ThreadWatch

namespace ValueKind

/-- The slots of a value. -/
def width (kind : ValueKind) : Nat := kind.slots.toNat

end ValueKind

namespace MethodDescriptor

/-- The slots of the parameters, however many there are. -/
def width (d : MethodDescriptor) : Nat := (d.parameters.map ValueKind.width).sum

def resultWidth (d : MethodDescriptor) : Nat :=
  match d.result with
  | some kind => kind.width
  | none => 0

end MethodDescriptor

/-- The kind of value in a field with this descriptor. -/
def fieldKind? (descriptor : String) : Option ValueKind :=
  match MethodDescriptor.fieldType descriptor.toList with
  | some (kind, []) => some kind
  | _ => none

/-- What an instruction does to the slots. -/
inductive Action where
  /-- Push a copy of this many locals from `slot` on. -/
  | load (width slot : Nat)
  /-- Move this many slots from the stack to the locals from `slot` on. -/
  | store (width slot : Nat)
  | dup
  /-- Take slots off the stack and put others on it. -/
  | work (pops pushes : Nat)
  deriving DecidableEq, Repr

namespace Action

def pops : Action → Nat
  | load _ _ => 0
  | store width _ => width
  | dup => 1
  | work pops _ => pops

def pushes : Action → Nat
  | load width _ => width
  | store _ _ => 0
  | dup => 2
  | work _ pushes => pushes

/-- The locals that are written. -/
def writes : Action → List Nat
  | store width slot => List.range' slot width
  | _ => []

end Action

namespace Instruction

/-- The slots that are taken and given by an instruction that moves no values, as its opcode or the
descriptor of its constant says. -/
def effect? (p : Pool) (op : UInt8) (index : UInt16) : Option (Nat × Nat) :=
  if 0x02 ≤ op && op ≤ 0x08 || op = Opcode.bipush || op = Opcode.sipush then some (0, 1)
  else if op = Opcode.isub then some (2, 1)
  else if op = Opcode.ldc || op = Opcode.ldcW then do
    let c ← (p.get index).toOption
    if c.isWide then none else some (0, 1)
  else if op = Opcode.getStatic then do
    let ref ← (p.memberRef index).toOption
    let kind ← fieldKind? ref.descriptor
    some (0, kind.width)
  else if op = Opcode.newObject then do
    let _ ← (p.typeName index).toOption
    some (0, 1)
  else if op = Opcode.invokeVirtual || op = Opcode.invokeSpecial || op = Opcode.invokeStatic then do
    let ref ← (p.memberRef index).toOption
    let d ← (MethodDescriptor.parse ref.descriptor).toOption
    let receiver := if op = Opcode.invokeStatic then 0 else 1
    some (d.width + receiver, d.resultWidth)
  else none

/-- What the instruction does to the slots; nothing is said of an instruction that jumps. -/
def action? (p : Pool) (i : Instruction) : Option Action :=
  match i.operand with
  | .fixed operands =>
    match ValueKind.all.find? (·.loadOpcode = i.opcode),
      ValueKind.all.find? (·.storeOpcode = i.opcode) with
    | some kind, _ => some (.load kind.width (beNat operands))
    | none, some kind => some (.store kind.width (beNat operands))
    | none, none =>
      if i.opcode = Opcode.dup then some .dup
      else
        (effect? p i.opcode (UInt16.ofNat (beNat operands))).map fun (pops, pushes) =>
          .work pops pushes
  | _ => none

end Instruction

/-- Stack and locals, and what a run did to them so far. -/
structure Slots (α : Type) where
  /-- The top of the stack comes first. -/
  stack : List α
  locals : Nat → α
  /-- The locals that the run has written. -/
  stored : List Nat
  /-- The most slots that were on the stack. -/
  peak : Nat
  /-- The fewest slots that were left on the stack. -/
  low : Nat

namespace Slots

variable {α : Type}

/-- Stack and locals before anything is run. -/
def start (stack : List α) (locals : Nat → α) : Slots α :=
  ⟨stack, locals, [], stack.length, stack.length⟩

/-- Take slots off the stack, if they are there, and put others on it. -/
def exchange (pops : Nat) (pushed : List α) (s : Slots α) : Option (Slots α) :=
  if pops ≤ s.stack.length then
    let left := s.stack.drop pops
    some { s with
      stack := pushed ++ left
      peak := max s.peak (pushed ++ left).length
      low := min s.low left.length }
  else none

/-- Write values to the locals from `slot` on. -/
def write (slot : Nat) (values : List α) (s : Slots α) : Slots α :=
  { s with
    locals := fun n => if slot ≤ n then values.getD (n - slot) (s.locals n) else s.locals n
    stored := s.stored ++ List.range' slot values.length }

/-- Perform an action; what comes new to the stack is `answer`. A local can only be read when the
run has written it. -/
def perform (answer : Nat → α) (action : Action) (s : Slots α) : Option (Slots α) :=
  match action with
  | .load width slot =>
    if ∀ n ∈ List.range' slot width, n ∈ s.stored then
      s.exchange 0 ((List.range' slot width).map s.locals).reverse
    else none
  | .store width slot => (s.exchange width []).map (·.write slot (s.stack.take width).reverse)
  | .dup =>
    match s.stack with
    | value :: _ => s.exchange 1 [value, value]
    | [] => none
  | .work pops pushes => s.exchange pops ((List.range pushes).map answer)

/-- Run instructions one behind the other; `reply` is what each of them brings to the stack. -/
def run (p : Pool) (reply : Nat → Nat → α) : List Instruction → Slots α → Option (Slots α)
  | [], s => some s
  | i :: rest, s => do
    let action ← i.action? p
    let s ← s.perform (reply i.offset) action
    run p reply rest s

/-- Whatever comes to the stack, the actions are performed to the end and `goal` holds then. -/
def Leads (goal : Slots α → Prop) : List Action → Slots α → Prop
  | [], s => goal s
  | action :: rest, s => ∀ answer, ∃ s', s.perform answer action = some s' ∧ Leads goal rest s'

variable {goal : Slots α → Prop}

theorem leads_append {actions actions' : List Action} {s : Slots α} :
    Leads goal (actions ++ actions') s ↔ Leads (Leads goal actions') actions s := by
  induction actions generalizing s with
  | nil => rfl
  | cons action actions ih => simp only [List.cons_append, Leads, ih]

theorem Leads.mono {goal' : Slots α → Prop} (himp : ∀ s, goal s → goal' s) {actions : List Action}
    {s : Slots α} (h : Leads goal actions s) : Leads goal' actions s := by
  induction actions generalizing s with
  | nil => exact himp s h
  | cons action actions ih =>
    intro answer
    obtain ⟨s', hs', hrest⟩ := h answer
    exact ⟨s', hs', ih hrest⟩

theorem Leads.and {goal' : Slots α → Prop} {actions : List Action} {s : Slots α}
    (h : Leads goal actions s) (h' : Leads goal' actions s) :
    Leads (fun s => goal s ∧ goal' s) actions s := by
  induction actions generalizing s with
  | nil => exact ⟨h, h'⟩
  | cons action actions ih =>
    intro answer
    obtain ⟨s', hs', hrest⟩ := h answer
    obtain ⟨s'', hs'', hrest'⟩ := h' answer
    cases hs'.symm.trans hs''
    exact ⟨s', hs', ih hrest hrest'⟩

/-- Instructions run as their actions are performed. -/
theorem exists_run {p : Pool} {instrs : List Instruction} {actions : List Action}
    (hactions : List.Forall₂ (fun action (i : Instruction) => i.action? p = some action)
      actions instrs) (reply : Nat → Nat → α) {s : Slots α} (h : Leads goal actions s) :
    ∃ s', run p reply instrs s = some s' ∧ goal s' := by
  induction hactions generalizing s with
  | nil => exact ⟨s, rfl, h⟩
  | @cons action i actions instrs haction _ ih =>
    obtain ⟨next, hnext, hrest⟩ := h (reply i.offset)
    obtain ⟨s', hs', hgoal⟩ := ih hrest
    refine ⟨s', ?_, hgoal⟩
    simp only [run, haction, hnext, Option.bind_eq_bind, Option.bind_some, hs']

end Slots

/-! ### Height alone -/

namespace Action

/-- The height above some base after the actions, and the top that was reached; nothing if they
would reach below the base. -/
def climb : List Action → Nat → Nat → Option (Nat × Nat)
  | [], height, top => some (height, top)
  | action :: rest, height, top =>
    if action.pops ≤ height then
      climb rest (height - action.pops + action.pushes)
        (max top (height - action.pops + action.pushes))
    else none

theorem le_of_climb {actions : List Action} {height top height' top' : Nat}
    (h : climb actions height top = some (height', top')) : top ≤ top' := by
  induction actions generalizing height top with
  | nil =>
    cases h
    exact Nat.le_refl _
  | cons action actions ih =>
    rw [climb] at h
    split at h
    · have hle := ih h
      omega
    · cases h

theorem climb_append (actions actions' : List Action) (height top : Nat) :
    climb (actions ++ actions') height top =
      (climb actions height top).bind fun (height, top) => climb actions' height top := by
  induction actions generalizing height top with
  | nil => rfl
  | cons action actions ih =>
    rw [List.cons_append, climb, climb]
    split
    · exact ih _ _
    · rfl

/-- A top that was reached before counts if the climb stays below it. -/
theorem climb_max (actions : List Action) (height top before : Nat) :
    climb actions height (max before top) =
      (climb actions height top).map fun (height', top') => (height', max before top') := by
  induction actions generalizing height top with
  | nil => rfl
  | cons action actions ih =>
    rw [climb, climb]
    split
    · rw [Nat.max_assoc, ih]
    · rfl

/-- A climb goes the same way from further up. -/
theorem climb_add {actions : List Action} {height top height' top' : Nat} (base : Nat)
    (h : climb actions height top = some (height', top')) :
    climb actions (base + height) (base + top) = some (base + height', base + top') := by
  induction actions generalizing height top with
  | nil =>
    cases h
    rfl
  | cons action actions ih =>
    rw [climb] at h ⊢
    split at h
    next hpops =>
      have hnext : base + height - action.pops + action.pushes =
          base + (height - action.pops + action.pushes) := by omega
      rw [if_pos (by omega), hnext, Nat.add_max_add_left]
      exact ih h
    · cases h

/-- Every local that is read is known or written before. -/
def Reads : List Nat → List Action → Prop
  | _, [] => True
  | known, load width slot :: rest => (∀ n ∈ List.range' slot width, n ∈ known) ∧ Reads known rest
  | known, action :: rest => Reads (known ++ action.writes) rest

theorem reads_append {known : List Nat} {actions actions' : List Action} :
    Reads known (actions ++ actions') ↔
      Reads known actions ∧ Reads (known ++ actions.flatMap writes) actions' := by
  induction actions generalizing known with
  | nil => simp [Reads]
  | cons action actions ih =>
    cases action with
    | load width slot => simp [Reads, ih, writes, and_assoc]
    | store width slot => simp [Reads, ih]
    | dup => simp [Reads, ih]
    | work pops pushes => simp [Reads, ih]

theorem reads_cons {known : List Nat} {action : Action} {rest : List Action}
    (h : Reads known (action :: rest)) :
    (∀ width slot, action = .load width slot → ∀ n ∈ List.range' slot width, n ∈ known) ∧
      Reads (known ++ action.writes) rest := by
  cases action with
  | load width slot =>
    refine ⟨?_, by simpa [writes] using h.2⟩
    rintro _ _ ⟨⟩
    exact h.1
  | store => exact ⟨by simp, h⟩
  | dup => exact ⟨by simp, h⟩
  | work => exact ⟨by simp, h⟩

end Action

namespace Slots

variable {α : Type}

theorem exchange_above (pushed : List α) {pops : Nat} {s : Slots α} {held base : List α}
    (hs : s.stack = held ++ base) (hpops : pops ≤ held.length) :
    s.exchange pops pushed = some { s with
      stack := pushed ++ held.drop pops ++ base
      peak := max s.peak (base.length + (pushed ++ held.drop pops).length)
      low := min s.low (held.length - pops + base.length) } := by
  have hdrop : s.stack.drop pops = held.drop pops ++ base := by
    rw [hs, List.drop_append_of_le_length hpops]
  have hle : pops ≤ s.stack.length := by
    rw [hs, List.length_append]
    omega
  have hlength : (pushed ++ (held.drop pops ++ base)).length =
      base.length + (pushed ++ held.drop pops).length := by
    simp only [List.length_append]
    omega
  rw [exchange, if_pos hle, hdrop]
  dsimp only
  rw [hlength]
  simp only [List.append_assoc, List.length_append, List.length_drop]

/-- An action within the height above a base touches nothing of the base. -/
theorem perform_above (answer : Nat → α) (action : Action) {s : Slots α} {held base : List α}
    (hs : s.stack = held ++ base) (hpops : action.pops ≤ held.length)
    (hreads : ∀ width slot, action = .load width slot →
      ∀ n ∈ List.range' slot width, n ∈ s.stored) :
    ∃ s' held', s.perform answer action = some s' ∧ s'.stack = held' ++ base ∧
      held'.length = held.length - action.pops + action.pushes ∧
      s'.peak = max s.peak (base.length + held'.length) ∧ min s.low base.length ≤ s'.low ∧
      s'.stored = s.stored ++ action.writes ∧ ∀ n ∉ action.writes, s'.locals n = s.locals n := by
  cases action with
  | load width slot =>
    rw [perform, if_pos (hreads width slot rfl), exchange_above _ hs (Nat.zero_le _)]
    refine ⟨_, _, rfl, rfl, ?_, rfl, ?_, ?_, fun _ _ => rfl⟩
    · simp [Action.pops, Action.pushes]
      omega
    · dsimp only
      omega
    · simp [Action.writes]
  | store width slot =>
    have hwidth : width ≤ held.length := hpops
    have hvalues : ((s.stack.take width).reverse).length = width := by
      rw [List.length_reverse, hs, List.length_take, List.length_append]
      omega
    rw [perform, exchange_above _ hs hwidth]
    refine ⟨_, _, rfl, rfl, ?_, rfl, ?_, ?_, ?_⟩
    · simp [Action.pops, Action.pushes]
    · simp only [write]
      omega
    · simp only [write, Action.writes, hvalues]
    · intro n hn
      have hout : ¬ (slot ≤ n ∧ n < slot + width) := by
        simpa [Action.writes, List.mem_range'_1] using hn
      simp only [write]
      split
      · rw [List.getD_eq_getElem?_getD, List.getElem?_eq_none (by omega)]
        rfl
      · rfl
  | dup =>
    cases held with
    | nil => simp [Action.pops] at hpops
    | cons value held =>
      rw [List.cons_append] at hs
      have hone : 1 ≤ (value :: held).length := by simp
      simp only [perform, hs, exchange_above [value, value] hs hone]
      refine ⟨_, _, rfl, rfl, ?_, rfl, ?_, ?_, fun _ _ => rfl⟩
      · simp [Action.pops, Action.pushes]
      · dsimp only
        omega
      · simp [Action.writes]
  | work pops pushes =>
    have hpops : pops ≤ held.length := hpops
    rw [perform, exchange_above _ hs hpops]
    refine ⟨_, _, rfl, rfl, ?_, rfl, ?_, ?_, fun _ _ => rfl⟩
    · simp [Action.pops, Action.pushes]
      omega
    · dsimp only
      omega
    · simp [Action.writes]

/-- Straight code that stays above a base leaves the base and all locals it does not write. -/
theorem leads_of_climb {actions : List Action} {height top height' top' : Nat}
    (hclimb : Action.climb actions height top = some (height', top')) {s : Slots α}
    {held base : List α} {known : List Nat} (hs : s.stack = held ++ base)
    (hheld : held.length = height) (hknown : known ⊆ s.stored)
    (hreads : Action.Reads known actions) :
    Leads (fun s' => (∃ held', s'.stack = held' ++ base ∧ held'.length = height') ∧
      (s.peak = base.length + top → s'.peak = base.length + top') ∧
      min s.low base.length ≤ s'.low ∧
      s'.stored = s.stored ++ actions.flatMap Action.writes ∧
      ∀ n ∉ actions.flatMap Action.writes, s'.locals n = s.locals n) actions s := by
  induction actions generalizing s held height top known with
  | nil =>
    cases hclimb
    exact ⟨⟨held, hs, hheld⟩, id, Nat.min_le_left _ _, by simp, fun _ _ => rfl⟩
  | cons action actions ih =>
    intro answer
    rw [Action.climb] at hclimb
    split at hclimb
    next hpops =>
      obtain ⟨hload, hrest⟩ := Action.reads_cons hreads
      obtain ⟨next, held', hperform, hstack, hlength, hnext, hlow, hstored, hlocals⟩ :=
        perform_above answer action hs (hheld ▸ hpops) fun width slot heq n hn =>
          hknown (hload width slot heq n hn)
      have hpeak : s.peak = base.length + top → next.peak = base.length +
          max top (height - action.pops + action.pushes) := by
        intro hpeak
        rw [hnext, hpeak, hlength, hheld]
        omega
      have hknown' : known ++ action.writes ⊆ next.stored := by
        rw [hstored]
        exact List.append_subset.mpr ⟨fun n hn => List.mem_append_left _ (hknown hn),
          List.subset_append_right _ _⟩
      refine ⟨next, hperform, Leads.mono ?_ (ih hclimb hstack (hheld ▸ hlength) hknown' hrest)⟩
      rintro s' ⟨hstack', hpeak', hlow', hstored', hlocals'⟩
      refine ⟨hstack', fun h => hpeak' (hpeak h), by omega, ?_, ?_⟩
      · rw [hstored', hstored, List.flatMap_cons, List.append_assoc]
      · intro n hn
        rw [List.flatMap_cons, List.mem_append, not_or] at hn
        rw [hlocals' n hn.2, hlocals n hn.1]
    · cases hclimb

/-! ### Values that are moved -/

theorem perform_dup (answer : Nat → α) {s : Slots α} {value : α} {base : List α}
    (hs : s.stack = value :: base) :
    ∃ s', s.perform answer .dup = some s' ∧ s'.stack = value :: value :: base ∧
      s'.stored = s.stored ∧ s'.locals = s.locals := by
  have hheld : s.stack = [value] ++ base := hs
  simp only [perform, hs, exchange_above [value, value] hheld (Nat.le_refl 1)]
  exact ⟨_, rfl, rfl, rfl, rfl⟩

theorem perform_store (answer : Nat → α) (slot : Nat) {s : Slots α} {values base : List α}
    (hs : s.stack = values.reverse ++ base) :
    ∃ s', s.perform answer (.store values.length slot) = some s' ∧ s'.stack = base ∧
      s'.stored = s.stored ++ List.range' slot values.length ∧
      ∀ n, s'.locals n =
        if slot ≤ n then values.getD (n - slot) (s.locals n) else s.locals n := by
  have hlength : values.length ≤ values.reverse.length := by simp
  have htake : (s.stack.take values.length).reverse = values := by
    rw [hs, ← List.length_reverse, List.take_left, List.reverse_reverse]
  have hdrop : values.reverse.drop values.length = [] := by simp
  rw [perform, exchange_above [] hs hlength, htake, hdrop]
  exact ⟨_, rfl, rfl, rfl, fun n => rfl⟩

theorem perform_load (answer : Nat → α) {slot : Nat} {s : Slots α} {values : List α}
    (hlocals : ∀ k (hk : k < values.length), s.locals (slot + k) = values[k] ∧
      slot + k ∈ s.stored) :
    ∃ s', s.perform answer (.load values.length slot) = some s' ∧
      s'.stack = values.reverse ++ s.stack ∧ s'.stored = s.stored ∧ s'.locals = s.locals := by
  have hstored : ∀ n ∈ List.range' slot values.length, n ∈ s.stored := by
    intro n hn
    obtain ⟨hle, hlt⟩ := List.mem_range'_1.mp hn
    have hk := (hlocals (n - slot) (by omega)).2
    rwa [Nat.add_sub_cancel' hle] at hk
  have hvalues : (List.range' slot values.length).map s.locals = values := by
    refine List.ext_getElem (by simp) fun k hk hk' => ?_
    rw [List.getElem_map, List.getElem_range', Nat.one_mul]
    exact (hlocals k hk').1
  rw [perform, if_pos hstored, exchange_above _ (List.nil_append s.stack).symm (Nat.zero_le _),
    hvalues]
  exact ⟨_, rfl, by simp, rfl, rfl⟩

end Slots

end ThreadWatch
