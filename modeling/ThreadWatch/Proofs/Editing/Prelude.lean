import ThreadWatch.Editing.Probe
import ThreadWatch.Proofs.Code.Assembly

/-!
# Preludes are transparent

A prelude parks the arguments in fresh locals, last one first, reports, and reloads them in order.
Its actions are given once more here with plain numbers for the locals; the stack effect of the
report is a matter of its heights, and parking and reloading are each other's inverse.
-/

namespace ThreadWatch

namespace Prelude

/-- The slots of parameters. -/
def widths (kinds : List ValueKind) : Nat := (kinds.map ValueKind.width).sum

theorem widths_cons (kind : ValueKind) (kinds : List ValueKind) :
    widths (kind :: kinds) = kind.width + widths kinds := by
  rw [widths, List.map_cons, List.sum_cons, widths]

/-- Park parameters in the locals from `slot` on, the last one first. -/
def parks (slot : Nat) : List ValueKind → List Action
  | [] => []
  | kind :: rest => parks (slot + kind.width) rest ++ [.store kind.width slot]

/-- Put the parameters back, the first one first. -/
def reloads (slot : Nat) : List ValueKind → List Action
  | [] => []
  | kind :: rest => .load kind.width slot :: reloads (slot + kind.width) rest

/-- What the line about the called thread does. -/
def detectionActions (receiver : Nat) : List Action := [
  .work 0 1, .work 0 1, .load 1 receiver, .work 1 2, .work 2 1, .work 2 1, .work 0 1, .work 2 1,
  .load 1 receiver, .work 1 1, .work 2 1, .work 2 0]

/-- What the line about the calling thread does. -/
def callerActions : List Action := [
  .work 0 1, .work 0 1, .work 0 1, .work 1 2, .work 2 1, .work 2 1, .work 0 1, .work 2 1,
  .work 0 1, .work 1 1, .work 2 1, .work 2 0]

/-- What the lines of the stack trace do. -/
def stackActions (scratch : Nat) : List Action := [
  .work 0 1, .work 0 1, .work 0 1, .dup, .work 1 0, .work 1 1, .work 1 1, .store 1 scratch,
  .load 1 scratch, .work 0 1, .load 1 scratch, .work 1 1, .work 0 1, .work 2 1, .work 3 1,
  .work 0 1, .work 0 1, .work 0 1, .work 2 1, .work 3 1, .work 2 1, .work 2 0]

def reportActions (probe : Probe) (receiver : Nat) : List Action :=
  detectionActions receiver ++ (if probe.traceCaller then callerActions else []) ++
    (if probe.dumpStack then stackActions (receiver + 1) else [])

/-- What a prelude does. -/
def actions (probe : Probe) (kinds : List ValueKind) (first : Nat) : List Action :=
  parks first kinds ++ [.dup, .store 1 (first + widths kinds)] ++
    reportActions probe (first + widths kinds) ++ reloads first kinds

/-! ### The steps do the actions -/

theorem toNat_add_slots {slot : UInt16} {kind : ValueKind} (h : slot.toNat + kind.width < 65536) :
    (slot + kind.slots).toNat = slot.toNat + kind.width := by
  rw [UInt16.toNat_add, ValueKind.width] at *
  exact Nat.mod_eq_of_lt h

theorem toNat_behind {slot : UInt16} {kinds : List ValueKind}
    (h : slot.toNat + widths kinds < 65536) :
    (behind slot kinds).toNat = slot.toNat + widths kinds := by
  induction kinds generalizing slot with
  | nil => rfl
  | cons kind kinds ih =>
    rw [widths_cons] at h ⊢
    have hslot : (slot + kind.slots).toNat = slot.toNat + kind.width := toNat_add_slots (by omega)
    have hrest : (behind (slot + kind.slots) kinds).toNat =
        (slot + kind.slots).toNat + widths kinds := ih (by omega)
    show (behind (slot + kind.slots) kinds).toNat = _
    omega

theorem map_action?_parking {slot : UInt16} {kinds : List ValueKind}
    (h : slot.toNat + widths kinds < 65536) :
    ((parking slot kinds).reverse.map fun (kind, slot) => Step.store kind slot).map Step.action? =
        (parks slot.toNat kinds).map some ∧
      ((parking slot kinds).map fun (kind, slot) => Step.load kind slot).map Step.action? =
        (reloads slot.toNat kinds).map some := by
  induction kinds generalizing slot with
  | nil => exact ⟨rfl, rfl⟩
  | cons kind kinds ih =>
    rw [widths_cons] at h
    have hslot : (slot + kind.slots).toNat = slot.toNat + kind.width := toNat_add_slots (by omega)
    have hrest : (slot + kind.slots).toNat + widths kinds < 65536 := by
      rw [hslot]
      omega
    obtain ⟨hparks, hreloads⟩ := ih hrest
    rw [hslot] at hparks hreloads
    constructor
    · rw [parking, parks, List.reverse_cons, List.map_append, List.map_append, List.map_append,
        hparks]
      rfl
    · rw [parking, reloads, List.map_cons, List.map_cons, List.map_cons, hreloads]
      rfl

theorem map_action?_detectionLine (text : String) (receiver : UInt16) :
    (detectionLine text receiver).map Step.action? =
      (detectionActions receiver.toNat).map some := by
  cbv

theorem map_action?_callerLine : callerLine.map Step.action? = callerActions.map some := by
  cbv

theorem map_action?_stackLines (scratch : UInt16) :
    (stackLines scratch).map Step.action? = (stackActions scratch.toNat).map some := by
  cbv

/-- The steps of a prelude do its actions, if the locals it uses can be numbered. -/
theorem map_action?_steps (probe : Probe) (d : MethodDescriptor) {first : UInt16}
    (h : first.toNat + d.width + 2 ≤ 65535) :
    (steps probe d first).map Step.action? =
      (actions probe d.parameters first.toNat).map some := by
  have hwidth : d.width = widths d.parameters := rfl
  have hslots : first.toNat + widths d.parameters < 65536 := by omega
  obtain ⟨hparks, hreloads⟩ := map_action?_parking hslots
  have hreceiver : (behind first d.parameters).toNat = first.toNat + widths d.parameters :=
    toNat_behind (by omega)
  have hscratch : (behind first d.parameters + 1).toNat =
      first.toNat + widths d.parameters + 1 := by
    rw [UInt16.toNat_add, hreceiver]
    exact Nat.mod_eq_of_lt (by change _ + 1 < _; omega)
  have hreport : (detectionLine probe.detection (behind first d.parameters) ++
      (if probe.traceCaller then callerLine else []) ++
      (if probe.dumpStack then stackLines (behind first d.parameters + 1) else [])).map
        Step.action? = (reportActions probe (first.toNat + widths d.parameters)).map some := by
    rw [reportActions, List.map_append, List.map_append, List.map_append, List.map_append,
      map_action?_detectionLine, hreceiver]
    congr 1
    · congr 1
      split
      · exact map_action?_callerLine
      · rfl
    · split
      · rw [map_action?_stackLines, hscratch]
      · rfl
  have hcopy : [Step.dup, .store .reference (behind first d.parameters)].map Step.action? =
      [Action.dup, .store 1 (first.toNat + widths d.parameters)].map some := by
    rw [← hreceiver]
    rfl
  rw [steps, actions]
  simp only [List.map_append] at hparks hreloads hreport hcopy ⊢
  rw [hparks, hreloads, hcopy, ← hreport]
  simp only [List.append_assoc]

theorem forall₂_actions (probe : Probe) {d : MethodDescriptor} {first : UInt16}
    (h : first.toNat + d.width + 2 ≤ 65535) :
    List.Forall₂ (fun step action => Step.action? step = some action) (steps probe d first)
      (actions probe d.parameters first.toNat) := by
  have hmap := map_action?_steps probe d h
  rwa [← List.forall₂_eq_eq_eq, List.forall₂_map_left_iff, List.forall₂_map_right_iff] at hmap

/-! ### The heights -/

theorem climb_parks (kinds : List ValueKind) (slot : Nat) {height top : Nat}
    (h : widths kinds + height ≤ top) :
    Action.climb (parks slot kinds) (widths kinds + height) top = some (height, top) := by
  induction kinds generalizing slot height with
  | nil => simp [parks, Action.climb, widths]
  | cons kind kinds ih =>
    rw [widths_cons, Nat.add_comm kind.width, Nat.add_assoc] at h ⊢
    rw [parks, Action.climb_append, ih _ h]
    simp [Action.climb, Action.pops, Action.pushes]
    omega

theorem climb_reloads (kinds : List ValueKind) (slot : Nat) {height top : Nat}
    (h : height ≤ top) :
    Action.climb (reloads slot kinds) height top =
      some (height + widths kinds, max top (height + widths kinds)) := by
  induction kinds generalizing slot height top with
  | nil => simp [reloads, Action.climb, widths, h]
  | cons kind kinds ih =>
    have hload : Action.climb (.load kind.width slot :: reloads (slot + kind.width) kinds)
        height top = Action.climb (reloads (slot + kind.width) kinds) (height + kind.width)
          (max top (height + kind.width)) := if_pos (Nat.zero_le _)
    rw [reloads, hload, ih _ (Nat.le_max_right _ _), widths_cons]
    congr 2 <;> omega

theorem climb_report (probe : Probe) (receiver : Nat) :
    ∃ top ≤ 6, Action.climb (reportActions probe receiver) 0 0 = some (0, top) := by
  obtain ⟨operation, declaring, traceCaller, dumpStack⟩ := probe
  cases dumpStack with
  | false => cases traceCaller <;> exact ⟨4, by decide, by cbv⟩
  | true => cases traceCaller <;> exact ⟨6, by decide, by cbv⟩

/-- A prelude ends at the height it starts at. -/
theorem climb_actions (probe : Probe) (kinds : List ValueKind) (first : Nat) :
    ∃ top ≤ max (widths kinds + 1) 7, Action.climb (actions probe kinds first) (widths kinds + 1)
      (widths kinds + 1) = some (widths kinds + 1, top) := by
  obtain ⟨more, hmore, hreport⟩ := climb_report probe (first + widths kinds)
  have hcopy : Action.climb [.dup, .store 1 (first + widths kinds)] 1 (widths kinds + 1) =
      some (1, max (max (widths kinds + 1) 2) 1) := rfl
  have hreport' := Action.climb_max (reportActions probe (first + widths kinds)) 1 1
    (max (widths kinds + 1) 2)
  rw [Action.climb_add 1 hreport, Option.map_some] at hreport'
  refine ⟨max (max (max (widths kinds + 1) 2) (1 + more)) (1 + widths kinds), by omega, ?_⟩
  simp only [actions, Action.climb_append, climb_parks kinds first (Nat.le_refl _),
    Option.bind_some, hcopy, hreport', climb_reloads kinds first (Nat.le_trans
      (Nat.le_add_right 1 more) (Nat.le_max_right (max (widths kinds + 1) 2) _))]
  rw [Nat.add_comm 1 (widths kinds)]

/-! ### The locals -/

theorem mem_writes_parks {kinds : List ValueKind} {slot n : Nat} :
    n ∈ (parks slot kinds).flatMap Action.writes ↔ slot ≤ n ∧ n < slot + widths kinds := by
  induction kinds generalizing slot with
  | nil => simp [parks, widths]
  | cons kind kinds ih =>
    rw [parks, List.flatMap_append, List.mem_append, ih, widths_cons]
    simp only [List.flatMap_cons, List.flatMap_nil, List.append_nil, Action.writes,
      List.mem_range'_1]
    omega

theorem reads_parks (known : List Nat) (kinds : List ValueKind) (slot : Nat) :
    Action.Reads known (parks slot kinds) := by
  induction kinds generalizing slot with
  | nil => trivial
  | cons kind kinds ih => exact Action.reads_append.mpr ⟨ih _, trivial⟩

theorem reads_reloads {known : List Nat} {kinds : List ValueKind} {slot : Nat}
    (h : ∀ n, slot ≤ n ∧ n < slot + widths kinds → n ∈ known) :
    Action.Reads known (reloads slot kinds) := by
  induction kinds generalizing slot with
  | nil => trivial
  | cons kind kinds ih =>
    rw [widths_cons] at h
    constructor
    · intro n hn
      rw [List.mem_range'_1] at hn
      exact h n (by omega)
    · exact ih fun n hn => h n (by omega)

theorem writes_reloads (kinds : List ValueKind) (slot : Nat) :
    (reloads slot kinds).flatMap Action.writes = [] := by
  induction kinds generalizing slot with
  | nil => rfl
  | cons kind kinds ih => exact ih _

theorem reads_report {known : List Nat} (probe : Probe) {receiver : Nat} (h : receiver ∈ known) :
    Action.Reads known (reportActions probe receiver) := by
  obtain ⟨operation, declaring, traceCaller, dumpStack⟩ := probe
  cases traceCaller <;> cases dumpStack <;>
    simp [reportActions, detectionActions, callerActions, stackActions, Action.Reads,
      Action.writes, h]

theorem writes_report (probe : Probe) (receiver : Nat) :
    (reportActions probe receiver).flatMap Action.writes =
      if probe.dumpStack then [receiver + 1] else [] := by
  obtain ⟨operation, declaring, traceCaller, dumpStack⟩ := probe
  cases traceCaller <;> cases dumpStack <;> rfl

theorem reads_actions (probe : Probe) (kinds : List ValueKind) (first : Nat) :
    Action.Reads [] (actions probe kinds first) := by
  unfold actions
  simp only [Action.reads_append]
  refine ⟨⟨⟨reads_parks _ _ _, trivial⟩, reads_report probe ?_⟩, reads_reloads fun n hn => ?_⟩
  · simp [Action.writes]
  · have hparked := mem_writes_parks.mpr hn
    simp only [List.flatMap_append, List.nil_append, List.mem_append, hparked, true_or]

theorem mem_writes_actions {probe : Probe} {kinds : List ValueKind} {first n : Nat}
    (h : n ∈ (actions probe kinds first).flatMap Action.writes) :
    first ≤ n ∧ n < first + (widths kinds + 2) := by
  rw [actions, List.flatMap_append, List.flatMap_append, List.flatMap_append, writes_reloads,
    writes_report, List.append_nil, List.mem_append, List.mem_append, mem_writes_parks] at h
  rcases h with (h | h) | h
  · omega
  · simp [Action.writes] at h
    omega
  · split at h
    · simp at h
      omega
    · simp at h

/-! ### The values -/

section Values

variable {α : Type} {s : Slots α} {base : List α}

theorem exists_split {values : List α} {kind : ValueKind} {kinds : List ValueKind}
    (hlength : values.length = widths (kind :: kinds)) :
    ∃ first rest, values = first ++ rest ∧ first.length = kind.width ∧
      rest.length = widths kinds := by
  rw [widths_cons] at hlength
  refine ⟨values.take kind.width, values.drop kind.width, (List.take_append_drop _ _).symm, ?_, ?_⟩
  · rw [List.length_take]
    omega
  · rw [List.length_drop]
    omega

/-- Parking moves the arguments from the stack to their locals. -/
theorem leads_parks {kinds : List ValueKind} {slot : Nat} {values : List α}
    (hlength : values.length = widths kinds) (hs : s.stack = values.reverse ++ base) :
    Slots.Leads (fun s' => s'.stack = base ∧
      ∀ k (hk : k < values.length), s'.locals (slot + k) = values[k] ∧ slot + k ∈ s'.stored)
      (parks slot kinds) s := by
  induction kinds generalizing slot values base with
  | nil =>
    obtain rfl := List.length_eq_zero_iff.mp hlength
    exact ⟨hs, fun k hk => by simp at hk⟩
  | cons kind kinds ih =>
    obtain ⟨first, rest, rfl, hfirst, hrest⟩ := exists_split hlength
    rw [List.reverse_append, List.append_assoc] at hs
    rw [parks, Slots.leads_append, ← hfirst]
    refine Slots.Leads.mono ?_ (ih hrest hs)
    rintro s₁ ⟨hstack, hparked⟩ answer
    obtain ⟨s₂, hs₂, hstack₂, hstored, hlocals⟩ := Slots.perform_store answer slot hstack
    refine ⟨s₂, hs₂, hstack₂, fun k hk => ?_⟩
    rw [hlocals, hstored, if_pos (Nat.le_add_right _ _), Nat.add_sub_cancel_left]
    by_cases hk' : k < first.length
    · refine ⟨?_, List.mem_append_right _ (List.mem_range'_1.mpr (by omega))⟩
      rw [List.getElem_append_left hk', List.getD_eq_getElem?_getD, List.getElem?_eq_getElem hk']
      rfl
    · have hlater := hparked (k - first.length) (by rw [List.length_append] at hk; omega)
      have hslot : slot + first.length + (k - first.length) = slot + k := by omega
      rw [hslot] at hlater
      refine ⟨?_, List.mem_append_left _ hlater.2⟩
      rw [List.getElem_append_right (Nat.not_lt.mp hk'), List.getD_eq_getElem?_getD,
        List.getElem?_eq_none (Nat.not_lt.mp hk')]
      exact hlater.1

/-- Reloading puts the values of the locals back on the stack. -/
theorem leads_reloads {kinds : List ValueKind} {slot : Nat} {values : List α}
    (hlength : values.length = widths kinds)
    (hlocals : ∀ k (hk : k < values.length), s.locals (slot + k) = values[k] ∧
      slot + k ∈ s.stored) :
    Slots.Leads (fun s' => s'.stack = values.reverse ++ s.stack) (reloads slot kinds) s := by
  induction kinds generalizing slot values s with
  | nil =>
    obtain rfl := List.length_eq_zero_iff.mp hlength
    exact rfl
  | cons kind kinds ih =>
    obtain ⟨first, rest, rfl, hfirst, hrest⟩ := exists_split hlength
    intro answer
    rw [← hfirst]
    have hhead : ∀ k (hk : k < first.length), s.locals (slot + k) = first[k] ∧
        slot + k ∈ s.stored := by
      intro k hk
      have hvalue := hlocals k (by rw [List.length_append]; omega)
      rwa [List.getElem_append_left hk] at hvalue
    obtain ⟨s₁, hs₁, hstack, hstored, hsame⟩ := Slots.perform_load answer hhead
    have htail : ∀ k (hk : k < rest.length), s₁.locals (slot + first.length + k) = rest[k] ∧
        slot + first.length + k ∈ s₁.stored := by
      intro k hk
      have hvalue := hlocals (first.length + k) (by rw [List.length_append]; omega)
      rw [hsame, hstored, Nat.add_assoc]
      rwa [List.getElem_append_right (Nat.le_add_right _ _), getElem_congr_idx
        (Nat.add_sub_cancel_left first.length k)] at hvalue
    refine ⟨s₁, hs₁, Slots.Leads.mono ?_ (ih hrest htail)⟩
    intro s' hs'
    rw [hs', hstack, List.reverse_append, List.append_assoc]

/-- A prelude leaves the stack as it was. -/
theorem leads_actions (probe : Probe) {kinds : List ValueKind} (first : Nat) {values : List α}
    {receiver : α} {below : List α} (hlength : values.length = widths kinds)
    (hs : s.stack = values.reverse ++ receiver :: below) :
    Slots.Leads (fun s' => s'.stack = s.stack) (actions probe kinds first) s := by
  unfold actions
  simp only [Slots.leads_append]
  refine Slots.Leads.mono ?_ (leads_parks hlength hs)
  rintro s₁ ⟨hstack₁, hparked₁⟩
  -- the copy of the receiver goes behind the parked arguments
  have hcopy : Slots.Leads (fun s' => s'.stack = receiver :: below ∧
      first + widths kinds ∈ s'.stored ∧ ∀ k (hk : k < values.length),
        s'.locals (first + k) = values[k] ∧ first + k ∈ s'.stored)
      [.dup, .store 1 (first + widths kinds)] s₁ := by
    intro answer
    obtain ⟨twice, htwice, hstack, hstored, hlocals⟩ := Slots.perform_dup answer hstack₁
    refine ⟨twice, htwice, fun answer' => ?_⟩
    have htop : twice.stack = [receiver].reverse ++ receiver :: below := hstack
    obtain ⟨s₂, hs₂, hstack₂, hstored₂, hlocals₂⟩ :=
      Slots.perform_store answer' (first + widths kinds) htop
    refine ⟨s₂, hs₂, hstack₂, ?_, ?_⟩
    · simp [hstored₂]
    · intro k hk
      obtain ⟨hvalue, hmem⟩ := hparked₁ k hk
      rw [hlocals₂, if_neg (by omega), hstored₂, hlocals, hstored]
      exact ⟨hvalue, List.mem_append_left _ hmem⟩
  refine Slots.Leads.mono ?_ hcopy
  rintro s₂ ⟨hstack₂, hreceiver, hparked₂⟩
  obtain ⟨top, _, hclimb⟩ := climb_report probe (first + widths kinds)
  have hreads : Action.Reads [first + widths kinds] (reportActions probe (first + widths kinds)) :=
    reads_report probe (List.mem_singleton_self _)
  have hbase : s₂.stack = [] ++ receiver :: below := hstack₂
  refine Slots.Leads.mono ?_ (Slots.leads_of_climb hclimb hbase rfl (by simpa using hreceiver)
    hreads)
  rintro s₃ ⟨⟨held, hstack₃, hheld⟩, _, _, hstored₃, hlocals₃⟩
  obtain rfl := List.length_eq_zero_iff.mp hheld
  rw [writes_report] at hstored₃ hlocals₃
  have hparked₃ : ∀ k (hk : k < values.length), s₃.locals (first + k) = values[k] ∧
      first + k ∈ s₃.stored := by
    intro k hk
    obtain ⟨hvalue, hmem⟩ := hparked₂ k hk
    rw [hlocals₃ (first + k) (by split <;> simp; omega), hstored₃]
    exact ⟨hvalue, List.mem_append_left _ hmem⟩
  refine Slots.Leads.mono ?_ (leads_reloads hlength hparked₃)
  intro s' hs'
  rw [hs', hstack₃, hs, List.nil_append]

end Values

/-! ### Compiled preludes -/

/-- What compiling does behind the descriptor: the locals are counted, and looked for. -/
theorem compile_of_parse {descriptor : String} {d : MethodDescriptor}
    (hd : MethodDescriptor.parse descriptor = .ok d) (probe : Probe) (first : UInt16) :
    compile probe descriptor first =
      if 65535 < d.width + 2 then throw .overflow
      else if 65535 < first.toNat + d.width + 2 then
        throw (Fault.notSupported (.localsFull first (UInt16.ofNat (d.width + 2))))
      else do
        let done ← (assembleAll (steps probe d first)).on (.start (UInt16.ofNat (d.width + 1)))
        if done.depth ≠ UInt16.ofNat (d.width + 1) then
          throw (Fault.malformed (.preludeDepth done.depth (UInt16.ofNat (d.width + 1))))
        return ⟨done.code.toList, done.maxDepth - UInt16.ofNat (d.width + 1),
          UInt16.ofNat (d.width + 2)⟩ := by
  have hadd (n : UInt16) (h : d.width < 65536) :
      addSlots (UInt16.ofNat d.width) n = slotCount (d.width + n.toNat) := by
    rw [addSlots, UInt16.toNat_ofNat_of_lt' h]
  by_cases hover : 65535 < d.width + 2
  · rw [if_pos hover, compile, hd]
    show (MonadExcept.ofExcept d.parameterSlots >>= _ : Interning Prelude) = _
    rw [d.parameterSlots_eq]
    by_cases hcount : d.width < 65536
    · rw [slotCount_of_lt hcount]
      show (MonadExcept.ofExcept (addSlots (UInt16.ofNat d.width) 2) >>= _ : Interning Prelude) = _
      rw [hadd 2 hcount, slotCount_of_not_lt (by change ¬ d.width + 2 < 65536; omega)]
      rfl
    · rw [slotCount_of_not_lt hcount]
      rfl
  · have hcount : d.width < 65536 := by omega
    have htwo : addSlots (UInt16.ofNat d.width) 2 = .ok (UInt16.ofNat (d.width + 2)) :=
      (hadd 2 hcount).trans (slotCount_of_lt (by change d.width + 2 < 65536; omega))
    have hone : addSlots (UInt16.ofNat d.width) 1 = .ok (UInt16.ofNat (d.width + 1)) :=
      (hadd 1 hcount).trans (slotCount_of_lt (by change d.width + 1 < 65536; omega))
    have hlocals : (UInt16.ofNat (d.width + 2)).toNat = d.width + 2 :=
      UInt16.toNat_ofNat_of_lt' (by change _ < 65536; omega)
    rw [if_neg hover, compile, hd]
    show (MonadExcept.ofExcept d.parameterSlots >>= _ : Interning Prelude) = _
    rw [d.parameterSlots_eq, slotCount_of_lt hcount]
    show (MonadExcept.ofExcept (addSlots (UInt16.ofNat d.width) 2) >>= _ : Interning Prelude) = _
    rw [htwo]
    show (if 65535 < first.toNat + (UInt16.ofNat (d.width + 2)).toNat then _
      else MonadExcept.ofExcept (addSlots (UInt16.ofNat d.width) 1) >>= _ : Interning Prelude) = _
    rw [hone, hlocals, ← Nat.add_assoc]
    by_cases hfull : 65535 < first.toNat + d.width + 2
    · rw [if_pos hfull, if_pos hfull]
      rfl
    · rw [if_neg hfull, if_neg hfull]
      rfl

theorem compile_eq_ok {probe : Probe} {descriptor : String} {first : UInt16} {p q : Pool}
    {prelude : Prelude} {d : MethodDescriptor} (hd : MethodDescriptor.parse descriptor = .ok d)
    (h : compile probe descriptor first p = .ok prelude q) :
    first.toNat + d.width + 2 ≤ 65535 ∧ ∃ done,
      (assembleAll (steps probe d first)).on (.start (UInt16.ofNat (d.width + 1))) p =
        .ok done q ∧
      prelude = ⟨done.code.toList, done.maxDepth - UInt16.ofNat (d.width + 1),
        UInt16.ofNat (d.width + 2)⟩ := by
  rw [compile_of_parse hd] at h
  split at h
  · cases h
  next =>
    split at h
    · cases h
    next hfits =>
      obtain ⟨done, r, hrun, h⟩ := Stateful.bind_eq_ok.mp h
      dsimp only at h
      split at h
      · cases h
      next =>
        cases h
        exact ⟨by omega, done, hrun, rfl⟩

variable {α : Type} {probe : Probe} {descriptor : String} {first : UInt16} {p q : Pool}
  {prelude : Prelude} {d : MethodDescriptor}

/-- What the steps of a prelude ask of the pool. -/
def symbols (probe : Probe) : List Symbol :=
  (detectionLine probe.detection 0 ++ (if probe.traceCaller then callerLine else []) ++
    (if probe.dumpStack then stackLines 0 else [])).filterMap Step.symbol?

/-- The constants that a prelude may bring in. -/
def constants (probe : Probe) : List Symbol := (symbols probe).flatMap Symbol.parts

/-- The attributes that edits look for by name. -/
def soughtNames : List String := ["Code", "RuntimeVisibleTypeAnnotations",
  "RuntimeInvisibleTypeAnnotations", "LineNumberTable", "LocalVariableTable",
  "LocalVariableTypeTable", "StackMapTable"]

/-- Whatever is detected, its line is asked for, and the rest is fixed. -/
theorem eq_detection_or_mem_symbols {s : Symbol} (h : s ∈ symbols probe) :
    s = .string probe.detection ∨ s ∈ symbols ⟨.start, "", true, true⟩ := by
  have hline (text : String) : (detectionLine text 0).filterMap Step.symbol? =
      .member .field system "out" "Ljava/io/PrintStream;" :: .string text ::
        ((detectionLine "" 0).filterMap Step.symbol?).drop 2 := rfl
  simp only [symbols, List.filterMap_append, List.mem_append, hline probe.detection] at h
  simp only [symbols, List.filterMap_append, List.mem_append,
    hline (Probe.detection ⟨.start, "", true, true⟩)]
  simp only [List.mem_cons] at h ⊢
  rcases h with (h | h) | h
  · tauto
  · split at h
    · exact .inr (.inl (.inr h))
    · cases h
  · split at h
    · exact .inr (.inr h)
    · cases h

theorem eq_detection_or_utf8_mem {text : String} (h : .utf8 text ∈ constants probe) :
    text = probe.detection ∨ .utf8 text ∈ constants ⟨.start, "", true, true⟩ := by
  obtain ⟨s, hs, hpart⟩ := List.mem_flatMap.mp h
  rcases eq_detection_or_mem_symbols hs with rfl | hfixed
  · simp [Symbol.parts] at hpart
    exact .inl hpart
  · exact .inr (List.mem_flatMap.mpr ⟨s, hfixed, hpart⟩)

theorem sought_ne_detection {name : String} (h : name ∈ soughtNames) (probe : Probe) :
    name ≠ probe.detection := by
  rintro rfl
  have hheads : ∀ name ∈ soughtNames, name.toList.head? ≠ some '[' := by decide +kernel
  exact hheads _ h (by simp [Probe.detection, marker])

theorem sought_not_mem_constants {name : String} (h : name ∈ soughtNames) (probe : Probe) :
    .utf8 name ∉ constants probe := by
  intro hmem
  have hfixed : ∀ name ∈ soughtNames, .utf8 name ∉ constants ⟨.start, "", true, true⟩ := by
    decide +kernel
  rcases eq_detection_or_utf8_mem hmem with heq | hmem
  · exact sought_ne_detection h probe heq
  · exact hfixed _ h hmem

/-- A step parks or reloads a parameter, or belongs to the report. -/
theorem mem_steps {step : Step} (h : step ∈ steps probe d first) :
    (∃ kind slot, step = .store kind slot ∨ step = .load kind slot) ∨ step = .dup ∨
      step ∈ detectionLine probe.detection (behind first d.parameters) ∨ step ∈ callerLine ∨
      step ∈ stackLines (behind first d.parameters + 1) := by
  simp only [steps, List.mem_append, List.mem_cons, List.not_mem_nil, or_false] at h
  rcases h with ((((h | h | h) | h) | h) | h) | h
  · obtain ⟨⟨kind, slot⟩, _, rfl⟩ := List.mem_map.mp h
    exact .inl ⟨kind, slot, .inl rfl⟩
  · exact .inr (.inl h)
  · exact .inl ⟨.reference, _, .inl h⟩
  · exact .inr (.inr (.inl h))
  · split at h
    · exact .inr (.inr (.inr (.inl h)))
    · cases h
  · split at h
    · exact .inr (.inr (.inr (.inr h)))
    · cases h
  · obtain ⟨⟨kind, slot⟩, _, rfl⟩ := List.mem_map.mp h
    exact .inl ⟨kind, slot, .inr rfl⟩

/-- Parking and reloading ask for nothing. -/
theorem filterMap_symbol?_steps (probe : Probe) (d : MethodDescriptor) (first : UInt16) :
    (steps probe d first).filterMap Step.symbol? = symbols probe := by
  have hstores (parked : List (ValueKind × UInt16)) :
      (parked.map fun (kind, slot) => Step.store kind slot).filterMap Step.symbol? = [] := by
    simp [Step.symbol?]
  have hloads (parked : List (ValueKind × UInt16)) :
      (parked.map fun (kind, slot) => Step.load kind slot).filterMap Step.symbol? = [] := by
    simp [Step.symbol?]
  have hcopy (receiver : UInt16) :
      [Step.dup, .store .reference receiver].filterMap Step.symbol? = [] := rfl
  have hdetection (text : String) (receiver : UInt16) :
      (detectionLine text receiver).filterMap Step.symbol? =
        (detectionLine text 0).filterMap Step.symbol? := rfl
  have hstack (scratch : UInt16) : (stackLines scratch).filterMap Step.symbol? =
      (stackLines 0).filterMap Step.symbol? := rfl
  rw [steps, symbols]
  simp only [List.filterMap_append, hstores, hloads, hcopy,
    hdetection _ (behind first d.parameters), List.nil_append, List.append_nil]
  congr 1
  split
  · exact hstack _
  · rfl

/-- Compiling brings in what the steps ask for alone, also where it fails. -/
theorem brings_compile (probe : Probe) (descriptor : String) (first : UInt16) :
    (compile probe descriptor first).Brings (constants probe) := by
  cases hd : MethodDescriptor.parse descriptor with
  | error fault =>
    unfold compile
    rw [hd]
    exact .of_after fun p => rfl
  | ok d =>
    rw [compile_of_parse hd]
    split
    · exact .of_after fun p => rfl
    split
    · exact .of_after fun p => rfl
    refine Interning.Brings.bind ?_ fun done => ?_
    · rw [constants, ← filterMap_symbol?_steps probe d first]
      exact Assembly.brings_assembleAll _ _
    · split
      · exact .of_after fun p => rfl
      · exact .of_after fun p => rfl

theorem grows_compile (probe : Probe) (descriptor : String) (first : UInt16) :
    (compile probe descriptor first).Grows fun _ => True :=
  (brings_compile probe descriptor first).grows

/-- A compiled prelude is its actions, one instruction each, also where the pool has
grown, and the limits it names are how high the actions climb and how many locals they use. -/
theorem exists_compiled_grown (hp : p.IsIndexed) (hd : MethodDescriptor.parse descriptor = .ok d)
    (hfits : first.toNat + d.width + 2 ≤ 65535)
    (h : compile probe descriptor first p = .ok prelude q) :
    ∃ instrs top, Instruction.Listing 0 instrs prelude.code ∧ (∀ i ∈ instrs, i.IsStraight) ∧
      (∀ r, q.GrowsTo r → List.Forall₂ (fun action (i : Instruction) => i.action? r = some action)
        (actions probe d.parameters first.toNat) instrs) ∧
      Action.climb (actions probe d.parameters first.toNat) (d.width + 1) (d.width + 1) =
        some (d.width + 1, top) ∧
      d.width + 1 + prelude.extraStack.toNat = top ∧ prelude.extraLocals.toNat = d.width + 2 := by
  obtain ⟨_, done, hrun, rfl⟩ := compile_eq_ok hd h
  obtain ⟨instrs, code, hcode, hcount, hlisting, hstraight, hdoes⟩ :=
    Assembly.assembleAll_of_ok (forall₂_actions probe hfits) hp hrun
  obtain ⟨top, htop, hclimb⟩ := climb_actions probe d.parameters first.toNat
  have hle := Action.le_of_climb hclimb
  have hwidth : widths d.parameters = d.width := rfl
  rw [hwidth] at hclimb htop hle
  have hslots (n : Nat) (hn : n ≤ 2) : (UInt16.ofNat (d.width + n)).toNat = d.width + n :=
    UInt16.toNat_ofNat_of_lt' (by change _ < 65536; omega)
  have hdone : done.maxDepth.toNat = top := by
    have hstart : Action.climb (actions probe d.parameters first.toNat) (d.width + 1) (d.width + 1) =
        some (done.depth.toNat, done.maxDepth.toNat) := by
      rw [← hcount]
      exact (congrArg₂ (Action.climb _) (hslots 1 (by decide)) (hslots 1 (by decide))).symm
    exact congrArg Prod.snd (Option.some.inj (hstart.symm.trans hclimb))
  refine ⟨instrs, top, ?_, hstraight, hdoes, hclimb, ?_, hslots 2 (Nat.le_refl 2)⟩
  · rw [hcode]
    exact hlisting
  · have hextra : (done.maxDepth - UInt16.ofNat (d.width + 1)).toNat = top - (d.width + 1) := by
      rw [UInt16.toNat_sub_of_le, hdone, hslots 1 (by decide)]
      rw [UInt16.le_iff_toNat_le, hdone, hslots 1 (by decide)]
      exact hle
    dsimp only
    omega

theorem exists_compiled (hp : p.IsIndexed) (hd : MethodDescriptor.parse descriptor = .ok d)
    (hfits : first.toNat + d.width + 2 ≤ 65535)
    (h : compile probe descriptor first p = .ok prelude q) :
    ∃ instrs top, Instruction.Listing 0 instrs prelude.code ∧ (∀ i ∈ instrs, i.IsStraight) ∧
      List.Forall₂ (fun action (i : Instruction) => i.action? q = some action)
        (actions probe d.parameters first.toNat) instrs ∧
      Action.climb (actions probe d.parameters first.toNat) (d.width + 1) (d.width + 1) =
        some (d.width + 1, top) ∧
      d.width + 1 + prelude.extraStack.toNat = top ∧ prelude.extraLocals.toNat = d.width + 2 := by
  obtain ⟨instrs, top, hlisting, hstraight, hdoes, hlimits⟩ := exists_compiled_grown hp hd hfits h
  have hq := ((grows_compile probe descriptor first).of_ok hp h).indexed
  exact ⟨instrs, top, hlisting, hstraight, hdoes q (.refl hq), hlimits⟩

theorem compile_straight (hp : p.IsIndexed) (h : compile probe descriptor first p = .ok prelude q) :
    ∃ instrs, Instruction.decode prelude.code = .ok instrs ∧ ∀ i ∈ instrs, i.IsStraight := by
  obtain ⟨d, r, hd, _⟩ := Stateful.bind_eq_ok.mp h
  obtain ⟨hparse, _⟩ := Interning.ofExcept_eq_ok.mp hd
  obtain ⟨hfits, _⟩ := compile_eq_ok hparse h
  obtain ⟨instrs, _, hlisting, hstraight, _⟩ := exists_compiled hp hparse hfits h
  exact ⟨instrs, Instruction.decode_eq_ok_iff.mpr hlisting, hstraight⟩

/-- A prelude leaves receiver and arguments where they were, touches nothing below them and no
local but its own, and needs exactly the stack that it says. -/
theorem compile_transparent (hp : p.IsIndexed) (hd : MethodDescriptor.parse descriptor = .ok d)
    (hfits : first.toNat + d.width + 2 ≤ 65535)
    (h : compile probe descriptor first p = .ok prelude q) :
    ∃ instrs, Instruction.decode prelude.code = .ok instrs ∧
      (∀ i ∈ instrs, i.IsStraight ∧ i.targets = []) ∧
      ∀ (reply : Nat → Nat → α) (locals : Nat → α) (arguments : List α) (receiver : α)
        (below : List α), arguments.length = d.width →
        ∃ s, Slots.run q reply instrs
            (Slots.start (arguments.reverse ++ receiver :: below) locals) = some s ∧
          s.stack = arguments.reverse ++ receiver :: below ∧ below.length ≤ s.low ∧
          (∀ n ∈ s.stored, first.toNat ≤ n ∧ n < first.toNat + prelude.extraLocals.toNat) ∧
          (∀ n ∉ s.stored, s.locals n = locals n) ∧
          s.peak = (arguments.reverse ++ receiver :: below).length + prelude.extraStack.toNat := by
  obtain ⟨instrs, top, hlisting, hstraight, hdoes, hclimb, htop, hextraLocals⟩ :=
    exists_compiled hp hd hfits h
  refine ⟨instrs, Instruction.decode_eq_ok_iff.mpr hlisting, ?_, ?_⟩
  · intro i hi
    exact ⟨hstraight i hi, hlisting.targets_eq_nil hstraight i hi⟩
  intro reply locals arguments receiver below hlength
  have hheight : (arguments.reverse ++ receiver :: below).length = d.width + 1 + below.length := by
    simp only [List.length_append, List.length_cons, List.length_reverse, hlength]
    omega
  have hstack : (Slots.start (arguments.reverse ++ receiver :: below) locals).stack =
      (arguments.reverse ++ [receiver]) ++ below := by
    simp [Slots.start]
  have hheights := Slots.leads_of_climb hclimb hstack (by simp [hlength]) (by simp)
    (reads_actions probe d.parameters first.toNat)
  have hvalues := leads_actions probe first.toNat hlength (s := Slots.start
    (arguments.reverse ++ receiver :: below) locals) rfl
  obtain ⟨s, hs, ⟨_, hpeak, hlow, hstored, hlocals⟩, hsame⟩ :=
    Slots.exists_run hdoes reply (hheights.and hvalues)
  refine ⟨s, hs, hsame, ?_, ?_, ?_, ?_⟩
  · have hbelow : min (arguments.reverse ++ receiver :: below).length below.length ≤ s.low := hlow
    omega
  · intro n hn
    rw [hstored] at hn
    rw [hextraLocals]
    exact mem_writes_actions hn
  · intro n hn
    rw [hstored] at hn
    exact hlocals n hn
  · have hstart : (Slots.start (arguments.reverse ++ receiver :: below) locals).peak =
        below.length + (d.width + 1) := hheight.trans (Nat.add_comm _ _)
    have hreached := hpeak hstart
    omega

theorem compile_transparent_long :
    ∃ prelude q, compile ⟨.start, "T", false, false⟩ "(J)V" 7 Pool.empty = .ok prelude q ∧
      Pool.empty.IsIndexed ∧ ∃ instrs, Instruction.decode prelude.code = .ok instrs ∧
        ∃ s, Slots.run q (fun _ n => n) instrs (Slots.start [6, 5, 9, 1] fun _ => 0) = some s ∧
          s.stack = [6, 5, 9, 1] ∧ 1 ≤ s.low ∧ s.peak = 4 + prelude.extraStack.toNat := by
  have hd : MethodDescriptor.parse "(J)V" = .ok ⟨[.long], none⟩ := by cbv
  have hp : Pool.empty.IsIndexed := by decide
  obtain ⟨prelude, q, h⟩ : ∃ prelude q,
      compile ⟨.start, "T", false, false⟩ "(J)V" 7 Pool.empty = .ok prelude q :=
    Interning.exists_of_succeeds (by decide +kernel)
  obtain ⟨instrs, hdecode, _, hrun⟩ := compile_transparent hp hd (by decide) h
  obtain ⟨s, hs, hstack, hlow, _, _, hpeak⟩ :=
    hrun (fun _ n => n) (fun _ => 0) [5, 6] 9 [1] rfl
  exact ⟨prelude, q, h, hp, instrs, hdecode, s, hs, hstack, hlow, hpeak⟩

end Prelude

end ThreadWatch
