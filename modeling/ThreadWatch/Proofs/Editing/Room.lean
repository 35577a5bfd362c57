import ThreadWatch.Proofs.Editing.Prelude
import ThreadWatch.Proofs.Pool.Enlarging

/-!
# Room for preludes

Whether there are locals for a prelude is found out before any of it is assembled, and from then on
nothing fails but for want of room in the pool. So where compiling one fails otherwise, the pool is
as it was.
-/

namespace ThreadWatch

namespace Interning

open Pool

variable {α β : Type}

/-- It fails for want of room alone, and leaves the pool full. -/
def FailsFull (x : Interning α) : Prop :=
  ∀ p q fault, p.IsIndexed → x p = .error fault q → fault = .poolFull ∧ q.count = capacity

namespace FailsFull

theorem bind {x : Interning α} {f : α → Interning β} (hx : x.FailsFull)
    (hgrows : x.Grows fun _ => True) (hf : ∀ a, (f a).FailsFull) : (x >>= f).FailsFull := by
  intro p q fault hp h
  rcases Stateful.bind_eq_error.mp h with h | ⟨a, r, hr, h⟩
  · exact hx p q fault hp h
  · exact hf a r q fault (hgrows.of_ok hp hr).indexed h

end FailsFull

/-- However it ends, it takes no more than so many slots of the pool. -/
def TakesAtMost (n : Nat) (x : Interning α) : Prop := ∀ p, (x.after p).count ≤ p.count + n

namespace TakesAtMost

variable {m n : Nat}

theorem pure (a : α) : TakesAtMost 0 (pure a : Interning α) := fun _ => Nat.le_refl _

theorem mono {x : Interning α} (hx : TakesAtMost m x) (hle : m ≤ n) : TakesAtMost n x :=
  fun p => Nat.le_trans (hx p) (Nat.add_le_add_left hle _)

theorem bind {x : Interning α} {f : α → Interning β} (hx : TakesAtMost m x)
    (hf : ∀ a, TakesAtMost n (f a)) : TakesAtMost (m + n) (x >>= f) := by
  intro p
  have hfirst := hx p
  show (after (EStateM.bind x f) p).count ≤ _
  unfold after EStateM.bind at *
  cases hresult : x p with
  | ok a q =>
    rw [hresult] at hfirst
    have hsecond := hf a q
    unfold after at hsecond
    dsimp only at *
    omega
  | error fault q =>
    rw [hresult] at hfirst
    dsimp only at *
    omega

theorem add (c : Constant) : TakesAtMost c.width (add c) := by
  intro p
  unfold after
  cases hresult : Pool.add c p with
  | ok index q =>
    dsimp only
    rcases add_eq_ok hresult with ⟨_, rfl⟩ | ⟨_, _, _, rfl⟩
    · exact Nat.le_add_right _ _
    · exact Nat.le_of_eq (size_push _ _)
  | error fault q =>
    obtain ⟨_, rfl, _⟩ := add_eq_error hresult
    exact Nat.le_add_right _ _

end TakesAtMost

/-- A symbol takes a slot for each of its parts. -/
theorem takesAtMost_intern (s : Symbol) : TakesAtMost s.parts.length s.intern := by
  have htype (name : String) : TakesAtMost 2 (addType name) :=
    (TakesAtMost.add (.utf8 _)).bind fun found => TakesAtMost.add (.type found)
  have hnameAndType (name descriptor : String) : TakesAtMost 3 (addNameAndType name descriptor) :=
    (TakesAtMost.add (.utf8 _)).bind fun found => (TakesAtMost.add (.utf8 _)).bind fun found' =>
      TakesAtMost.add (.nameAndType found found')
  cases s with
  | utf8 text => exact TakesAtMost.add (.utf8 _)
  | type name => exact htype name
  | string text =>
    exact (TakesAtMost.add (.utf8 _)).bind fun found => TakesAtMost.add (.string found)
  | nameAndType name descriptor => exact hnameAndType name descriptor
  | member kind owner name descriptor =>
    exact (htype owner).bind fun found => (hnameAndType name descriptor).bind fun found' =>
      TakesAtMost.add (.member kind found found')

end Interning

/-! ### Steps -/

namespace Assembly

variable {a : Assembly}

theorem failsFull_emitCounted {bytes : Bytes} {pops pushes : Nat} (hpushes : pushes < 65536)
    (hpops : pops ≤ a.depth.toNat) (hfits : a.depth.toNat - pops + pushes < 65536) :
    ((emitCounted bytes pops pushes).on a).FailsFull := by
  intro p q fault _ h
  rw [(on_emitCounted_eq_ok hpushes).mpr ⟨hpops, hfits, rfl, rfl⟩] at h
  cases h

theorem takesAtMost_emitCounted (bytes : Bytes) {pops pushes : Nat} (hpushes : pushes < 65536) :
    Interning.TakesAtMost 0 ((emitCounted bytes pops pushes).on a) := by
  intro p
  rw [after_emitCounted bytes hpushes]
  exact Nat.le_refl _

end Assembly

namespace Step

open Assembly

/-- The slots of the pool that a step's constants take if none of them is there. -/
def constants : Step → Nat
  | load .. | store .. | dup | iconst .. | isub => 0
  | ldc .. | newObject .. => 2
  | getStatic .. | invoke .. => 6

theorem takesAtMost_addConstant (step : Step) :
    Interning.TakesAtMost step.constants step.addConstant := by
  cases step with
  | ldc text => exact Interning.takesAtMost_intern (.string text)
  | newObject type => exact Interning.takesAtMost_intern (.type type)
  | getStatic owner name descriptor =>
    exact Interning.takesAtMost_intern (.member .field owner name descriptor)
  | invoke dispatch owner name descriptor =>
    exact Interning.takesAtMost_intern (.member .method owner name descriptor)
  | _ => exact Interning.TakesAtMost.pure 0

theorem takesAtMost_assemble (step : Step) (a : Assembly) :
    Interning.TakesAtMost step.constants (step.assemble.on a) := by
  cases heffect : step.effect? with
  | none =>
    intro p
    obtain ⟨cause, hcause⟩ := assemble_of_unknown heffect ⟨a, p⟩
    rw [Interning.after, Assembling.on, hcause]
    exact Nat.le_add_right _ _
  | some effect =>
    rw [on_assemble heffect]
    exact step.takesAtMost_addConstant.bind fun index =>
      takesAtMost_emitCounted _ (pushes_lt heffect)

/-- Where the slots that a step takes are there and those that it leaves can be counted, it fails
for want of room alone. -/
theorem failsFull_assemble {step : Step} {action : Action} {a : Assembly}
    (haction : step.action? = some action) (hpops : action.pops ≤ a.depth.toNat)
    (hfits : a.depth.toNat - action.pops + action.pushes < 65536) :
    (step.assemble.on a).FailsFull := by
  have hadd := step.isAddition_addConstant
  have heffect := effect?_of_action? haction
  rw [on_assemble heffect]
  exact Interning.FailsFull.bind hadd.full hadd.grows fun index =>
    failsFull_emitCounted (pushes_lt heffect) hpops hfits

end Step

namespace Assembly

variable {a b : Assembly} {p q : Pool} {steps : List Step} {actions : List Action}

/-- Along a climb that can be counted nothing but room can be wanting. -/
theorem failsFull_assembleAll
    (hactions : List.Forall₂ (fun step action => step.action? = some action) steps actions)
    {top height' top' : Nat} (h : Action.climb actions a.depth.toNat top = some (height', top'))
    (htop : top' < 65536) : ((assembleAll steps).on a).FailsFull := by
  induction hactions generalizing a top with
  | nil =>
    intro p q fault _ hrun
    cases hrun
  | @cons step action steps actions haction _ ih =>
    have hbound := Action.le_of_climb h
    rw [Action.climb] at h
    split at h
    next hpops =>
      have hnext := Action.le_of_climb h
      have hfits : a.depth.toNat - action.pops + action.pushes < 65536 := by omega
      rw [on_assembleAll_cons]
      intro p q fault hp hrun
      rcases Stateful.bind_eq_error.mp hrun with hrun | ⟨b, r, hfirst, hrun⟩
      · exact Step.failsFull_assemble haction hpops hfits p q fault hp hrun
      · obtain ⟨_, _, bytes, _, rfl⟩ := Step.on_assemble_of_ok haction hp hfirst
        have hr := ((step.grows_assemble a).of_ok hp hfirst).indexed
        have hrest : Action.climb actions (a.emitted bytes action.pops action.pushes).depth.toNat
            (max top (a.depth.toNat - action.pops + action.pushes)) = some (height', top') := by
          rw [toNat_depth_emitted hfits]
          exact h
        exact ih hrest r q fault hr hrun
    · cases h

theorem takesAtMost_assembleAll (steps : List Step) (a : Assembly) :
    Interning.TakesAtMost (steps.map Step.constants).sum ((assembleAll steps).on a) := by
  induction steps generalizing a with
  | nil => exact Interning.TakesAtMost.pure _
  | cons step steps ih =>
    rw [on_assembleAll_cons, List.map_cons, List.sum_cons]
    exact (step.takesAtMost_assemble a).bind ih

end Assembly

/-! ### Preludes -/

namespace Prelude

open Assembly

variable {probe : Probe} {descriptor : String} {first : UInt16} {p q : Pool} {fault : Fault}

/-- Where its locals fit, assembling a prelude fails for want of room, or leaves the stack as high
as it was. -/
theorem assembleAll_steps_cases (probe : Probe) {d : MethodDescriptor} {first : UInt16}
    (hfits : first.toNat + d.width + 2 ≤ 65535) (hp : p.IsIndexed) :
    (∃ q, q.count = Pool.capacity ∧ (assembleAll (steps probe d first)).on
        (start (UInt16.ofNat (d.width + 1))) p = .error .poolFull q) ∨
    ∃ done q, done.depth = UInt16.ofNat (d.width + 1) ∧ (assembleAll (steps probe d first)).on
      (start (UInt16.ofNat (d.width + 1))) p = .ok done q := by
  have hactions := forall₂_actions probe hfits
  obtain ⟨top, htop, hclimb⟩ := climb_actions probe d.parameters first.toNat
  have hwidth : widths d.parameters = d.width := rfl
  rw [hwidth] at htop hclimb
  have hdepth : (start (UInt16.ofNat (d.width + 1))).depth.toNat = d.width + 1 :=
    UInt16.toNat_ofNat_of_lt' (by change _ < 65536; omega)
  have hstart : Action.climb (actions probe d.parameters first.toNat)
      (start (UInt16.ofNat (d.width + 1))).depth.toNat (d.width + 1) = some (d.width + 1, top) := by
    rw [hdepth]
    exact hclimb
  cases hrun : (assembleAll (steps probe d first)).on (start (UInt16.ofNat (d.width + 1))) p with
  | error fault q =>
    obtain ⟨rfl, hcount⟩ := failsFull_assembleAll hactions hstart (by omega) p q fault hp hrun
    exact .inl ⟨q, hcount, rfl⟩
  | ok done q =>
    obtain ⟨_, _, _, hcount, _⟩ := assembleAll_of_ok hactions hp hrun
    have hmax : (start (UInt16.ofNat (d.width + 1))).maxDepth.toNat = d.width + 1 := hdepth
    rw [hmax] at hcount
    have hback : done.depth.toNat = d.width + 1 :=
      congrArg Prod.fst (Option.some.inj (hcount.symm.trans hstart))
    refine .inr ⟨done, q, ?_, rfl⟩
    rw [← hback, UInt16.ofNat_toNat]

/-- More locals than can be counted are an overflow, more than there are left are not supported, and
otherwise nothing can be wanting but room. -/
theorem compile_cases {d : MethodDescriptor} (hd : MethodDescriptor.parse descriptor = .ok d)
    (probe : Probe) (first : UInt16) (hp : p.IsIndexed) :
    (65535 < d.width + 2 ∧ compile probe descriptor first p = .error .overflow p) ∨
    (d.width + 2 ≤ 65535 ∧ 65535 < first.toNat + d.width + 2 ∧
      compile probe descriptor first p =
        .error (.notSupported (.localsFull first (UInt16.ofNat (d.width + 2)))) p) ∨
    first.toNat + d.width + 2 ≤ 65535 ∧
      ((∃ q, q.count = Pool.capacity ∧ compile probe descriptor first p = .error .poolFull q) ∨
      ∃ prelude q, compile probe descriptor first p = .ok prelude q) := by
  rw [compile_of_parse hd]
  by_cases hover : 65535 < d.width + 2
  · rw [if_pos hover]
    exact .inl ⟨hover, rfl⟩
  rw [if_neg hover]
  by_cases hfull : 65535 < first.toNat + d.width + 2
  · rw [if_pos hfull]
    exact .inr (.inl ⟨by omega, hfull, rfl⟩)
  rw [if_neg hfull]
  refine .inr (.inr ⟨by omega, ?_⟩)
  obtain ⟨q, hcount, hrun⟩ | ⟨done, q, hdepth, hrun⟩ :=
    assembleAll_steps_cases probe (Nat.not_lt.mp hfull) hp
  · exact .inl ⟨q, hcount, Stateful.bind_eq_error.mpr (.inl hrun)⟩
  · refine .inr ⟨⟨done.code.toList, done.maxDepth - UInt16.ofNat (d.width + 1),
      UInt16.ofNat (d.width + 2)⟩, q, Stateful.bind_eq_ok.mpr ⟨done, q, hrun, ?_⟩⟩
    dsimp only
    rw [if_neg (not_not.mpr hdepth)]
    rfl

theorem eq_of_parse_eq_error (h : MethodDescriptor.parse descriptor = .error fault) :
    fault = .malformed (.descriptor descriptor) := by
  unfold MethodDescriptor.parse at h
  split at h
  · cases h
  · cases h
    rfl

/-- What overflows is the count of the locals alone. -/
theorem compile_eq_overflow_iff (hp : p.IsIndexed) :
    (∃ q, compile probe descriptor first p = .error .overflow q) ↔
      ∃ d, MethodDescriptor.parse descriptor = .ok d ∧ 65533 < d.width := by
  cases hd : MethodDescriptor.parse descriptor with
  | error cause =>
    unfold compile
    rw [hd, eq_of_parse_eq_error hd]
    constructor
    · rintro ⟨q, hq⟩
      cases hq
    · rintro ⟨d, hd, _⟩
      cases hd
  | ok d =>
    constructor
    · rintro ⟨q, hq⟩
      obtain ⟨hover, _⟩ | ⟨_, _, heq⟩ | ⟨_, ⟨r, _, heq⟩ | ⟨prelude, r, heq⟩⟩ :=
        compile_cases hd probe first hp
      · exact ⟨d, rfl, by omega⟩
      · cases heq.symm.trans hq
      · cases heq.symm.trans hq
      · cases heq.symm.trans hq
    · rintro ⟨_, hsame, hwide⟩
      cases hsame
      obtain ⟨_, heq⟩ | ⟨hfew, _⟩ | ⟨hfits, _⟩ := compile_cases hd probe first hp
      · exact ⟨p, heq⟩
      · omega
      · omega

/-- Compiling that fails leaves the pool as it was, if not for want of room: then it is full. -/
theorem compile_eq_error (hp : p.IsIndexed) (h : compile probe descriptor first p = .error fault q) :
    fault ≠ .poolFull ∧ q = p ∨ fault = .poolFull ∧ q.count = Pool.capacity := by
  cases hd : MethodDescriptor.parse descriptor with
  | error cause =>
    unfold compile at h
    rw [hd, eq_of_parse_eq_error hd] at h
    cases h
    exact .inl ⟨nofun, rfl⟩
  | ok d =>
    obtain ⟨_, heq⟩ | ⟨_, _, heq⟩ | ⟨_, ⟨r, hcount, heq⟩ | ⟨prelude, r, heq⟩⟩ :=
      compile_cases hd probe first hp
    · cases heq.symm.trans h
      exact .inl ⟨nofun, rfl⟩
    · cases heq.symm.trans h
      exact .inl ⟨nofun, rfl⟩
    · cases heq.symm.trans h
      exact .inr ⟨rfl, hcount⟩
    · cases heq.symm.trans h

/-! ### How much room is enough -/

/-- Parking and reloading name no constants, and a report has a fixed number of them at most. -/
theorem sum_constants_steps_le (probe : Probe) (d : MethodDescriptor) (first : UInt16) :
    ((steps probe d first).map Step.constants).sum ≤ 190 := by
  have hdetection (text : String) (receiver : UInt16) :
      ((detectionLine text receiver).map Step.constants).sum = 52 := rfl
  have hcaller : (callerLine.map Step.constants).sum = 64 := rfl
  have hstack (scratch : UInt16) : ((stackLines scratch).map Step.constants).sum = 74 := rfl
  rw [steps]
  simp only [List.map_append, List.sum_append, hdetection]
  -- parking and taking back adds none
  split <;> split <;> simp [hcaller, hstack, Step.constants, Function.comp_def]

theorem takesAtMost_compile (probe : Probe) (descriptor : String) (first : UInt16) :
    Interning.TakesAtMost 190 (compile probe descriptor first) := by
  cases hd : MethodDescriptor.parse descriptor with
  | error cause =>
    unfold compile
    rw [hd]
    exact fun p => Nat.le_add_right _ _
  | ok d =>
    rw [compile_of_parse hd]
    split
    · exact fun p => Nat.le_add_right _ _
    · split
      · exact fun p => Nat.le_add_right _ _
      · have hsteps := (takesAtMost_assembleAll (steps probe d first)
          (start (UInt16.ofNat (d.width + 1)))).mono (sum_constants_steps_le probe d first)
        refine hsteps.bind (n := 0) fun done => ?_
        dsimp only
        split <;> exact fun p => Nat.le_refl _

/-- With that many slots left, room is not wanting. -/
theorem compile_ne_poolFull (hp : p.IsIndexed) (hroom : p.count + 190 < Pool.capacity) :
    compile probe descriptor first p ≠ .error .poolFull q := by
  intro h
  have htaken := takesAtMost_compile probe descriptor first p
  rw [Interning.after, h] at htaken
  obtain ⟨hfault, _⟩ | ⟨_, hcount⟩ := compile_eq_error hp h
  · exact hfault rfl
  · dsimp only at htaken
    omega

end Prelude

end ThreadWatch
