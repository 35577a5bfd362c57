import ThreadWatch.Proofs.Editing.Sites

/-!
# What preludes call

A prelude reports by calling methods of its own, and none of them has the name of a watched one.
Nor does that change while other preludes add their constants to the pool.
-/

namespace ThreadWatch

/-! ### Single instructions -/

theorem InvokeKind.ofOpcode?_of_wide (op : UInt8) (h : Opcode.wideOperands op ≠ none) :
    ofOpcode? op = none := by
  revert op
  apply Opcode.forall_opcode
  decide +kernel

namespace Instruction

/-- What the instruction calls on an object, if it does, is a method of one of these names. -/
def CallsOnly (names : List String) (pool : Pool) (i : Instruction) : Prop :=
  ∀ kind, InvokeKind.ofOpcode? i.opcode = some kind → ∃ constant ref,
    i.constant? = some constant ∧ pool.memberRef constant = .ok ref ∧ ref.kind = .method ∧
      ref.name ∈ names

variable {names : List String} {pool : Pool} {i : Instruction}

theorem CallsOnly.mono {names' : List String} (h : i.CallsOnly names pool)
    (hsub : names ⊆ names') : i.CallsOnly names' pool := by
  intro kind hkind
  obtain ⟨constant, ref, hconstant, href, hmethod, hname⟩ := h kind hkind
  exact ⟨constant, ref, hconstant, href, hmethod, hsub hname⟩

theorem CallsOnly.grown {allowed : Constant → Prop} {q : Pool} (h : i.CallsOnly names pool)
    (hgrown : Pool.Grown allowed pool q) : i.CallsOnly names q := by
  intro kind hkind
  obtain ⟨constant, ref, hconstant, href, hrest⟩ := h kind hkind
  exact ⟨constant, ref, hconstant, hgrown.memberRef href, hrest⟩

/-- Where no call is, none is read. -/
theorem Stands.callsOnly {position : Nat} {op : UInt8} {operands : Bytes}
    (h : Stands position i (op :: operands)) (hop : InvokeKind.ofOpcode? op = none) :
    i.CallsOnly names pool := by
  intro kind hkind
  obtain ⟨opcode, tail, heq, h⟩ := h
  cases heq
  generalize Opcode.shape op = shape at h
  cases h with
  | wide widened _ hwide =>
    have hnone := InvokeKind.ofOpcode?_of_wide widened (by simp [hwide])
    cases hnone.symm.trans hkind
  | _ => cases hop.symm.trans hkind

/-- A call names its method in the two bytes behind its opcode. -/
theorem Stands.callsOnly_be16 {position : Nat} {op : UInt8} {index : UInt16} {ref : MemberRef}
    (h : Stands position i (op :: be16 index)) (hshape : Opcode.shape op = .fixed 2)
    (hop : Opcode.takesConstant op = true) (href : pool.memberRef index = .ok ref)
    (hmethod : ref.kind = .method) (hname : ref.name ∈ names) : i.CallsOnly names pool := by
  intro kind _
  refine ⟨index, ref, ?_, href, hmethod, hname⟩
  obtain ⟨opcode, operands, heq, h⟩ := h
  obtain ⟨rfl, hoperands⟩ := List.cons.inj heq
  obtain ⟨high, low, hbytes, hindex⟩ := join_be16 index
  generalize hfixed : Opcode.shape op = shape at h
  cases h with
  | fixed =>
    simp [constant?, hop, ← hoperands, hbytes, hindex]
  | _ => cases hfixed.symm.trans hshape

end Instruction

/-! ### Assembled steps -/

/-- The name of the method that the step calls. -/
def Step.callees : Step → List String
  | invoke _ _ name _ => [name]
  | _ => []

/-- A step is assembled to bytes that call what the step calls. -/
theorem Step.assemble_callees {step : Step} {a b : Assembly} {p q : Pool} (hp : p.IsIndexed)
    (h : step.assemble.on a p = .ok b q) :
    ∃ bytes : Bytes, b.code = a.code ++ bytes ∧ ∀ position i,
      Instruction.Stands position i bytes → i.CallsOnly step.callees q := by
  obtain ⟨pops, pushes, index, _, hadd, _, _, rfl⟩ := on_assemble_eq_ok.mp h
  have hdenoted := denoted_of_addConstant hp hadd
  refine ⟨step.bytes index, rfl, fun position i hstands => ?_⟩
  cases step with
  | load kind slot | store kind slot =>
    rw [bytes, localBytes] at hstands
    split at hstands
    · exact hstands.callsOnly (by cases kind <;> rfl)
    · exact hstands.callsOnly rfl
  | iconst value =>
    rw [bytes, iconstBytes] at hstands
    split at hstands
    next hsmall =>
      rcases Pool.eq_of_small hsmall with rfl | rfl | rfl | rfl | rfl | rfl | rfl <;>
        exact hstands.callsOnly rfl
    next =>
      split at hstands
      · exact hstands.callsOnly rfl
      · exact hstands.callsOnly rfl
  | ldc text =>
    rw [bytes] at hstands
    split at hstands
    · exact hstands.callsOnly rfl
    · exact hstands.callsOnly rfl
  | dup | isub | getStatic | newObject => exact hstands.callsOnly rfl
  | invoke dispatch owner name descriptor =>
    exact hstands.callsOnly_be16 (by cases dispatch <;> rfl) (by cases dispatch <;> rfl)
      (hdenoted _ rfl) rfl (List.mem_singleton_self name)

/-- Assembled steps call what the steps call. -/
theorem Assembly.assembleAll_callees {steps : List Step}
    (hdoes : ∀ step ∈ steps, ∃ action, step.action? = some action) {a b : Assembly} {p q : Pool}
    (hp : p.IsIndexed) (h : (assembleAll steps).on a p = .ok b q) :
    ∃ instrs code, b.code.toList = a.code.toList ++ code ∧ Instruction.Listing 0 instrs code ∧
      (∀ i ∈ instrs, i.IsStraight) ∧
      ∀ i ∈ instrs, i.CallsOnly (steps.flatMap Step.callees) q := by
  induction steps generalizing a p with
  | nil =>
    cases h
    exact ⟨[], [], by simp, .nil _, by simp, by simp⟩
  | cons step steps ih =>
    rw [List.forall_mem_cons] at hdoes
    obtain ⟨action, haction⟩ := hdoes.1
    rw [on_assembleAll_cons] at h
    obtain ⟨mid, r, hfirst, hrest⟩ := Stateful.bind_eq_ok.mp h
    have hgrown := (step.grows_assemble a).of_ok hp hfirst
    have hlater := (grows_assembleAll steps mid).of_ok hgrown.indexed hrest
    obtain ⟨_, _, bytes, ⟨i, hstands, hi, _⟩, rfl⟩ := Step.on_assemble_of_ok haction hp hfirst
    obtain ⟨same, hsame, hcalls⟩ := Step.assemble_callees hp hfirst
    obtain rfl : bytes = same := by simpa [emitted] using congrArg Array.toList hsame
    obtain ⟨instrs, code, hcode, hlisting, hall, hnames⟩ := ih hdoes.2 hgrown.indexed hrest
    refine ⟨i :: instrs.map (·.shift bytes.length), bytes ++ code, ?_, ?_, ?_, ?_⟩
    · rw [hcode]
      simp [emitted]
    · exact .cons hstands (hlisting.shift hall bytes.length)
    · rw [List.forall_mem_cons, List.forall_mem_map]
      exact ⟨hi, hall⟩
    · rw [List.forall_mem_cons, List.forall_mem_map]
      constructor
      · exact ((hcalls _ _ hstands).grown hlater).mono (List.subset_append_left _ _)
      · exact fun j hj => (hnames j hj).mono (List.subset_append_right _ _)

/-! ### Preludes -/

namespace Prelude

variable {probe : Probe} {descriptor : String} {first : UInt16} {p q : Pool} {prelude : Prelude}

/-- The names of what preludes call. -/
def callees : List String :=
  (detectionLine "" 0 ++ callerLine ++ stackLines 0).flatMap Step.callees

/-- Nothing that a prelude calls could be watched. -/
theorem ofName?_callees : ∀ name ∈ callees, Operation.ofName? name = none := by
  decide +kernel

theorem callees_steps_subset (probe : Probe) (d : MethodDescriptor) (first : UInt16) :
    (steps probe d first).flatMap Step.callees ⊆ callees := by
  intro name hname
  obtain ⟨step, hstep, hmem⟩ := List.mem_flatMap.mp hname
  rw [callees, List.flatMap_append, List.flatMap_append, List.mem_append, List.mem_append]
  rcases mem_steps hstep with ⟨kind, slot, rfl | rfl⟩ | rfl | h | h | h
  · cases hmem
  · cases hmem
  · cases hmem
  · have hnames : name ∈ (detectionLine probe.detection (behind first d.parameters)).flatMap
        Step.callees := List.mem_flatMap.mpr ⟨step, h, hmem⟩
    exact .inl (.inl hnames)
  · exact .inl (.inr (List.mem_flatMap.mpr ⟨step, h, hmem⟩))
  · have hnames : name ∈ (stackLines (behind first d.parameters + 1)).flatMap Step.callees :=
      List.mem_flatMap.mpr ⟨step, h, hmem⟩
    exact .inr hnames

theorem compile_callees (hp : p.IsIndexed) (h : compile probe descriptor first p = .ok prelude q) :
    ∃ instrs, Instruction.decode prelude.code = .ok instrs ∧
      ∀ i ∈ instrs, i.CallsOnly callees q := by
  obtain ⟨d, r, hd, _⟩ := Stateful.bind_eq_ok.mp h
  obtain ⟨hparse, _⟩ := Interning.ofExcept_eq_ok.mp hd
  obtain ⟨hfits, done, hrun, rfl⟩ := compile_eq_ok hparse h
  have hdoes : ∀ step ∈ steps probe d first, ∃ action, step.action? = some action := by
    intro step hstep
    obtain ⟨action, _, haction⟩ := exists_of_mem_left (forall₂_actions probe hfits) hstep
    exact ⟨action, haction⟩
  obtain ⟨instrs, code, hcode, hlisting, _, hcalls⟩ := Assembly.assembleAll_callees hdoes hp hrun
  refine ⟨instrs, ?_, fun i hi => (hcalls i hi).mono (callees_steps_subset probe d first)⟩
  rw [hcode]
  exact Instruction.decode_eq_ok_iff.mpr hlisting

end Prelude

/-! ### Classes under edit -/

/-- What is inserted reads as code that calls only methods of these names. -/
def Item.CallsOnly (names : List String) (pool : Pool) (item : Item) : Prop :=
  ∃ inserted, Instruction.decode item.insertedBytes = .ok inserted ∧
    ∀ i ∈ inserted, i.CallsOnly names pool

namespace Workpiece

variable {w v next last : Workpiece} {site other : CallSite} {probe : Probe} {names : List String}
  {edits : List (CallSite × Probe)}

/-- What one prelude leaves true, all of them do. -/
theorem replaceAll_induction {I : Workpiece → Prop}
    (hstep : ∀ {v site probe next}, I v → replaceCallSite site probe v = .ok () next → I next)
    (hv : I v) (h : replaceAll edits v = .ok () last) : I last := by
  induction edits generalizing v with
  | nil =>
    cases h
    exact hv
  | cons edit edits ih =>
    obtain ⟨site, probe⟩ := edit
    cases hnext : replaceCallSite site probe v with
    | ok _ next =>
      rw [replaceAll_cons_of_ok hnext] at h
      exact ih (hstep hv hnext) h
    | error fault next =>
      rw [replaceAll_cons_of_error hnext] at h
      cases h

/-- All that was inserted anywhere calls only methods of these names. -/
def InsertsOnly (names : List String) (v : Workpiece) : Prop :=
  ∀ body, some body ∈ v.bodies → ∀ item ∈ body.items, item.CallsOnly names v.file.pool

theorem insertsOnly_of_parse {data : Bytes} (hw : parse data = .ok w) : w.InsertsOnly names := by
  intro body hbody item hitem
  obtain ⟨_, _, hbodies⟩ := parse_eq_ok.mp hw
  obtain ⟨m, _, hread⟩ := exists_of_mem_right hbodies hbody
  obtain ⟨_, _, _, _, hparse⟩ := bodyOf_eq_some hread
  have hnone := (Body.of_parse hparse).2.2.2 item hitem
  refine ⟨[], Instruction.decode_eq_ok_iff.mpr ?_, by simp⟩
  rw [Item.insertedBytes, hnone]
  exact .nil 0

theorem InsertsOnly.replace_ok (h : v.InsertsOnly Prelude.callees) (hp : v.file.pool.IsIndexed)
    (hnext : replaceCallSite site probe v = .ok () next) : next.InsertsOnly Prelude.callees := by
  obtain ⟨body, prelude, pool, heditable, hcompile, rfl⟩ := replaceCallSite_eq_ok hnext
  have hgrown := (Prelude.grows_compile probe site.descriptor body.code.maxLocals).of_ok hp hcompile
  have hold : ∀ found, some found ∈ v.bodies → ∀ item ∈ found.items,
      item.CallsOnly Prelude.callees pool := by
    intro found hfound item hitem
    obtain ⟨inserted, hdecode, hcalls⟩ := h found hfound item hitem
    exact ⟨inserted, hdecode, fun i hi => (hcalls i hi).grown hgrown⟩
  intro found hfound
  rcases List.mem_or_eq_of_mem_set hfound with hfound | hfound
  · exact hold found hfound
  · cases hfound
    exact forall_mem_modify (hold body (List.mem_of_getElem? (of_editable heditable))) fun _ _ =>
      Prelude.compile_callees hp hcompile

/-- After any preludes the class is what `Leaves` says, and what was inserted calls nothing that
could be watched. -/
theorem leaves_of_replaceAll {data : Bytes} (hw : parse data = .ok w)
    (h : replaceAll edits w = .ok () last) :
    (∃ touched, w.Leaves touched last) ∧ last.InsertsOnly Prelude.callees := by
  refine replaceAll_induction (I := fun v =>
    (∃ touched, w.Leaves touched v) ∧ v.InsertsOnly Prelude.callees) ?_
    ⟨⟨[], leaves_of_parse hw⟩, insertsOnly_of_parse hw⟩ h
  rintro v site probe next ⟨⟨touched, hleaves⟩, hinserts⟩ hnext
  exact ⟨⟨_, hleaves.replace_ok hnext⟩, hinserts.replace_ok hleaves.pool.indexed hnext⟩

/-- Something is inserted in front of the call. -/
def IsProbed (v : Workpiece) (site : CallSite) : Prop :=
  ∃ body item, v.bodies[site.method]? = some (some body) ∧
    body.items[site.instruction]? = some item ∧ item.inserted.isSome = true

theorem isProbed_of_replace_ok (hnext : replaceCallSite site probe v = .ok () next) :
    next.IsProbed site := by
  obtain ⟨body, prelude, pool, hbody, _, rfl⟩ := replaceCallSite_eq_ok hnext
  obtain ⟨hplace, item, hitem, _⟩ := editable_eq_ok.mp hbody
  refine ⟨insert body site.instruction prelude, { item with inserted := some prelude.code }, ?_, ?_,
    rfl⟩
  · exact List.getElem?_set_self (List.getElem?_eq_some_iff.mp hplace).1
  · rw [insert, List.getElem?_modify_eq, hitem]
    rfl

/-- What was inserted stays. -/
theorem IsProbed.replace_ok (h : v.IsProbed other)
    (hnext : replaceCallSite site probe v = .ok () next) : next.IsProbed other := by
  obtain ⟨found, item, hfound, hitem, hinserted⟩ := h
  obtain ⟨body, prelude, pool, heditable, _, rfl⟩ := replaceCallSite_eq_ok hnext
  have hbody := of_editable heditable
  by_cases hmethod : site.method = other.method
  · rw [hmethod, hfound] at hbody
    cases hbody
    have hkept : ∃ item, (insert found site.instruction prelude).items[other.instruction]? =
        some item ∧ item.inserted.isSome = true := by
      rw [insert, List.getElem?_modify, hitem]
      split
      · exact ⟨_, rfl, rfl⟩
      · exact ⟨_, rfl, hinserted⟩
    obtain ⟨item', hitem', hinserted'⟩ := hkept
    refine ⟨insert found site.instruction prelude, item', ?_, hitem', hinserted'⟩
    dsimp only
    rw [hmethod, List.getElem?_set_self (List.getElem?_eq_some_iff.mp hfound).1]
  · refine ⟨found, item, ?_, hitem, hinserted⟩
    dsimp only
    rwa [List.getElem?_set_ne hmethod]

/-- Every call that was given a prelude has it in the end. -/
theorem isProbed_of_replaceAll (h : replaceAll edits v = .ok () last) :
    ∀ edit ∈ edits, last.IsProbed edit.1 := by
  induction edits generalizing v with
  | nil => simp
  | cons edit edits ih =>
    obtain ⟨site, probe⟩ := edit
    cases hnext : replaceCallSite site probe v with
    | ok _ next =>
      rw [replaceAll_cons_of_ok hnext] at h
      rw [List.forall_mem_cons]
      exact ⟨replaceAll_induction IsProbed.replace_ok (isProbed_of_replace_ok hnext) h, ih h⟩
    | error fault next =>
      rw [replaceAll_cons_of_error hnext] at h
      cases h

end Workpiece

end ThreadWatch
