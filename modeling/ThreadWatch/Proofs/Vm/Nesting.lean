import ThreadWatch.Proofs.Vm.Keeping

/-!
# Loads within loads

While a lookup makes its calls, the machine may load further classes, and each of these loads comes
back to the agent on the same thread. Here such a run is a tree: every call of a load runs loads of
its own before it is answered. Of the loads within a lookup the first is refused, and every later
one is performed, for the refusal takes the mark away. So a lookup refuses all the loads within it
exactly if there is at most one.
-/

namespace ThreadWatch.Vm

/-- What answers calls and takes notes, apart from the agent. -/
structure Device (τ : Type) where
  answer : (c : Call) → StateM τ c.Reply
  note : Level → String → StateM τ Unit
  isNoting : Bool

/-- A load with the loads that each of its calls runs before it is answered. -/
inductive Visit where
  | lookup (loader : Option Object) (name : String) (during : List (List Visit))
  /-- A lookup that unwinds behind these calls. -/
  | unwound (name : String) (calls : List Call) (during : List (List Visit))

/-- What came of a load: its answer, unless it unwound, its own calls, and the loads within it. -/
inductive Record where
  | mk (answer : Option Answer) (calls : List Call) (within : List Record)

namespace Record

def answer : Record → Option Answer
  | mk answer _ _ => answer

def calls : Record → List Call
  | mk _ calls _ => calls

def within : Record → List Record
  | mk _ _ within => within

/-- The load gave nothing and made no call, so nothing was loaded within it. -/
def IsRefused (r : Record) : Prop := r = mk (some (.ok none)) [] []

/-- The load was performed, and so was each load within it behind the first, which was refused. -/
inductive IsPerformed : Record → Prop
  | mk (answer : Option Answer) (calls : List Call) (within : List Record) :
    (calls ≠ [] ∨ answer = none) → (∀ r ∈ within.head?, r.IsRefused) →
    (∀ r ∈ within.tail, IsPerformed r) → IsPerformed (.mk answer calls within)

theorem IsPerformed.not_isRefused {r : Record} (h : r.IsPerformed) : ¬ r.IsRefused := by
  intro hr
  cases h with
  | mk answer calls within hmade hfirst hlater =>
    cases hr
    simp at hmade

end Record

namespace Lookup

variable {σ α : Type}

/-- The world with the mark of a lookup set or clear. -/
def marked (isUnderWay : Bool) (w : World σ) : World σ :=
  { w with agent := { w.agent with lookingUp := isUnderWay } }

theorem run_guarded_set (refuse body : StateM (World σ) α) {w : World σ}
    (h : w.agent.lookingUp = true) : (guarded refuse body).run w = refuse.run (marked false w) := by
  simp only [guarded, StateT.run_bind, StateT.run_get, pure_bind, h, if_true]
  rfl

theorem run_guarded_clear (refuse body : StateM (World σ) α) {w : World σ}
    (h : w.agent.lookingUp = false) :
    (guarded refuse body).run w =
      ((body.run (marked true w)).1, marked false (body.run (marked true w)).2) := by
  simp only [guarded, StateT.run_bind, StateT.run_get, pure_bind, h]
  rfl

end Lookup

/-- The loads made so far within the load under way, and the calls that it made itself. -/
structure Journal (τ : Type) where
  device : τ
  calls : List Call
  within : List Record

namespace Journal

variable {τ : Type}

def change (f : Journal τ → Journal τ) : StateM (World (Journal τ)) Unit :=
  modify fun w => { w with machine := f w.machine }

def ofDevice {α : Type} (x : StateM τ α) : StateM (World (Journal τ)) α := do
  let (a, device) := x.run (← get).machine.device
  change ({ · with device })
  return a

/-- A machine whose next calls run these loads before they are answered. -/
def machine (d : Device τ) (plan : List (StateM (World (Journal τ)) Unit)) :
    Machine (Journal τ) where
  call c := do
    let made := (← get).machine.calls.length
    change fun j => { j with calls := j.calls ++ [c] }
    plan.getD made (pure ())
    ofDevice (d.answer c)
  print _ := pure ()
  note level text := ofDevice (d.note level text)
  isNoting := d.isNoting

/-- A load on a page of its own, with its record on the page it was made from. -/
def tracked (load : StateM (World (Journal τ)) (Option Answer)) :
    StateM (World (Journal τ)) Unit := do
  let outer := (← get).machine
  change ({ · with calls := [], within := [] })
  let answer ← load
  change fun inner => { inner with
    calls := outer.calls
    within := outer.within ++ [.mk answer inner.calls inner.within] }

variable (d : Device τ) (methods : LookupMethods)

mutual

/-- Make a load on the thread. -/
def play : Visit → StateM (World (Journal τ)) Unit
  | .lookup loader name during =>
    tracked (some <$> Lookup.load (machine d (plan during)) methods loader name)
  | .unwound name calls during =>
    let m := machine d (plan during)
    tracked (Lookup.guarded (some <$> Lookup.skip m name) do
      calls.forM fun c => do
        let _ ← m.call c
      return none)

def playAll : List Visit → StateM (World (Journal τ)) Unit
  | [] => pure ()
  | visit :: rest => do
    play visit
    playAll rest

def plan : List (List Visit) → List (StateM (World (Journal τ)) Unit)
  | [] => []
  | visits :: rest => playAll visits :: plan rest

end

/-- What a load leaves behind: the mark clear, and one record more on the page it was made from. -/
structure Adds (P : Record → Prop) (w w' : World (Journal τ)) : Prop where
  clear : w'.agent.lookingUp = false
  calls : w'.machine.calls = w.machine.calls
  within : ∃ r, P r ∧ w'.machine.within = w.machine.within ++ [r]

/-- Within a performed load: nothing was loaded and the mark is set, or the first load was refused,
the others were performed and the mark is clear. -/
inductive Inside (w : World (Journal τ)) : Prop
  | fresh : w.agent.lookingUp = true → w.machine.within = [] → Inside w
  | opened (first : Record) (rest : List Record) : w.agent.lookingUp = false →
    w.machine.within = first :: rest → first.IsRefused → (∀ r ∈ rest, r.IsPerformed) → Inside w

/-- Within a performed load that has made calls. -/
def Busy (w : World (Journal τ)) : Prop := Inside w ∧ w.machine.calls ≠ []

theorem Inside.isPerformed {w : World (Journal τ)} (h : Inside w) (answer : Option Answer)
    (hmade : w.machine.calls ≠ [] ∨ answer = none) :
    (Record.mk answer w.machine.calls w.machine.within).IsPerformed := by
  cases h with
  | fresh _ hwithin =>
    rw [hwithin]
    exact .mk _ _ _ hmade (by simp) (by simp)
  | opened first rest _ hwithin hfirst hrest =>
    rw [hwithin]
    exact .mk _ _ _ hmade (by simpa using hfirst) (by simpa using hrest)

/-- Only the mark and the records tell whether a world is inside a load. -/
theorem Inside.congr {w w' : World (Journal τ)} (h : Inside w)
    (hmark : w'.agent.lookingUp = w.agent.lookingUp)
    (hwithin : w'.machine.within = w.machine.within) : Inside w' := by
  cases h with
  | fresh hset hnone => exact .fresh (hmark.trans hset) (hwithin.trans hnone)
  | opened first rest hclear hsome hfirst hrest =>
    exact .opened first rest (hmark.trans hclear) (hwithin.trans hsome) hfirst hrest

/-- The load that finds the mark is refused, and each one that does not is performed. -/
theorem Inside.adds {w w' : World (Journal τ)} (h : Inside w)
    (hset : w.agent.lookingUp = true → Adds Record.IsRefused w w')
    (hclear : w.agent.lookingUp = false → Adds Record.IsPerformed w w') : Inside w' := by
  cases h with
  | fresh hmark hnone =>
    obtain ⟨hmark', _, r, hr, hwithin⟩ := hset hmark
    rw [hnone, List.nil_append] at hwithin
    exact .opened r [] hmark' hwithin hr (by simp)
  | opened first rest hmark hsome hfirst hrest =>
    obtain ⟨hmark', _, r, hr, hwithin⟩ := hclear hmark
    rw [hsome, List.cons_append] at hwithin
    refine .opened first (rest ++ [r]) hmark' hwithin hfirst fun q hq => ?_
    rcases List.mem_append.mp hq with hq | hq
    · exact hrest q hq
    · rw [List.mem_singleton.mp hq]
      exact hr

theorem ofDevice_keeps {α : Type} {P : World (Journal τ) → Prop} (x : StateM τ α)
    (h : ∀ w device, P w → P { w with machine := { w.machine with device } }) :
    Keeps P (ofDevice x) := fun w hw => h w _ hw

/-- Loads that keep a world inside the load under way, and the calls that it has made. -/
def StaysInside (x : StateM (World (Journal τ)) Unit) : Prop :=
  ∀ calls, Keeps (fun w => Inside w ∧ w.machine.calls = calls) x

theorem leads_call {plan : List (StateM (World (Journal τ)) Unit)}
    (hplan : ∀ x ∈ plan, StaysInside x) (c : Call) :
    Leads Inside Busy ((machine d plan).call c) := by
  intro w hw
  have hnext : StaysInside (plan.getD w.machine.calls.length (pure ())) := by
    rw [List.getD_eq_getElem?_getD]
    cases hx : plan[w.machine.calls.length]? with
    | none => exact fun _ => Keeps.pure _
    | some x => exact hplan x (List.mem_of_getElem? hx)
  have hloaded := hnext (w.machine.calls ++ [c])
    { w with machine := { w.machine with calls := w.machine.calls ++ [c] } }
    ⟨hw.congr rfl rfl, rfl⟩
  refine ⟨hloaded.1.congr rfl rfl, ?_⟩
  intro hnil
  have hcalls := hloaded.2
  exact List.append_ne_nil_of_right_ne_nil _ (List.cons_ne_nil c []) (hcalls.symm.trans hnil)

theorem machine_within {plan : List (StateM (World (Journal τ)) Unit)}
    (hplan : ∀ x ∈ plan, StaysInside x) : (machine d plan).Within Busy where
  call c _ w hw := leads_call d hplan c w hw.1
  note _ _ := ofDevice_keeps _ fun _ _ hw => ⟨hw.1.congr rfl rfl, hw.2⟩

/-- The page that a load starts on. -/
def blank (w : World (Journal τ)) : World (Journal τ) :=
  { w with machine := { w.machine with calls := [], within := [] } }

theorem run_tracked (load : StateM (World (Journal τ)) (Option Answer)) (w : World (Journal τ)) :
    ((tracked load).run w).2 =
      let (answer, inner) := load.run (blank w)
      { inner with machine := {
          device := inner.machine.device
          calls := w.machine.calls
          within := w.machine.within ++ [.mk answer inner.machine.calls inner.machine.within] } } :=
  rfl

/-- A load that finds the mark is refused, whatever it would have done. -/
theorem adds_of_set {load : StateM (World (Journal τ)) (Option Answer)} {w : World (Journal τ)}
    (m : Machine (Journal τ)) (name : String)
    (hload : load.run (blank w) = (some <$> Lookup.skip m name).run (Lookup.marked false (blank w)))
    (hnote : ∀ w, ∃ device, (m.note .trace ("Skipping nested lookup of " ++ name)).run w =
      ((), { w with machine := { w.machine with device } })) :
    Adds Record.IsRefused w ((tracked load).run w).2 := by
  obtain ⟨device, hdevice⟩ := hnote (Lookup.marked false (blank w))
  have hskip : load.run (blank w) = (some (.ok none), { Lookup.marked false (blank w) with
      machine := { (blank w).machine with device } }) := by
    rw [hload]
    simp only [Lookup.skip, StateT.run_map, StateT.run_bind, hdevice]
    rfl
  rw [run_tracked, hskip]
  exact ⟨rfl, rfl, _, rfl, rfl⟩

/-- A load that does not find the mark is performed, if what it does under the mark stays inside. -/
theorem adds_of_clear {load : StateM (World (Journal τ)) (Option Answer)}
    (body : StateM (World (Journal τ)) (Option Answer)) {w : World (Journal τ)}
    (hload : load.run (blank w) = ((body.run (Lookup.marked true (blank w))).1,
      Lookup.marked false (body.run (Lookup.marked true (blank w))).2))
    (hinside : Inside (body.run (Lookup.marked true (blank w))).2)
    (hmade : (body.run (Lookup.marked true (blank w))).2.machine.calls ≠ [] ∨
      (body.run (Lookup.marked true (blank w))).1 = none) :
    Adds Record.IsPerformed w ((tracked load).run w).2 := by
  rw [run_tracked, hload]
  exact ⟨rfl, rfl, _, hinside.isPerformed _ hmade, rfl⟩

theorem inside_blank (w : World (Journal τ)) : Inside (Lookup.marked true (blank w)) :=
  .fresh rfl rfl

theorem note_device (plan : List (StateM (World (Journal τ)) Unit)) (level : Level)
    (text : String) (w : World (Journal τ)) :
    ∃ device, ((machine d plan).note level text).run w =
      ((), { w with machine := { w.machine with device } }) :=
  ⟨_, rfl⟩

theorem play_set (visit : Visit) (w : World (Journal τ)) (hset : w.agent.lookingUp = true) :
    Adds Record.IsRefused w ((play d methods visit).run w).2 := by
  cases visit with
  | lookup loader name during =>
    rw [play]
    refine adds_of_set (machine d (plan d methods during)) name ?_ (note_device d _ _ _)
    simp only [Lookup.load, StateT.run_map, Lookup.run_guarded_set _ _ (w := blank w) hset]
  | unwound name calls during =>
    rw [play]
    refine adds_of_set (machine d (plan d methods during)) name ?_ (note_device d _ _ _)
    rw [Lookup.run_guarded_set _ _ (w := blank w) hset]

/-- Calls made under the mark stay inside the load. -/
theorem inside_calls {plan : List (StateM (World (Journal τ)) Unit)}
    (hplan : ∀ x ∈ plan, StaysInside x) (calls : List Call) :
    Keeps Inside (calls.forM fun c => do
      let _ ← (machine d plan).call c) := by
  induction calls with
  | nil => exact Keeps.pure _
  | cons c rest ih =>
    have hcall : Keeps Inside (do let _ ← (machine d plan).call c) :=
      Leads.bind (fun w hw => (leads_call d hplan c w hw).1) fun _ => Keeps.pure _
    exact Leads.bind hcall fun _ => ih

theorem play_lookup_clear (loader : Option Object) (name : String) {during : List (List Visit)}
    (hstays : ∀ x ∈ plan d methods during, StaysInside x) {w : World (Journal τ)}
    (hclear : w.agent.lookingUp = false) :
    Adds Record.IsPerformed w ((play d methods (.lookup loader name during)).run w).2 := by
  have hbusy := Lookup.leads_readResource (machine_within d hstays) methods loader
    (name ++ ".class") (leads_call d hstays _) _ (inside_blank w)
  rw [play]
  refine adds_of_clear (some <$> do
    let found ← (Lookup.readResource (machine d (plan d methods during)) methods loader
      (name ++ ".class")).run
    return found.map fun bytes => bytes.map (⟨.owned, ·⟩)) ?_ hbusy.1 (.inl hbusy.2)
  simp only [Lookup.load, StateT.run_map, Lookup.run_guarded_clear _ _ (w := blank w) hclear]
  rfl

theorem play_unwound_clear (name : String) (calls : List Call) {during : List (List Visit)}
    (hstays : ∀ x ∈ plan d methods during, StaysInside x) {w : World (Journal τ)}
    (hclear : w.agent.lookingUp = false) :
    Adds Record.IsPerformed w ((play d methods (.unwound name calls during)).run w).2 := by
  rw [play]
  refine adds_of_clear _ (Lookup.run_guarded_clear _ _ (w := blank w) hclear) ?_ (.inr rfl)
  exact inside_calls d hstays calls _ (inside_blank w)

mutual

/-- A load that does not find the mark is performed, whatever is loaded within it. -/
theorem play_clear : ∀ (visit : Visit) {w : World (Journal τ)}, w.agent.lookingUp = false →
    Adds Record.IsPerformed w ((play d methods visit).run w).2
  | .lookup loader name during, _, hclear =>
    play_lookup_clear d methods loader name (plan_staysInside during) hclear
  | .unwound name calls during, _, hclear =>
    play_unwound_clear d methods name calls (plan_staysInside during) hclear

theorem playAll_staysInside : ∀ visits : List Visit, StaysInside (playAll d methods visits)
  | [] => fun _ _ hw => by
    rw [playAll]
    exact hw
  | visit :: rest => fun calls w hw => by
    have hset := play_set d methods visit w
    have hclear := play_clear visit (w := w)
    rw [playAll]
    refine playAll_staysInside rest calls _ ⟨hw.1.adds hset hclear, ?_⟩
    cases hmark : w.agent.lookingUp with
    | true => exact (hset hmark).calls.trans hw.2
    | false => exact (hclear hmark).calls.trans hw.2

theorem plan_staysInside : ∀ during : List (List Visit), ∀ x ∈ plan d methods during, StaysInside x
  | [], _, hx => by simp [plan] at hx
  | visits :: rest, x, hx => by
    rw [plan] at hx
    rcases List.mem_cons.mp hx with rfl | hx
    · exact playAll_staysInside visits
    · exact plan_staysInside rest x hx

end

/-- Loads made one behind the other while no lookup is under way are all performed, and the mark is
clear behind each of them. -/
theorem playAll_clear (visits : List Visit) {w : World (Journal τ)}
    (hclear : w.agent.lookingUp = false) :
    let after := ((playAll d methods visits).run w).2
    after.agent.lookingUp = false ∧ ∃ records, records.length = visits.length ∧
      (∀ r ∈ records, r.IsPerformed) ∧
      after.machine.within = w.machine.within ++ records := by
  induction visits generalizing w with
  | nil =>
    rw [playAll]
    exact ⟨hclear, [], rfl, by simp, (List.append_nil _).symm⟩
  | cons visit rest ih =>
    obtain ⟨hmark, _, r, hr, hwithin⟩ := play_clear d methods visit hclear
    obtain ⟨hmark', records, hlength, hrecords, hwithin'⟩ := ih hmark
    rw [playAll]
    refine ⟨hmark', r :: records, by simp [hlength], ?_, ?_⟩
    · intro q hq
      rcases List.mem_cons.mp hq with rfl | hq
      · exact hr
      · exact hrecords q hq
    · simp only [StateT.run_bind]
      rw [List.append_cons, ← hwithin]
      exact hwithin'

end Journal

namespace Record

/-- All loads within a performed load are refused exactly if there is at most one. -/
theorem IsPerformed.all_refused_iff {r : Record} (h : r.IsPerformed) :
    (∀ q ∈ r.within, q.IsRefused) ↔ r.within.length ≤ 1 := by
  cases h with
  | mk answer calls within hmade hfirst hlater =>
    match within with
    | [] => simp [Record.within]
    | [first] => simpa [Record.within] using hfirst
    | first :: second :: rest =>
      have hsecond := (hlater second (by simp)).not_isRefused
      constructor
      · intro hall
        exact absurd (hall second (by simp [Record.within])) hsecond
      · intro hlength
        simp [Record.within] at hlength

end Record

namespace Journal

variable {τ : Type}

/-- Of loads made one behind the other while no lookup is under way each is performed, however the
ones before it ended, and each refuses all loads within it exactly if there is at most one. -/
theorem outermost_refuses_all_iff (d : Device τ) (methods : LookupMethods) (visits : List Visit)
    (w : World (Journal τ)) (hclear : w.agent.lookingUp = false) (hpage : w.machine.within = []) :
    let after := ((playAll d methods visits).run w).2
    after.agent.lookingUp = false ∧ after.machine.within.length = visits.length ∧
      ∀ r ∈ after.machine.within, r.IsPerformed ∧
        ((∀ q ∈ r.within, q.IsRefused) ↔ r.within.length ≤ 1) := by
  obtain ⟨hmark, records, hlength, hrecords, hwithin⟩ := playAll_clear d methods visits hclear
  rw [hpage, List.nil_append] at hwithin
  refine ⟨hmark, ?_, ?_⟩
  · rw [hwithin]
    exact hlength
  · intro r hr
    rw [hwithin] at hr
    exact ⟨hrecords r hr, (hrecords r hr).all_refused_iff⟩

end Journal

/-- The reply of a machine that has nothing to give. -/
def Call.emptyReply : (c : Call) → c.Reply
  | getEnv _ => (0, false)
  | addCapabilities _ | setEventCallbacks _ | enableEvent _ | retransformClass _ | allocate _
  | deallocate => (0 : UInt32)
  | getLoadedClasses => (0, none)
  | getClassSignature _ | getErrorName _ => (0, none)
  | findClass _ | newGlobalRef _ | newString _ | callObject _ _ _ | callStaticObject _ _ _ =>
    (none : Option Object)
  | getMethod _ _ _ | getStaticMethod _ _ _ => (none : Option Method)
  | pushLocalFrame _ | getArrayLength _ => (0 : Int32)
  | getByteArrayRegion _ _ => ([] : Bytes)
  | exceptionCheck => false
  | deleteLocalRef _ | popLocalFrame | callVoid _ _ | exceptionDescribe | exceptionClear
  | fatalError _ => ()

namespace Journal

/-- A machine that has nothing to give and takes no notes. -/
def silent : Device Unit := ⟨fun c => pure c.emptyReply, fun _ _ => pure (), false⟩

def someMethods : LookupMethods := ⟨.type "L", ⟨"a"⟩, ⟨"b"⟩, ⟨"c"⟩, ⟨"d"⟩⟩

def start : World (Journal Unit) := ⟨Memory.fresh, (), [], []⟩

/-- A lookup whose first call loads one class, and one that unwinds behind two calls. -/
theorem outermost_refuses_all_iff_twice :
    let visits := [.lookup none "x/A" [[.lookup none "x/B" []]],
      .unwound "x/C" [.pushLocalFrame 8, .popLocalFrame] [[], [.lookup none "x/D" []]]]
    let after := ((playAll silent someMethods visits).run start).2
    after.agent.lookingUp = false ∧ after.machine.within.length = visits.length ∧
      ∀ r ∈ after.machine.within, r.IsPerformed ∧
        ((∀ q ∈ r.within, q.IsRefused) ↔ r.within.length ≤ 1) :=
  outermost_refuses_all_iff silent someMethods _ start rfl rfl

/-- Of two loads within a lookup the second makes calls of its own. -/
theorem second_nested_lookup_performed :
    ¬ ∀ r ∈ ((playAll silent someMethods
        [.lookup none "x/A" [[.lookup none "x/B" [], .lookup none "x/C" []]]]).run
          start).2.machine.within,
      ∀ q ∈ r.within, q.IsRefused := by
  intro h
  have hcalls : (((playAll silent someMethods
      [.lookup none "x/A" [[.lookup none "x/B" [], .lookup none "x/C" []]]]).run
        start).2.machine.within.map fun r => r.within.map fun q => q.calls) =
      [[[], [.pushLocalFrame 8, .newString "x/C.class", .exceptionCheck, .popLocalFrame]]] := by
    rfl
  obtain ⟨r, hr, hwithin⟩ := List.mem_map.mp (hcalls ▸ List.mem_singleton_self _)
  obtain ⟨q, hq, hmade⟩ := List.mem_map.mp
    (hwithin ▸ List.mem_cons_of_mem [] (List.mem_singleton_self _))
  rw [h r hr q hq] at hmade
  exact List.cons_ne_nil _ _ hmade.symm

end Journal

end ThreadWatch.Vm
