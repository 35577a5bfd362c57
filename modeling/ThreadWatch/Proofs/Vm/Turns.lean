import ThreadWatch.Proofs.Instrument.Transform
import ThreadWatch.Proofs.Vm.Staging
import ThreadWatch.Proofs.Vm.Tracing

/-!
# Turns of the agent

The agent lives through a sequence of turns: it is loaded, the machine starts, classes are defined,
in any order and as often as the machine likes, and each call of a turn may come back to the agent.
What is remembered of a turn is never lost in a later one, and decides what that one does.
-/

namespace ThreadWatch.Vm

variable {σ α β : Type}

namespace Call

/-- The calls that hook class definitions, and those of the pass over the loaded classes. -/
def isHooking : Call → Bool
  | enableEvent .classDefinition | getLoadedClasses | retransformClass _ => true
  | _ => false

/-- What the machine is ended with. -/
def fatalText : Call → Option String
  | fatalError text => some text
  | _ => none

variable {c : Call}

theorem isHooking_of_not_setup (h : c.isSetup = false) : c.isHooking = false := by
  cases c <;> first | rfl | cases h

theorem isFatal_of_not_setup (h : c.isSetup = false) : c.isFatal = false := by
  cases c <;> first | rfl | cases h

end Call

/-- Growing memory keeps `P`, and so does every further exchange whose call is allowed. -/
structure Lasts (allowed : Call → Bool) (P : Memory → List (Exchange σ) → Prop) : Prop where
  grow : ∀ a b trace, P a trace → a.Grown b → P b trace
  call : ∀ (e : Exchange σ) trace, P e.before.agent trace → e.before.agent.Grown e.after.agent →
    allowed e.call = true → P e.after.agent (trace ++ [e])

namespace Faithful

variable {m : Machine σ} (hm : Faithful m) {allowed : Call → Bool}
  {P : Memory → List (Exchange σ) → Prop} (hP : Lasts allowed P)
include hm

theorem grown_exchange (c : Call) (w : World σ) : w.agent.Grown (m.exchange c w).after.agent :=
  hm.keeps_call w.agent c w (.refl _)

include hP

theorem keeps_traced_call (c : Call) (hc : allowed c = true) :
    Keeps (fun w => P w.agent w.machine.trace) (m.traced.call c) := by
  intro w hw
  rw [Machine.run_call_traced]
  exact hP.call (m.exchange c w.untraced) _ hw (hm.grown_exchange c w.untraced) hc

theorem upholds_traced (hallowed : ∀ c : Call, c.isSetup = false → allowed c = true) :
    m.traced.Upholds fun w => P w.agent w.machine.trace := by
  refine ⟨⟨fun c hc => hm.keeps_traced_call hP c (hallowed c hc), fun level text w hw => ?_⟩,
    fun line w hw => ?_, fun w a hw h => hP.grow _ _ _ hw h⟩
  · obtain ⟨-, -, hnote⟩ := hm
    exact (congrArg (P · w.machine.trace) (hnote level text w.untraced)).mpr hw
  · obtain ⟨-, hprint, -⟩ := hm
    exact (congrArg (P · w.machine.trace) (hprint line w.untraced)).mpr hw

end Faithful

namespace Agent

/-- One turn: how the agent was entered, what the machine got back, and what happened. -/
structure Turn (σ : Type) where
  entry : Entry
  result : entry.Result
  before : World σ
  trace : List (Exchange σ)
  after : World σ

def turn (m : Machine σ) (e : Entry) (w : World σ) : Turn σ where
  entry := e
  result := ((e.run m.traced).run w.traced).1
  before := w
  trace := ((e.run m.traced).run w.traced).2.machine.trace
  after := ((e.run m.traced).run w.traced).2.untraced

/-- The turns of a process, each beginning where the one before it ended. -/
def turns (m : Machine σ) : List Entry → World σ → List (Turn σ)
  | [], _ => []
  | e :: rest, w => turn m e w :: turns m rest (turn m e w).after

def Entry.isLoad : Entry → Bool
  | load _ => true
  | _ => false

namespace Turn

/-- The agent was loaded, and said that it can work. -/
def isLoaded : Turn σ → Bool
  | ⟨.load _, code, _, _, _⟩ => code = 0
  | _ => false

/-- What a definition wrote for the machine. -/
def given : Turn σ → Outputs
  | ⟨.define _, outputs, _, _, _⟩ => outputs
  | _ => .unwritten

/-- What the agent remembers when its calls are made and behind them. -/
def during (trace : List (Exchange σ)) : List Memory :=
  trace.flatMap fun e => [e.before.agent, e.after.agent]

/-- What the agent remembers from the beginning of a turn to its end. -/
def moments (t : Turn σ) : List Memory := t.before.agent :: during t.trace ++ [t.after.agent]

end Turn

theorem exists_turn_of_mem {m : Machine σ} {entries : List Entry} {w : World σ} {t : Turn σ}
    (ht : t ∈ turns m entries w) : ∃ e v, t = turn m e v := by
  induction entries generalizing w with
  | nil => simp [turns] at ht
  | cons e rest ih =>
    rcases List.mem_cons.mp ht with rfl | ht
    · exact ⟨e, w, rfl⟩
    · exact ih ht

/-! ### Memory along the turns -/

/-- Memory has only grown from `a` on. -/
def Recalls (a : Memory) (b : Memory) (trace : List (Exchange σ)) : Prop :=
  (a :: Turn.during trace ++ [b]).Pairwise Memory.Grown

theorem pairwise_snoc {xs : List Memory} {b c : Memory}
    (h : (xs ++ [b]).Pairwise Memory.Grown) (hbc : b.Grown c) :
    (xs ++ [b] ++ [c]).Pairwise Memory.Grown := by
  refine List.pairwise_append.mpr ⟨h, List.pairwise_singleton _ _, fun a ha d hd => ?_⟩
  obtain rfl := List.mem_singleton.mp hd
  rcases List.mem_append.mp ha with ha | ha
  · exact ((List.pairwise_append.mp h).2.2 a ha b (List.mem_singleton_self b)).trans hbc
  · exact List.mem_singleton.mp ha ▸ hbc

theorem lasts_recalls (a : Memory) : Lasts (σ := σ) (fun _ => true) (Recalls a) where
  grow b c trace h hbc := by
    have hall := pairwise_snoc h hbc
    exact hall.sublist (by simp)
  call e trace h hgrown _ := by
    have hall := pairwise_snoc (pairwise_snoc h hgrown) (.refl _)
    simpa [Recalls, Turn.during] using hall

theorem lasts_grown (a : Memory) : Lasts (σ := σ) (fun _ => true) fun b _ => a.Grown b where
  grow _ _ _ h h' := h.trans h'
  call _ _ h hgrown _ := h.trans hgrown

section Memory

variable {m : Machine σ} (hm : Faithful m)
include hm

theorem keeps_run_traced {P : Memory → List (Exchange σ) → Prop} (hP : Lasts (fun _ => true) P)
    (e : Entry) : Keeps (fun w => P w.agent w.machine.trace) (e.run m.traced) :=
  e.keeps_run (hm.upholds_traced hP fun _ _ => rfl) fun c => hm.keeps_traced_call hP c rfl

theorem pairwise_moments (e : Entry) (w : World σ) :
    (turn m e w).moments.Pairwise Memory.Grown := by
  have hstart : Recalls w.agent w.agent ([] : List (Exchange σ)) :=
    List.pairwise_pair.mpr (.refl _)
  exact keeps_run_traced hm (lasts_recalls w.agent) e w.traced hstart

theorem grown_of_mem_moments {e : Entry} {w : World σ} {a : Memory}
    (ha : a ∈ (turn m e w).moments) : w.agent.Grown a := by
  have hall := pairwise_moments hm e w
  rw [Turn.moments, List.cons_append, List.pairwise_cons] at hall
  rw [Turn.moments, List.cons_append, List.mem_cons] at ha
  rcases ha with rfl | ha
  · exact .refl _
  · exact hall.1 a ha

theorem grown_turn (e : Entry) (w : World σ) : w.agent.Grown (turn m e w).after.agent := by
  have hlast : (turn m e w).after.agent ∈ (turn m e w).moments := by simp [Turn.moments]
  exact grown_of_mem_moments hm hlast

theorem grown_of_mem_turns {entries : List Entry} {w : World σ} {t : Turn σ}
    (ht : t ∈ turns m entries w) : ∀ a ∈ t.moments, w.agent.Grown a := by
  induction entries generalizing w with
  | nil => simp [turns] at ht
  | cons e rest ih =>
    rcases List.mem_cons.mp ht with rfl | ht
    · exact fun a ha => grown_of_mem_moments hm ha
    · exact fun a ha => (grown_turn hm e w).trans (ih ht a ha)

/-- Over all turns, what is remembered once is remembered ever after. -/
theorem pairwise_turns (entries : List Entry) (w : World σ) :
    ((turns m entries w).flatMap Turn.moments).Pairwise Memory.Grown := by
  induction entries generalizing w with
  | nil => exact .nil
  | cons e rest ih =>
    rw [turns, List.flatMap_cons, List.pairwise_append]
    refine ⟨pairwise_moments hm e w, ih _, fun a ha b hb => ?_⟩
    obtain ⟨t, ht, hb⟩ := List.mem_flatMap.mp hb
    have hlast : a.Grown (turn m e w).after.agent := by
      have hall := pairwise_moments hm e w
      rw [Turn.moments, List.pairwise_append] at hall
      rw [Turn.moments, List.mem_append, List.mem_singleton] at ha
      rcases ha with ha | rfl
      · exact hall.2.2 a ha _ (List.mem_singleton_self _)
      · exact .refl _
    exact hlast.trans (grown_of_mem_turns hm ht b hb)

/-! ### Loading -/

theorem chosen_of_load (options : Option Bytes) (w : World σ) :
    ∃ sink, (turn m (.load options) w).after.agent.outlet.chosen = some sink := by
  cases hchosen : w.agent.outlet.chosen with
  | some sink => exact ⟨sink, (grown_turn hm _ w).outlet sink hchosen⟩
  | none =>
    have hP := lasts_grown (σ := σ) (opened w).agent
    have hup := hm.upholds_traced hP fun _ _ => rfl
    have hset := keeps_setUp hup (fun c _ => hm.keeps_traced_call hP c rfl)
      (options.map Utf8.decodeTerminated) (opened w.traced) (.refl _)
    have hall := keeps_loadCode hup
      ((setUp m.traced (options.map Utf8.decodeTerminated)).run.run (opened w.traced)).1 _ hset
    rw [← run_prepare_of_fresh (m := m.traced) (w := w.traced) hchosen] at hall
    exact ⟨.standard, hall.outlet .standard rfl⟩

omit hm in
/-- A load that finds an outlet chosen fails. -/
theorem isLoaded_of_chosen {w : World σ} {sink : Sink} (hchosen : w.agent.outlet.chosen = some sink)
    (e : Entry) : (turn m e w).isLoaded = false := by
  cases e with
  | start isSet => rfl
  | define d => rfl
  | load options =>
    show decide (((onLoad m.traced options).run w.traced).1 = 0) = false
    rw [run_onLoad, run_prepare_of_chosen (w := w.traced) hchosen]
    rfl

/-- No load works behind another. -/
theorem pairwise_loads (entries : List Entry) (w : World σ) :
    (turns m entries w).Pairwise fun t t' => t.entry.isLoad = true → t'.isLoaded = false := by
  induction entries generalizing w with
  | nil => exact .nil
  | cons e rest ih =>
    refine .cons (fun t' ht' hload => ?_) (ih _)
    cases e with
    | start isSet => cases hload
    | define d => cases hload
    | load options =>
      obtain ⟨sink, hsink⟩ := chosen_of_load hm options w
      obtain ⟨e', w', rfl⟩ := exists_turn_of_mem ht'
      have hgrown := grown_of_mem_turns hm ht' w'.agent (List.mem_cons_self ..)
      exact isLoaded_of_chosen (hgrown.outlet sink hsink) e'

end Memory

/-! ### Starting -/

/-- Memory has grown from `a`, and no call of the trace is `barred`. -/
def Spares (barred : Call → Bool) (a b : Memory) (trace : List (Exchange σ)) : Prop :=
  a.Grown b ∧ ∀ e ∈ trace, barred e.call = false

theorem lasts_spares (barred : Call → Bool) (a : Memory) :
    Lasts (σ := σ) (fun c => !barred c) (Spares barred a) where
  grow _ _ _ h h' := ⟨h.1.trans h', h.2⟩
  call e _ h hgrown hc := by
    refine ⟨h.1.trans hgrown, fun e' he' => ?_⟩
    rcases List.mem_append.mp he' with he' | he'
    · exact h.2 e' he'
    · rw [List.mem_singleton.mp he']
      simpa using hc

/-- Without options the machine's start is none of the agent's business. -/
theorem run_onStart_of_unloaded (m : Machine σ) (isSet : String → Bool) {w : World σ}
    (hloaded : w.agent.loaded = none) : (onStart m isSet).run w = ((), w) := by
  unfold onStart
  simp only [StateT.run_bind, StateT.run_get, pure_bind, hloaded]
  rfl

theorem run_installHook_of_installed (m : Machine σ) (instrument : Instrument) {w : World σ}
    (hinstalled : w.agent.instrument.isSome = true) :
    (installHook m instrument).run.run w = (.error .hookInstalled, w) := by
  show ((if w.agent.instrument.isSome then throw .hookInstalled else do
    remember ({ · with instrument := some instrument })
    m.enable .classDefinition : Act σ Unit)).run.run w = _
  rw [hinstalled]
  rfl

/-- What the machine is ended with; a zero would end the text itself. -/
def lastText (fault : Fault) : String :=
  ("threadscope: " ++ fault.message).map fun c => if c = '\x00' then ' ' else c

def lastWords : Except Fault Unit → List String
  | .ok () => []
  | .error fault => if fault.isSetup then [lastText fault] else []

/-- What is said of a start, or what the machine is ended with. -/
def closing (m : Machine σ) : Except Fault Unit → StateM (World σ) Unit
  | .ok () => pure ()
  | .error fault =>
    if fault.isSetup then
      m.call (.fatalError (lastText fault))
    else m.print (marked ("Could not attach: " ++ fault.message))

theorem run_onStart_of_loaded (m : Machine σ) (isSet : String → Bool) {w : World σ}
    {options : Option String} (hloaded : w.agent.loaded = some options) :
    (onStart m isSet).run w = (closing m ((start m options isSet).run.run w).1).run
      ((start m options isSet).run.run w).2 := by
  unfold onStart
  simp only [StateT.run_bind, StateT.run_get, pure_bind, hloaded]
  rcases (start m options isSet).run.run w with ⟨result, v⟩
  cases result with
  | ok _ => rfl
  | error fault => rfl

/-- What the machine is ended with in a turn. -/
def verdict (m : Machine σ) (w : World σ) : Entry → List String
  | .start isSet =>
    match w.agent.loaded with
    | none => []
    | some options => lastWords ((start m.traced options isSet).run.run w.traced).1
  | _ => []

section Start

variable {m : Machine σ} (hm : Faithful m)
include hm

/-- A start that finds an instrument hooks nothing and passes no class through the hook. -/
theorem isHooking_of_installed (isSet : String → Bool) {w : World σ}
    (hinstalled : w.agent.instrument.isSome = true) {e : Exchange σ}
    (he : e ∈ (turn m (.start isSet) w).trace) : e.call.isHooking = false := by
  have hP := lasts_spares (σ := σ) Call.isHooking w.agent
  have hup := hm.upholds_traced hP fun c hc => by rw [Call.isHooking_of_not_setup hc]; rfl
  have hfound : ∀ v : World (Traced σ), Spares Call.isHooking w.agent v.agent v.machine.trace →
      v.agent.instrument.isSome = true := by
    intro v hv
    obtain ⟨instrument, hsome⟩ := Option.isSome_iff_exists.mp hinstalled
    exact Option.isSome_iff_exists.mpr ⟨instrument, hv.1.instrument _ hsome⟩
  have hstart : ∀ options, Keeps
      (fun v : World (Traced σ) => Spares Call.isHooking w.agent v.agent v.machine.trace)
      (start m.traced options isSet).run := by
    refine fun options => keeps_start hup (fun instrument v hv => ?_) ?_ options isSet
    · rw [run_installHook_of_installed m.traced instrument (hfound v hv)]
      exact hv
    · intro instrument host v hv hinstall _
      rw [run_installHook_of_installed m.traced instrument (hfound v hv)] at hinstall
      cases hinstall
  have hall := keeps_onStart hup isSet hstart (fun _ => hm.keeps_traced_call hP _ rfl) w.traced
    ⟨.refl _, by simp [World.traced]⟩
  exact hall.2 e he

theorem upholds_unfatal (a : Memory) : m.traced.Upholds
    (fun v : World (Traced σ) => Spares Call.isFatal a v.agent v.machine.trace) :=
  hm.upholds_traced (lasts_spares Call.isFatal a) fun c hc => by
    rw [Call.isFatal_of_not_setup hc]
    rfl

theorem keeps_call_unfatal (a : Memory) (c : Call) (hc : c.isFatal = false) : Keeps
    (fun v : World (Traced σ) => Spares Call.isFatal a v.agent v.machine.trace) (m.traced.call c) :=
  hm.keeps_traced_call (lasts_spares Call.isFatal a) c (by simp [hc])

omit hm in
theorem fatalTexts_eq_nil {a b : Memory} {trace : List (Exchange σ)}
    (h : Spares Call.isFatal a b trace) : trace.filterMap (·.call.fatalText) = [] := by
  refine List.filterMap_eq_nil_iff.mpr fun e he => ?_
  have hspared := h.2 e he
  cases hcall : e.call with
  | fatalError text =>
    rw [hcall] at hspared
    cases hspared
  | _ => rfl

/-- The machine is ended by a start that failed at setting up, and by nothing else. -/
theorem fatalTexts_turn (e : Entry) (w : World σ) :
    (turn m e w).trace.filterMap (·.call.fatalText) = verdict m w e := by
  have hup := upholds_unfatal hm w.agent
  have hcall := keeps_call_unfatal hm w.agent
  have hbegin : Spares Call.isFatal w.agent w.traced.agent w.traced.machine.trace :=
    ⟨.refl _, by simp [World.traced]⟩
  cases e with
  | load options => exact fatalTexts_eq_nil (keeps_onLoad hup hcall options w.traced hbegin)
  | define d => exact fatalTexts_eq_nil (keeps_onDefinition hup d w.traced hbegin)
  | start isSet =>
    cases hloaded : w.agent.loaded with
    | none =>
      have hrun := run_onStart_of_unloaded m.traced isSet (w := w.traced) hloaded
      simp only [turn, Entry.run, hrun, verdict, hloaded]
      rfl
    | some options =>
      have hstart := keeps_start hup (keeps_installHook hup hcall)
        (fun _ _ _ _ _ hh => keeps_retransformAll hup hcall hh) options isSet w.traced hbegin
      have hrun := run_onStart_of_loaded m.traced isSet (w := w.traced) hloaded
      simp only [turn, Entry.run, hrun, verdict, hloaded]
      rcases hresult : (start m.traced options isSet).run.run w.traced with ⟨result, v⟩
      rw [hresult] at hstart
      cases result with
      | ok _ => exact fatalTexts_eq_nil hstart
      | error fault =>
        by_cases hsetup : fault.isSetup = true
        · simp only [closing, lastWords, hsetup, if_true]
          show (v.machine.trace ++ [m.exchange (.fatalError (lastText fault)) v.untraced]).filterMap
            (·.call.fatalText) = _
          rw [List.filterMap_append, fatalTexts_eq_nil hstart]
          rfl
        · simp only [closing, lastWords, hsetup]
          exact fatalTexts_eq_nil hstart

end Start

/-! ### Faults of setting up -/

/-- Every fault that a step can end with is a `Q`. -/
def Faults (Q : Fault → Prop) (x : StateM (World σ) (Except Fault α)) : Prop :=
  ∀ w fault, (x.run w).1 = .error fault → Q fault

namespace Faults

variable {Q : Fault → Prop}

theorem ok (a : α) : Faults Q (pure (.ok a) : StateM (World σ) (Except Fault α)) :=
  fun _ _ h => nomatch h

theorem error {fault : Fault} (h : Q fault) :
    Faults Q (pure (.error fault) : StateM (World σ) (Except Fault α)) := by
  intro w cause hcause
  cases hcause
  exact h

/-- A step that cannot fail in front of another. -/
theorem behind (x : StateM (World σ) α) {f : α → StateM (World σ) (Except Fault β)}
    (hf : ∀ a, Faults Q (f a)) : Faults Q (x >>= f) := fun _ fault h => hf _ _ fault h

theorem bind {x : StateM (World σ) (Except Fault α)}
    {f : Except Fault α → StateM (World σ) (Except Fault β)} (hx : Faults Q x)
    (hok : ∀ a, Faults Q (f (.ok a))) (herror : ∀ fault, Q fault → Faults Q (f (.error fault))) :
    Faults Q (x >>= f) := by
  intro w fault h
  rw [StateT.run_bind] at h
  rcases hrun : x.run w with ⟨result, w'⟩
  rw [hrun] at h
  cases result with
  | ok a => exact hok a w' fault h
  | error cause => exact herror cause (hx w cause (by rw [hrun])) w' fault h

theorem act_bind {x : Act σ α} {f : α → Act σ β} (hx : Faults Q x.run)
    (hf : ∀ a, Faults Q (f a).run) : Faults Q (x >>= f).run := by
  rw [ExceptT.run_bind]
  exact bind hx hf fun _ hcause => error hcause

theorem lift (x : StateM (World σ) α) : Faults Q (liftM x : Act σ α).run := fun _ _ h => nomatch h

theorem mapM {f : α → Act σ β} (hf : ∀ a, Faults Q (f a).run) (xs : List α) :
    Faults Q (xs.mapM f).run := by
  induction xs with
  | nil => exact ok _
  | cons x xs ih =>
    rw [List.mapM_cons]
    exact act_bind (hf x) fun _ => act_bind ih fun _ => ok _

end Faults

theorem faults_lookupMethods (m : Machine σ) :
    Faults (·.isSetup = true) (lookupMethods m).run := by
  refine Faults.act_bind ?_ fun methods => ?_
  · intro w fault h
    have hadapted : (((LookupMethods.resolve m).run.run w).1.mapError Fault.lookupsUnavailable) =
        .error fault := h
    cases hresult : ((LookupMethods.resolve m).run.run w).1 with
    | ok methods =>
      rw [hresult] at hadapted
      cases hadapted
    | error cause =>
      rw [hresult] at hadapted
      cases hadapted
      rfl
  · exact fun w fault h => nomatch h

theorem isSetup_of_ofAnswer {answer : Answer} {fault : Fault}
    (h : Target.ofAnswer answer = .error fault) : fault.isSetup = true := by
  unfold Target.ofAnswer at h
  split at h
  · cases h
    rfl
  · cases h
    rfl
  · split at h
    · cases h
      rfl
    · split at h
      · cases h
      · cases h
        rfl

theorem faults_checkCode (operation : String) (code : UInt32) :
    Faults (·.isSetup = false) (Machine.checkCode operation code : Act σ Unit).run := by
  unfold Machine.checkCode
  split
  · exact Faults.ok _
  · exact Faults.error rfl

theorem faults_installHook (m : Machine σ) (instrument : Instrument) :
    Faults (·.isSetup = false) (installHook m instrument).run := by
  have hremember : Faults (·.isSetup = false)
      (remember ({ · with instrument := some instrument }) : Act σ Unit).run :=
    fun _ _ h => nomatch h
  refine Faults.act_bind (fun _ _ h => nomatch h) fun w => ?_
  split
  · exact Faults.error rfl
  · refine Faults.act_bind hremember fun _ => ?_
    exact Faults.act_bind (Faults.lift _) fun code => faults_checkCode _ code

theorem faults_loadedTypes (m : Machine σ) :
    Faults (·.isSetup = false) (runtime m).loadedTypes := by
  refine Faults.act_bind (Faults.act_bind (Faults.lift _) fun reply => ?_) fun types => ?_
  · obtain ⟨code, classes⟩ := reply
    refine Faults.act_bind (faults_checkCode _ code) fun _ => ?_
    cases classes with
    | none => exact Faults.ok _
    | some classes => exact Faults.behind m.giveBack fun _ => Faults.ok _
  · exact Faults.act_bind (Faults.mapM (fun _ => Faults.lift _) types) fun _ => Faults.ok _

theorem faults_retransformAll (m : Machine σ) (h : Host (World σ)) :
    Faults (·.isSetup = false) (Attach.retransformAll (runtime m) h) := by
  refine Faults.behind _ fun _ =>
    Faults.bind (faults_loadedTypes m) (fun types => ?_) fun fault hfault => ?_
  · refine Faults.behind _ fun tally => ?_
    exact Faults.behind _ fun _ => Faults.ok _
  · exact Faults.error hfault

/-- The watched type as a start finds it, once the settings are announced. -/
def targetOf (m : Machine σ) (options : Option String) (isSet : String → Bool)
    (methods : LookupMethods) : StateM (World σ) (Except Fault Target) := do
  (Settings.ofArgument options (Flags.ofVariables isSet)).announce (Lookup.host m methods none)
  Target.resolve (Lookup.host m methods none)

/-- Why a start cannot set the agent up: classes cannot be looked up, or the watched type cannot. -/
def setupFault (m : Machine σ) (options : Option String) (isSet : String → Bool) (w : World σ) :
    Option Fault :=
  match (lookupMethods m).run.run w with
  | (.error fault, _) => some fault
  | (.ok methods, w') =>
    match ((targetOf m options isSet methods).run w').1 with
    | .error fault => some fault
    | .ok _ => none

/-- The hook and the pass over the loaded classes. -/
def hookUp (m : Machine σ) (options : Option String) (isSet : String → Bool)
    (methods : LookupMethods) (target : Target) : StateM (World σ) (Except Fault AttachReport) := do
  let settings := Settings.ofArgument options (Flags.ofVariables isSet)
  m.note .debug ("Monitoring " ++ target.info.name ++ " and its subtypes")
  match ← (runtime m).installHook (Instrument.new settings (some target)) with
  | .error fault => return .error fault
  | .ok () =>
    match ← Attach.retransformAll (runtime m) (Lookup.host m methods none) with
    | .error fault => return .error fault
    | .ok tally => return .ok ⟨settings, tally⟩

theorem faults_hookUp (m : Machine σ) (options : Option String) (isSet : String → Bool)
    (methods : LookupMethods) (target : Target) :
    Faults (·.isSetup = false) (hookUp m options isSet methods target) := by
  refine Faults.behind _ fun _ => ?_
  refine Faults.bind (faults_installHook m _) (fun _ => ?_) fun _ hfault => Faults.error hfault
  refine Faults.bind (faults_retransformAll m _) (fun _ => ?_) fun _ hfault => Faults.error hfault
  exact Faults.ok _

theorem faults_targetOf (m : Machine σ) (options : Option String) (isSet : String → Bool)
    (methods : LookupMethods) : Faults (·.isSetup = true) (targetOf m options isSet methods) :=
  Faults.behind _ fun _ _ _ h => isSetup_of_ofAnswer h

/-- What is left of a start once the watched type is found or not. -/
def attachTo (m : Machine σ) (options : Option String) (isSet : String → Bool)
    (methods : LookupMethods) (found : Except Fault Target) : Act σ Unit := do
  let report ← ExceptT.mk (match found with
    | .error fault => return .error fault
    | .ok target => hookUp m options isSet methods target)
  m.note .debug (s!"Attached with {report.settings.excluded.length} exclusions, " ++
    s!"{report.tally.succeeded} classes retransformed")

theorem run_start_of_ok {m : Machine σ} (options : Option String) (isSet : String → Bool)
    {w w' : World σ} {methods : LookupMethods}
    (h : (lookupMethods m).run.run w = (.ok methods, w')) :
    (start m options isSet).run.run w =
      (attachTo m options isSet methods ((targetOf m options isSet methods).run w').1).run.run
        ((targetOf m options isSet methods).run w').2 := by
  unfold start
  rw [ExceptT.run_bind, StateT.run_bind, h]
  rfl

/-- A start fails at setting up exactly if classes cannot be looked up or the watched type
cannot. -/
theorem isSetup_start {m : Machine σ} {options : Option String} {isSet : String → Bool}
    {w : World σ} {fault : Fault} (h : ((start m options isSet).run.run w).1 = .error fault) :
    fault.isSetup = true ↔ setupFault m options isSet w = some fault := by
  unfold setupFault
  rcases hfirst : (lookupMethods m).run.run w with ⟨result, w'⟩
  cases result with
  | error cause =>
    have hcause := faults_lookupMethods m w cause (by rw [hfirst])
    unfold start at h
    rw [ExceptT.run_bind, StateT.run_bind, hfirst] at h
    cases h
    exact ⟨fun _ => rfl, fun _ => hcause⟩
  | ok methods =>
    rw [run_start_of_ok options isSet hfirst] at h
    dsimp only
    cases hfound : ((targetOf m options isSet methods).run w').1 with
    | error cause =>
      rw [hfound] at h
      cases h
      exact ⟨fun _ => rfl, fun _ => faults_targetOf m options isSet methods w' _ hfound⟩
    | ok target =>
      rw [hfound] at h
      have hattached : Faults (·.isSetup = false)
          (attachTo m options isSet methods (.ok target)).run :=
        Faults.act_bind (faults_hookUp m options isSet methods target) fun _ => Faults.lift _
      simp [hattached _ fault h]

/-! ### Defining -/

/-- What comes of a class that an instrument is presented with. -/
def transformed (m : Machine σ) (d : Definition) (instrument : Instrument)
    (methods : LookupMethods) (data : Bytes) : StateM (World σ) Outcome := do
  let display ← displayName m d
  instrument.transform (Lookup.host m methods d.loader)
    ⟨d.name.map Utf8.decodeTerminated, display, data.take d.length.toNat⟩

/-- A definition is answered with these bytes: an instrument and the methods for lookups are there,
so is the class, it comes out rewritten, and the machine gives memory for it. -/
structure Replaces (m : Machine σ) (d : Definition) (w : World σ) (bytes : Bytes)
    (instrument : Instrument) (methods : LookupMethods) (data : Bytes) (sites : Nat) : Prop where
  hooked : w.agent.instrument = some instrument
  resolved : w.agent.methods = some methods
  present : d.data = some data
  nonempty : 0 < d.length
  rewritten : ((transformed m d instrument methods data).run w).1 = .rewritten bytes sites
  allocated : ((m.call (.allocate bytes.length)).run
    ((transformed m d instrument methods data).run w).2).1 = 0

theorem Outputs.written_inj {bytes given : Bytes} : written given = written bytes ↔ given = bytes :=
  ⟨fun h => Option.some.inj (congrArg data h), congrArg written⟩

/-- Both the length and the bytes are written, or neither is. -/
def Outputs.IsWhole (o : Outputs) : Prop := o = unwritten ∨ ∃ bytes, o = written bytes

theorem run_handOver (m : Machine σ) (bytes given : Bytes) (w : World σ) :
    ((handOver m given).run w).1.IsWhole ∧ (((handOver m given).run w).1 = .written bytes ↔
      given = bytes ∧ ((m.call (.allocate given.length)).run w).1 = 0) := by
  rcases hcall : (m.call (.allocate given.length)).run w with ⟨code, w'⟩
  have hallocate : (m.allocate given.length).run.run w =
      (Machine.checkCode "Allocate" code : Act σ Unit).run.run w' := by
    show (Machine.checkCode "Allocate" ((m.call (.allocate given.length)).run w).1 : Act σ Unit).run.run
      ((m.call (.allocate given.length)).run w).2 = _
    rw [hcall]
  unfold handOver
  rw [StateT.run_bind, hallocate]
  by_cases hcode : code = 0
  · simp only [Machine.checkCode, hcode, if_true, and_true]
    exact ⟨.inr ⟨given, rfl⟩, Outputs.written_inj⟩
  · simp only [Machine.checkCode, hcode, if_false, and_false, iff_false]
    exact ⟨.inl rfl, fun h => nomatch h⟩

/-- What is done with an outcome. -/
def answered (m : Machine σ) (name : Option String) : Outcome → StateM (World σ) Outputs
  | .rewritten bytes _ => handOver m bytes
  | .panicked => do
    m.note .error ("Transforming " ++ name.getD "?" ++ " panicked")
    return .unwritten
  | _ => return .unwritten

theorem run_answered (m : Machine σ) (name : Option String) (bytes : Bytes) (outcome : Outcome)
    (w : World σ) :
    ((answered m name outcome).run w).1.IsWhole ∧
      (((answered m name outcome).run w).1 = .written bytes ↔
        (∃ sites, outcome = .rewritten bytes sites) ∧
          ((m.call (.allocate bytes.length)).run w).1 = 0) := by
  cases outcome with
  | rewritten given sites =>
    obtain ⟨hwhole, hiff⟩ := run_handOver m bytes given w
    refine ⟨hwhole, hiff.trans ⟨?_, ?_⟩⟩
    · rintro ⟨rfl, hcode⟩
      exact ⟨⟨sites, rfl⟩, hcode⟩
    · rintro ⟨⟨_, h⟩, hcode⟩
      cases h
      exact ⟨rfl, hcode⟩
  | _ =>
    refine ⟨.inl rfl, ?_, ?_⟩
    · intro h
      cases h
    · rintro ⟨⟨_, h⟩, -⟩
      cases h

theorem run_onDefinition_of_ready (m : Machine σ) {d : Definition} {w : World σ}
    {instrument : Instrument} {methods : LookupMethods} {data : Bytes}
    (hhooked : w.agent.instrument = some instrument) (hresolved : w.agent.methods = some methods)
    (hpresent : d.data = some data) (hnonempty : 0 < d.length) :
    (onDefinition m d).run w =
      (answered m (d.name.map Utf8.decodeTerminated)
        ((transformed m d instrument methods data).run w).1).run
          ((transformed m d instrument methods data).run w).2 := by
  obtain ⟨⟨outlet, loaded, _, _, lookingUp⟩, machine⟩ := w
  cases hhooked
  cases hresolved
  have hlength : ¬ d.length ≤ 0 := by omega
  unfold onDefinition
  simp only [StateT.run_bind, StateT.run_get, pure_bind, hpresent, hlength, if_false]
  change (transformed m d instrument methods data >>= fun outcome => (match outcome with
    | .rewritten bytes _ => handOver m bytes
    | .panicked => do
      m.note .error ("Transforming " ++ (d.name.map Utf8.decodeTerminated).getD "?" ++ " panicked")
      return .unwritten
    | _ => return .unwritten)).run _ = _
  rw [StateT.run_bind]
  rcases (transformed m d instrument methods data).run _ with ⟨outcome, w'⟩
  cases outcome with
  | rewritten bytes sites => rfl
  | _ => rfl

/-- What a definition writes, it writes as a whole, and where the class is to be replaced. -/
theorem run_onDefinition (m : Machine σ) (d : Definition) (w : World σ) :
    ((onDefinition m d).run w).1.IsWhole ∧ ∀ bytes,
      ((onDefinition m d).run w).1 = .written bytes ↔
        ∃ instrument methods data sites, Replaces m d w bytes instrument methods data sites := by
  by_cases hready : ∃ instrument methods data, w.agent.instrument = some instrument ∧
      w.agent.methods = some methods ∧ d.data = some data ∧ 0 < d.length
  · obtain ⟨instrument, methods, data, hhooked, hresolved, hpresent, hnonempty⟩ := hready
    have hrun := run_onDefinition_of_ready m hhooked hresolved hpresent hnonempty
    have hanswered := fun bytes => run_answered m (d.name.map Utf8.decodeTerminated) bytes
      ((transformed m d instrument methods data).run w).1
      ((transformed m d instrument methods data).run w).2
    rw [hrun]
    refine ⟨(hanswered []).1, fun bytes => (hanswered bytes).2.trans ⟨?_, ?_⟩⟩
    · rintro ⟨⟨sites, hrewritten⟩, hallocated⟩
      exact ⟨instrument, methods, data, sites, hhooked, hresolved, hpresent, hnonempty, hrewritten,
        hallocated⟩
    · rintro ⟨_, _, _, sites, h⟩
      cases hhooked.symm.trans h.hooked
      cases hresolved.symm.trans h.resolved
      cases hpresent.symm.trans h.present
      exact ⟨⟨sites, h.rewritten⟩, h.allocated⟩
  · have hrun : (onDefinition m d).run w = (.unwritten, w) := by
      unfold onDefinition
      simp only [StateT.run_bind, StateT.run_get, pure_bind]
      split
      next outlet loaded instrument methods lookingUp data hagent hdata =>
        split
        · rfl
        · exact absurd ⟨instrument, methods, data, by rw [hagent], by rw [hagent], hdata, by omega⟩
            hready
      next => rfl
    rw [hrun]
    refine ⟨.inl rfl, fun bytes => ⟨nofun, ?_⟩⟩
    rintro ⟨instrument, methods, data, sites, h⟩
    exact absurd ⟨instrument, methods, data, h.hooked, h.resolved, h.present, h.nonempty⟩ hready

/-! ### All turns -/

/-- What holds of the turns of a process. -/
structure Sound (m : Machine σ) (ts : List (Turn σ)) : Prop where
  /-- No load works behind another, so only the first can. -/
  loads : ts.Pairwise fun t t' => t.entry.isLoad = true → t'.isLoaded = false
  /-- A start without options makes no call and changes nothing. -/
  unloaded : ∀ t ∈ ts, ∀ isSet, t.entry = .start isSet → t.before.agent.loaded = none →
    t.trace = [] ∧ t.after = t.before
  /-- The instrument is set at most once, and stays so; the same is true of the options, the outlet
  and the methods for lookups. -/
  kept : (ts.flatMap Turn.moments).Pairwise Memory.Grown
  /-- A start that finds an instrument hooks nothing, lists no classes and passes none through the
  hook. -/
  installed : ∀ t ∈ ts, ∀ isSet, t.entry = .start isSet →
    t.before.agent.instrument.isSome = true → ∀ e ∈ t.trace, e.call.isHooking = false
  /-- The machine is ended by a start that fails at setting up, and by nothing else. -/
  fatal : ∀ t ∈ ts, t.trace.filterMap (·.call.fatalText) = verdict m t.before t.entry
  /-- A start fails at setting up if classes or the watched type cannot be looked up, and else not. -/
  setup : ∀ t ∈ ts, ∀ isSet options fault, t.entry = .start isSet →
    t.before.agent.loaded = some options →
    ((start m.traced options isSet).run.run t.before.traced).1 = .error fault →
      (fault.isSetup = true ↔ setupFault m.traced options isSet t.before.traced = some fault)
  /-- A definition writes both the length and the bytes or neither, and both if the class is there
  and comes out rewritten, by the instrument that is set, and the machine gives memory for it. -/
  defined : ∀ t ∈ ts, ∀ d, t.entry = .define d → t.given.IsWhole ∧
    ∀ bytes, t.given = .written bytes ↔ ∃ instrument methods data sites,
      Replaces m.traced d t.before.traced bytes instrument methods data sites

/-- The watched type is loaded from its loader, which is nested in nothing. -/
def watching (data : Bytes) : World Stage where
  agent := Memory.fresh
  machine := Stage.opening [] [("system", [⟨watchedType ++ ".class", data, []⟩])] []

/-- The agent is loaded, the machine starts, the watched type is defined, and the agent is loaded
again. -/
def watchingEntries (data : Bytes) : List Entry := [
  .load none,
  .start (· = "THREADSCOPE_TRACE_JOIN"),
  .define ⟨some watchedType.toUTF8.toList, none, none, some data, data.length⟩,
  .load none]

end Agent

end ThreadWatch.Vm
