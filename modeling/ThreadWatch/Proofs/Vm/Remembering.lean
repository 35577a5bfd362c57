import ThreadWatch.Proofs.Types.Lookups
import ThreadWatch.Proofs.Vm.Nesting
import ThreadWatch.Vm.Agent

/-!
# What the agent remembers

What the agent remembers is written once and stays: the outlet that was chosen, the options it was
loaded with, the instrument and the methods for lookups. Every way into the agent keeps what every
call of its machine keeps, if growing memory keeps it too.
-/

namespace ThreadWatch.Vm

variable {σ α β : Type}

/-- What is in `a` is in `b` as well; the mark of a lookup comes and goes. -/
structure Memory.Grown (a b : Memory) : Prop where
  outlet : ∀ sink, a.outlet.chosen = some sink → b.outlet.chosen = some sink
  loaded : ∀ options, a.loaded = some options → b.loaded = some options
  instrument : ∀ instrument, a.instrument = some instrument → b.instrument = some instrument
  methods : ∀ methods, a.methods = some methods → b.methods = some methods

theorem Memory.Grown.refl (a : Memory) : a.Grown a :=
  ⟨fun _ h => h, fun _ h => h, fun _ h => h, fun _ h => h⟩

theorem Memory.Grown.trans {a b c : Memory} (h : a.Grown b) (h' : b.Grown c) : a.Grown c :=
  ⟨fun _ ha => h'.outlet _ (h.outlet _ ha), fun _ ha => h'.loaded _ (h.loaded _ ha),
    fun _ ha => h'.instrument _ (h.instrument _ ha), fun _ ha => h'.methods _ (h.methods _ ha)⟩

variable {P : World σ → Prop}

/-- Beside what lookups do, printing keeps `P`, and so does growing memory. -/
structure Machine.Upholds (m : Machine σ) (P : World σ → Prop) : Prop extends Machine.Within m P where
  print : ∀ line, Keeps P (m.print line)
  grow : ∀ (w : World σ) (a : Memory), P w → w.agent.Grown a → P { w with agent := a }

theorem Keeps.get : Keeps P (get : StateM (World σ) (World σ)) := fun _ hw => hw

theorem Keeps.act_get_bind {f : World σ → Act σ α} (hf : ∀ w, P w → P ((f w).run.run w).2) :
    Keeps P ((MonadState.get : Act σ (World σ)) >>= f).run := fun w hw => hf w hw

/-- What comes behind a step may depend on how the step could end. -/
theorem Keeps.bind_of {x : StateM (World σ) α} {f : α → StateM (World σ) β} (hx : Keeps P x)
    (hf : ∀ w, P w → ∀ a, (x.run w).1 = a → Keeps P (f a)) : Keeps P (x >>= f) :=
  fun w hw => hf w hw _ rfl _ (hx w hw)

theorem Keeps.act_mapM {f : α → Act σ β} (hf : ∀ a, Keeps P (f a).run) (xs : List α) :
    Keeps P (xs.mapM f).run := by
  induction xs with
  | nil => exact Keeps.act_pure _
  | cons x xs ih =>
    rw [List.mapM_cons]
    exact Leads.act_bind (hf x) fun _ => Leads.act_bind ih fun _ => Keeps.act_pure _

theorem Keeps.forM {f : α → StateM (World σ) PUnit} (hf : ∀ a, Keeps P (f a)) (xs : List α) :
    Keeps P (xs.forM f) := by
  induction xs with
  | nil => exact Keeps.pure _
  | cons x xs ih => exact Leads.bind (hf x) fun _ => ih

/-! ### Lookups and questions -/

theorem Lookup.keeps_load {m : Machine σ} (h : m.Upholds P) (methods : LookupMethods)
    (loader : Option Object) (name : String) : Keeps P (load m methods loader name) := by
  intro w hw
  have hmark : ∀ b v, P v → P (marked b v) := fun b v hv => h.grow v _ hv
    ⟨fun _ h => h, fun _ h => h, fun _ h => h, fun _ h => h⟩
  cases hset : w.agent.lookingUp with
  | true =>
    rw [load, run_guarded_set _ _ hset]
    exact (Leads.bind (h.note _ _) fun _ => Keeps.pure _ : Keeps P (skip m name)) _ (hmark _ _ hw)
  | false =>
    have hread := leads_readResource h.toWithin methods loader (name ++ ".class")
      (h.call (.pushLocalFrame 8) rfl)
    rw [load, run_guarded_clear _ _ hset]
    exact hmark _ _ (hread _ (hmark _ _ hw))

/-- Whatever the host does keeps `P`. -/
structure HostWithin (h : Host (World σ)) (P : World σ → Prop) : Prop where
  load : ∀ name, Keeps P (h.load name)
  print : ∀ line, Keeps P (h.print line)
  note : ∀ level text, Keeps P (h.note level text)

theorem Machine.Upholds.host {m : Machine σ} (h : m.Upholds P) (methods : LookupMethods)
    (loader : Option Object) : HostWithin (Lookup.host m methods loader) P :=
  ⟨Lookup.keeps_load h methods loader, h.print, h.note⟩

/-- Whatever is known already, the question keeps `P`. -/
def KeepsAsking (P : World σ → Prop) (x : Asking (World σ) α) : Prop := ∀ memo, Keeps P (x.run memo)

namespace KeepsAsking

theorem pure (a : α) : KeepsAsking P (Pure.pure a : Asking (World σ) α) := fun _ => Keeps.pure _

theorem bind {x : Asking (World σ) α} {f : α → Asking (World σ) β} (hx : KeepsAsking P x)
    (hf : ∀ a, KeepsAsking P (f a)) : KeepsAsking P (x >>= f) :=
  fun memo => Leads.bind (hx memo) fun found => hf found.1 found.2

theorem lift {x : StateM (World σ) α} (hx : Keeps P x) :
    KeepsAsking P (liftM x : Asking (World σ) α) :=
  fun memo => Leads.bind hx fun a => Keeps.pure (a, memo)

variable {h : Host (World σ)} (hh : HostWithin h P)
include hh

theorem summary (name : String) : Keeps P (Hierarchy.summary h name) := by
  have hnone : ∀ text : String, Keeps P (do
      h.note .debug text
      return (none : Option TypeInfo)) := fun text =>
    Leads.bind (hh.note _ _) fun _ => Keeps.pure _
  unfold Hierarchy.summary
  refine Leads.bind (hh.load name) fun answer => ?_
  cases answer with
  | error fault => exact hnone _
  | ok found =>
    cases found with
    | none => exact Keeps.pure _
    | some found =>
      dsimp only
      cases TypeInfo.parse found.bytes with
      | error fault => exact hnone _
      | ok info =>
        dsimp only
        split
        · exact Keeps.pure _
        · exact hnone _

theorem looksUp {x : Asking (World σ) α} (hx : Asking.LooksUp h x) : KeepsAsking P x := by
  induction hx with
  | pure a => exact pure a
  | lookup name =>
    refine bind (fun _ => Keeps.pure _) fun memo : Memo => ?_
    cases memo.lookup name with
    | some known => exact pure _
    | none =>
      refine bind (lift (summary hh name)) fun info => ?_
      exact bind (fun _ => Keeps.pure _) fun _ => pure _
  | bind _ _ ihx ihf => exact bind ihx ihf

end KeepsAsking

/-! ### Instrumenting -/

section Instrument

variable {h : Host (World σ)} (hh : HostWithin h P) (t : Instrument)
include hh

theorem keeps_report (w : Workpiece) (d : Decision) : Keeps P (t.report h w d) := by
  unfold Instrument.report
  split
  · split
    · exact hh.print _
    · exact Keeps.pure _
  · exact Keeps.pure _

theorem keeps_editSites (sites : List CallSite) (w : Workpiece) (edited : Nat) :
    KeepsAsking P (t.editSites h sites w edited) := by
  induction sites generalizing w edited with
  | nil => exact KeepsAsking.pure _
  | cons site rest ih =>
    unfold Instrument.editSites
    refine KeepsAsking.bind (KeepsAsking.looksUp hh (t.looksUp_decide site)) fun d => ?_
    refine KeepsAsking.bind (KeepsAsking.lift (keeps_report hh t w d)) fun _ => ?_
    cases d.probe with
    | none => exact ih _ _
    | some probe =>
      dsimp only
      split
      · exact KeepsAsking.pure _
      · exact ih _ _

theorem keeps_edit (w : Workpiece) : Keeps P (t.edit h w) := by
  unfold Instrument.edit
  cases w.callSites with
  | error fault => exact Keeps.pure _
  | ok sites =>
    refine Leads.bind (Leads.bind (keeps_editSites hh t sites w 0 _) fun _ => Keeps.pure _) ?_
    intro result
    split
    · exact Keeps.pure _
    · exact Keeps.pure _
    · exact Keeps.pure _

theorem keeps_transform (p : Presented) : Keeps P (t.transform h p) := by
  unfold Instrument.transform
  dsimp only
  cases p.name with
  | none => exact Leads.bind (hh.print _) fun _ => Keeps.pure _
  | some name =>
    dsimp only
    split
    · exact Leads.bind (hh.print _) fun _ => Keeps.pure _
    · cases Workpiece.parse p.bytes with
      | error fault => exact Leads.bind (hh.note _ _) fun _ => Keeps.pure _
      | ok w =>
        refine Leads.bind (keeps_edit hh t w) fun result => ?_
        split
        · exact Keeps.pure _
        · exact Leads.bind (hh.note _ _) fun _ => Keeps.pure _
        · exact Keeps.pure _
        · exact Leads.bind (hh.print _) fun _ => Keeps.pure _

end Instrument

/-! ### The ways into the agent -/

/-- The call that ends the machine. -/
def Call.isFatal : Call → Bool
  | fatalError _ => true
  | _ => false

namespace Machine.Within

variable {m : Machine σ} (h : m.Within P)
include h

theorem giveBack : Keeps P m.giveBack := by
  refine Leads.bind (h.call _ rfl) fun code => ?_
  split
  · exact h.note _ _
  · exact Keeps.pure _

omit h in
theorem checkCode (operation : String) (code : UInt32) :
    Keeps P (Machine.checkCode operation code : Act σ Unit).run := by
  unfold Machine.checkCode
  split
  · exact Keeps.act_pure _
  · exact Keeps.act_throw _

theorem signature (type : Object) : Keeps P (m.signature type).run := by
  refine Leads.act_bind (h.act_call _ rfl) fun reply => ?_
  obtain ⟨code, text⟩ := reply
  refine Leads.act_bind (checkCode _ _) fun _ => ?_
  cases text with
  | none => exact Keeps.act_throw _
  | some text => exact Leads.act_bind h.giveBack.lift fun _ => Keeps.act_pure _

theorem errorName (code : UInt32) : Keeps P (m.errorName code) := by
  refine Leads.bind (h.call _ rfl) fun reply => ?_
  split
  · exact Leads.bind h.giveBack fun _ => Keeps.pure _
  · exact Keeps.pure _

theorem allocate (size : Nat) : Keeps P (m.allocate size).run :=
  Leads.act_bind (h.act_call _ rfl) fun _ => checkCode _ _

theorem findClass (name : String) : Keeps P (m.findClass name).run := by
  unfold Machine.findClass
  refine Leads.act_bind (Keeps.checkText _) fun _ => ?_
  refine Leads.act_bind (h.act_call _ rfl) fun reply => ?_
  refine Leads.act_bind (h.checked _ reply) fun found => ?_
  cases found with
  | some type => exact Keeps.act_pure _
  | none => exact Keeps.act_throw _

theorem foundMethod (name : String) (reply : Option Method) :
    Keeps P (m.foundMethod name reply).run := by
  refine Leads.act_bind (h.checked _ reply) fun found => ?_
  cases found with
  | some method => exact Keeps.act_pure _
  | none => exact Keeps.act_throw _

theorem globalRef (object : Object) : Keeps P (m.globalRef object).run := by
  refine Leads.act_bind (h.act_call _ rfl) fun reply => ?_
  cases reply with
  | some lasting => exact Keeps.act_pure _
  | none => exact Keeps.act_throw _

theorem resolve : Keeps P (LookupMethods.resolve m).run := by
  unfold LookupMethods.resolve
  refine Leads.act_bind (h.findClass _) fun loaderType => ?_
  refine h.holding _ (Leads.act_bind (h.findClass _) fun streamType => ?_)
  refine h.holding _ (Leads.act_bind ?_ fun getResource => ?_)
  · exact Leads.act_bind (h.act_call _ rfl) fun _ => h.foundMethod _ _
  refine Leads.act_bind ?_ fun getSystemResource => ?_
  · exact Leads.act_bind (h.act_call _ rfl) fun _ => h.foundMethod _ _
  refine Leads.act_bind ?_ fun readAll => ?_
  · exact Leads.act_bind (h.act_call _ rfl) fun _ => h.foundMethod _ _
  refine Leads.act_bind ?_ fun close => ?_
  · exact Leads.act_bind (h.act_call _ rfl) fun _ => h.foundMethod _ _
  exact Leads.act_bind (h.globalRef _) fun _ => Keeps.act_pure _

end Machine.Within

namespace Agent

variable {m : Machine σ} (h : m.Upholds P)
include h

theorem keeps_lookupMethods : Keeps P (lookupMethods m).run := by
  unfold lookupMethods
  refine Leads.act_bind ?_ fun methods => ?_
  · exact Leads.bind h.resolve fun _ => Keeps.pure _
  · refine Keeps.act_get_bind fun w hw => ?_
    have hgrown : w.agent.Grown { w.agent with methods := some (w.agent.methods.getD methods) } :=
      ⟨fun _ h => h, fun _ h => h, fun _ h => h, fun _ h => by simp [h]⟩
    exact h.grow w _ hw hgrown

theorem keeps_loadedType (type : Object) : Keeps P (loadedType m type) := by
  refine Leads.bind (h.signature type) fun result => ?_
  cases result with
  | ok signature => exact Keeps.pure _
  | error fault =>
    exact Leads.bind (h.note _ _) fun _ => Leads.bind (h.call _ rfl) fun _ => Keeps.pure _

theorem keeps_displayName (d : Definition) : Keeps P (displayName m d) := by
  unfold displayName
  split
  · exact Keeps.pure _
  · exact Leads.bind (h.signature _) fun _ => Keeps.pure _
  · exact Keeps.pure _

theorem keeps_handOver (bytes : Bytes) : Keeps P (handOver m bytes) := by
  refine Leads.bind (h.allocate _) fun result => ?_
  cases result with
  | ok _ => exact Keeps.pure _
  | error fault => exact Leads.bind (h.note _ _) fun _ => Keeps.pure _

theorem keeps_onDefinition (d : Definition) : Keeps P (onDefinition m d) := by
  unfold onDefinition
  refine Leads.bind Keeps.get fun w => ?_
  split
  · split
    · exact Keeps.pure _
    · refine Leads.bind (keeps_displayName h d) fun display => ?_
      refine Leads.bind (keeps_transform (h.host _ _) _ _) fun outcome => ?_
      split
      · exact keeps_handOver h _
      · exact Leads.bind (h.note _ _) fun _ => Keeps.pure _
      · exact Keeps.pure _
  · exact Keeps.pure _

section Setup

variable (hcall : ∀ c : Call, c.isFatal = false → Keeps P (m.call c))
include hcall

omit h in
theorem keeps_enable (event : Event) : Keeps P (m.enable event).run :=
  Leads.act_bind (hcall _ rfl).lift fun _ => Machine.Within.checkCode _ _

/-- What is left to do of a preparation once an outlet is chosen. -/
def setUp (m : Machine σ) (options : Option String) : Act σ Unit := do
  m.openTools
  m.addCapabilities
  m.setCallbacks
  if (← get).agent.loaded.isSome then throw .agentLoaded
  remember ({ · with loaded := some options })
  m.enable .started

theorem keeps_setUp (options : Option String) : Keeps P (setUp m options).run := by
  refine Leads.act_bind ?_ fun _ => ?_
  · refine Leads.act_bind (hcall _ rfl).lift fun reply => ?_
    dsimp only
    split
    · exact Keeps.act_throw _
    · exact Keeps.act_pure _
  refine Leads.act_bind ?_ fun _ => ?_
  · exact Leads.act_bind (hcall _ rfl).lift fun _ => Machine.Within.checkCode _ _
  refine Leads.act_bind ?_ fun _ => ?_
  · exact Leads.act_bind (hcall _ rfl).lift fun _ => Machine.Within.checkCode _ _
  refine Keeps.act_get_bind fun w hw => ?_
  cases hloaded : w.agent.loaded with
  | some kept => exact hw
  | none =>
    have hgrown : w.agent.Grown { w.agent with loaded := some options } :=
      ⟨fun _ h => h, fun _ h => absurd h (by simp [hloaded]), fun _ h => h, fun _ h => h⟩
    exact keeps_enable hcall .started _ (h.grow w _ hw hgrown)

omit h hcall in
theorem run_prepare_of_chosen {w : World σ} {sink : Sink} (hchosen : w.agent.outlet.chosen = some sink)
    (options : Option String) : (prepare m options).run.run w = (.error .loggerInstalled, w) := by
  have hinstall : w.agent.outlet.install .standard = .error .loggerInstalled := by
    simp only [Outlet.install, hchosen]
  show (MonadExcept.ofExcept (w.agent.outlet.install .standard) >>= fun outlet => (do
    remember ({ · with outlet })
    setUp m options) : Act σ Unit).run.run w = _
  rw [hinstall]
  rfl

/-- The world with an outlet to standard output. -/
def opened (w : World σ) : World σ := { w with agent := { w.agent with outlet := ⟨some .standard⟩ } }

omit h hcall in
theorem run_prepare_of_fresh {w : World σ} (hfresh : w.agent.outlet.chosen = none)
    (options : Option String) :
    (prepare m options).run.run w = (setUp m options).run.run (opened w) := by
  have hinstall : w.agent.outlet.install .standard = .ok ⟨some .standard⟩ := by
    simp only [Outlet.install, hfresh]
  show (MonadExcept.ofExcept (w.agent.outlet.install .standard) >>= fun outlet => (do
    remember ({ · with outlet })
    setUp m options) : Act σ Unit).run.run w = _
  rw [hinstall]
  rfl

/-- What the machine gets back from a preparation. -/
def loadCode (m : Machine σ) : Except Fault Unit → StateM (World σ) Int
  | .ok () => return 0
  | .error fault => do
    m.print (marked ("Could not load: " ++ fault.message))
    return -1

omit hcall in
theorem keeps_loadCode (result : Except Fault Unit) : Keeps P (loadCode m result) := by
  cases result with
  | ok _ => exact Keeps.pure _
  | error fault => exact Leads.bind (h.print _) fun _ => Keeps.pure _

omit h hcall in
theorem run_onLoad (options : Option Bytes) (w : World σ) : (onLoad m options).run w =
    (loadCode m ((prepare m (options.map Utf8.decodeTerminated)).run.run w).1).run
      ((prepare m (options.map Utf8.decodeTerminated)).run.run w).2 := rfl

theorem keeps_onLoad (options : Option Bytes) : Keeps P (onLoad m options) := by
  intro w hw
  rw [run_onLoad]
  cases hchosen : w.agent.outlet.chosen with
  | some sink =>
    rw [run_prepare_of_chosen hchosen]
    exact keeps_loadCode h _ _ hw
  | none =>
    have hgrown : w.agent.Grown (opened w).agent :=
      ⟨fun _ h => absurd h (by simp [hchosen]), fun _ h => h, fun _ h => h, fun _ h => h⟩
    rw [run_prepare_of_fresh hchosen]
    exact keeps_loadCode h _ _ (keeps_setUp h hcall _ _ (h.grow w _ hw hgrown))

theorem keeps_installHook (instrument : Instrument) : Keeps P (installHook m instrument).run := by
  refine Keeps.act_get_bind fun w hw => ?_
  cases hinstalled : w.agent.instrument with
  | some kept => exact hw
  | none =>
    have hgrown : w.agent.Grown { w.agent with instrument := some instrument } :=
      ⟨fun _ h => h, fun _ h => h, fun _ h => absurd h (by simp [hinstalled]), fun _ h => h⟩
    exact keeps_enable hcall .classDefinition _ (h.grow w _ hw hgrown)

theorem keeps_retransform (type : Object) : Keeps P (retransform m type) := by
  have hcoded : Keeps P (m.retransform type).run :=
    Leads.act_bind (hcall _ rfl).lift fun _ => Machine.Within.checkCode _ _
  refine Leads.bind hcoded fun result => ?_
  split
  · exact Keeps.pure _
  · split
    · exact Keeps.pure _
    · dsimp only
      split
      · refine Leads.bind (h.errorName _) fun _ => ?_
        exact Leads.bind (h.note _ _) fun _ => Keeps.pure _
      · exact Keeps.pure _
  · exact Keeps.pure _

theorem keeps_loadedTypes : Keeps P (runtime m).loadedTypes := by
  refine Leads.act_bind (Leads.act_bind (hcall _ rfl).lift fun reply => ?_) fun types => ?_
  · obtain ⟨code, classes⟩ := reply
    refine Leads.act_bind (Machine.Within.checkCode _ _) fun _ => ?_
    cases classes with
    | none => exact Keeps.act_pure _
    | some classes => exact Leads.act_bind h.giveBack.lift fun _ => Keeps.act_pure _
  · have hnamed := Keeps.act_mapM (fun type => (keeps_loadedType h type).lift) types
    exact Leads.act_bind hnamed fun _ => Keeps.act_pure _

theorem keeps_retransformAll {host : Host (World σ)} (hh : HostWithin host P) :
    Keeps P (Attach.retransformAll (runtime m) host) := by
  have hrelease : ∀ type, Keeps P ((runtime m).release type) := fun type => h.call _ rfl
  have heach : ∀ types tally, Keeps P (Attach.retransformEach (runtime m) host types tally) := by
    intro types
    induction types with
    | nil => exact fun _ => Keeps.pure _
    | cons type rest ih =>
      intro tally
      unfold Attach.retransformEach
      split
      · refine Leads.bind (hh.print _) fun _ => ?_
        exact Leads.bind (hrelease _) fun _ => ih _
      · have hone : Keeps P (Attach.retransformOne (runtime m) host type tally) := by
          refine Leads.bind (keeps_retransform h hcall _) fun result => ?_
          split
          · exact Keeps.pure _
          · exact Keeps.pure _
          · exact Leads.bind (hh.note _ _) fun _ => Keeps.pure _
        refine Leads.bind hone fun _ => ?_
        exact Leads.bind (hrelease _) fun _ => ih _
  refine Leads.bind (hh.print _) fun _ => ?_
  refine Leads.bind (keeps_loadedTypes h hcall) fun result => ?_
  cases result with
  | error fault => exact Keeps.pure _
  | ok types =>
    refine Leads.bind (heach types _) fun tally => ?_
    exact Leads.bind (hh.print _) fun _ => Keeps.pure _

end Setup

/-- Attaching, where the pass over the loaded classes is looked at only if the hook could be
installed. -/
theorem keeps_start (hinstall : ∀ instrument, Keeps P (installHook m instrument).run)
    (hpass : ∀ (instrument : Instrument) (host : Host (World σ)) (w : World σ), P w →
      ((installHook m instrument).run.run w).1 = .ok () → HostWithin host P →
        Keeps P (Attach.retransformAll (runtime m) host))
    (options : Option String) (isSet : String → Bool) : Keeps P (start m options isSet).run := by
  refine Leads.act_bind (keeps_lookupMethods h) fun methods => ?_
  have hh := h.host methods none
  have hattach : Keeps P (Attach.attach (runtime m) (Lookup.host m methods none) options isSet) := by
    refine Leads.bind (Keeps.forM (fun line => hh.print _) _) fun _ => ?_
    refine Leads.bind (Leads.bind (hh.load _) fun _ => Keeps.pure _) fun target => ?_
    cases target with
    | error fault => exact Keeps.pure _
    | ok target =>
      refine Leads.bind (hh.note _ _) fun _ => ?_
      refine Keeps.bind_of (hinstall _) fun w hw result hresult => ?_
      cases result with
      | error fault => exact Keeps.pure _
      | ok _ =>
        refine Leads.bind (hpass _ _ w hw hresult hh) fun result => ?_
        cases result with
        | error fault => exact Keeps.pure _
        | ok tally => exact Keeps.pure _
  refine Leads.act_bind hattach fun report => ?_
  exact (hh.note _ _).lift

theorem keeps_onStart (isSet : String → Bool)
    (hstart : ∀ options, Keeps P (start m options isSet).run)
    (hfatal : ∀ text, Keeps P (m.call (.fatalError text))) : Keeps P (onStart m isSet) := by
  unfold onStart
  refine Leads.bind Keeps.get fun w => ?_
  cases w.agent.loaded with
  | none => exact Keeps.pure _
  | some options =>
    refine Leads.bind (hstart options) fun result => ?_
    cases result with
    | ok _ => exact Keeps.pure _
    | error fault =>
      dsimp only
      split
      · exact hfatal _
      · exact h.print _

/-! ### Coming back to the agent -/

/-- A way into the agent. -/
inductive Entry where
  | load (options : Option Bytes)
  | start (isSet : String → Bool)
  | define (d : Definition)

namespace Entry

/-- What the machine gets back. -/
@[reducible] def Result : Entry → Type
  | load _ => Int
  | start _ => Unit
  | define _ => Outputs

def run (m : Machine σ) : (e : Entry) → StateM (World σ) e.Result
  | load options => onLoad m options
  | start isSet => onStart m isSet
  | define d => onDefinition m d

/-- Every way into the agent keeps what every call of the machine keeps. -/
theorem keeps_run (hcall : ∀ c, Keeps P (m.call c)) (e : Entry) : Keeps P (e.run m) := by
  cases e with
  | load options => exact keeps_onLoad h (fun c _ => hcall c) options
  | start isSet =>
    have hstart := fun options => keeps_start h (keeps_installHook h fun c _ => hcall c)
      (fun _ _ _ _ _ hh => keeps_retransformAll h (fun c _ => hcall c) hh) options isSet
    exact keeps_onStart h isSet hstart fun text => hcall _
  | define d => exact keeps_onDefinition h d

end Entry

end Agent

mutual

/-- What the agent remembers is its own: a call of the machine changes it only by coming back to the
agent, through a machine of which the same is true, and printing and noting do not change it. -/
inductive Faithful : Machine σ → Prop
  | mk {m : Machine σ} (call : ∀ c w, Reenters w ((m.call c).run w).2.agent)
    (print : ∀ line w, ((m.print line).run w).2.agent = w.agent)
    (note : ∀ level text w, ((m.note level text).run w).2.agent = w.agent) : Faithful m

/-- What the agent may remember behind some runs that begin in a world. -/
inductive Reenters : World σ → Memory → Prop
  | refl (w : World σ) : Reenters w w.agent
  | entered {w v : World σ} (m : Machine σ) (e : Agent.Entry) (hv : Reenters w v.agent)
    (hm : Faithful m) : Reenters w ((e.run m).run v).2.agent

end

theorem Faithful.upholds {m : Machine σ} (hm : Faithful m) {a : Memory}
    (hcall : ∀ c, Keeps (fun w => a.Grown w.agent) (m.call c)) :
    m.Upholds fun w => a.Grown w.agent := by
  obtain ⟨-, hprint, hnote⟩ := hm
  refine ⟨⟨fun c _ => hcall c, fun level text w hw => ?_⟩, fun line w hw => ?_,
    fun _ _ hw h => hw.trans h⟩
  · exact (congrArg a.Grown (hnote level text w)).mpr hw
  · exact (congrArg a.Grown (hprint line w)).mpr hw

mutual

theorem Faithful.keeps_call {m : Machine σ} : Faithful m → ∀ (a : Memory) (c : Call),
    Keeps (fun w => a.Grown w.agent) (m.call c)
  | .mk hcall _ _ => fun _ c w hw => hw.trans (hcall c w).grown

theorem Reenters.grown {w : World σ} {a : Memory} : Reenters w a → w.agent.Grown a
  | .refl w => .refl w.agent
  | .entered _ e hv hm =>
    have hcall := hm.keeps_call w.agent
    e.keeps_run (hm.upholds hcall) hcall _ hv.grown

end

end ThreadWatch.Vm
