import ThreadWatch.Attach
import ThreadWatch.Vm.Lookup
import ThreadWatch.Vm.Tool

/-!
# The agent

What the machine calls: once when the agent is loaded, once when the machine has started, and for
every class that is defined. The instrument is attached at the start; from then on every class
definition passes through it.
-/

namespace ThreadWatch.Vm.Agent

variable {σ : Type} (m : Machine σ)

def remember {μ : Type → Type} [MonadState (World σ) μ] (change : Memory → Memory) : μ Unit :=
  modify fun w => { w with agent := change w.agent }

/-- Choose the outlet, ask the machine for what is needed, and keep the options. -/
def prepare (options : Option String) : Act σ Unit := do
  let outlet ← MonadExcept.ofExcept ((← get).agent.outlet.install .standard)
  remember ({ · with outlet })
  m.openTools
  m.addCapabilities
  m.setCallbacks
  if (← get).agent.loaded.isSome then throw .agentLoaded
  remember ({ · with loaded := some options })
  m.enable .started

/-- When the agent is loaded: zero, or minus one if it cannot work. -/
def onLoad (options : Option Bytes) : StateM (World σ) Int := do
  match ← (prepare m (options.map Utf8.decodeTerminated)).run with
  | .ok () => return 0
  | .error fault =>
    m.print (marked ("Could not load: " ++ fault.message))
    return -1

/-- The internal name that a signature spells, or the signature of an array. -/
def internalName (signature : String) : String :=
  match signature.toList with
  | 'L' :: rest => if rest.getLast? = some ';' then String.ofList rest.dropLast else signature
  | _ => signature

/-- A loaded class with its name, or none if its signature cannot be read. -/
def loadedType (type : Object) : StateM (World σ) (Option (LoadedType Object)) := do
  match ← (m.signature type).run with
  | .ok signature => return some ⟨internalName signature, type⟩
  | .error fault =>
    m.note .debug ("Skipping a loaded class: " ++ fault.message)
    m.call (.deleteLocalRef type)
    return none

/-- The code of a class that cannot be changed at all. -/
def unmodifiable : UInt32 := 79

/-- The machine is asked for the name of a code only if somebody takes notes. -/
def retransform (type : Object) : StateM (World σ) (Except Fault RetransformStatus) := do
  match ← (m.retransform type).run with
  | .ok () => return .ok .retransformed
  | .error (.jvmti operation code) =>
    if code = unmodifiable then return .ok .unmodifiable
    if m.isNoting then m.note .debug (operation ++ " failed with " ++ (← m.errorName code))
    return .error (.jvmti operation code)
  | .error fault => return .error fault

def installHook (instrument : Instrument) : Act σ Unit := do
  if (← get).agent.instrument.isSome then throw .hookInstalled
  remember ({ · with instrument := some instrument })
  m.enable .classDefinition

def runtime : Runtime (World σ) Object where
  installHook instrument := (installHook m instrument).run
  loadedTypes := ExceptT.run do
    let types ← m.loadedClasses
    return (← types.mapM fun type => (loadedType m type : StateM (World σ) _)).reduceOption
  retransform type := retransform m type
  release type := m.call (.deleteLocalRef type)

/-- The methods for lookups, which are looked up every time and kept the first time. -/
def lookupMethods : Act σ LookupMethods := do
  let methods ← (LookupMethods.resolve m).adapt Fault.lookupsUnavailable
  let methods := (← get).agent.methods.getD methods
  remember ({ · with methods := some methods })
  return methods

def start (options : Option String) (isSet : String → Bool) : Act σ Unit := do
  let methods ← lookupMethods m
  let report ← ExceptT.mk (Attach.attach (runtime m) (Lookup.host m methods none) options isSet)
  m.note .debug (s!"Attached with {report.settings.excluded.length} exclusions, " ++
    s!"{report.tally.succeeded} classes retransformed")

/-- When the machine has started. A setup that cannot work ends the machine. -/
def onStart (isSet : String → Bool) : StateM (World σ) Unit := do
  match (← get).agent.loaded with
  | none => pure ()
  | some options =>
    match ← (start m options isSet).run with
    | .ok () => pure ()
    | .error fault =>
      if fault.isSetup then
        let text := "threadscope: " ++ fault.message
        m.call (.fatalError (text.map fun c => if c = '\x00' then ' ' else c))
      else m.print (marked ("Could not attach: " ++ fault.message))

/-- A class about to be defined, as the machine presents it. -/
structure Definition where
  name : Option Bytes
  /-- The class itself, if it is defined anew. -/
  redefined : Option Object
  loader : Option Object
  data : Option Bytes
  length : Int
  deriving DecidableEq, Repr

/-- The name for people, from the signature if there is no other. -/
def displayName (d : Definition) : StateM (World σ) (Option String) := do
  match d.name, d.redefined with
  | some name, _ => return some (toDotted (Utf8.decodeTerminated name))
  | none, some type =>
    return (← (m.signature type).run).toOption.map fun s => toDotted (internalName s)
  | none, none => return none

/-- What the agent has written where the machine will look for a class to use in place of the one
presented, and for its length. -/
structure Outputs where
  length : Option Int32
  data : Option Bytes
  deriving DecidableEq, Repr

namespace Outputs

def unwritten : Outputs := ⟨none, none⟩

/-- Such a class with its length. -/
def written (bytes : Bytes) : Outputs := ⟨some (Int32.ofNat bytes.length), some bytes⟩

/-- The class that the machine finds; a length that was not written is zero. -/
def replacement (o : Outputs) : Option Bytes :=
  o.data.map fun data => data.take (o.length.getD 0).toInt.toNat

end Outputs

/-- Hand rewritten bytes to the machine, if it gives memory for them. -/
def handOver (bytes : Bytes) : StateM (World σ) Outputs := do
  match ← (m.allocate bytes.length).run with
  | .ok () => return .written bytes
  | .error fault =>
    m.note .warn ("Keeping the original class: " ++ fault.message)
    return .unwritten

/-- When a class is defined. A class that is given up is left as it was. -/
def onDefinition (d : Definition) : StateM (World σ) Outputs := do
  match (← get).agent, d.data with
  | { instrument := some instrument, methods := some methods, .. }, some data =>
    if d.length ≤ 0 then return .unwritten
    let display ← displayName m d
    let name := d.name.map Utf8.decodeTerminated
    let presented := ⟨name, display, data.take d.length.toNat⟩
    match ← instrument.transform (Lookup.host m methods d.loader) presented with
    | .rewritten bytes _ => handOver m bytes
    | .panicked =>
      m.note .error ("Transforming " ++ name.getD "?" ++ " panicked")
      return .unwritten
    | _ => return .unwritten
  | _, _ => return .unwritten

end ThreadWatch.Vm.Agent
