import ThreadWatch.Vm.Agent
import ThreadWatch.Vm.Script

/-!
# A staged machine

A machine made of a script, loaders with their resources and loaded classes. It does what is asked
of it, save where its script says otherwise, keeps a record of the calls, and counts what it hands
out against what comes back.
-/

namespace ThreadWatch.Vm

/-- A class definition to be presented to the agent. -/
structure Presentation where
  name : Option Bytes
  data : Option Bytes
  loader : Option String
  /-- Signature of the class that is defined anew. -/
  redefined : Option String
  /-- The length that is claimed, if it is not that of the data. -/
  claimed : Option Int
  deriving DecidableEq, Repr

def Presentation.definition (p : Presentation) : Agent.Definition where
  name := p.name
  redefined := p.redefined.map .type
  loader := p.loader.map .loader
  data := p.data
  length := p.claimed.getD (p.data.getD []).length

structure Resource where
  name : String
  bytes : Bytes
  /-- The classes that are defined while the resource is opened. -/
  opening : List Presentation
  deriving DecidableEq, Repr

structure LoadedClass where
  signature : String
  bytes : Bytes
  loader : Option String
  deriving DecidableEq, Repr

/-- One entry of the record. -/
inductive Mark where
  | called (call : Call)
  /-- A loaded class went through the agent. -/
  | retransformed (signature : String) (bytes : Option Bytes)
  /-- A class is being defined while a resource is opened. -/
  | nested
  | nestedEnd (bytes : Option Bytes)
  deriving DecidableEq, Repr

/-- Whether an entry is more than bookkeeping. -/
def Mark.isShown : Mark → Bool
  | called .exceptionCheck | called (.deleteLocalRef _) | called .deallocate
  | called (.fatalError _) => false
  | _ => true

structure Stage where
  script : Script
  loaders : List (String × List Resource)
  classes : List LoadedClass
  isRegistered : Bool
  isHooked : Bool
  marks : Array Mark
  lines : Array String
  notes : Array (Level × String)
  localRefs : Int
  memory : Int
  frames : Int
  isPending : Bool
  fatal : Option String
  deriving DecidableEq, Repr

/-- A step of the staged machine. -/
abbrev Staging := StateM (World Stage)

namespace Stage

def opening (script : Script) (loaders : List (String × List Resource))
    (classes : List LoadedClass) : Stage where
  script
  loaders
  classes
  isRegistered := false
  isHooked := false
  marks := #[]
  lines := #[]
  notes := #[]
  localRefs := 0
  memory := 0
  frames := 0
  isPending := false
  fatal := none

def change (f : Stage → Stage) : Staging Unit := modify fun w => { w with machine := f w.machine }

def record (mark : Mark) : Staging Unit := change fun s => { s with marks := s.marks.push mark }

def resource? (s : Stage) (loader name : String) : Option Resource :=
  (s.loaders.lookup loader).bind fun resources => resources.find? (·.name == name)

/-- Hand out a local reference, if there is one to hand out. -/
def handOut (object : Option Object) : Staging (Option Object) := do
  change fun s => { s with localRefs := s.localRefs + object.toList.length }
  return object

/-- Nothing instead of a reply, with an exception pending if the script throws. -/
def refuse (reaction : Reaction) : Staging Unit :=
  if reaction = .throws then change fun s => { s with isPending := true } else pure ()

/-- The reply that is a reference, or null where the script says so. -/
def reference {α : Type} (c : Call) (usual : Staging (Option α)) : Staging (Option α) := do
  match (← get).machine.script.reaction c with
  | none | some (.code _) => usual
  | some reaction =>
    refuse reaction
    return none

/-- A scripted code, if there is one. -/
def scriptedCode (c : Call) : Staging (Option UInt32) := do
  match (← get).machine.script.reaction c with
  | none => return none
  | some (.code n) => return some (UInt32.ofNat (n.emod (spellable 4)).toNat)
  | some reaction =>
    refuse reaction
    return some 0

/-- A code of a call that has its effect whenever the code is zero. -/
def coded (c : Call) (effect : Staging Unit) : Staging UInt32 := do
  let code := (← scriptedCode c).getD 0
  if code = 0 then effect
  return code

/-- A code of a call that has its effect only where the script says nothing. -/
def unscripted (c : Call) (effect : Staging Unit) : Staging UInt32 := do
  match ← scriptedCode c with
  | some code => return code
  | none =>
    effect
    return 0

/-- A code and something the machine allocates to hold the answer. -/
def allocated {α : Type} (c : Call) (usual : Staging α) : Staging (UInt32 × Option α) := do
  match ← scriptedCode c with
  | some code => return (code, none)
  | none =>
    change fun s => { s with memory := s.memory + 1 }
    return (0, some (← usual))

def loadedObjects (s : Stage) : List Object :=
  s.classes.zipIdx.map fun (c, index) => .loaded index c.signature

/-- The agent's answer to a class definition; memory that holds a new class is the machine's. -/
def define (hook : Agent.Definition → Staging Agent.Outputs) (d : Agent.Definition) :
    Staging (Option Bytes) := do
  let outputs ← hook d
  change fun s => { s with memory := s.memory - outputs.data.toList.length }
  return outputs.replacement

/-- The name in a signature that has both of its ends. -/
def signatureName (signature : String) : Option String :=
  let name := Agent.internalName signature
  if name = signature then none else some name

/-- Present a loaded class to the agent again, and keep what it makes of it. -/
def represent (hook : Agent.Definition → Staging Agent.Outputs) (type : Object) :
    Staging Unit := do
  match type with
  | .loaded index _ =>
    match (← get).machine.classes[index]? with
    | none => pure ()
    | some c =>
      let bytes ← define hook {
        name := (signatureName c.signature).map fun name => name.toUTF8.toList
        redefined := some type
        loader := c.loader.map .loader
        data := some c.bytes
        length := c.bytes.length }
      record (.retransformed c.signature bytes)
      change fun s =>
        { s with classes := s.classes.set index { c with bytes := bytes.getD c.bytes } }
  | _ => pure ()

/-- Open a resource of a loader; classes that this defines go through the agent first. -/
def openResource (hook : Agent.Definition → Staging Agent.Outputs) (loader name : String) :
    Staging (Option Object) := do
  match (← get).machine.resource? loader name with
  | none => return none
  | some resource =>
    resource.opening.forM fun p => do
      record .nested
      record (.nestedEnd (← define hook p.definition))
    handOut (some (.stream loader name))

/-- What a method does. -/
def invoke (hook : Agent.Definition → Staging Agent.Outputs) (receiver : Object)
    (argument : Option Object) : Staging (Option Object) :=
  match receiver, argument with
  | .loader loader, some name => openResource hook loader name.label
  | .stream loader name, none => handOut (some (.array loader name))
  | .lasting _, some name => openResource hook "system" name.label
  | _, _ => return none

/-- The bytes of an array. -/
def content (s : Stage) : Object → Bytes
  | .array loader name => ((s.resource? loader name).map Resource.bytes).getD []
  | _ => []

/-- A reply, the call being on record already; `hook` is where class definitions go. -/
def reply (hook : Agent.Definition → Staging Agent.Outputs) : (c : Call) → Staging c.Reply
  | c@(.getEnv _) => do
    match (← get).machine.script.reaction c with
    | some (.code n) => return (Int32.ofInt n, false)
    | some reaction =>
      refuse reaction
      return (0, false)
    | none => return (0, true)
  | c@(.addCapabilities _) => unscripted c (pure ())
  | c@(.allocate _) => unscripted c (change fun s => { s with memory := s.memory + 1 })
  | c@(.setEventCallbacks _) => unscripted c (change ({ · with isRegistered := true }))
  | c@(.enableEvent event) => coded c do
    if event = .classDefinition then change ({ · with isHooked := true })
  | c@.getLoadedClasses => allocated c do
    let objects := (← get).machine.loadedObjects
    change fun s => { s with localRefs := s.localRefs + objects.length }
    return objects
  | c@(.getClassSignature type) => allocated c (return type.label.toUTF8.toList)
  | c@(.retransformClass type) => coded c do
    if (← get).machine.isHooked then represent hook type
  | c@.deallocate => do
    change fun s => { s with memory := s.memory - 1 }
    unscripted c (pure ())
  | c@(.getErrorName code) => allocated c (return s!"JVMTI_ERROR_{code}".toUTF8.toList)
  | c@(.findClass name) => reference c (handOut (some (.type name)))
  | c@(.getMethod _ name _) | c@(.getStaticMethod _ name _) => reference c (return some ⟨name⟩)
  | c@(.newGlobalRef object) => reference c (return some (.lasting object))
  | .deleteLocalRef _ => change fun s => { s with localRefs := s.localRefs - 1 }
  | c@(.pushLocalFrame _) => do
    match (← get).machine.script.reaction c with
    | some (.code n) =>
      if n = 0 then change fun s => { s with frames := s.frames + 1 }
      return Int32.ofInt n
    | some reaction =>
      refuse reaction
      return -1
    | none =>
      change fun s => { s with frames := s.frames + 1 }
      return 0
  | .popLocalFrame => change fun s => { s with frames := s.frames - 1 }
  | c@(.newString text) => reference c (handOut (some (.string text)))
  | c@(.callObject receiver _ argument) => reference c (invoke hook receiver argument)
  | c@(.callStaticObject type _ argument) => reference c (invoke hook type (some argument))
  | c@(.callVoid _ _) => do
    let _ ← reference c (return some ())
  | c@(.getArrayLength array) => do
    match (← get).machine.script.reaction c with
    | some (.code n) => return Int32.ofInt n
    | some reaction =>
      refuse reaction
      return if reaction = .throws then -1 else 0
    | none => return Int32.ofNat ((← get).machine.content array).length
  | c@(.getByteArrayRegion array length) => do
    let bytes ← reference c (return some (((← get).machine.content array).take length.toInt.toNat))
    return bytes.getD []
  | .exceptionCheck => return (← get).machine.isPending
  | .exceptionDescribe => pure ()
  | .exceptionClear => change ({ · with isPending := false })
  | .fatalError text => change ({ · with fatal := some text })

/-- A staged machine whose class definitions go to `hook`. -/
def machineWith (isNoting : Bool) (hook : Agent.Definition → Staging Agent.Outputs) :
    Machine Stage where
  call c := do
    record (.called c)
    reply hook c
  print line := change fun s => { s with lines := s.lines.push line }
  note level text := if isNoting then change fun s => { s with notes := s.notes.push (level, text) }
    else pure ()
  isNoting

/-- A staged machine that presents classes to the agent `depth` calls deep. -/
def machine (isNoting : Bool) : Nat → Machine Stage
  | 0 => machineWith isNoting fun _ => return .unwritten
  | depth + 1 => machineWith isNoting (Agent.onDefinition (machine isNoting depth))

/-- How deep class definitions can nest: one for a loaded class that is presented again, and one for
each resource, since no resource is opened while it is being opened. -/
def depth (s : Stage) : Nat :=
  s.loaders.foldl (fun depth (_, resources) => depth + resources.length) 1

end Stage

/-- What is done to the agent. -/
inductive Scene where
  | load (options : Option Bytes)
  | start
  | define (presented : Presentation)
  | script (script : Script)
  deriving DecidableEq, Repr

/-- What a scene came to. -/
inductive Upshot where
  | code (n : Int)
  | nothing
  | bytes (bytes : Option Bytes)
  | noCallback
  | fatal (text : String)
  deriving DecidableEq, Repr

/-- A scene played: what it came to, and what was recorded meanwhile. -/
structure Played where
  upshot : Upshot
  marks : List Mark
  lines : List String
  notes : List (Level × String)
  deriving DecidableEq, Repr

namespace Scene

def act (m : Machine Stage) (isSet : String → Bool) : Scene → Staging Upshot
  | load options => return .code (← Agent.onLoad m options)
  | start => do
    if !(← get).machine.isRegistered then return .noCallback
    Agent.onStart m isSet
    return match (← get).machine.fatal with
      | some text => .fatal text
      | none => .nothing
  | define presented => do
    if !(← get).machine.isRegistered then return .noCallback
    return .bytes (← Stage.define (Agent.onDefinition m) presented.definition)
  | script entries => do
    Stage.change ({ · with script := entries })
    return .nothing

/-- Play a scene on a cleared record. -/
def play (m : Machine Stage) (isSet : String → Bool) (scene : Scene) : Staging Played := do
  Stage.change ({ · with marks := #[], lines := #[], notes := #[] })
  let upshot ← scene.act m isSet
  let s := (← get).machine
  return ⟨upshot, s.marks.toList, s.lines.toList, s.notes.toList⟩

/-- Play scenes one after the other, up to one that ends the machine. -/
def playAll (m : Machine Stage) (isSet : String → Bool) : List Scene → Staging (List Played)
  | [] => return []
  | scene :: rest => do
    let played ← scene.play m isSet
    if (← get).machine.fatal.isSome then return [played]
    return played :: (← playAll m isSet rest)

/-- A whole run, and the stage at its end. -/
def run (isNoting : Bool) (isSet : String → Bool) (stage : Stage) (scenes : List Scene) :
    List Played × Stage :=
  let (played, world) := playAll (Stage.machine isNoting stage.depth) isSet scenes
    ⟨Memory.fresh, stage⟩
  (played, world.machine)

end Scene

end ThreadWatch.Vm
