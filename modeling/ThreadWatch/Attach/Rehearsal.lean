import ThreadWatch.Attach

/-!
# Rehearsals

A runtime kept in memory, in which attaching can be rehearsed: classes with their bytes, a place
for the hook, and a record of what was asked.
-/

namespace ThreadWatch

/-- What a class does when it is to go through the hook again. -/
inductive Compliance where
  | complies
  | unmodifiable
  | fails
  deriving DecidableEq, Repr

structure RehearsedClass where
  name : String
  bytes : Bytes
  compliance : Compliance
  deriving DecidableEq, Repr

structure Rehearsal where
  classes : List RehearsedClass
  /-- Why the hook cannot be installed. -/
  installFault : Option Fault
  /-- Why the classes cannot be listed. -/
  listFault : Option Fault
  hook : Option Instrument
  /-- The names of the classes asked to go through the hook again. -/
  asked : Array String
  lines : Array String
  /-- Whether a class was given up on the way. There is nothing that would answer this, so such a
  rehearsal comes to nothing. -/
  panicked : Bool

namespace Rehearsal

def opening (classes : List RehearsedClass) (installFault listFault : Option Fault) : Rehearsal :=
  ⟨classes, installFault, listFault, none, #[], #[], false⟩

def host (source : Host.Fixed) : Host Rehearsal where
  load name := return source name
  print line := modify fun r => { r with lines := r.lines.push line }
  note _ _ := pure ()

def installHook (t : Instrument) : StateM Rehearsal (Except Fault Unit) := do
  match (← get).installFault with
  | some fault => return .error fault
  | none =>
    modify fun r => { r with hook := some t }
    return .ok ()

def loadedTypes : StateM Rehearsal (Except Fault (List (LoadedType Nat))) := do
  match (← get).listFault with
  | some fault => return .error fault
  | none => return .ok ((← get).classes.zipIdx.map fun (c, index) => ⟨c.name, index⟩)

/-- Send a class through the hook; without one there is nothing to go through. -/
def comply (source : Host.Fixed) (index : Nat) (c : RehearsedClass) :
    StateM Rehearsal (Except Fault RetransformStatus) := do
  match (← get).hook with
  | none => return .error (.reported "no hook installed")
  | some t =>
    let outcome ← t.transform (host source) ⟨some c.name, some (toDotted c.name), c.bytes⟩
    modify fun r => { r with
      classes := r.classes.set index { c with bytes := outcome.bytesOr c.bytes }
      panicked := r.panicked || outcome = .panicked }
    return .ok .retransformed

def retransform (source : Host.Fixed) (index : Nat) :
    StateM Rehearsal (Except Fault RetransformStatus) := do
  match (← get).classes[index]? with
  | none => return .error (.reported "no such class")
  | some c =>
    modify fun r => { r with asked := r.asked.push c.name }
    match c.compliance with
    | .complies => comply source index c
    | .unmodifiable => return .ok .unmodifiable
    | .fails => return .error (.jvmti "RetransformClasses" 62)

def runtime (source : Host.Fixed) : Runtime Rehearsal Nat where
  installHook := installHook
  loadedTypes := loadedTypes
  retransform := retransform source
  release _ := pure ()

end Rehearsal

end ThreadWatch
