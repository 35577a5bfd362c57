import ThreadWatch.Text.Utf8
import ThreadWatch.Vm.Machine

/-!
# The tool interface

Calls that tell by a code whether they succeeded. What the machine allocates for an answer is given
back once it is read.
-/

namespace ThreadWatch.Vm.Machine

variable {σ : Type} (m : Machine σ)

def checkCode (operation : String) (code : UInt32) : Act σ Unit :=
  if code = 0 then pure () else throw (.jvmti operation code)

/-- The version of the tool interface that the agent needs. -/
def toolVersion : UInt32 := 0x30010200

def openTools : Act σ Unit := do
  let (code, given) ← m.call (.getEnv toolVersion)
  if code ≠ 0 || !given then throw (.jvmti "GetEnv" (UInt32.ofNat code.toInt.natAbs))

/-- Seeing every class definition, and presenting loaded classes again. -/
def capabilities : List Nat := [26, 37]

def addCapabilities : Act σ Unit := do
  checkCode "AddCapabilities" (← m.call (.addCapabilities capabilities))

/-- The first and the last callback of the table, for the machine's start and for class
definitions. -/
def callbacks : List Bool := [true, false, false, false, true]

def setCallbacks : Act σ Unit := do
  checkCode "SetEventCallbacks" (← m.call (.setEventCallbacks callbacks))

def enable (event : Event) : Act σ Unit := do
  checkCode "SetEventNotificationMode" (← m.call (.enableEvent event))

def giveBack : StateM (World σ) Unit := do
  let code ← m.call .deallocate
  if code ≠ 0 then m.note .warn s!"JVMTI Deallocate failed with error {code}"

def loadedClasses : Act σ (List Object) := do
  let (code, classes) ← m.call .getLoadedClasses
  checkCode "GetLoadedClasses" code
  match classes with
  | none => return []
  | some classes =>
    m.giveBack
    return classes

def signature (type : Object) : Act σ String := do
  let (code, text) ← m.call (.getClassSignature type)
  checkCode "GetClassSignature" code
  match text with
  | none => throw (.jvmti "GetClassSignature" code)
  | some text =>
    m.giveBack
    return Utf8.decodeTerminated text

def retransform (type : Object) : Act σ Unit := do
  checkCode "RetransformClasses" (← m.call (.retransformClass type))

def allocate (size : Nat) : Act σ Unit := do
  checkCode "Allocate" (← m.call (.allocate size))

/-- The machine's name for a code, empty if it has none. -/
def errorName (code : UInt32) : StateM (World σ) String := do
  match ← m.call (.getErrorName code) with
  | (0, some text) =>
    m.giveBack
    return Utf8.decodeTerminated text
  | _ => return ""

end ThreadWatch.Vm.Machine
