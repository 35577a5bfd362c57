import ThreadWatch.Vm.Native

/-!
# Looking up classes through a loader

A class file is a resource of its loader, opened as a stream and read whole. Opening one may load
further classes and so come back to the agent. A lookup that starts while the mark of another is
set finds nothing, and takes the mark away: of the lookups within a lookup the first is refused,
and the next is performed.
-/

namespace ThreadWatch.Vm

variable {σ : Type} (m : Machine σ)

namespace LookupMethods

def resolve : Act σ LookupMethods := do
  let loaderType ← m.findClass "java/lang/ClassLoader"
  m.holding loaderType do
    let streamType ← m.findClass "java/io/InputStream"
    m.holding streamType do
      let open' := "(Ljava/lang/String;)Ljava/io/InputStream;"
      let getResource ← m.method loaderType "getResourceAsStream" open'
      let getSystemResource ← m.staticMethod loaderType "getSystemResourceAsStream" open'
      let readAll ← m.method streamType "readAllBytes" "()[B"
      let close ← m.method streamType "close" "()V"
      let loaderType ← m.globalRef loaderType
      return ⟨loaderType, getResource, getSystemResource, readAll, close⟩

end LookupMethods

namespace Lookup

variable (methods : LookupMethods)

/-- The stream of a resource; without a loader the system's own is asked. -/
def openResource (loader : Option Object) (name : Object) : Act σ (Option Object) :=
  match loader with
  | none => m.callStaticObject methods.loaderType methods.getSystemResource name
  | some loader => m.callObject loader methods.getResource (some name)

def readStream (stream : Object) : Act σ (Option Bytes) := do
  match ← m.callObject stream methods.readAll none with
  | none => return none
  | some array => m.holding array (some <$> m.byteArray array)

/-- A stream is closed however reading it went. -/
def closeStream (resource : String) (stream : Object) : StateM (World σ) Unit := do
  match ← (m.callVoid stream methods.close).run with
  | .ok () => pure ()
  | .error fault => m.note .debug ("Closing " ++ resource ++ " failed: " ++ fault.message)

def readResource (loader : Option Object) (resource : String) : Act σ (Option Bytes) :=
  m.framed 8 do
    let name ← m.newString resource
    m.holding name do
      match ← openResource m methods loader name with
      | none => return none
      | some stream =>
        m.holding stream
          ((readStream m methods stream).andThen (closeStream m methods resource stream))

/-- Set or clear the mark of a lookup. -/
def mark (isUnderWay : Bool) : StateM (World σ) Unit :=
  modify fun w => { w with agent := { w.agent with lookingUp := isUnderWay } }

/-- Do `body` under the mark of a lookup, or `refuse` if the mark of another is set; either way it is
clear then. -/
def guarded {α : Type} (refuse body : StateM (World σ) α) : StateM (World σ) α := do
  if (← get).agent.lookingUp then
    mark false
    refuse
  else
    mark true
    let result ← body
    mark false
    return result

/-- What a refused lookup of a name does. -/
def skip (name : String) : StateM (World σ) Answer := do
  m.note .trace ("Skipping nested lookup of " ++ name)
  return .ok none

/-- The class file of a name, unless the mark of a lookup is set. -/
def load (loader : Option Object) (name : String) : StateM (World σ) Answer :=
  guarded (skip m name) do
    let found ← (readResource m methods loader (name ++ ".class")).run
    return found.map fun bytes => bytes.map (⟨.owned, ·⟩)

def host (loader : Option Object) : Host (World σ) := ⟨load m methods loader, m.print, m.note⟩

end Lookup

end ThreadWatch.Vm
