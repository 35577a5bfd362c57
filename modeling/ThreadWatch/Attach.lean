import ThreadWatch.Instrument

/-!
# Attaching

The instrument is set up, hooked into a runtime, and every class that is already loaded is passed
through the hook once more.
-/

namespace ThreadWatch

/-- What came of passing a loaded class through the hook. -/
inductive RetransformStatus where
  | retransformed
  | unmodifiable
  deriving DecidableEq, Repr

/-- A loaded class: its internal name, and the runtime's handle on it. -/
structure LoadedType (κ : Type) where
  name : String
  handle : κ

/-- A runtime acting on a state, with handles of its own kind on its classes. -/
structure Runtime (σ κ : Type) where
  /-- Run the instrument on every class defined from now on. -/
  installHook : Instrument → StateM σ (Except Fault Unit)
  loadedTypes : StateM σ (Except Fault (List (LoadedType κ)))
  /-- Present a loaded class to the hook again. -/
  retransform : κ → StateM σ (Except Fault RetransformStatus)
  /-- Let go of a handle. -/
  release : κ → StateM σ Unit

structure Tally where
  succeeded : Nat
  refused : Nat
  deriving DecidableEq, Repr

def Tally.total (t : Tally) : Nat := t.succeeded + t.refused

structure AttachReport where
  settings : Settings
  tally : Tally
  deriving DecidableEq, Repr

namespace Attach

variable {σ κ : Type}

/-- What the names of the instrument's own classes start with. -/
def selfNamespace : String := "threadscope/"

def isOwn (name : String) : Bool := selfNamespace.toList.isPrefixOf name.toList

/-- Pass one class through the hook; a failure counts as a refusal. -/
def retransformOne (rt : Runtime σ κ) (h : Host σ) (type : LoadedType κ) (tally : Tally) :
    StateM σ Tally := do
  match ← rt.retransform type.handle with
  | .ok .retransformed => return { tally with succeeded := tally.succeeded + 1 }
  | .ok .unmodifiable => return { tally with refused := tally.refused + 1 }
  | .error fault =>
    h.note .warn ("Retransforming " ++ type.name ++ " failed: " ++ fault.message)
    return { tally with refused := tally.refused + 1 }

def retransformEach (rt : Runtime σ κ) (h : Host σ) :
    List (LoadedType κ) → Tally → StateM σ Tally
  | [], tally => return tally
  | type :: rest, tally => do
    if isOwn type.name then
      h.line ("Ignoring " ++ toDotted type.name)
      rt.release type.handle
      retransformEach rt h rest tally
    else
      let tally ← retransformOne rt h type tally
      rt.release type.handle
      retransformEach rt h rest tally

/-- Pass every loaded class but the instrument's own through the hook. -/
def retransformAll (rt : Runtime σ κ) (h : Host σ) : StateM σ (Except Fault Tally) := do
  h.line "Trying to retransform loaded classes"
  match ← rt.loadedTypes with
  | .error fault => return .error fault
  | .ok types =>
    let tally ← retransformEach rt h types ⟨0, 0⟩
    let ⟨succeeded, refused⟩ := tally
    h.line s!"Retransform loaded classes; {succeeded}x successful, {refused}x failed"
    return .ok tally

/-- The watched type is resolved before anything is installed. -/
def attach (rt : Runtime σ κ) (h : Host σ) (argument : Option String) (isSet : String → Bool) :
    StateM σ (Except Fault AttachReport) := do
  let settings := Settings.ofArgument argument (Flags.ofVariables isSet)
  settings.announce h
  match ← Target.resolve h with
  | .error fault => return .error fault
  | .ok target =>
    h.note .debug ("Monitoring " ++ target.info.name ++ " and its subtypes")
    match ← rt.installHook (Instrument.new settings (some target)) with
    | .error fault => return .error fault
    | .ok () =>
      match ← retransformAll rt h with
      | .error fault => return .error fault
      | .ok tally => return .ok ⟨settings, tally⟩

end Attach

end ThreadWatch
