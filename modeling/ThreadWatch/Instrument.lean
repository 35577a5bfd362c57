import ThreadWatch.Editing.Workpiece
import ThreadWatch.Settings
import ThreadWatch.Types.Target

/-!
# Instrumenting a class

Every call of a class is resolved to the type that declares its target; a watched call gets a
probe. A class either comes out rewritten as a whole or is left as it was.
-/

namespace ThreadWatch

/-- A class as it is presented before it is defined. -/
structure Presented where
  /-- The internal name, of a class that has one. -/
  name : Option String
  /-- The name for people. -/
  display : Option String
  bytes : Bytes
  deriving DecidableEq, Repr

inductive Outcome where
  | unnamed
  | excluded
  | unparseable
  | untouched
  | rewritten (bytes : Bytes) (sites : Nat)
  | failed (fault : Fault)
  /-- Given up where it stood, since a count of slots got too large. Nothing is said about it. -/
  | panicked
  deriving DecidableEq, Repr

namespace Outcome

def name : Outcome → String
  | unnamed => "unnamed"
  | excluded => "excluded"
  | unparseable => "unparseable"
  | untouched => "untouched"
  | rewritten _ _ => "rewritten"
  | failed _ => "failed"
  | panicked => "panicked"

def isRewritten : Outcome → Bool
  | rewritten _ _ => true
  | _ => false

def sites : Outcome → Nat
  | rewritten _ sites => sites
  | _ => 0

/-- The bytes to use for a class that was `given`. -/
def bytesOr (given : Bytes) : Outcome → Bytes
  | rewritten bytes _ => bytes
  | _ => given

end Outcome

/-- How one call is treated. -/
structure Decision where
  site : CallSite
  /-- Nothing if there was no need to resolve the call. -/
  resolution : Option Resolution
  /-- Nothing if the call is left alone. -/
  probe : Option Probe
  deriving DecidableEq, Repr

structure Instrument where
  settings : Settings
  /-- Without a target, a declaring type is watched by its name alone. -/
  target : Option Target
  /-- How an edited class becomes bytes. -/
  finish : Workpiece → Except Fault Bytes

namespace Instrument

variable {σ : Type}

def new (settings : Settings) (target : Option Target) : Instrument :=
  ⟨settings, target, Workpiece.serialize⟩

/-- What is known before anything is asked: the target, and the class itself. -/
def memo (t : Instrument) (info : TypeInfo) : Memo :=
  let memo := match t.target with
    | some target => Hierarchy.seed [] target.info
    | none => []
  Hierarchy.seed memo info

def isWatched (t : Instrument) (h : Host σ) (declaring : String) : Asking σ Bool :=
  match t.target with
  | some target => target.isDeclaredBy h declaring
  | none => return declaring = watchedType

/-- The probe for a watched call; joins are left alone unless they are to be traced. -/
def probeFor (t : Instrument) (operation : Operation) (declaring : String) : Option Probe :=
  let flags := t.settings.flags
  match operation with
  | .start => some ⟨.start, declaring, flags.traceCaller, true⟩
  | .join => if flags.traceJoin then some ⟨.join, declaring, flags.traceCaller, false⟩ else none

/-- The probe for a resolved call. -/
def probe? (t : Instrument) (h : Host σ) (operation : Option Operation) (resolution : Resolution) :
    Asking σ (Option Probe) := do
  match operation, resolution with
  | some operation, .declared type =>
    if ← t.isWatched h type then return t.probeFor operation type else return none
  | _, _ => return none

def decide (t : Instrument) (h : Host σ) (site : CallSite) : Asking σ Decision := do
  let operation := Operation.ofName? site.name
  if operation.isNone && !t.settings.flags.reportUnresolved then return ⟨site, none, none⟩
  let resolution ← Hierarchy.resolve h site.owner site.name site.descriptor
  let probe ← t.probe? h operation resolution
  return ⟨site, some resolution, probe⟩

/-- How every call of a class would be treated, editing nothing. -/
def inspect (t : Instrument) (h : Host σ) (w : Workpiece) :
    StateM σ (Except Fault (List Decision)) := do
  match w.callSites with
  | .error fault => return .error fault
  | .ok sites => return .ok (← (sites.mapM (t.decide h)).run' (t.memo w.info))

/-- Report a call that could not be resolved, if that is wanted. -/
def report (t : Instrument) (h : Host σ) (w : Workpiece) (d : Decision) : StateM σ Unit :=
  match d.resolution with
  | some (.unresolved cause) =>
    if t.settings.flags.reportUnresolved then
      h.line ("Could not find method '" ++ d.site.signature ++ "' called from " ++
        w.enclosingMethod d.site ++ ": " ++ cause.message)
    else pure ()
  | _ => pure ()

/-- Decide and edit site by site; gives the class and how many sites were edited. -/
def editSites (t : Instrument) (h : Host σ) :
    List CallSite → Workpiece → Nat → Asking σ (Except Fault (Workpiece × Nat))
  | [], w, edited => return .ok (w, edited)
  | site :: rest, w, edited => do
    let d ← t.decide h site
    t.report h w d
    match d.probe with
    | none => editSites t h rest w edited
    | some probe =>
      match w.replaceCallSite d.site probe with
      | .error fault _ => return .error fault
      | .ok () w => editSites t h rest w (edited + 1)

/-- The edited class as bytes and the number of edited sites; nothing if there are none. -/
def edit (t : Instrument) (h : Host σ) (w : Workpiece) :
    StateM σ (Except Fault (Option (Bytes × Nat))) := do
  match w.callSites with
  | .error fault => return .error fault
  | .ok sites =>
    match ← (t.editSites h sites w 0).run' (t.memo w.info) with
    | .error fault => return .error fault
    | .ok (_, 0) => return .ok none
    | .ok (w, edited) => return (t.finish w).map fun bytes => some (bytes, edited)

def transform (t : Instrument) (h : Host σ) (p : Presented) : StateM σ Outcome := do
  let display := p.display.getD "null"
  match p.name with
  | none =>
    h.line ("ClassName was null; Class=" ++ display)
    return .unnamed
  | some name =>
    if (t.settings.excludes name).isSome then
      h.line ("Excluded class=" ++ name)
      return .excluded
    match Workpiece.parse p.bytes with
    | .error fault =>
      h.note .debug ("Leaving " ++ name ++ " alone, it does not parse: " ++ fault.message)
      return .unparseable
    | .ok w =>
      match ← t.edit h w with
      | .ok none => return .untouched
      | .ok (some (bytes, sites)) =>
        h.note .debug (s!"Instrumented {sites} call sites in " ++ name)
        return .rewritten bytes sites
      | .error .overflow => return .panicked
      | .error fault =>
        h.line ("Could not instrument " ++ name ++ "/" ++ display ++ ", exception: " ++
          fault.message)
        return .failed fault

end Instrument

end ThreadWatch
