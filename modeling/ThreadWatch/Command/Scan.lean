import ThreadWatch.Command.Input
import ThreadWatch.Report.Json
import ThreadWatch.Report.Table

/-!
# Scanning

Every call of a starting or joining method in the classes given, and what instrumenting would do to
it. Nothing is written.
-/

namespace ThreadWatch.Command

open Report

/-- What instrumenting does to a call. -/
inductive Treatment where
  | excluded
  | traceWithStack
  | trace
  | skip
  deriving DecidableEq, Repr

namespace Treatment

def name : Treatment → String
  | excluded => "excluded"
  | traceWithStack => "trace + stack"
  | trace => "trace"
  | skip => "skip"

/-- Whether the call gets a probe. -/
def isTrace : Treatment → Bool
  | traceWithStack | trace => true
  | excluded | skip => false

def ofProbe (isExcluded : Bool) (probe : Option Probe) : Treatment :=
  if isExcluded then excluded
  else
    match probe with
    | none => skip
    | some probe => if probe.dumpStack then traceWithStack else trace

end Treatment

structure ScannedSite where
  /-- The method that makes the call. -/
  method : String
  offset : Nat
  kind : InvokeKind
  /-- The method that is called. -/
  call : String
  resolution : Option Resolution
  treatment : Treatment
  deriving DecidableEq, Repr

namespace ScannedSite

def ofDecision (w : Workpiece) (isExcluded : Bool) (d : Decision) : ScannedSite where
  method := w.enclosingMethod d.site
  offset := d.site.offset
  kind := d.site.kind
  call := d.site.signature
  resolution := d.resolution
  treatment := .ofProbe isExcluded d.probe

def declaredBy (s : ScannedSite) : Option String :=
  match s.resolution with
  | some (.declared type) => some (toDotted type)
  | _ => none

def unresolved (s : ScannedSite) : Option String :=
  match s.resolution with
  | some (.unresolved cause) => some cause.message
  | _ => none

def json (s : ScannedSite) : Json := .object [
  ("method", .text s.method), ("offset", .number s.offset), ("invoke", .text s.kind.name),
  ("call", .text s.call), ("declared_by", .ofOption .text s.declaredBy),
  ("unresolved", .ofOption .text s.unresolved), ("action", .text s.treatment.name)]

def columns : List Column := [
  .right "OFFSET", .left "METHOD", .left "CALL", .left "DECLARED BY", .left "ACTION"]

def cells (s : ScannedSite) : List String :=
  let declared := match s.resolution with
    | some (.declared type) => toDotted type
    | some (.unresolved cause) => "? (" ++ cause.message ++ ")"
    | none => "-"
  [toString s.offset, s.method, s.kind.name ++ " " ++ s.call, declared, s.treatment.name]

end ScannedSite

structure ScannedClass where
  /-- The internal name. -/
  name : String
  isExcluded : Bool
  sites : List ScannedSite
  deriving DecidableEq, Repr

namespace ScannedClass

def json (c : ScannedClass) : Json := .object [
  ("class", .text (toDotted c.name)), ("excluded", .bool c.isExcluded),
  ("sites", .list (c.sites.map ScannedSite.json))]

def lines (c : ScannedClass) : List String :=
  (toDotted c.name ++ ":") ::
    (Table.lines ScannedSite.columns (c.sites.map ScannedSite.cells)).map ("  " ++ ·) ++ [""]

end ScannedClass

structure ScanReport where
  files : Nat
  /-- The files that do not parse. -/
  skipped : List Path
  /-- The classes that make such calls. -/
  classes : List ScannedClass
  deriving DecidableEq, Repr

namespace ScanReport

def sites (r : ScanReport) : List ScannedSite := r.classes.flatMap ScannedClass.sites

def traced (r : ScanReport) : Nat := r.sites.countP (·.treatment.isTrace)

def json (r : ScanReport) : Json := .object [
  ("files", .number r.files), ("skipped", .texts r.skipped),
  ("classes", .list (r.classes.map ScannedClass.json))]

def lines (r : ScanReport) : List String :=
  r.classes.flatMap ScannedClass.lines ++
    [s!"{r.sites.length} call sites in {r.classes.length} of {r.files} classes, " ++
      s!"{r.traced} would be instrumented"] ++
    if r.skipped.isEmpty then [] else [s!"Skipped {r.skipped.length} unparseable files"]

end ScanReport

namespace Scan

/-- The calls of a class that could be watched. -/
def sitesOf (t : Instrument) (h : Host Session) (isExcluded : Bool) (w : Workpiece) :
    Work (List ScannedSite) := do
  match ← Work.of (t.inspect h w) with
  | .error fault => throw (.failed (.ofFault fault))
  | .ok decisions =>
    return (decisions.filter fun d => (Operation.ofName? d.site.name).isSome).map
      (.ofDecision w isExcluded)

/-- Scan one class; one without calls that could be watched is not reported. -/
def scanClass (t : Instrument) (h : Host Session) (c : InputClass) (r : ScanReport) :
    Work ScanReport := do
  match Workpiece.parse c.bytes with
  | .error fault =>
    Work.of (h.note .warn ("Skipping " ++ c.path ++ ": " ++ fault.message))
    return { r with skipped := r.skipped ++ [c.relative] }
  | .ok w =>
    let isExcluded := (t.settings.excludes c.name).isSome
    let sites ← sitesOf t h isExcluded w
    if sites.isEmpty then return r
    else return { r with classes := r.classes ++ [⟨c.name, isExcluded, sites⟩] }

def run (input : Path) (o : Options) : Work ScanReport := do
  let material ← Work.ofExcept (Material.gather (← get).tree input o)
  let h := host material.sources
  let t ← instrumentFor o h
  material.classes.foldlM (fun r c => scanClass t h c r) ⟨material.classes.length, [], []⟩

end Scan

end ThreadWatch.Command
