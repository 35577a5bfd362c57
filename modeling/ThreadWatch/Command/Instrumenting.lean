import ThreadWatch.Command.Input
import ThreadWatch.Report.Json
import ThreadWatch.Report.Table

/-!
# Instrumenting files

Every class given is instrumented, and written if there is an output: rewritten or as it was, below
the output directory at the path it had below the input.
-/

namespace ThreadWatch.Command

open Report

structure InstrumentedFile where
  relative : Path
  /-- The internal name. -/
  name : String
  outcome : Outcome
  /-- Where the class was written. -/
  written : Option Path
  deriving DecidableEq, Repr

namespace InstrumentedFile

def json (f : InstrumentedFile) : Json := .object [
  ("file", .text f.relative), ("class", .text (toDotted f.name)),
  ("outcome", .text f.outcome.name), ("sites", .number f.outcome.sites),
  ("written", .ofOption .text f.written)]

def columns : List Column := [.left "FILE", .left "CLASS", .left "OUTCOME", .right "SITES"]

def cells (f : InstrumentedFile) : List String :=
  [f.relative, toDotted f.name, f.outcome.name, toString f.outcome.sites]

end InstrumentedFile

structure InstrumentReport where
  results : List InstrumentedFile
  diagnostics : List String
  deriving DecidableEq, Repr

namespace InstrumentReport

def rewritten (r : InstrumentReport) : Nat := r.results.countP (·.outcome.isRewritten)

def sites (r : InstrumentReport) : Nat := r.results.foldl (fun n f => n + f.outcome.sites) 0

def json (r : InstrumentReport) : Json := .object [
  ("files", .number r.results.length), ("rewritten", .number r.rewritten),
  ("sites", .number r.sites), ("results", .list (r.results.map InstrumentedFile.json)),
  ("diagnostics", .texts r.diagnostics)]

/-- The report for people; `hasOutput` tells whether anything was to be written. -/
def lines (quiet hasOutput : Bool) (r : InstrumentReport) : List String :=
  (if quiet then [] else r.diagnostics) ++
    if r.results.isEmpty then ["No class files found"]
    else
      Table.lines InstrumentedFile.columns (r.results.map InstrumentedFile.cells) ++ ["",
        s!"Instrumented {r.sites} call sites in {r.rewritten} of {r.results.length} classes"] ++
        if hasOutput then [] else ["Nothing written, pass --output to save the classes"]

end InstrumentReport

namespace Instrumenting

/-- Write a file, and make the directories above it. -/
def write (path : Path) (bytes : Bytes) : Work Unit := do
  match path.parent? with
  | none | some "" => pure ()
  | some parent =>
    Work.onFiles ("failed to create directory: " ++ parent) (·.makeDirectories parent)
  Work.onFiles ("failed to write: " ++ path) (·.writeFile path bytes)

/-- Where a class goes. -/
def destination (isDirectory : Bool) (output : Path) (c : InputClass) : Path :=
  if isDirectory then output.join c.relative else output

/-- Instrument one class and write it. -/
def instrumentClass (t : Instrument) (h : Host Session) (destination : Option (InputClass → Path))
    (c : InputClass) : Work InstrumentedFile := do
  let outcome ← Work.of (t.transform h ⟨some c.name, some (toDotted c.name), c.bytes⟩)
  if outcome = .panicked then throw .panicked
  match destination with
  | none => return ⟨c.relative, c.name, outcome, none⟩
  | some place =>
    write (place c) (outcome.bytesOr c.bytes)
    return ⟨c.relative, c.name, outcome, some (place c)⟩

def run (input : Path) (output : Option Path) (o : Options) : Work InstrumentReport := do
  let tree := (← get).tree
  let material ← Work.ofExcept (Material.gather tree input o)
  let h := host material.sources
  let t ← instrumentFor o h
  let place := output.map (destination (tree.isDirectory input))
  let results ← material.classes.mapM (instrumentClass t h place)
  return ⟨results, (← get).diagnostics.toList⟩

end Instrumenting

end ThreadWatch.Command
