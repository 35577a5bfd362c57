import ThreadWatch.Name
import ThreadWatch.Output
import ThreadWatch.Text.Blank
import ThreadWatch.Text.Segments

/-!
# Settings

Which classes are left alone and which options are on: the first from an option string, the others
from the mere presence of variables.
-/

namespace ThreadWatch

structure Flags where
  reportUnresolved : Bool
  traceJoin : Bool
  traceCaller : Bool
  deriving DecidableEq, Repr

namespace Flags

def none : Flags := ⟨false, false, false⟩

/-- The names of the options that are on. -/
def names (f : Flags) : List String :=
  (if f.reportUnresolved then ["REPORT_UNRESOLVED"] else []) ++
    (if f.traceJoin then ["TRACE_JOIN"] else []) ++
    (if f.traceCaller then ["TRACE_CALLER"] else [])

/-- Each option is on if its variable is set, whatever it is set to. -/
def ofVariables (isSet : String → Bool) : Flags where
  reportUnresolved := isSet "THREADSCOPE_REPORT_UNRESOLVED"
  traceJoin := isSet "THREADSCOPE_TRACE_JOIN"
  traceCaller := isSet "THREADSCOPE_TRACE_CALLER"

end Flags

/-- The excluded class name leads of an option string: what stands between commas, less the white
space around it, with slashes for dots. -/
def parseExclusions (argument : String) : List String :=
  let pieces := (Segments.split ',' argument.toList).map Blank.trim
  (pieces.filter (!·.isEmpty)).map fun piece => toInternal (String.ofList piece)

structure Settings where
  argument : Option String
  excluded : List String
  flags : Flags
  deriving DecidableEq, Repr

namespace Settings

def new (excluded : List String) (flags : Flags) : Settings := ⟨none, excluded, flags⟩

def ofArgument (argument : Option String) (flags : Flags) : Settings where
  argument
  excluded := (argument.map parseExclusions).getD []
  flags

/-- The first excluded lead that `name` starts with. -/
def excludes (s : Settings) (name : String) : Option String :=
  let letters := name.toList
  s.excluded.find? fun lead => lead.toList.isPrefixOf letters

/-- What is said about the settings at the start. -/
def summary (s : Settings) : List String := [
  "Arg: " ++ s.argument.getD "null",
  "Ignoring excluded: " ++ String.intercalate "," s.excluded,
  "Flags: " ++ if s.flags.names.isEmpty then "none" else String.intercalate "," s.flags.names]

def announce {σ : Type} (s : Settings) (h : Host σ) : StateM σ Unit := s.summary.forM h.line

end Settings

end ThreadWatch
