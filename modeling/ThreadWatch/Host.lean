import ThreadWatch.Bytes.Scalar

/-!
# Hosts

What the instrument asks of its surroundings and tells them: class bytes by name, lines of output,
and notes for its own developers. A host acts on a state of its own kind; the recording host keeps
what it was asked and told.
-/

namespace ThreadWatch

/-- Whether bytes were copied or are read where they lie. -/
inductive Storage where
  | owned
  | mapped
  deriving DecidableEq, Repr

structure ClassBytes where
  storage : Storage
  bytes : Bytes
  deriving DecidableEq, Repr

def ClassBytes.describe (c : ClassBytes) : String :=
  let kind := match c.storage with
    | .owned => "Owned"
    | .mapped => "Mapped"
  kind ++ s!"({c.bytes.length} bytes)"

/-- A class's bytes, nothing for a class that is not there, or why it cannot be read. -/
abbrev Answer := Except Fault (Option ClassBytes)

/-- How much a note matters. -/
inductive Level where
  | error
  | warn
  | info
  | debug
  | trace
  deriving DecidableEq, Repr

def Level.name : Level → String
  | error => "ERROR"
  | warn => "WARN"
  | info => "INFO"
  | debug => "DEBUG"
  | trace => "TRACE"

structure Host (σ : Type) where
  /-- The class file of an internal name. -/
  load : String → StateM σ Answer
  /-- A whole line of output, marker included. -/
  print : String → StateM σ Unit
  note : Level → String → StateM σ Unit

namespace Host

variable {σ : Type}

/-- A source that gives each name the same answer always. -/
abbrev Fixed := String → Answer

/-- The names asked for and the lines printed so far. -/
structure Record where
  asked : Array String
  lines : Array String
  deriving DecidableEq, Repr

def Record.empty : Record := ⟨#[], #[]⟩

def recording (source : Fixed) : Host Record where
  load name := do
    modify fun r => { r with asked := r.asked.push name }
    return source name
  print line := modify fun r => { r with lines := r.lines.push line }
  note _ _ := pure ()

end Host

end ThreadWatch
