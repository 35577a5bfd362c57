import ThreadWatch.Command.Failure
import ThreadWatch.Output
import ThreadWatch.Types.Source

/-!
# Sessions

What a command works on: the files, and what it was told while it worked. A step that fails leaves
the session as it is then, so files that are written stay written.
-/

namespace ThreadWatch.Command

structure Session where
  tree : Tree
  /-- The lines that instrumenting printed. -/
  diagnostics : Array String
  /-- The names of the classes that were looked for. -/
  asked : Array String
  notes : Array (Level × String)
  deriving DecidableEq, Repr

def Session.opening (tree : Tree) : Session := ⟨tree, #[], #[], #[]⟩

/-- Why a command ends before it has anything to report. -/
inductive Halt where
  | failed (failure : Failure)
  /-- A class was given up, which nothing answers. -/
  | panicked
  deriving DecidableEq, Repr

abbrev Work := EStateM Halt Session

namespace Work

def of {α : Type} (step : StateM Session α) : Work α := fun s =>
  let (a, s) := step s
  .ok a s

def ofExcept {α : Type} : Except Failure α → Work α
  | .ok a => pure a
  | .error f => throw (.failed f)

/-- A step on the files, and what it is for. -/
def onFiles (purpose : String) (step : Tree → Except FileTrouble Tree) : Work Unit := do
  let tree ← ofExcept (Failure.within purpose ((step (← get).tree).mapError .ofTrouble))
  modify fun s => { s with tree }

end Work

/-- Classes are read from sources, as the files are at that time. -/
def host (sources : List Source) : Host Session where
  load name := do
    modify fun s => { s with asked := s.asked.push name }
    return Source.loadFirst (← get).tree name sources
  print line := modify fun s => { s with diagnostics := s.diagnostics.push line }
  note level text := modify fun s => { s with notes := s.notes.push (level, text) }

end ThreadWatch.Command
