import ThreadWatch.Files.Tree
import ThreadWatch.Host
import ThreadWatch.Text.Segments

/-!
# Class sources

Where class files come from: classes kept by name, directories laid out by package, and several
sources searched in order.
-/

namespace ThreadWatch

/-- Classes kept in memory, and the names whose reading fails. -/
structure Shelf where
  classes : List (String × Bytes)
  failures : List (String × Fault)
  deriving DecidableEq, Repr

namespace Shelf

def empty : Shelf := ⟨[], []⟩

/-- Add a class in place of an earlier one of its name. -/
def insert (s : Shelf) (name : String) (bytes : Bytes) : Shelf :=
  { s with classes := (name, bytes) :: s.classes.filter (·.1 ≠ name) }

def insertFailure (s : Shelf) (name : String) (fault : Fault) : Shelf :=
  { s with failures := (name, fault) :: s.failures.filter (·.1 ≠ name) }

def size (s : Shelf) : Nat := s.classes.length

def load (s : Shelf) (name : String) : Answer :=
  match s.failures.lookup name with
  | some fault => .error fault
  | none => .ok ((s.classes.lookup name).map (⟨.owned, ·⟩))

end Shelf

/-- A directory of class files, one for each class, below directories named for its packages. -/
structure ClassDirectory where
  root : Path
  deriving DecidableEq, Repr

namespace ClassDirectory

def new (t : Tree) (root : Path) : Except Fault ClassDirectory :=
  match t.openEntry root with
  | .error trouble => .error (.file trouble)
  | .ok .directory => .ok ⟨root⟩
  | .ok (.file _) => .error (.notADirectory root)

/-- The path of the class file for a name. -/
def pathOf (d : ClassDirectory) (name : String) : Path :=
  ((Segments.ofText '/' name).foldl Path.join d.root).withExtension "class"

/-- Whether a part of a name could lead out of the directory. -/
def isUnsafePart (part : String) : Bool := part = "" || part = "." || part = ".."

/-- The path that is opened for a name, unless a part of it could lead out of the directory. -/
def opens? (d : ClassDirectory) (name : String) : Option Path :=
  if (Segments.ofText '/' name).any isUnsafePart then none else some (d.pathOf name)

/-- What opening a class file comes to. -/
def answerOf : Except FileTrouble Entry → Answer
  | .error .notFound => .ok none
  | .error trouble => .error (.file trouble)
  | .ok (.file []) => .ok (some ⟨.owned, []⟩)
  | .ok (.file bytes) => .ok (some ⟨.mapped, bytes⟩)
  | .ok .directory => .error .noSuchDevice

def load (d : ClassDirectory) (t : Tree) (name : String) : Answer :=
  match d.opens? name with
  | none => .ok none
  | some path => answerOf (t.openEntry path)

end ClassDirectory

inductive Source where
  | shelf (shelf : Shelf)
  | directory (directory : ClassDirectory)
  deriving DecidableEq, Repr

namespace Source

def load (t : Tree) (name : String) : Source → Answer
  | shelf s => s.load name
  | directory d => d.load t name

/-- The first source that has the class or fails to read it. -/
def loadFirst (t : Tree) (name : String) : List Source → Answer
  | [] => .ok none
  | source :: rest =>
    match source.load t name with
    | .ok none => loadFirst t name rest
    | answer => answer

end Source

end ThreadWatch
