import ThreadWatch.ClassFile.Basic
import ThreadWatch.Command.Request
import ThreadWatch.Command.Session
import ThreadWatch.Instrument

/-!
# Inputs

The class files that a command is given, the sources that their supertypes are looked up in, and
the instrument set up for them.
-/

namespace ThreadWatch.Command

structure InputClass where
  path : Path
  /-- The path below the directory given, or the file name of a file given. -/
  relative : Path
  /-- The internal name. -/
  name : String
  bytes : Bytes
  deriving DecidableEq, Repr

namespace InputClass

/-- The name that a class file at a path below a class directory should have. -/
def nameOfPath (relative : Path) : String :=
  toInternal (Segments.toText '/' relative.withoutExtension.parts)

def className (bytes : Bytes) : Except Fault String := do (← ClassFile.parse bytes).name

def isClassFile (names : List String) : Bool :=
  (names.getLast?.bind Path.extension?) = some "class"

/-- The names below a directory that lead to class files, in their order. -/
def namesBelow (t : Tree) (input : Path) : List (List String) :=
  match t.resolve input with
  | .error _ => []
  | .ok place => ((t.filesBelow place).filter isClassFile).mergeSort fun a b => !(decide (b < a))

/-- A file that is no class goes by the name that its path gives it. -/
def nameOf (relative : Path) (bytes : Bytes) : String :=
  match className bytes with
  | .ok name => name
  | .error _ => nameOfPath relative

def read (t : Tree) (path relative : Path) : Except Failure InputClass := do
  let bytes ← Failure.within ("failed to read class file: " ++ path)
    ((t.readFile path).mapError .ofTrouble)
  return ⟨path, relative, nameOf relative bytes, bytes⟩

/-- The one file given, or every class file below the directory given. -/
def load (t : Tree) (input : Path) : Except Failure (List InputClass) :=
  if t.isDirectory input then
    (namesBelow t input).mapM fun names =>
      read t (names.foldl Path.join input) (Segments.toText '/' names)
  else do
    let relative := (Path.below? input ((Path.parent? input).getD "")).getD input
    return [← read t input relative]

end InputClass

def directorySource (t : Tree) (root : Path) : Except Failure Source :=
  match ClassDirectory.new t root with
  | .error fault => .error (.ofFault fault)
  | .ok directory => .ok (.directory directory)

/-- The directory given, or the class given alone. -/
def inputSource (t : Tree) (input : Path) (classes : List InputClass) : Except Failure Source :=
  if t.isDirectory input then directorySource t input
  else .ok (.shelf (classes.foldl (fun shelf c => shelf.insert c.name c.bytes) .empty))

/-- Classes are looked up in the input first, then along the class path. -/
def sources (t : Tree) (input : Path) (classes : List InputClass) (classpath : List Path) :
    Except Failure (List Source) := do
  let first ← inputSource t input classes
  let rest ← classpath.mapM fun root =>
    Failure.within ("invalid --classpath entry: " ++ root) (directorySource t root)
  return first :: rest

def Options.settings (o : Options) : Settings := .ofArgument o.exclude o.flags

def watchedTypeAdvice : String :=
  "pass a --classpath directory containing java/lang/Thread.class, or use --exact-match"

/-- What a task works with: the classes given, and where their supertypes are looked up. -/
structure Material where
  classes : List InputClass
  sources : List Source
  deriving DecidableEq, Repr

def Material.gather (t : Tree) (input : Path) (o : Options) : Except Failure Material := do
  let classes ← InputClass.load t input
  return ⟨classes, ← Command.sources t input classes o.classpath⟩

/-- The instrument for some options; the watched type is resolved unless its name is enough. -/
def instrumentFor (o : Options) (h : Host Session) : Work Instrument := do
  Work.of (o.settings.announce h)
  if o.exactMatch then return .new o.settings none
  let answer ← Work.of (Target.resolve h)
  let target ← Work.ofExcept (Failure.within watchedTypeAdvice (answer.mapError .ofFault))
  return .new o.settings (some target)

end ThreadWatch.Command
