import ThreadWatch.Fault
import ThreadWatch.Bytes.Scalar
import ThreadWatch.Files.Path

/-!
# File trees

Files and directories below a root, without links, and the directory where relative paths start.
A path is walked part by part, and every part but the last must be a directory.
-/

namespace ThreadWatch

inductive Entry where
  | file (bytes : Bytes)
  | directory
  deriving DecidableEq, Repr

/-- What is there, by the names that lead to it. -/
structure Tree where
  entries : List (List String × Entry)
  /-- The directory that relative paths start from. -/
  current : List String
  deriving DecidableEq, Repr

namespace Tree

def empty : Tree := ⟨[], []⟩

def find? (t : Tree) : List String → Option Entry
  | [] => some .directory
  | names => t.entries.lookup names

def put (t : Tree) (names : List String) (entry : Entry) : Tree :=
  { t with entries := (names, entry) :: t.entries.filter (·.1 ≠ names) }

/-- Where a path starts from. -/
def start (t : Tree) (p : Path) : List String := if p.isAbsolute then [] else t.current

/-- The longest name and the longest path that the system takes, in bytes. -/
def maxName : Nat := 255
def maxPath : Nat := 4095

/-- Follow pieces of a path from a place that exists. -/
def walk (t : Tree) (place : List String) : List String → Except FileTrouble (List String)
  | [] => .ok place
  | piece :: rest =>
    if t.find? place ≠ some .directory then .error .notDirectory
    else if piece = "" ∨ piece = "." then walk t place rest
    else if piece = ".." then walk t place.dropLast rest
    else if piece.utf8ByteSize > maxName then .error .nameTooLong
    else
      match t.find? (place ++ [piece]) with
      | none => .error .notFound
      | some _ => walk t (place ++ [piece]) rest

/-- Whether a path can be handed to the system at all. -/
def checkPath (p : Path) : Except FileTrouble Unit :=
  if p.toList.contains '\x00' then .error .nulInName
  else if p = "" then .error .notFound
  else if p.utf8ByteSize > maxPath then .error .nameTooLong
  else .ok ()

/-- The place that a path leads to. -/
def resolve (t : Tree) (p : Path) : Except FileTrouble (List String) := do
  checkPath p
  walk t (t.start p) p.pieces

def isDirectory (t : Tree) (p : Path) : Bool :=
  match t.resolve p with
  | .ok place => t.find? place == some .directory
  | .error _ => false

/-- A file opened for reading; directories can be opened too. -/
def openEntry (t : Tree) (p : Path) : Except FileTrouble Entry := do
  let place ← t.resolve p
  match t.find? place with
  | some entry => return entry
  | none => throw .notFound

def readFile (t : Tree) (p : Path) : Except FileTrouble Bytes := do
  match ← t.openEntry p with
  | .file bytes => return bytes
  | .directory => throw .isDirectory

/-- The place and the name of something that need not exist yet. -/
def resolveNew (t : Tree) (p : Path) : Except FileTrouble (List String × String) := do
  checkPath p
  match (p.pieces.reverse.dropWhile (· = "")).reverse with
  | [] => throw .alreadyThere
  | pieces =>
    let place ← walk t (t.start p) pieces.dropLast
    if t.find? place ≠ some .directory then throw .notDirectory
    return (place, pieces.getLast?.getD "")

def checkName (name : String) : Except FileTrouble Unit :=
  if name.utf8ByteSize > maxName then .error .nameTooLong else .ok ()

def makeDirectory (t : Tree) (p : Path) : Except FileTrouble Tree := do
  let (place, name) ← t.resolveNew p
  if name = "." ∨ name = ".." then throw .alreadyThere
  checkName name
  match t.find? (place ++ [name]) with
  | some _ => throw .alreadyThere
  | none => return t.put (place ++ [name]) .directory

/-- Make a directory and those above it that are missing; `limit` bounds how many. -/
def makeDirectoriesUpTo (t : Tree) : Nat → Path → Except FileTrouble Tree
  | 0, _ => .error .notFound
  | limit + 1, p =>
    if p = "" then .ok t
    else
      match t.makeDirectory p with
      | .ok t => .ok t
      | .error .notFound => do
        match p.parent? with
        | none => throw .notFound
        | some above =>
          let t ← makeDirectoriesUpTo t limit above
          match t.makeDirectory p with
          | .ok t => return t
          | .error trouble => if t.isDirectory p then return t else throw trouble
      | .error trouble => if t.isDirectory p then .ok t else .error trouble

def makeDirectories (t : Tree) (p : Path) : Except FileTrouble Tree :=
  t.makeDirectoriesUpTo (p.length + 1) p

/-- Write a file, in place of the one that was there. -/
def writeFile (t : Tree) (p : Path) (bytes : Bytes) : Except FileTrouble Tree := do
  if p.parts = ["/"] then throw .isDirectory
  let (place, name) ← t.resolveNew p
  if name = "." ∨ name = ".." ∨ p.toList.getLast? = some '/' then throw .isDirectory
  checkName name
  match t.find? (place ++ [name]) with
  | some .directory => throw .isDirectory
  | _ => return t.put (place ++ [name]) (.file bytes)

/-- The tree with a directory and those above it, if they can be there. -/
def withDirectory (t : Tree) (p : Path) : Tree := (t.makeDirectories p).toOption.getD t

/-- The tree with a file and the directories above it, if they can be there. -/
def withFile (t : Tree) (p : Path) (bytes : Bytes) : Tree :=
  let t := t.withDirectory (p.parent?.getD "")
  (t.writeFile p bytes).toOption.getD t

/-- The names below `place` that lead to files. -/
def filesBelow (t : Tree) (place : List String) : List (List String) :=
  t.entries.filterMap fun (names, entry) =>
    match entry with
    | .file _ => if place.isPrefixOf names then some (names.drop place.length) else none
    | .directory => none

/-- What is there now and was not in `old`, or not like this, in the order of the names. -/
def changesSince (t old : Tree) : List (List String × Entry) :=
  (t.entries.filter fun (names, entry) => old.find? names ≠ some entry).mergeSort
    fun a b => !(decide (b.1 < a.1))

/-- The files written below the current directory, in the order of their paths. -/
def filesWrittenSince (t old : Tree) : List (Path × Bytes) :=
  let written := (t.changesSince old).filterMap fun (names, entry) =>
    match entry with
    | .file bytes =>
      if t.current.isPrefixOf names then
        some (Segments.toText '/' (names.drop t.current.length), bytes)
      else none
    | .directory => none
  written.mergeSort fun a b => !(decide (b.1 < a.1))

end Tree

end ThreadWatch
