import ThreadWatch.Text.Segments

/-!
# Paths

A path is text with slashes. Its parts are what is between them, less the empty ones and every dot
but a leading one; where two paths have the same parts they name the same file, though they are
shown as they were written.
-/

namespace ThreadWatch

abbrev Path := String

namespace Path

def isAbsolute (p : Path) : Bool := p.toList.head? = some '/'

/-- What is between the slashes, empty pieces and all. -/
def pieces (p : Path) : List String := Segments.ofText '/' p

/-- Whether a piece behind the first is one of the parts. -/
def counts (piece : String) : Bool := piece ≠ "" && piece ≠ "."

/-- The parts of a path; the first is a slash for an absolute path. -/
def parts (p : Path) : List String :=
  match p.pieces with
  | [] => []
  | first :: rest =>
    let rest := rest.filter counts
    if p.isAbsolute then "/" :: rest else if first = "" then rest else first :: rest

/-- `part` below `p`; an absolute `part` stands for itself. -/
def join (p : Path) (part : String) : Path :=
  if isAbsolute part then part
  else if p = "" ∨ p.toList.getLast? = some '/' then p ++ part
  else p ++ "/" ++ part

/-- The pieces up to the last that is a part. -/
def significant (p : Path) : List String :=
  match p.pieces with
  | [] => []
  | first :: rest => first :: (rest.reverse.dropWhile (!counts ·)).reverse

/-- Text of pieces; the lone piece in front of a leading slash is that slash. -/
def ofPieces : List String → Path
  | [""] => "/"
  | pieces => Segments.toText '/' pieces

/-- The path without its last part. -/
def parent? (p : Path) : Option Path :=
  match p.significant with
  | [] => none
  | [first] => if first = "" then none else some ""
  | first :: rest => some (ofPieces (first :: (rest.dropLast.reverse.dropWhile (!counts ·)).reverse))

/-- The last part, unless it leads up or nowhere. -/
def fileName? (p : Path) : Option String :=
  match p.significant.getLast? with
  | some last => if last = "" ∨ last = "." ∨ last = ".." then none else some last
  | none => none

/-- A file name at its last dot, unless that dot leads it. -/
def splitName (name : String) : String × Option String :=
  let reversed := name.toList.reverse
  match reversed.dropWhile (· ≠ '.') with
  | [] | ['.'] => (name, none)
  | _ :: stem =>
    (String.ofList stem.reverse, some (String.ofList (reversed.takeWhile (· ≠ '.')).reverse))

def extension? (p : Path) : Option String := p.fileName?.bind fun name => (splitName name).2

/-- The path with another file name. -/
def withFileName (p : Path) (name : String) : Path := ofPieces (p.significant.dropLast ++ [name])

/-- The path with what follows the last dot of its file name replaced. -/
def withExtension (p : Path) (extension : String) : Path :=
  match p.fileName? with
  | none => p
  | some name => p.withFileName ((splitName name).1 ++ "." ++ extension)

/-- The path without what follows the last dot of its file name; that dot goes too, unless the
name would lead nowhere then. -/
def withoutExtension (p : Path) : Path :=
  match p.fileName?.map splitName with
  | some (stem, some _) => p.withFileName (if stem = "." then ".." else stem)
  | _ => p

/-- Pieces behind as many parts. -/
def piecesAfter : Nat → List String → List String
  | 0, pieces => pieces.dropWhile (!counts ·)
  | n + 1, pieces => piecesAfter n ((pieces.dropWhile (!counts ·)).drop 1)

/-- What is left of `p` below `root`, as it is written. -/
def below? (p root : Path) : Option Path :=
  if root.parts.isPrefixOf p.parts then
    match root.parts.length with
    | 0 => some (ofPieces p.significant)
    | n + 1 => some (Segments.toText '/' (piecesAfter n (p.significant.drop 1)))
  else none

/-- Paths in the order of their parts. -/
def le (p q : Path) : Bool := !(decide (q.parts < p.parts))

end Path

end ThreadWatch
