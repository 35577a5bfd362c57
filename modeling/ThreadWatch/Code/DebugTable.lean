import ThreadWatch.Bytes.Cursor

/-!
# Line and variable tables

Rows behind a two-byte count. Reading takes as many rows as the count says and ignores what
follows; the written count keeps sixteen bits of the number of rows.
-/

namespace ThreadWatch

/-- The code from `start` on belongs to source line `line`. -/
structure LineNumber where
  start : UInt16
  line : UInt16
  deriving DecidableEq, Repr

/-- Variable `index` is in scope for `length` bytes from `start` on. -/
structure LocalVariable where
  start : UInt16
  length : UInt16
  name : UInt16
  descriptor : UInt16
  index : UInt16
  deriving DecidableEq, Repr

/-- A table of rows of one kind. -/
def readTable {α : Type} (row : Reader α) : Reader (List α) := do
  let count ← Cursor.u16
  Cursor.times row count.toNat

def tableBytes {α : Type} (row : α → Bytes) (rows : List α) : Bytes :=
  beBytes 2 rows.length ++ rows.flatMap row

namespace LineNumber

def read : Reader LineNumber := return ⟨← Cursor.u16, ← Cursor.u16⟩

def bytes (l : LineNumber) : Bytes := be16 l.start ++ be16 l.line

def parseTable (info : Bytes) : Except Fault (List LineNumber) := (readTable read).run' info

end LineNumber

namespace LocalVariable

def read : Reader LocalVariable :=
  return ⟨← Cursor.u16, ← Cursor.u16, ← Cursor.u16, ← Cursor.u16, ← Cursor.u16⟩

def bytes (v : LocalVariable) : Bytes :=
  be16 v.start ++ be16 v.length ++ be16 v.name ++ be16 v.descriptor ++ be16 v.index

def parseTable (info : Bytes) : Except Fault (List LocalVariable) := (readTable read).run' info

end LocalVariable

end ThreadWatch
