import ThreadWatch.Text.Blank
import ThreadWatch.Text.Segments
import ThreadWatch.Text.Width

/-!
# Tables

Columns without borders, each as wide as its widest cell, two blanks between them. A cell of
several lines makes its row as high as it is.
-/

namespace ThreadWatch.Report

inductive Alignment where
  | left
  | right
  deriving DecidableEq, Repr

structure Column where
  header : String
  alignment : Alignment
  deriving DecidableEq, Repr

namespace Column

def left (header : String) : Column := ⟨header, .left⟩
def right (header : String) : Column := ⟨header, .right⟩

end Column

namespace Table

/-- The lines of the cells of a row. -/
abbrev Row := List (List String)

def row (cells : List String) : Row := cells.map (Segments.ofText '\n')

def height (r : Row) : Nat := (r.map List.length).foldl max 0

def columnWidth (rows : List Row) (index : Nat) : Nat :=
  (rows.flatMap fun r => (r[index]?.getD []).map Width.ofText).foldl max 0

def pad (alignment : Alignment) (width : Nat) (text : String) : String :=
  let blanks := String.ofList (List.replicate (width - Width.ofText text) ' ')
  match alignment with
  | .left => text ++ blanks
  | .right => blanks ++ text

def trimEnd (line : String) : String := String.ofList (Blank.trimRight line.toList)

/-- One line through a row. -/
def rowLine (layout : List (Alignment × Nat)) (r : Row) (index : Nat) : String :=
  trimEnd (String.intercalate "  "
    ((layout.zip r).map fun ((alignment, width), cell) =>
      pad alignment width (cell[index]?.getD "")))

def lines (columns : List Column) (rows : List (List String)) : List String :=
  let rows := (columns.map Column.header :: rows).map row
  let layout := columns.zipIdx.map fun (c, index) => (c.alignment, columnWidth rows index)
  rows.flatMap fun r => (List.range (height r)).map (rowLine layout r)

end Table

end ThreadWatch.Report
