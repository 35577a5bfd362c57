/-!
# Segments

Text cut at every occurrence of a separator, and joined again with it.
-/

namespace ThreadWatch.Segments

/-- The pieces of `s` between separators; there is one more of them than of separators. -/
def split (sep : Char) : List Char → List (List Char)
  | [] => [[]]
  | c :: rest =>
    if c = sep then [] :: split sep rest
    else
      match split sep rest with
      | [] => [[c]]
      | first :: more => (c :: first) :: more

def join (sep : Char) : List (List Char) → List Char
  | [] => []
  | [piece] => piece
  | piece :: rest => piece ++ sep :: join sep rest

theorem split_ne_nil (sep : Char) (s : List Char) : split sep s ≠ [] := by
  cases s with
  | nil => simp [split]
  | cons c rest =>
    unfold split
    split
    · simp
    · split <;> simp

theorem join_split (sep : Char) (s : List Char) : join sep (split sep s) = s := by
  induction s with
  | nil => simp [split, join]
  | cons c rest ih =>
    unfold split
    split
    next h =>
      cases hr : split sep rest with
      | nil => exact absurd hr (split_ne_nil sep rest)
      | cons first more => rw [hr] at ih; simp [join, ih, h]
    next =>
      cases hr : split sep rest with
      | nil => exact absurd hr (split_ne_nil sep rest)
      | cons first more =>
        rw [hr] at ih
        cases more <;> simp_all [join]

def ofText (sep : Char) (s : String) : List String := (split sep s.toList).map String.ofList

def toText (sep : Char) (pieces : List String) : String :=
  String.ofList (join sep (pieces.map String.toList))

end ThreadWatch.Segments
