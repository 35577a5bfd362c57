import ThreadWatch.Text.Width.Onset

/-!
# Display width

How many columns text takes on a terminal. Most characters have a width of their own; what a
character adds may depend on those after it, so the text is taken from its end.
-/

namespace ThreadWatch.Width

def measure (cs : List Char) : Int × Opening :=
  cs.foldr (fun c (total, opening) =>
    let (added, opening) := opening.before c
    (total + added, opening)) (0, Onset.plain.opening)

def ofText (s : String) : Nat := (measure s.toList).1.toNat

end ThreadWatch.Width
