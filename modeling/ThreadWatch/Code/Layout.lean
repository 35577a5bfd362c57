import ThreadWatch.Code.Instruction

/-!
# Layouts

Where the instructions of a body stand once code is inserted in front of some of them. The code in
front of an instruction and the instruction are its group; a jump to the instruction goes to the
start of the group.
-/

namespace ThreadWatch

/-- An instruction and the code inserted in front of it. -/
structure Item where
  instruction : Instruction
  inserted : Option Bytes
  deriving DecidableEq, Repr

namespace Item

def insertedBytes (item : Item) : Bytes := item.inserted.getD []

end Item

/-- Where the instruction that was at `old` stands now. -/
structure Place where
  old : Nat
  group : Nat
  start : Nat
  deriving DecidableEq, Repr

/-- The longest body that a class file can hold. -/
def maxCodeLength : Nat := 65535

/-- The places of items laid out from `position` on, and the position behind them. -/
def placesFrom (position : Nat) : List Item → Except Fault (List Place × Nat)
  | [] => .ok ([], position)
  | item :: rest => do
    let start := position + item.insertedBytes.length
    let next := start + item.instruction.sizeAt start
    if next > maxCodeLength then throw (.codeTooLarge next)
    let (places, stop) ← placesFrom next rest
    return (⟨item.instruction.offset, position, start⟩ :: places, stop)

structure Layout where
  places : List Place
  length : Nat
  /-- The place of every old offset that has one, the end of the old code included. -/
  index : Array (Option Place)

namespace Layout

def indexOf (oldLength : Nat) (places : List Place) (length : Nat) : Array (Option Place) :=
  let table := Array.replicate (oldLength + 1) none
  let table := places.foldl (fun table place => table.setIfInBounds place.old (some place)) table
  table.setIfInBounds oldLength (some ⟨oldLength, length, length⟩)

/-- The layout of the items of a body that was `oldLength` bytes long. -/
def ofItems (oldLength : Nat) (items : List Item) : Except Fault Layout := do
  let (places, length) ← placesFrom 0 items
  return ⟨places, length, indexOf oldLength places length⟩

def find (l : Layout) (old : Nat) : Except Fault Place :=
  match l.index[old]? with
  | some (some place) => .ok place
  | _ => damaged (.boundary old)

/-- Where a jump to `old` goes now. -/
def group (l : Layout) (old : Nat) : Except Fault Nat := (·.group) <$> l.find old

/-- Where the instruction that was at `old` is now. -/
def instruction (l : Layout) (old : Nat) : Except Fault Nat := (·.start) <$> l.find old

end Layout

end ThreadWatch
