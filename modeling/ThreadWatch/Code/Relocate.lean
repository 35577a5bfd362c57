import ThreadWatch.Code.Layout

/-!
# Relocated code

The bytes of a laid out body: what is inserted is copied, every jump is aimed at the group of its
old target, switches are padded anew.
-/

namespace ThreadWatch

/-- The distance from `start` to the group of what instruction `i` reached at `delta`. -/
def Layout.distance (l : Layout) (i : Instruction) (start : Nat) (delta : Int32) :
    Except Fault Int := do
  let old := i.offset + delta.toInt
  if old < 0 then damaged (.negativeTarget i.offset old)
  return (← l.group old.toNat) - start

def Layout.distanceBytes (l : Layout) (i : Instruction) (start : Nat) (delta : Int32) :
    Except Fault Bytes :=
  return Scalar.i32.bytes (← l.distance i start delta)

namespace Instruction

/-- The instruction at its new place. -/
def bytesAt (i : Instruction) (l : Layout) (start : Nat) : Except Fault Bytes :=
  match i.operand with
  | .fixed bytes => .ok ((if i.wide then [Opcode.wide, i.opcode] else [i.opcode]) ++ bytes)
  | .branch delta => do
    let distance ← l.distance i start delta
    if i.opcode = Opcode.gotoW || i.opcode = Opcode.jsrW then
      return i.opcode :: Scalar.i32.bytes distance
    else if -32768 ≤ distance ∧ distance ≤ 32767 then
      return i.opcode :: Scalar.i16.bytes distance
    else throw (.branchOutOfRange start distance)
  | .tableSwitch fallback low high deltas => do
    let fallback ← l.distanceBytes i start fallback
    let cases ← deltas.mapM (l.distanceBytes i start)
    return i.opcode :: List.replicate (padding start) 0 ++ fallback ++
      be32 low.toUInt32 ++ be32 high.toUInt32 ++ cases.flatten
  | .lookupSwitch fallback pairs => do
    let fallback ← l.distanceBytes i start fallback
    let cases ← pairs.mapM fun (key, delta) =>
      return be32 key.toUInt32 ++ (← l.distanceBytes i start delta)
    return i.opcode :: List.replicate (padding start) 0 ++ fallback ++
      beBytes 4 pairs.length ++ cases.flatten

end Instruction

structure Relocated where
  code : Bytes
  layout : Layout

/-- A body of `oldLength` bytes with its insertions made. -/
def relocate (oldLength : Nat) (items : List Item) : Except Fault Relocated := do
  let layout ← Layout.ofItems oldLength items
  let parts ← (items.zip layout.places).mapM fun (item, place) =>
    return item.insertedBytes ++ (← item.instruction.bytesAt layout place.start)
  return ⟨parts.flatten, layout⟩

end ThreadWatch
