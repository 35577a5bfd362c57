import ThreadWatch.Bytes.Cursor
import ThreadWatch.Code.Opcode

/-!
# Instructions

One instruction as it stands at an offset of its method, and the reading of a whole body as
instructions one behind the other.
-/

namespace ThreadWatch

inductive Operand where
  /-- Bytes that mean the same wherever the instruction stands. -/
  | fixed (bytes : Bytes)
  /-- A distance from the start of the instruction. -/
  | branch (delta : Int32)
  | tableSwitch (fallback low high : Int32) (deltas : List Int32)
  | lookupSwitch (fallback : Int32) (pairs : List (Int32 × Int32))
  deriving DecidableEq, Repr

structure Instruction where
  offset : Nat
  opcode : UInt8
  /-- Whether the opcode stands behind the wide opcode. -/
  wide : Bool
  operand : Operand
  deriving DecidableEq, Repr

namespace Instruction

/-- The bytes between a switch opcode at `position` and the next multiple of four. -/
def padding (position : Nat) : Nat := (4 - (position + 1) % 4) % 4

/-- The bytes that the instruction takes at `position`. -/
def sizeAt (i : Instruction) (position : Nat) : Nat :=
  match i.operand with
  | .fixed bytes => (if i.wide then 2 else 1) + bytes.length
  | .branch _ => if i.opcode = Opcode.gotoW || i.opcode = Opcode.jsrW then 5 else 3
  | .tableSwitch _ _ _ deltas => 1 + padding position + 12 + 4 * deltas.length
  | .lookupSwitch _ pairs => 1 + padding position + 8 + 8 * pairs.length

def length (i : Instruction) : Nat := i.sizeAt i.offset

/-- The distances that the instruction may jump, the default first. -/
def deltas (i : Instruction) : List Int32 :=
  match i.operand with
  | .fixed _ => []
  | .branch delta => [delta]
  | .tableSwitch fallback _ _ deltas => fallback :: deltas
  | .lookupSwitch fallback pairs => fallback :: pairs.map Prod.snd

def targets (i : Instruction) : List Int := i.deltas.map fun delta => i.offset + delta.toInt

/-- The constant that the instruction refers to. -/
def constant? (i : Instruction) : Option UInt16 :=
  if Opcode.takesConstant i.opcode && !i.wide then
    match i.operand with
    | .fixed (high :: low :: _) => some (high.toUInt16 <<< 8 ||| low.toUInt16)
    | _ => none
  else none

/-- The cases of a switch over the numbers from `low` to `high`. -/
def readTable (start : Nat) (fallback low high : Int32) : Reader Operand := do
  if high < low then Cursor.damage (.tableBounds start low high)
  let count := (high.toInt - low.toInt + 1).toNat
  if count * 4 > (← Cursor.remaining) then throw .outOfBounds
  return .tableSwitch fallback low high (← Cursor.times Cursor.i32 count)

def readTableSwitch (start : Nat) : Reader Operand := do
  Cursor.align 4
  let fallback ← Cursor.i32
  let low ← Cursor.i32
  let high ← Cursor.i32
  readTable start fallback low high

def readPair : Reader (Int32 × Int32) := return (← Cursor.i32, ← Cursor.i32)

/-- The cases of a switch over the numbers it names. -/
def readPairs (start : Nat) (fallback count : Int32) : Reader Operand := do
  if count < 0 || count.toInt.toNat * 8 > (← Cursor.remaining) then
    Cursor.damage (.lookupCount start count)
  return .lookupSwitch fallback (← Cursor.times readPair count.toInt.toNat)

def readLookupSwitch (start : Nat) : Reader Operand := do
  Cursor.align 4
  let fallback ← Cursor.i32
  let count ← Cursor.i32
  readPairs start fallback count

/-- The instruction at `start` whose wide opcode has been read. -/
def readWide (start : Nat) : Reader Instruction := do
  let opcode ← Cursor.u8
  match Opcode.wideOperands opcode with
  | some count => return ⟨start, opcode, true, .fixed (← Cursor.take count)⟩
  | none => Cursor.damage (.wideOpcode start opcode)

/-- The instruction at `start` whose opcode has been read. -/
def readBehind (start : Nat) (opcode : UInt8) : Reader Instruction := do
  match Opcode.shape opcode with
  | .fixed count => return ⟨start, opcode, false, .fixed (← Cursor.take count)⟩
  | .branch => return ⟨start, opcode, false, .branch (← Cursor.i16).toInt32⟩
  | .branchW => return ⟨start, opcode, false, .branch (← Cursor.i32)⟩
  | .tableSwitch => return ⟨start, opcode, false, ← readTableSwitch start⟩
  | .lookupSwitch => return ⟨start, opcode, false, ← readLookupSwitch start⟩
  | .wide => readWide start
  | .unknown => Cursor.damage (.unknownOpcode opcode start)

/-- The instruction at the cursor. -/
def read : Reader Instruction := do
  let start ← Cursor.position
  let opcode ← Cursor.u8
  readBehind start opcode

/-- Instructions up to the end of the data, at most `limit` of them. -/
def readUpTo : Nat → Reader (List Instruction)
  | 0 => pure []
  | limit + 1 => do
    if ← Cursor.atEnd then return []
    let first ← read
    return first :: (← readUpTo limit)

/-- A body as instructions; every one of them takes a byte, so there are no more than bytes. -/
def decode (code : Bytes) : Except Fault (List Instruction) := (readUpTo code.length).run' code

end Instruction

end ThreadWatch
