import ThreadWatch.Bytes.Cursor

/-!
# Stack map frames

The verifier's view of a method at some of its offsets, each frame written as its distance from
the one before. A frame may have a short form, used whenever the distance is below 64.
-/

namespace ThreadWatch

/-- What the verifier knows of a local or stack slot. -/
inductive Verification where
  | top
  | int
  | float
  | double
  | long
  | null
  | uninitializedThis
  | object (type : UInt16)
  /-- The result of the `new` instruction at `offset`, not yet initialised. -/
  | uninitialized (offset : UInt16)
  deriving DecidableEq, Repr

namespace Verification

def read : Reader Verification := do
  match ← Cursor.u8 with
  | 0 => return top
  | 1 => return int
  | 2 => return float
  | 3 => return double
  | 4 => return long
  | 5 => return null
  | 6 => return uninitializedThis
  | 7 => object <$> Cursor.u16
  | 8 => uninitialized <$> Cursor.u16
  | tag => Cursor.damage (.verificationTag tag)

def bytes : Verification → Bytes
  | top => [0]
  | int => [1]
  | float => [2]
  | double => [3]
  | long => [4]
  | null => [5]
  | uninitializedThis => [6]
  | object type => 7 :: be16 type
  | uninitialized offset => 8 :: be16 offset

/-- The item with the offset of its `new` instruction moved. -/
def mapUninitialized (move : UInt16 → Except Fault UInt16) :
    Verification → Except Fault Verification
  | uninitialized offset => uninitialized <$> move offset
  | item => .ok item

end Verification

/-- How a frame differs from the one before. -/
inductive FrameKind where
  | same
  | sameOne (item : Verification)
  | chop (count : UInt8)
  | append (items : List Verification)
  | full (locals stack : List Verification)
  deriving DecidableEq, Repr

namespace FrameKind

def mapUninitialized (move : UInt16 → Except Fault UInt16) : FrameKind → Except Fault FrameKind
  | same => .ok same
  | chop count => .ok (chop count)
  | sameOne item => sameOne <$> item.mapUninitialized move
  | append items => append <$> items.mapM (·.mapUninitialized move)
  | full locals stack => do
    let locals ← locals.mapM (·.mapUninitialized move)
    let stack ← stack.mapM (·.mapUninitialized move)
    return full locals stack

/-- A two-byte count and as many items. -/
def readItems : Reader (List Verification) := do
  let count ← Cursor.u16
  Cursor.times Verification.read count.toNat

/-- A frame's distance and kind. -/
def read : Reader (UInt16 × FrameKind) := do
  let tag ← Cursor.u8
  if tag ≤ 63 then return (tag.toUInt16, same)
  else if tag ≤ 127 then return ((tag - 64).toUInt16, sameOne (← Verification.read))
  else if tag = 247 then return (← Cursor.u16, sameOne (← Verification.read))
  else if 248 ≤ tag && tag ≤ 250 then return (← Cursor.u16, chop (251 - tag))
  else if tag = 251 then return (← Cursor.u16, same)
  else if 252 ≤ tag && tag ≤ 254 then
    return (← Cursor.u16, append (← Cursor.times Verification.read (tag - 251).toNat))
  else if tag = 255 then return (← Cursor.u16, full (← readItems) (← readItems))
  else Cursor.damage (.frameType tag)

/-- Sixteen bits of the number of items, and the items. -/
def itemBytes (items : List Verification) : Bytes :=
  beBytes 2 items.length ++ items.flatMap Verification.bytes

/-- A frame at a distance. -/
def bytes (delta : UInt16) : FrameKind → Except Fault Bytes
  | same => .ok (if delta ≤ 63 then [delta.toUInt8] else 251 :: be16 delta)
  | sameOne item =>
    .ok ((if delta ≤ 63 then [64 + delta.toUInt8] else 247 :: be16 delta) ++ item.bytes)
  | chop count =>
    if 1 ≤ count && count ≤ 3 then .ok ((251 - count) :: be16 delta)
    else damaged (.chopCount count)
  | append items =>
    if 1 ≤ items.length && items.length ≤ 3 then
      .ok ((251 + UInt8.ofNat items.length) :: be16 delta ++ items.flatMap Verification.bytes)
    else damaged (.appendCount items.length)
  | full locals stack => .ok (255 :: be16 delta ++ itemBytes locals ++ itemBytes stack)

end FrameKind

structure Frame where
  offset : Nat
  kind : FrameKind
  deriving DecidableEq, Repr

namespace Frame

/-- The frame with every offset from `start` on moved by `distance`. -/
def shift (start distance : Nat) (f : Frame) : Except Fault Frame := do
  let kind ← f.kind.mapUninitialized fun offset =>
    let moved := move offset.toNat
    if moved < 65536 then .ok (UInt16.ofNat moved) else .error (.codeTooLarge moved)
  return ⟨move f.offset, kind⟩
where
  move (offset : Nat) : Nat := if offset ≥ start then offset + distance else offset

/-- Frames from their distances: the first counts from zero, each later one from the offset behind
the frame before. -/
def placeFrom (base : Nat) : List (UInt16 × FrameKind) → List Frame
  | [] => []
  | (delta, kind) :: rest =>
    let offset := base + delta.toNat
    ⟨offset, kind⟩ :: placeFrom (offset + 1) rest

def read : Reader (List Frame) := do
  let count ← Cursor.u16
  let placed ← Cursor.times FrameKind.read count.toNat
  if !(← Cursor.atEnd) then Cursor.damage .trailingAfterFrames
  return placeFrom 0 placed

def decode (info : Bytes) : Except Fault (List Frame) := read.run' info

/-- The distance of a frame at `offset` from the one at `previous`, if sixteen bits hold it. -/
def distance (previous : Option Nat) (offset : Nat) : Option UInt16 :=
  let base := match previous with
    | none => 0
    | some p => p + 1
  if base ≤ offset ∧ offset - base < 65536 then some (UInt16.ofNat (offset - base)) else none

/-- Frames behind one at `previous`. -/
def encodeFrom (previous : Option Nat) : List Frame → Except Fault Bytes
  | [] => .ok []
  | frame :: rest =>
    match distance previous frame.offset with
    | none => damaged (.frameOrder frame.offset previous)
    | some delta => do
      let bytes ← frame.kind.bytes delta
      return bytes ++ (← encodeFrom (some frame.offset) rest)

def encode (frames : List Frame) : Except Fault Bytes := do
  let count ← countBytes frames.length
  return count ++ (← encodeFrom none frames)
where
  countBytes (n : Nat) : Except Fault Bytes :=
    if n < 65536 then .ok (beBytes 2 n) else damaged (.frameCount n)

end Frame

end ThreadWatch
