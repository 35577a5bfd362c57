import ThreadWatch.Bytes.Scalar
import ThreadWatch.Text.Units

/-!
# Modified UTF-8

The class file's text: every UTF-16 unit on its own, in one byte from 1 to 7F, in two for zero and
up to 7FF, in three above. A character outside the basic plane is two encoded surrogates.
-/

namespace ThreadWatch.ModifiedUtf8

/-- The bytes of one unit. -/
def encodeUnit (u : UInt16) : Bytes :=
  if 1 ≤ u && u ≤ 0x7F then [u.toUInt8]
  else if u ≤ 0x7FF then [(u >>> 6).toUInt8 ||| 0xC0, (u &&& 0x3F).toUInt8 ||| 0x80]
  else [(u >>> 12).toUInt8 ||| 0xE0, ((u >>> 6) &&& 0x3F).toUInt8 ||| 0x80,
    (u &&& 0x3F).toUInt8 ||| 0x80]

def encode (text : String) : Bytes :=
  text.toList.flatMap fun c => (Units.ofChar c).flatMap encodeUnit

def isPlain (b : UInt8) : Bool := 1 ≤ b && b ≤ 0x7F
def leadsTwo (b : UInt8) : Bool := 0xC0 ≤ b && b ≤ 0xDF
def leadsThree (b : UInt8) : Bool := 0xE0 ≤ b && b ≤ 0xEF
def continues (b : UInt8) : Bool := b &&& 0xC0 == 0x80

def unit2 (a b : UInt8) : UInt16 :=
  ((a &&& 0x1F).toUInt16 <<< 6) ||| (b &&& 0x3F).toUInt16

def unit3 (a b c : UInt8) : UInt16 :=
  ((a &&& 0x0F).toUInt16 <<< 12) ||| ((b &&& 0x3F).toUInt16 <<< 6) ||| (c &&& 0x3F).toUInt16

/-- The units that the bytes from `pos` on spell. -/
def unitsFrom (pos : Nat) : Bytes → Except Fault (List UInt16)
  | [] => .ok []
  | a :: rest =>
    if isPlain a then (a.toUInt16 :: ·) <$> unitsFrom (pos + 1) rest
    else if leadsTwo a then
      match rest with
      | b :: rest =>
        if continues b then (unit2 a b :: ·) <$> unitsFrom (pos + 2) rest
        else damaged (.textTruncated (pos + 1))
      | [] => damaged (.textTruncated (pos + 1))
    else if leadsThree a then
      match rest with
      | b :: c :: rest =>
        if !continues b then damaged (.textTruncated (pos + 1))
        else if continues c then (unit3 a b c :: ·) <$> unitsFrom (pos + 3) rest
        else damaged (.textTruncated (pos + 2))
      | [b] => damaged (.textTruncated (if continues b then pos + 2 else pos + 1))
      | [] => damaged (.textTruncated (pos + 1))
    else damaged (.textByte a pos)

def units (bytes : Bytes) : Except Fault (List UInt16) := unitsFrom 0 bytes

/-- Text of plain bytes alone needs no units. -/
def decode (bytes : Bytes) : Except Fault String :=
  if bytes.all isPlain then .ok (String.ofList (bytes.map fun b => Char.ofNat b.toNat))
  else return String.ofList (Units.chars (← units bytes))

end ThreadWatch.ModifiedUtf8
