import ThreadWatch.Bytes.Scalar
import ThreadWatch.Text.Units

/-!
# UTF-8 that may be damaged

Text from any bytes: each longest beginning of a character that does not go on as one stands for
the replacement character.
-/

namespace ThreadWatch.Utf8

/-- What a first byte asks for: how many bytes follow, and the range of the one right behind. -/
structure Lead where
  value : Nat
  more : Nat
  low : UInt8
  high : UInt8

def lead (b : UInt8) : Option Lead :=
  if b < 0x80 then some ⟨b.toNat, 0, 0x80, 0xBF⟩
  else if b < 0xC2 then none
  else if b ≤ 0xDF then some ⟨b.toNat - 0xC0, 1, 0x80, 0xBF⟩
  else if b == 0xE0 then some ⟨0, 2, 0xA0, 0xBF⟩
  else if b == 0xED then some ⟨0xD, 2, 0x80, 0x9F⟩
  else if b ≤ 0xEF then some ⟨b.toNat - 0xE0, 2, 0x80, 0xBF⟩
  else if b == 0xF0 then some ⟨0, 3, 0x90, 0xBF⟩
  else if b ≤ 0xF3 then some ⟨b.toNat - 0xF0, 3, 0x80, 0xBF⟩
  else if b == 0xF4 then some ⟨4, 3, 0x80, 0x8F⟩
  else none

/-- Between characters, or within one with this much of it read. -/
inductive Phase where
  | between
  | within (value more : Nat) (low high : UInt8)

def enter (b : UInt8) (found : List Char) : Phase × List Char :=
  match lead b with
  | none => (.between, Units.replacement :: found)
  | some ⟨value, 0, _, _⟩ => (.between, Char.ofNat value :: found)
  | some ⟨value, more, low, high⟩ => (.within value more low high, found)

def step : Phase × List Char → UInt8 → Phase × List Char
  | (.between, found), b => enter b found
  | (.within value more low high, found), b =>
    if low ≤ b && b ≤ high then
      let value := value * 64 + (b &&& 0x3F).toNat
      if more ≤ 1 then (.between, Char.ofNat value :: found)
      else (.within value (more - 1) 0x80 0xBF, found)
    else enter b (Units.replacement :: found)

def decodeLossy (bytes : Bytes) : String :=
  match bytes.foldl step (.between, []) with
  | (.between, found) => String.ofList found.reverse
  | (.within .., found) => String.ofList (Units.replacement :: found).reverse

/-- The text of a string that ends at its first zero byte. -/
def decodeTerminated (bytes : Bytes) : String := decodeLossy (bytes.takeWhile (· != 0))

end ThreadWatch.Utf8
