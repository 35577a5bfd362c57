import ThreadWatch.Bytes.Scalar

/-!
# Hexadecimal text

Two lower-case digits for every byte; capital digits are read too.
-/

namespace ThreadWatch.Hex

def ofBytes (bytes : Bytes) : String :=
  String.ofList (bytes.flatMap fun b =>
    [Nat.digitChar (b.toNat / 16), Nat.digitChar (b.toNat % 16)])

def digit? (c : Char) : Option Nat :=
  if '0' ≤ c && c ≤ '9' then some (c.toNat - 48)
  else if 'a' ≤ c && c ≤ 'f' then some (c.toNat - 87)
  else if 'A' ≤ c && c ≤ 'F' then some (c.toNat - 55)
  else none

def ofDigits? : List Char → Option Bytes
  | [] => some []
  | [_] => none
  | high :: low :: rest => do
    let byte := UInt8.ofNat ((← digit? high) * 16 + (← digit? low))
    return byte :: (← ofDigits? rest)

def toBytes? (text : String) : Option Bytes := ofDigits? text.toList

end ThreadWatch.Hex
