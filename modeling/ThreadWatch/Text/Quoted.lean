import ThreadWatch.Text.Extending
import ThreadWatch.Text.Ignorable
import ThreadWatch.Text.Invisible

/-!
# Quoted text

Text between double quotes for people to read: quotes, backslashes and the usual controls behind a
backslash, whatever would not show as itself by its number.
-/

namespace ThreadWatch.Quoted

/-- A character by its number. -/
def byNumber (c : Char) : List Char :=
  "\\u\x7b".toList ++ Nat.toDigits 16 c.toNat ++ ['\x7d']

def character (c : Char) : List Char :=
  match c with
  | '\x00' => ['\\', '0']
  | '\t' => ['\\', 't']
  | '\r' => ['\\', 'r']
  | '\n' => ['\\', 'n']
  | '"' => ['\\', '"']
  | '\\' => ['\\', '\\']
  | c =>
    if ' ' ≤ c && c ≤ '~' then [c]
    else if CharSet.extending.has c || CharSet.ignorable.has c || CharSet.invisible.has c then
      byNumber c
    else [c]

def quote (s : String) : String := String.ofList ('"' :: s.toList.flatMap character ++ ['"'])

end ThreadWatch.Quoted
