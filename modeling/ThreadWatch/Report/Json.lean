/-!
# JSON reports

Values with fields in the order in which they are given, written over several lines: every item on
lines of its own, two columns further in than what holds it.
-/

namespace ThreadWatch.Report

inductive Json where
  | null
  | bool (value : Bool)
  | number (value : Nat)
  | text (value : String)
  | list (items : List Json)
  | object (fields : List (String × Json))

namespace Json

def ofOption {α : Type} (write : α → Json) : Option α → Json
  | none => null
  | some a => write a

def texts (items : List String) : Json := list (items.map text)

/-- A character within quotes. -/
def character (c : Char) : List Char :=
  match c with
  | '"' => ['\\', '"']
  | '\\' => ['\\', '\\']
  | '\x08' => ['\\', 'b']
  | '\x0c' => ['\\', 'f']
  | '\n' => ['\\', 'n']
  | '\r' => ['\\', 'r']
  | '\t' => ['\\', 't']
  | c =>
    if c < ' ' then
      '\\' :: 'u' :: '0' :: '0' :: Nat.digitChar (c.toNat / 16) :: [Nat.digitChar (c.toNat % 16)]
    else [c]

def quote (s : String) : String := String.ofList ('"' :: s.toList.flatMap character ++ ['"'])

/-- Lines further in. -/
def indent (lines : List String) : List String := lines.map ("  " ++ ·)

/-- Lines with a comma at the end of the last. -/
def comma : List String → List String
  | [] => []
  | [last] => [last ++ ","]
  | line :: rest => line :: comma rest

/-- Items between brackets, all but the last with a comma. -/
def bracket (opening closing : String) (items : List (List String)) : List String :=
  match items.getLast? with
  | none => [opening ++ closing]
  | some last =>
    opening :: (items.dropLast.flatMap fun item => indent (comma item)) ++ indent last ++ [closing]

/-- Lines behind a name. -/
def label (name : String) : List String → List String
  | [] => []
  | first :: rest => (quote name ++ ": " ++ first) :: rest

mutual

def lines : Json → List String
  | null => ["null"]
  | bool value => [if value then "true" else "false"]
  | number value => [toString value]
  | text value => [quote value]
  | list items => bracket "[" "]" (itemLines items)
  | object fields => bracket "\x7b" "\x7d" (fieldLines fields)

def itemLines : List Json → List (List String)
  | [] => []
  | item :: rest => item.lines :: itemLines rest

def fieldLines : List (String × Json) → List (List String)
  | [] => []
  | (name, value) :: rest => label name value.lines :: fieldLines rest

end

end Json

end ThreadWatch.Report
