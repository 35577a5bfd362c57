import ThreadWatch.Pool.Basic

/-!
# Attributes

Named payloads of classes, members and method bodies. A list of them is written behind a two-byte
count; a payload behind a four-byte length.
-/

namespace ThreadWatch

/-- A two-byte count, if `n` fits one. -/
def countBytes (n : Nat) (cause : Damage) : Except Fault Bytes :=
  if n < 65536 then .ok (beBytes 2 n) else damaged cause

structure Attribute where
  name : UInt16
  info : Bytes
  deriving DecidableEq, Repr

namespace Attribute

def read : Reader Attribute := do
  let name ← Cursor.u16
  let length ← Cursor.u32
  return ⟨name, ← Cursor.take length.toNat⟩

def readList : Reader (List Attribute) := do
  let count ← Cursor.u16
  Cursor.times read count.toNat

def bytes (a : Attribute) : Except Fault Bytes :=
  if a.info.length < spellable 4 then .ok (be16 a.name ++ beBytes 4 a.info.length ++ a.info)
  else damaged (.attributeLength a.info.length)

def listBytes (attributes : List Attribute) : Except Fault Bytes := do
  let count ← countBytes attributes.length (.attributeCount attributes.length)
  return count ++ (← attributes.mapM bytes).flatten

/-- Whether the pool names the attribute `name`, byte for byte. -/
def isNamed (a : Attribute) (pool : Pool) (name : String) : Bool :=
  match pool.utf8Bytes a.name with
  | .ok text => text == name.toUTF8.toList
  | .error _ => false

end Attribute

end ThreadWatch
