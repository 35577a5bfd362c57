import ThreadWatch.Pool.Constant
import ThreadWatch.Text.ModifiedUtf8

/-!
# The constant pool

Numbered slots: slot 0 and the slot behind a wide constant hold nothing. Looking a slot up checks
that it holds a constant of the kind asked for.
-/

namespace ThreadWatch

/-- What a member reference denotes. -/
structure MemberRef where
  kind : MemberKind
  owner : String
  name : String
  descriptor : String
  deriving DecidableEq, Repr

structure Pool where
  slots : Array (Option Constant)
  deriving DecidableEq, Repr

namespace Pool

def empty : Pool := ⟨#[none]⟩

/-- The number of slots, slot 0 included. -/
def count (p : Pool) : Nat := p.slots.size

/-- Append a constant, with an empty slot behind a wide one. -/
def push (slots : Array (Option Constant)) (c : Constant) : Array (Option Constant) :=
  if c.isWide then (slots.push (some c)).push none else slots.push (some c)

/-- Fill `left` more slots of a pool of `count`. -/
def readSlots (count : Nat) : Nat → Array (Option Constant) → Reader Pool
  | 0, slots => pure ⟨slots⟩
  | left + 1, slots => do
    let c ← Constant.read
    if c.isWide then
      match left with
      | 0 => Cursor.damage (.poolOverrun count)
      | left + 1 => readSlots count left (push slots c)
    else readSlots count left (push slots c)

def read : Reader Pool := do
  let count ← Cursor.u16
  if count = 0 then Cursor.damage .poolCountZero
  else readSlots count.toNat (count.toNat - 1) #[none]

def slotBytes : Option Constant → Except Fault Bytes
  | some c => c.bytes
  | none => .ok []

def bytes (p : Pool) : Except Fault Bytes := do
  if p.count ≥ 65536 then throw .poolFull
  let parts ← (p.slots.toList.drop 1).mapM slotBytes
  return beBytes 2 p.count ++ parts.flatten

/-- The constant at `index`; an empty slot is as bad as none. -/
def get (p : Pool) (index : UInt16) : Except Fault Constant :=
  match p.slots[index.toNat]? with
  | some (some c) => .ok c
  | _ => damaged (.poolIndex index p.count)

def unexpected {α : Type} (index : UInt16) (found : Constant) (expected : String) :
    Except Fault α :=
  damaged (.poolKind index found.kindName expected)

def utf8Bytes (p : Pool) (index : UInt16) : Except Fault Bytes := do
  match ← p.get index with
  | .utf8 text => return text
  | found => unexpected index found "Utf8"

def utf8 (p : Pool) (index : UInt16) : Except Fault String := do
  ModifiedUtf8.decode (← p.utf8Bytes index)

def typeName (p : Pool) (index : UInt16) : Except Fault String := do
  match ← p.get index with
  | .type name => p.utf8 name
  | found => unexpected index found "Class"

def nameAndType (p : Pool) (index : UInt16) : Except Fault (String × String) := do
  match ← p.get index with
  | .nameAndType name descriptor =>
    let name ← p.utf8 name
    let descriptor ← p.utf8 descriptor
    return (name, descriptor)
  | found => unexpected index found "NameAndType"

/-- The member's name and descriptor are looked up before its owner. -/
def memberRef (p : Pool) (index : UInt16) : Except Fault MemberRef := do
  match ← p.get index with
  | .member kind owner nameAndType =>
    let (name, descriptor) ← p.nameAndType nameAndType
    let owner ← p.typeName owner
    return ⟨kind, owner, name, descriptor⟩
  | found => unexpected index found "member reference"

end Pool

end ThreadWatch
