import ThreadWatch.Pool.Basic

/-!
# Adding constants

A constant that is already there is found, not added again. Constants that others are made of are
added before them, and stay when a later one finds the pool full.
-/

namespace ThreadWatch

/-- A step that may add constants, and keeps those it added when it fails. -/
abbrev Interning := EStateM Fault Pool

namespace Pool

/-- The largest number of slots that the count field can say. -/
def capacity : Nat := 65535

def add (c : Constant) : Interning UInt16 := fun p =>
  match p.slots.findIdx? (· == some c) with
  | some index => .ok (UInt16.ofNat index) p
  | none =>
    if p.count + c.width > capacity then .error .poolFull p
    else .ok (UInt16.ofNat p.count) ⟨push p.slots c⟩

def addUtf8 (text : String) : Interning UInt16 := add (.utf8 (ModifiedUtf8.encode text))

def addType (name : String) : Interning UInt16 := do
  let name ← addUtf8 name
  add (.type name)

def addString (text : String) : Interning UInt16 := do
  let text ← addUtf8 text
  add (.string text)

def addNameAndType (name descriptor : String) : Interning UInt16 := do
  let name ← addUtf8 name
  let descriptor ← addUtf8 descriptor
  add (.nameAndType name descriptor)

def addMember (kind : MemberKind) (owner name descriptor : String) : Interning UInt16 := do
  let owner ← addType owner
  let nameAndType ← addNameAndType name descriptor
  add (.member kind owner nameAndType)

end Pool

end ThreadWatch
