import ThreadWatch.Attribute
import ThreadWatch.ClassFile.Access

/-!
# Class files

A class file as its header, its pool, its members and its attributes, with every payload kept as
bytes, so that what was read is written back as it was.
-/

namespace ThreadWatch

/-- A field or a method. -/
structure Member where
  access : UInt16
  name : UInt16
  descriptor : UInt16
  attributes : List Attribute
  deriving DecidableEq, Repr

namespace Member

def read : Reader Member :=
  return ⟨← Cursor.u16, ← Cursor.u16, ← Cursor.u16, ← Attribute.readList⟩

def bytes (m : Member) : Except Fault Bytes := do
  let attributes ← Attribute.listBytes m.attributes
  return be16 m.access ++ be16 m.name ++ be16 m.descriptor ++ attributes

/-- Where the first attribute called `name` is. -/
def findAttribute (m : Member) (pool : Pool) (name : String) : Option Nat :=
  m.attributes.findIdx? (·.isNamed pool name)

end Member

structure ClassFile where
  minor : UInt16
  major : UInt16
  pool : Pool
  access : UInt16
  thisClass : UInt16
  /-- Zero for a class without a superclass. -/
  superClass : UInt16
  interfaces : List UInt16
  fields : List Member
  methods : List Member
  attributes : List Attribute
  deriving DecidableEq, Repr

namespace ClassFile

def magic : UInt32 := 0xCAFEBABE

def name (c : ClassFile) : Except Fault String := c.pool.typeName c.thisClass

def superName (c : ClassFile) : Except Fault (Option String) :=
  if c.superClass = 0 then .ok none else some <$> c.pool.typeName c.superClass

def interfaceNames (c : ClassFile) : Except Fault (List String) :=
  c.interfaces.mapM c.pool.typeName

def memberName (c : ClassFile) (m : Member) : Except Fault String := c.pool.utf8 m.name

def memberDescriptor (c : ClassFile) (m : Member) : Except Fault String := c.pool.utf8 m.descriptor

def isInterface (c : ClassFile) : Bool := Access.isInterface c.access

/-- As many things as a two-byte count says. -/
def readCounted {α : Type} (item : Reader α) : Reader (List α) := do
  let count ← Cursor.u16
  Cursor.times item count.toNat

def read : Reader ClassFile := do
  let found ← Cursor.u32
  if found ≠ magic then Cursor.damage (.magic found)
  let minor ← Cursor.u16
  let major ← Cursor.u16
  let pool ← Pool.read
  let access ← Cursor.u16
  let thisClass ← Cursor.u16
  let superClass ← Cursor.u16
  let interfaces ← readCounted Cursor.u16
  let fields ← readCounted Member.read
  let methods ← readCounted Member.read
  let attributes ← Attribute.readList
  let left ← Cursor.remaining
  if left > 0 then Cursor.damage (.trailingAfterClass left)
  return { minor, major, pool, access, thisClass, superClass, interfaces, fields, methods,
           attributes }

/-- A class file must be all of `data`, and its own name must resolve. -/
def parse (data : Bytes) : Except Fault ClassFile := do
  if data.isEmpty then throw .empty
  let c ← read.run' data
  let _ ← c.name
  return c

/-- A list behind its two-byte count. -/
def countedBytes {α : Type} (what : String) (items : List α) (item : α → Except Fault Bytes) :
    Except Fault Bytes := do
  let count ← countBytes items.length (.tooMany items.length what)
  return count ++ (← items.mapM item).flatten

def bytes (c : ClassFile) : Except Fault Bytes := do
  let pool ← c.pool.bytes
  let interfaces ← countedBytes "interfaces" c.interfaces fun index => .ok (be16 index)
  let fields ← countedBytes "fields" c.fields Member.bytes
  let methods ← countedBytes "methods" c.methods Member.bytes
  let attributes ← Attribute.listBytes c.attributes
  return be32 magic ++ be16 c.minor ++ be16 c.major ++ pool ++ be16 c.access ++
    be16 c.thisClass ++ be16 c.superClass ++ interfaces ++ fields ++ methods ++ attributes

end ClassFile

end ThreadWatch
