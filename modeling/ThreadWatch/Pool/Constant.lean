import ThreadWatch.Bytes.Cursor
import ThreadWatch.Bytes.Buffer

/-!
# Constants

One entry of a constant pool, and its bytes: a tag and the operands. Indices point into the pool;
numbers are kept as the bits they were read from.
-/

namespace ThreadWatch

/-- Which table of members a reference points into. -/
inductive MemberKind where
  | field
  | method
  | interfaceMethod
  deriving DecidableEq, Repr

def MemberKind.name : MemberKind → String
  | field => "field"
  | method => "method"
  | interfaceMethod => "interface_method"

inductive Constant where
  | utf8 (text : Bytes)
  | integer (value : Int32)
  | float (bits : UInt32)
  | long (value : Int64)
  | double (bits : UInt64)
  | type (name : UInt16)
  | string (text : UInt16)
  | member (kind : MemberKind) (owner nameAndType : UInt16)
  | nameAndType (name descriptor : UInt16)
  | methodHandle (kind : UInt8) (reference : UInt16)
  | methodType (descriptor : UInt16)
  | dynamic (bootstrap nameAndType : UInt16)
  | invokeDynamic (bootstrap nameAndType : UInt16)
  | moduleName (name : UInt16)
  | packageName (name : UInt16)
  deriving DecidableEq, Repr

namespace Constant

/-- The name of the kind of constant. -/
def kindName : Constant → String
  | utf8 _ => "Utf8"
  | integer _ => "Integer"
  | float _ => "Float"
  | long _ => "Long"
  | double _ => "Double"
  | type _ => "Class"
  | string _ => "String"
  | member .field _ _ => "Fieldref"
  | member .method _ _ => "Methodref"
  | member .interfaceMethod _ _ => "InterfaceMethodref"
  | nameAndType _ _ => "NameAndType"
  | methodHandle _ _ => "MethodHandle"
  | methodType _ => "MethodType"
  | dynamic _ _ => "Dynamic"
  | invokeDynamic _ _ => "InvokeDynamic"
  | moduleName _ => "Module"
  | packageName _ => "Package"

/-- Long and double constants take two slots of the pool. -/
def isWide : Constant → Bool
  | long _ | double _ => true
  | _ => false

def width (c : Constant) : Nat := if c.isWide then 2 else 1

/-- The operands behind a tag; `position` is where the tag was read. -/
def operands (tag : UInt8) (position : Nat) : Reader Constant :=
  match tag with
  | 1 => utf8 <$> Cursor.prefixed
  | 3 => integer <$> Cursor.i32
  | 4 => float <$> Cursor.u32
  | 5 => long <$> Cursor.i64
  | 6 => double <$> Cursor.u64
  | 7 => type <$> Cursor.u16
  | 8 => string <$> Cursor.u16
  | 9 => return member .field (← Cursor.u16) (← Cursor.u16)
  | 10 => return member .method (← Cursor.u16) (← Cursor.u16)
  | 11 => return member .interfaceMethod (← Cursor.u16) (← Cursor.u16)
  | 12 => return nameAndType (← Cursor.u16) (← Cursor.u16)
  | 15 => return methodHandle (← Cursor.u8) (← Cursor.u16)
  | 16 => methodType <$> Cursor.u16
  | 17 => return dynamic (← Cursor.u16) (← Cursor.u16)
  | 18 => return invokeDynamic (← Cursor.u16) (← Cursor.u16)
  | 19 => moduleName <$> Cursor.u16
  | 20 => packageName <$> Cursor.u16
  | _ => Cursor.damage (.poolTag tag position)

def read : Reader Constant := do
  let position ← Cursor.position
  let tag ← Cursor.u8
  operands tag position

def tag : Constant → UInt8
  | utf8 _ => 1
  | integer _ => 3
  | float _ => 4
  | long _ => 5
  | double _ => 6
  | type _ => 7
  | string _ => 8
  | member .field _ _ => 9
  | member .method _ _ => 10
  | member .interfaceMethod _ _ => 11
  | nameAndType _ _ => 12
  | methodHandle _ _ => 15
  | methodType _ => 16
  | dynamic _ _ => 17
  | invokeDynamic _ _ => 18
  | moduleName _ => 19
  | packageName _ => 20

/-- The bytes behind the tag. -/
def payload : Constant → Except Fault Bytes
  | utf8 text => prefixedBytes text
  | integer value => .ok (be32 value.toUInt32)
  | float bits => .ok (be32 bits)
  | long value => .ok (be64 value.toUInt64)
  | double bits => .ok (be64 bits)
  | type index | string index | methodType index | moduleName index | packageName index =>
    .ok (be16 index)
  | member _ first second | nameAndType first second | dynamic first second
  | invokeDynamic first second => .ok (be16 first ++ be16 second)
  | methodHandle kind reference => .ok (be8 kind ++ be16 reference)

def bytes (c : Constant) : Except Fault Bytes := return c.tag :: (← c.payload)

end Constant

end ThreadWatch
