import ThreadWatch.Attribute

/-!
# The Code attribute

A method's body: its limits, its instructions as bytes, its exception table and its own
attributes. Reading accepts nothing behind them.
-/

namespace ThreadWatch

/-- The code from `start` up to `stop` is protected by the handler at `handler`. -/
structure ExceptionEntry where
  start : UInt16
  stop : UInt16
  handler : UInt16
  catchType : UInt16
  deriving DecidableEq, Repr

namespace ExceptionEntry

def read : Reader ExceptionEntry :=
  return ⟨← Cursor.u16, ← Cursor.u16, ← Cursor.u16, ← Cursor.u16⟩

def bytes (e : ExceptionEntry) : Bytes :=
  be16 e.start ++ be16 e.stop ++ be16 e.handler ++ be16 e.catchType

end ExceptionEntry

structure CodeAttribute where
  maxStack : UInt16
  maxLocals : UInt16
  code : Bytes
  exceptions : List ExceptionEntry
  attributes : List Attribute
  deriving DecidableEq, Repr

namespace CodeAttribute

def read : Reader CodeAttribute := do
  let maxStack ← Cursor.u16
  let maxLocals ← Cursor.u16
  let length ← Cursor.u32
  if length = 0 || length > 65535 then Cursor.damage (.codeLength length)
  let code ← Cursor.take length.toNat
  let count ← Cursor.u16
  let exceptions ← Cursor.times ExceptionEntry.read count.toNat
  let attributes ← Attribute.readList
  let left ← Cursor.remaining
  if left > 0 then Cursor.damage (.trailingAfterCode left)
  return ⟨maxStack, maxLocals, code, exceptions, attributes⟩

def parse (info : Bytes) : Except Fault CodeAttribute := read.run' info

def bytes (c : CodeAttribute) : Except Fault Bytes := do
  if c.code.length > 65535 then throw (.codeTooLarge c.code.length)
  let count ← countBytes c.exceptions.length (.handlerCount c.exceptions.length)
  let attributes ← Attribute.listBytes c.attributes
  return be16 c.maxStack ++ be16 c.maxLocals ++ beBytes 4 c.code.length ++ c.code ++
    count ++ c.exceptions.flatMap ExceptionEntry.bytes ++ attributes

end CodeAttribute

end ThreadWatch
