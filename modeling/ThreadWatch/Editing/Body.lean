import ThreadWatch.Code.Attribute
import ThreadWatch.Code.DebugTable
import ThreadWatch.Code.Frame
import ThreadWatch.Code.Relocate

/-!
# Edited bodies

A method body with insertions, and its Code attribute after them: every table that speaks of
offsets is moved along with the code, limits grow by what the insertions need, and annotations of
types, which cannot be moved, are dropped.
-/

namespace ThreadWatch

structure Body where
  /-- Which attribute of the method holds the body. -/
  holder : Nat
  code : CodeAttribute
  items : List Item
  extraStack : UInt16
  extraLocals : UInt16
  deriving DecidableEq, Repr

namespace Body

def parse (holder : Nat) (info : Bytes) : Except Fault Body := do
  let code ← CodeAttribute.parse info
  let instructions ← Instruction.decode code.code
  return ⟨holder, code, instructions.map (⟨·, none⟩), 0, 0⟩

def isEdited (b : Body) : Bool := b.items.any (·.inserted.isSome)

/-- An offset as the class file writes it. -/
def narrow (offset : Nat) : Except Fault UInt16 :=
  if offset < 65536 then .ok (UInt16.ofNat offset) else .error (.codeTooLarge offset)

def movedGroup (l : Layout) (offset : UInt16) : Except Fault UInt16 := do
  narrow (← l.group offset.toNat)

def moveException (l : Layout) (e : ExceptionEntry) : Except Fault ExceptionEntry := do
  let start ← movedGroup l e.start
  let stop ← movedGroup l e.stop
  let handler ← movedGroup l e.handler
  return { e with start, stop, handler }

def moveLine (l : Layout) (n : LineNumber) : Except Fault LineNumber := do
  return { n with start := ← movedGroup l n.start }

/-- The scope from the group of its first offset up to the group of the offset behind it. -/
def moveScope (l : Layout) (v : LocalVariable) : Except Fault LocalVariable := do
  let start ← l.group v.start.toNat
  let stop ← l.group (v.start.toNat + v.length.toNat)
  return { v with start := ← narrow start, length := ← narrow (stop - start) }

/-- The frame at the group of its offset; the `new` instructions it names are where they are. -/
def moveFrame (l : Layout) (f : Frame) : Except Fault Frame := do
  let offset ← l.group f.offset
  let kind ← f.kind.mapUninitialized fun new => do narrow (← l.instruction new.toNat)
  return ⟨offset, kind⟩

/-- A nested attribute behind the edit; nothing for one that is dropped. -/
def moveAttribute (pool : Pool) (l : Layout) (a : Attribute) : Except Fault (Option Attribute) := do
  if a.isNamed pool "RuntimeVisibleTypeAnnotations" ||
      a.isNamed pool "RuntimeInvisibleTypeAnnotations" then
    return none
  else if a.isNamed pool "LineNumberTable" then
    let rows ← (← LineNumber.parseTable a.info).mapM (moveLine l)
    return some { a with info := tableBytes LineNumber.bytes rows }
  else if a.isNamed pool "LocalVariableTable" || a.isNamed pool "LocalVariableTypeTable" then
    let rows ← (← LocalVariable.parseTable a.info).mapM (moveScope l)
    return some { a with info := tableBytes LocalVariable.bytes rows }
  else if a.isNamed pool "StackMapTable" then
    let frames ← (← Frame.decode a.info).mapM (moveFrame l)
    return some { a with info := ← Frame.encode frames }
  else return some a

/-- `slots` grown by `more`, if sixteen bits hold the sum. -/
def grow (limit : UInt16 → UInt16 → Limit) (slots more : UInt16) : Except Fault UInt16 :=
  if slots.toNat + more.toNat < 65536 then .ok (slots + more)
  else .error (.notSupported (limit slots more))

def toCode (pool : Pool) (b : Body) : Except Fault CodeAttribute := do
  let ⟨code, l⟩ ← relocate b.code.code.length b.items
  let exceptions ← b.code.exceptions.mapM (moveException l)
  let attributes ← b.code.attributes.mapM (moveAttribute pool l)
  let maxStack ← grow .stackGrowth b.code.maxStack b.extraStack
  let maxLocals ← grow .localsGrowth b.code.maxLocals b.extraLocals
  return ⟨maxStack, maxLocals, code, exceptions, attributes.reduceOption⟩

end Body

end ThreadWatch
