/-!
# Opcodes

The opcodes that editing names, and what follows each opcode of the instruction set.
-/

namespace ThreadWatch.Opcode

def iconst0 : UInt8 := 0x03
def bipush : UInt8 := 0x10
def sipush : UInt8 := 0x11
def ldc : UInt8 := 0x12
def ldcW : UInt8 := 0x13
def ldc2W : UInt8 := 0x14
def iload : UInt8 := 0x15
def lload : UInt8 := 0x16
def fload : UInt8 := 0x17
def dload : UInt8 := 0x18
def aload : UInt8 := 0x19
def istore : UInt8 := 0x36
def lstore : UInt8 := 0x37
def fstore : UInt8 := 0x38
def dstore : UInt8 := 0x39
def astore : UInt8 := 0x3A
def dup : UInt8 := 0x59
def isub : UInt8 := 0x64
def iinc : UInt8 := 0x84
def ret : UInt8 := 0xA9
def getStatic : UInt8 := 0xB2
def invokeVirtual : UInt8 := 0xB6
def invokeSpecial : UInt8 := 0xB7
def invokeStatic : UInt8 := 0xB8
def invokeInterface : UInt8 := 0xB9
def invokeDynamic : UInt8 := 0xBA
def newObject : UInt8 := 0xBB
def wide : UInt8 := 0xC4
def gotoW : UInt8 := 0xC8
def jsrW : UInt8 := 0xC9

/-- What follows an opcode. -/
inductive Shape where
  /-- This many bytes, whatever they say. -/
  | fixed (count : Nat)
  /-- A two-byte distance. -/
  | branch
  /-- A four-byte distance. -/
  | branchW
  | tableSwitch
  | lookupSwitch
  /-- Another opcode with longer operands. -/
  | wide
  /-- Nothing, for this is no opcode. -/
  | unknown
  deriving DecidableEq, Repr

def shape (op : UInt8) : Shape :=
  if op ≤ 0x0F then .fixed 0
  else if op = bipush || op = ldc then .fixed 1
  else if op = sipush || op = ldcW || op = ldc2W then .fixed 2
  else if op ≤ aload then .fixed 1
  else if op ≤ 0x35 then .fixed 0
  else if op ≤ astore then .fixed 1
  else if op ≤ 0x83 then .fixed 0
  else if op = iinc then .fixed 2
  else if op ≤ 0x98 then .fixed 0
  else if op ≤ 0xA8 then .branch
  else if op = ret then .fixed 1
  else if op = 0xAA then .tableSwitch
  else if op = 0xAB then .lookupSwitch
  else if op ≤ 0xB1 then .fixed 0
  else if op ≤ invokeStatic then .fixed 2
  else if op ≤ invokeDynamic then .fixed 4
  else if op = newObject then .fixed 2
  else if op = 0xBC then .fixed 1
  else if op = 0xBD then .fixed 2
  else if op ≤ 0xBF then .fixed 0
  else if op ≤ 0xC1 then .fixed 2
  else if op ≤ 0xC3 then .fixed 0
  else if op = wide then .wide
  else if op = 0xC5 then .fixed 3
  else if op ≤ 0xC7 then .branch
  else if op ≤ jsrW then .branchW
  else .unknown

/-- How many operand bytes follow `op` behind the wide opcode; most opcodes cannot stand there. -/
def wideOperands (op : UInt8) : Option Nat :=
  if iload ≤ op && op ≤ aload || istore ≤ op && op ≤ astore || op = ret then some 2
  else if op = iinc then some 4
  else none

/-- Whether the first two operand bytes are an index into the constant pool. -/
def takesConstant (op : UInt8) : Bool :=
  op = ldcW || op = ldc2W || getStatic ≤ op && op ≤ newObject || op = 0xBD || op = 0xC0 ||
    op = 0xC1 || op = 0xC5

/-- How control leaves an instruction. -/
inductive Flow where
  | sequential
  | conditional
  | unconditional
  | switch
  | call
  | terminal
  deriving DecidableEq, Repr

def Flow.name : Flow → String
  | sequential => "sequential"
  | conditional => "conditional"
  | unconditional => "unconditional"
  | switch => "switch"
  | call => "call"
  | terminal => "terminal"

def flow (op : UInt8) : Flow :=
  if 0x99 ≤ op && op ≤ 0xA6 || op = 0xC6 || op = 0xC7 then .conditional
  else if op = 0xA7 || op = 0xA8 || op = gotoW || op = jsrW then .unconditional
  else if op = 0xAA || op = 0xAB then .switch
  else if invokeVirtual ≤ op && op ≤ invokeDynamic then .call
  else if 0xAC ≤ op && op ≤ 0xB1 || op = 0xBF || op = ret then .terminal
  else .sequential

def isInvoke (op : UInt8) : Bool := invokeVirtual ≤ op && op ≤ invokeDynamic

end ThreadWatch.Opcode
