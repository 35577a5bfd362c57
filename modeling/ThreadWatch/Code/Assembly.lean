import ThreadWatch.Code.Opcode
import ThreadWatch.Descriptor
import ThreadWatch.Pool.Intern

/-!
# Assembling straight-line code

Steps that move values between locals, stack and calls. Assembling one appends its instruction,
adds the constants it needs and keeps count of the stack slots in use, in sixteen bits. A step looks
at the stack before it writes: one that fails has changed nothing but the pool, to which it may have
added constants.
-/

namespace ThreadWatch

/-- How a method is called. -/
inductive Dispatch where
  | virtual
  | special
  | static
  deriving DecidableEq, Repr

namespace Dispatch

def opcode : Dispatch → UInt8
  | virtual => Opcode.invokeVirtual
  | special => Opcode.invokeSpecial
  | static => Opcode.invokeStatic

/-- The slots of the object that the method is called on. -/
def receiverSlots : Dispatch → UInt16
  | virtual | special => 1
  | static => 0

end Dispatch

inductive Step where
  | load (kind : ValueKind) (slot : UInt16)
  | store (kind : ValueKind) (slot : UInt16)
  | dup
  | iconst (value : Int16)
  | isub
  | ldc (text : String)
  | getStatic (owner name descriptor : String)
  | newObject (type : String)
  | invoke (dispatch : Dispatch) (owner name descriptor : String)
  deriving DecidableEq, Repr

/-- The code so far, the stack slots in use and the most there were. -/
structure Assembly where
  code : Array UInt8
  depth : UInt16
  maxDepth : UInt16
  deriving DecidableEq, Repr

/-- An assembly and the pool for its constants. -/
structure Assembler where
  assembly : Assembly
  pool : Pool

/-- A step on an assembly and its pool. Both are what they are then when it fails. -/
abbrev Assembling := EStateM Fault Assembler

namespace Assembling

/-- Add constants to the pool. -/
def intern {α : Type} (x : Interning α) : Assembling α := fun s =>
  match x s.pool with
  | .ok a pool => .ok a { s with pool }
  | .error fault pool => .error fault { s with pool }

instance : MonadLift Interning Assembling := ⟨intern⟩

/-- The step on an assembly of its own, which it gives. -/
def on (x : Assembling Unit) (a : Assembly) : Interning Assembly := fun p =>
  match x ⟨a, p⟩ with
  | .ok _ s => .ok s.assembly s.pool
  | .error fault s => .error fault s.pool

end Assembling

namespace Assembly

def start (depth : UInt16) : Assembly := ⟨#[], depth, depth⟩

/-- Append an instruction that pops and pushes so many slots. -/
def emit (bytes : Bytes) (pops pushes : UInt16) : Assembling Unit := do
  let a := (← get).assembly
  if a.depth < pops then
    throw (Fault.malformed (.stackUnderflow a.code.size a.depth pops))
  let depth ← MonadExcept.ofExcept (addSlots (a.depth - pops) pushes)
  modify ({ · with assembly := ⟨a.code ++ bytes, depth, max a.maxDepth depth⟩ })

def emitIndexed (opcode : UInt8) (index pops pushes : UInt16) : Assembling Unit :=
  emit (opcode :: be16 index) pops pushes

/-- A local beyond 255 needs the wide form. -/
def emitLocal (opcode : UInt8) (slot pops pushes : UInt16) : Assembling Unit :=
  if slot ≤ 255 then emit [opcode, slot.toUInt8] pops pushes
  else emit (Opcode.wide :: opcode :: be16 slot) pops pushes

end Assembly

namespace ValueKind

def loadOpcode : ValueKind → UInt8
  | int => Opcode.iload
  | long => Opcode.lload
  | float => Opcode.fload
  | double => Opcode.dload
  | reference => Opcode.aload

def storeOpcode : ValueKind → UInt8
  | int => Opcode.istore
  | long => Opcode.lstore
  | float => Opcode.fstore
  | double => Opcode.dstore
  | reference => Opcode.astore

end ValueKind

/-- The slots of a field of this type. -/
def fieldSlots (descriptor : String) : UInt16 :=
  match descriptor.toList with
  | 'J' :: _ | 'D' :: _ => 2
  | _ => 1

/-- The shortest instruction that pushes `value`. -/
def iconstBytes (value : Int16) : Bytes :=
  if -1 ≤ value && value ≤ 5 then [Opcode.iconst0 + value.toInt8.toUInt8]
  else if -128 ≤ value && value ≤ 127 then [Opcode.bipush, value.toInt8.toUInt8]
  else Opcode.sipush :: be16 value.toUInt16

namespace Step

open Assembly

def assemble : Step → Assembling Unit
  | load kind slot => emitLocal kind.loadOpcode slot 0 kind.slots
  | store kind slot => emitLocal kind.storeOpcode slot kind.slots 0
  | dup => emit [Opcode.dup] 1 2
  | iconst value => emit (iconstBytes value) 0 1
  | isub => emit [Opcode.isub] 2 1
  | ldc text => do
    let index ← Pool.addString text
    if index ≤ 255 then emit [Opcode.ldc, index.toUInt8] 0 1
    else emitIndexed Opcode.ldcW index 0 1
  | getStatic owner name descriptor => do
    let index ← Pool.addMember .field owner name descriptor
    emitIndexed Opcode.getStatic index 0 (fieldSlots descriptor)
  | newObject type => do
    let index ← Pool.addType type
    emitIndexed Opcode.newObject index 0 1
  | invoke dispatch owner name descriptor => do
    let signature ← MonadExcept.ofExcept (MethodDescriptor.parse descriptor)
    let index ← Pool.addMember .method owner name descriptor
    let slots ← MonadExcept.ofExcept signature.parameterSlots
    let pops ← MonadExcept.ofExcept (addSlots slots dispatch.receiverSlots)
    emitIndexed dispatch.opcode index pops signature.resultSlots

end Step

/-- Steps one behind the other, up to the first that fails. -/
def assembleAll (steps : List Step) : Assembling Unit := steps.forM Step.assemble

end ThreadWatch
