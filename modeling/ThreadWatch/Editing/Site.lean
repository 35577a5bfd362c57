import ThreadWatch.Code.Opcode

/-!
# Call sites

A call of an instance method, as an instruction of a body and as the method it names.
-/

namespace ThreadWatch

/-- The calls that have a receiver. -/
inductive InvokeKind where
  | virtual
  | special
  | interface
  deriving DecidableEq, Repr

namespace InvokeKind

def ofOpcode? (op : UInt8) : Option InvokeKind :=
  if op = Opcode.invokeVirtual then some virtual
  else if op = Opcode.invokeSpecial then some special
  else if op = Opcode.invokeInterface then some interface
  else none

def name : InvokeKind → String
  | virtual => "invokevirtual"
  | special => "invokespecial"
  | interface => "invokeinterface"

def all : List InvokeKind := [virtual, special, interface]

end InvokeKind

structure CallSite where
  /-- Which method of the class. -/
  method : Nat
  /-- Which instruction of its body. -/
  instruction : Nat
  offset : Nat
  kind : InvokeKind
  owner : String
  name : String
  descriptor : String
  deriving DecidableEq, Repr

/-- A method as messages name it. -/
def CallSite.signature (s : CallSite) : String := s.owner ++ "." ++ s.name ++ s.descriptor

end ThreadWatch
