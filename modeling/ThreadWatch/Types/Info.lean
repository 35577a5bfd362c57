import ThreadWatch.ClassFile.Basic

/-!
# Type summaries

The part of a class that questions about supertypes and methods need.
-/

namespace ThreadWatch

structure MethodKey where
  name : String
  descriptor : String
  deriving DecidableEq, Repr

structure TypeInfo where
  name : String
  superName : Option String
  interfaces : List String
  isInterface : Bool
  methods : List MethodKey
  deriving DecidableEq, Repr

namespace TypeInfo

def methodKey (c : ClassFile) (m : Member) : Except Fault MethodKey := do
  let name ← c.memberName m
  let descriptor ← c.memberDescriptor m
  return ⟨name, descriptor⟩

def ofClass (c : ClassFile) : Except Fault TypeInfo := do
  let methods ← c.methods.mapM (methodKey c)
  let name ← c.name
  let superName ← c.superName
  let interfaces ← c.interfaceNames
  return ⟨name, superName, interfaces, c.isInterface, methods⟩

def parse (data : Bytes) : Except Fault TypeInfo := do ofClass (← ClassFile.parse data)

/-- Whether the type itself declares the method. -/
def declares (t : TypeInfo) (name descriptor : String) : Bool :=
  t.methods.any fun m => m.name == name && m.descriptor == descriptor

/-- The direct supertypes, the superclass first. -/
def supertypes (t : TypeInfo) : List String := t.superName.toList ++ t.interfaces

end TypeInfo

end ThreadWatch
