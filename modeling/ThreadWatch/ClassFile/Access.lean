/-!
# Access flags

The bits that class files define for classes and for methods. Other bits are kept and mean nothing.
-/

namespace ThreadWatch.Access

/-- A flag's name and its bit. -/
abbrev Flag := String × UInt16

def ofClass : List Flag := [
  ("PUBLIC", 0x0001), ("FINAL", 0x0010), ("SUPER", 0x0020), ("INTERFACE", 0x0200),
  ("ABSTRACT", 0x0400), ("SYNTHETIC", 0x1000), ("ANNOTATION", 0x2000), ("ENUM", 0x4000),
  ("MODULE", 0x8000)]

def ofMethod : List Flag := [
  ("PUBLIC", 0x0001), ("PRIVATE", 0x0002), ("PROTECTED", 0x0004), ("STATIC", 0x0008),
  ("FINAL", 0x0010), ("SYNCHRONIZED", 0x0020), ("BRIDGE", 0x0040), ("VARARGS", 0x0080),
  ("NATIVE", 0x0100), ("ABSTRACT", 0x0400), ("STRICT", 0x0800), ("SYNTHETIC", 0x1000)]

/-- The names of the flags set in `access`. -/
def names (flags : List Flag) (access : UInt16) : List String :=
  (flags.filter fun (_, bit) => access &&& bit != 0).map Prod.fst

def isInterface (access : UInt16) : Bool := access &&& 0x0200 != 0

end ThreadWatch.Access
