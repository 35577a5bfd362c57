import ThreadWatch.ClassFile.Basic
import ThreadWatch.Code.Attribute
import ThreadWatch.Pool.Intern

/-!
# Drafts of class files

A class described by names. Building it adds the names to the pool that the draft already has, so
indices handed out before stay good.
-/

namespace ThreadWatch

structure DraftMember where
  access : UInt16
  name : String
  descriptor : String
  /-- The body of a method that has one. -/
  body : Option CodeAttribute
  deriving DecidableEq, Repr

structure Draft where
  name : String
  superName : Option String
  interfaces : List String
  access : UInt16
  major : UInt16
  pool : Pool
  fields : Array DraftMember
  methods : Array DraftMember
  deriving DecidableEq, Repr

namespace Draft

/-- A public class of version 52; an empty `superName` means none. -/
def new (name superName : String) : Draft where
  name
  superName := if superName.isEmpty then none else some superName
  interfaces := []
  access := 0x0021
  major := 52
  pool := Pool.empty
  fields := #[]
  methods := #[]

def withInterface (d : Draft) (name : String) : Draft :=
  { d with interfaces := d.interfaces ++ [name] }

def withField (d : Draft) (access : UInt16) (name descriptor : String) : Draft :=
  { d with fields := d.fields.push ⟨access, name, descriptor, none⟩ }

def withMethod (d : Draft) (access : UInt16) (name descriptor : String)
    (body : Option CodeAttribute) : Draft :=
  { d with methods := d.methods.push ⟨access, name, descriptor, body⟩ }

/-- The draft after adding constants to its pool, and what the adding gave. -/
def intern {α : Type} (d : Draft) (step : Interning α) : Except Fault α × Draft :=
  match step d.pool with
  | .ok a pool => (.ok a, { d with pool })
  | .error fault pool => (.error fault, { d with pool })

def buildMember (m : DraftMember) : Interning Member := do
  let name ← Pool.addUtf8 m.name
  let descriptor ← Pool.addUtf8 m.descriptor
  let attributes ← match m.body with
    | none => pure []
    | some body => do
      let code ← Pool.addUtf8 "Code"
      pure [⟨code, ← MonadExcept.ofExcept body.bytes⟩]
  return ⟨m.access, name, descriptor, attributes⟩

/-- The header indices and the members, in the order in which they are added. -/
def buildParts (d : Draft) :
    Interning (UInt16 × UInt16 × List UInt16 × List Member × List Member) := do
  let thisClass ← Pool.addType d.name
  let superClass ← match d.superName with
    | none => pure 0
    | some name => Pool.addType name
  let interfaces ← d.interfaces.mapM Pool.addType
  let fields ← d.fields.toList.mapM buildMember
  let methods ← d.methods.toList.mapM buildMember
  return (thisClass, superClass, interfaces, fields, methods)

def toClassFile (d : Draft) : Except Fault ClassFile :=
  match d.buildParts d.pool with
  | .error fault _ => .error fault
  | .ok (thisClass, superClass, interfaces, fields, methods) pool =>
    .ok { minor := 0, major := d.major, pool, access := d.access, thisClass, superClass,
          interfaces, fields, methods, attributes := [] }

def build (d : Draft) : Except Fault Bytes := do
  (← d.toClassFile).bytes

end Draft

end ThreadWatch
