import ThreadWatch.Editing.Body
import ThreadWatch.Editing.Probe
import ThreadWatch.Editing.Site
import ThreadWatch.Types.Info

/-!
# Classes under edit

A parsed class whose calls can be given preludes. Nothing of the class but its pool changes until
it is serialized.
-/

namespace ThreadWatch

structure Workpiece where
  file : ClassFile
  info : TypeInfo
  /-- The body of every method that has one, by method. -/
  bodies : List (Option Body)
  deriving DecidableEq, Repr

namespace Workpiece

def bodyOf (pool : Pool) (m : Member) : Except Fault (Option Body) :=
  match m.findAttribute pool "Code" with
  | none => .ok none
  | some index =>
    match m.attributes[index]? with
    | none => .ok none
    | some holder => some <$> Body.parse index holder.info

def parse (data : Bytes) : Except Fault Workpiece := do
  let file ← ClassFile.parse data
  let info ← TypeInfo.ofClass file
  let bodies ← file.methods.mapM (bodyOf file.pool)
  return ⟨file, info, bodies⟩

def isEdited (w : Workpiece) : Bool := w.bodies.any (·.any Body.isEdited)

/-- The call that instruction `index` of method `method` makes, if it makes one on an object. -/
def siteAt (pool : Pool) (method index : Nat) (i : Instruction) :
    Except Fault (Option CallSite) := do
  match InvokeKind.ofOpcode? i.opcode with
  | none => return none
  | some kind =>
    match i.constant? with
    | none => damaged (.callWithoutConstant i.offset)
    | some constant => do
      let ref ← pool.memberRef constant
      if ref.kind = .field then damaged (.callOfField i.offset ref.owner ref.name)
      return some ⟨method, index, i.offset, kind, ref.owner, ref.name, ref.descriptor⟩

def sitesOf (pool : Pool) (method : Nat) (body : Body) : Except Fault (List CallSite) :=
  List.reduceOption <$>
    body.items.zipIdx.mapM fun (item, index) => siteAt pool method index item.instruction

/-- Every call on an object, in method and then code order. -/
def callSites (w : Workpiece) : Except Fault (List CallSite) :=
  List.flatten <$> w.bodies.zipIdx.mapM fun
    | (some body, method) => sitesOf w.file.pool method body
    | (none, _) => .ok []

/-- The method that holds a call, as messages name it. -/
def enclosingMethod (w : Workpiece) (site : CallSite) : String :=
  let method := w.file.methods[site.method]?
  let name := method.bind fun m => (w.file.memberName m).toOption
  let descriptor := method.bind fun m => (w.file.memberDescriptor m).toOption
  toDotted w.info.name ++ "." ++ name.getD "<unknown>" ++ descriptor.getD ""

def matchesSite (site : CallSite) (item : Item) : Bool :=
  item.instruction.offset == site.offset &&
    InvokeKind.ofOpcode? item.instruction.opcode == some site.kind

/-- The body that holds a call, if an edit can be made there. -/
def editable (w : Workpiece) (site : CallSite) : Except Fault Body := do
  match w.bodies[site.method]? with
  | some (some body) =>
    match body.items[site.instruction]? with
    | some item =>
      if !matchesSite site item then
        damaged (.noCall site.kind.name site.offset site.signature)
      else if item.inserted.isSome then
        throw (.notSupported (.alreadyInstrumented site.signature site.offset))
      else return body
    | none => damaged (.noCall site.kind.name site.offset site.signature)
  | _ => damaged (.noBody site.method site.signature)

/-- A body with a prelude in front of one of its instructions. -/
def insert (body : Body) (index : Nat) (prelude : Prelude) : Body :=
  { body with
    items := body.items.modify index fun item => { item with inserted := some prelude.code }
    extraStack := max body.extraStack prelude.extraStack
    extraLocals := max body.extraLocals prelude.extraLocals }

/-- Put a probe in front of a call. The pool keeps the constants of a probe that did not fit. -/
def replaceCallSite (site : CallSite) (probe : Probe) : EStateM Fault Workpiece Unit := fun w =>
  match w.editable site with
  | .error fault => .error fault w
  | .ok body =>
    match Prelude.compile probe site.descriptor body.code.maxLocals w.file.pool with
    | .error fault pool => .error fault { w with file := { w.file with pool } }
    | .ok prelude pool =>
      .ok () { w with
        file := { w.file with pool }
        bodies := w.bodies.set site.method (some (insert body site.instruction prelude)) }

/-- A method with its edited body, if it was edited. -/
def editedMethod (pool : Pool) (m : Member) (body : Option Body) : Except Fault Member := do
  match body with
  | some body =>
    if body.isEdited then
      let info ← (← body.toCode pool).bytes
      return { m with
        attributes := m.attributes.modify body.holder fun a => { a with info } }
    else return m
  | none => return m

def serialize (w : Workpiece) : Except Fault Bytes := do
  let methods ← (w.file.methods.zip w.bodies).mapM fun (m, body) =>
    editedMethod w.file.pool m body
  { w.file with methods }.bytes

end Workpiece

end ThreadWatch
