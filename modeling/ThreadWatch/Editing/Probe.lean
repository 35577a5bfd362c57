import ThreadWatch.Code.Assembly
import ThreadWatch.Name

/-!
# Probes

What is reported about a call, and the prelude that reports it: code inserted in front of the call
that parks the arguments in fresh locals, prints, and puts receiver and arguments back as they
were.
-/

namespace ThreadWatch

/-- What every line of output starts with. -/
def marker : String := "[threadscope] "

/-- The calls that are watched. -/
inductive Operation where
  | start
  | join
  deriving DecidableEq, Repr

namespace Operation

def name : Operation → String
  | start => "start"
  | join => "join"

def ofName? (name : String) : Option Operation := [start, join].find? (·.name == name)

end Operation

structure Probe where
  operation : Operation
  /-- The type that declares the called method. -/
  declaring : String
  traceCaller : Bool
  dumpStack : Bool
  deriving DecidableEq, Repr

/-- The line that reports the call, up to the thread's number. -/
def Probe.detection (p : Probe) : String :=
  marker ++ "Detected " ++ toDotted p.declaring ++ "." ++ p.operation.name ++ "() id: "

/-- Code for in front of a call, and what it adds to the limits of the method. -/
structure Prelude where
  code : Bytes
  extraStack : UInt16
  extraLocals : UInt16
  deriving DecidableEq, Repr

namespace Prelude

def system : String := "java/lang/System"
def string : String := "java/lang/String"
def printStream : String := "java/io/PrintStream"
def throwable : String := "java/lang/Throwable"
def arrays : String := "java/util/Arrays"

def out : Step := .getStatic system "out" "Ljava/io/PrintStream;"
def println : Step := .invoke .virtual printStream "println" "(Ljava/lang/String;)V"
def concat : Step := .invoke .virtual string "concat" "(Ljava/lang/String;)Ljava/lang/String;"
def threadName : Step := .invoke .virtual watchedType "getName" "()Ljava/lang/String;"
def currentThread : Step := .invoke .static watchedType "currentThread" "()Ljava/lang/Thread;"

/-- The number of the thread on top, appended to the text below it, and the lead of its name. -/
def identity : List Step := [
  .invoke .virtual watchedType "getId" "()J",
  .invoke .static string "valueOf" "(J)Ljava/lang/String;",
  concat, .ldc " name: ", concat]

/-- The line about the thread that is called. -/
def detectionLine (detection : String) (receiver : UInt16) : List Step :=
  [out, .ldc detection, .load .reference receiver] ++ identity ++
    [.load .reference receiver, threadName, concat, println]

/-- The line about the thread that calls. -/
def callerLine : List Step :=
  [out, .ldc (marker ++ "Caller thread id: "), currentThread] ++ identity ++
    [currentThread, threadName, concat, println]

def indent : String := marker ++ "\t"

/-- A line for every element of the caller's stack trace, whose text is parked in `scratch`. -/
def stackLines (scratch : UInt16) : List Step := [
  out, .ldc indent, .newObject throwable, .dup,
  .invoke .special throwable "<init>" "()V",
  .invoke .virtual throwable "getStackTrace" "()[Ljava/lang/StackTraceElement;",
  .invoke .static arrays "toString" "([Ljava/lang/Object;)Ljava/lang/String;",
  .store .reference scratch,
  .load .reference scratch, .iconst 1, .load .reference scratch,
  .invoke .virtual string "length" "()I", .iconst 1, .isub,
  .invoke .virtual string "substring" "(II)Ljava/lang/String;",
  .ldc ", ",
  .invoke .static system "lineSeparator" "()Ljava/lang/String;",
  .ldc indent, concat,
  .invoke .virtual string "replace"
    "(Ljava/lang/CharSequence;Ljava/lang/CharSequence;)Ljava/lang/String;",
  concat, println]

/-- The parameters with the locals they are parked in, from `slot` on. -/
def parking (slot : UInt16) : List ValueKind → List (ValueKind × UInt16)
  | [] => []
  | kind :: rest => (kind, slot) :: parking (slot + kind.slots) rest

/-- The local behind those that the parameters are parked in. -/
def behind (slot : UInt16) (kinds : List ValueKind) : UInt16 :=
  kinds.foldl (fun slot kind => slot + kind.slots) slot

/-- The prelude's steps for a call with these parameters; `first` is the first free local. That
there are locals for them is for `compile` to see to. -/
def steps (probe : Probe) (d : MethodDescriptor) (first : UInt16) : List Step :=
  let parked := parking first d.parameters
  let receiver := behind first d.parameters
  parked.reverse.map (fun (kind, slot) => .store kind slot) ++
    [.dup, .store .reference receiver] ++
    detectionLine probe.detection receiver ++
    (if probe.traceCaller then callerLine else []) ++
    (if probe.dumpStack then stackLines (receiver + 1) else []) ++
    parked.map (fun (kind, slot) => .load kind slot)

/-- Compile a probe for a call of a method with this descriptor. -/
def compile (probe : Probe) (descriptor : String) (first : UInt16) : Interning Prelude := do
  let d ← MonadExcept.ofExcept (MethodDescriptor.parse descriptor)
  let slots ← MonadExcept.ofExcept d.parameterSlots
  let extraLocals ← MonadExcept.ofExcept (addSlots slots 2)
  if first.toNat + extraLocals.toNat > 65535 then
    throw (Fault.notSupported (.localsFull first extraLocals))
  let initial ← MonadExcept.ofExcept (addSlots slots 1)
  let done ← (assembleAll (steps probe d first)).on (Assembly.start initial)
  if done.depth ≠ initial then
    throw (Fault.malformed (.preludeDepth done.depth initial))
  return ⟨done.code.toList, done.maxDepth - initial, extraLocals⟩

end Prelude

end ThreadWatch
