import ThreadWatch.Vm.Call

/-!
# Scripts

What a staged machine does at some calls in place of what it would do. An entry is for a function,
or for a function with what it is called on; the most particular entry counts.
-/

namespace ThreadWatch.Vm

/-- What happens at a call. -/
inductive Reaction where
  | code (n : Int)
  | null
  /-- Null, with an exception left pending. -/
  | throws
  deriving DecidableEq, Repr

/-- Reactions by function, or by function and labels with spaces between. -/
abbrev Script := List (String × Reaction)

namespace Call

def functionName : Call → String
  | getEnv _ => "GetEnv"
  | addCapabilities _ => "AddCapabilities"
  | setEventCallbacks _ => "SetEventCallbacks"
  | enableEvent _ => "SetEventNotificationMode"
  | getLoadedClasses => "GetLoadedClasses"
  | getClassSignature _ => "GetClassSignature"
  | retransformClass _ => "RetransformClasses"
  | allocate _ => "Allocate"
  | deallocate => "Deallocate"
  | getErrorName _ => "GetErrorName"
  | findClass _ => "FindClass"
  | getMethod _ _ _ => "GetMethodID"
  | getStaticMethod _ _ _ => "GetStaticMethodID"
  | newGlobalRef _ => "NewGlobalRef"
  | deleteLocalRef _ => "DeleteLocalRef"
  | pushLocalFrame _ => "PushLocalFrame"
  | popLocalFrame => "PopLocalFrame"
  | newString _ => "NewStringUTF"
  | callObject _ _ _ => "CallObjectMethodA"
  | callStaticObject _ _ _ => "CallStaticObjectMethodA"
  | callVoid _ _ => "CallVoidMethodA"
  | getArrayLength _ => "GetArrayLength"
  | getByteArrayRegion _ _ => "GetByteArrayRegion"
  | exceptionCheck => "ExceptionCheck"
  | exceptionDescribe => "ExceptionDescribe"
  | exceptionClear => "ExceptionClear"
  | fatalError _ => "FatalError"

/-- The resource that a method call is about. -/
def resource (receiver : Object) (argument : Option Object) : String :=
  (argument.getD receiver).label

/-- What a call is about, as scripts name it. -/
def labels : Call → List String
  | enableEvent event => [toString event.number]
  | getClassSignature type | retransformClass type => [type.label]
  | findClass name => [name]
  | getMethod _ name _ | getStaticMethod _ name _ => [name]
  | newString text => [text]
  | callObject receiver method argument => [method.name, resource receiver argument]
  | callStaticObject type method argument => [method.name, resource type (some argument)]
  | callVoid receiver method => [method.name, receiver.label]
  | getArrayLength array | getByteArrayRegion array _ => [array.label]
  | _ => []

/-- Something a call is made with, as a record shows it. -/
inductive Argument where
  | text (text : String)
  | number (n : Int)
  | numbers (ns : List Nat)
  | flags (flags : List Bool)
  deriving DecidableEq, Repr

def shown (object : Object) : Argument := .text object.describe

/-- What a call is made with, in the order of the machine's own parameters. -/
def arguments : Call → List Argument
  | getEnv version => [.number version.toNat]
  | addCapabilities bits => [.numbers bits]
  | setEventCallbacks given => [.flags given, .number given.length]
  | enableEvent event => [.number 1, .number event.number, .text "null"]
  | getClassSignature type => [shown type]
  | retransformClass type => [.number 1, shown type]
  | allocate size => [.number size]
  | getErrorName code => [.number code.toNat]
  | findClass name => [.text name]
  | getMethod type name descriptor | getStaticMethod type name descriptor =>
    [shown type, .text name, .text descriptor]
  | newGlobalRef object => [shown object]
  | pushLocalFrame capacity => [.number capacity]
  | popLocalFrame => [.text "null"]
  | newString text => [.text text]
  | callObject receiver method argument =>
    [shown receiver, .text method.name, .text (resource receiver argument)]
  | callStaticObject type method argument =>
    [shown type, .text method.name, .text argument.label]
  | callVoid receiver method => [shown receiver, .text method.name]
  | getArrayLength array => [shown array]
  | getByteArrayRegion array length => [shown array, .number 0, .number length.toInt]
  | _ => []

/-- The entries that speak of a call, the most particular first. -/
def keys (c : Call) : List String :=
  (List.range (c.labels.length + 1)).reverse.map fun n =>
    String.intercalate " " (c.functionName :: c.labels.take n)

end Call

def Script.reaction (s : Script) (c : Call) : Option Reaction :=
  c.keys.findSome? fun key => List.lookup key s

end ThreadWatch.Vm
