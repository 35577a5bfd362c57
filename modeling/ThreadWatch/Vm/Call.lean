import ThreadWatch.Bytes.Scalar

/-!
# Calls into a virtual machine

The functions that the agent calls, some of the machine's tool interface and some of its native
interface, with what each takes and gives back. Whatever may be null is optional.
-/

namespace ThreadWatch.Vm

/-- A reference to something inside the machine. -/
inductive Object where
  | type (name : String)
  /-- One of the classes the machine has loaded. -/
  | loaded (index : Nat) (signature : String)
  | loader (name : String)
  | string (text : String)
  | stream (loader resource : String)
  | array (loader resource : String)
  /-- A lasting reference to what another reference denotes. -/
  | lasting (object : Object)
  deriving DecidableEq, Repr

namespace Object

def label : Object → String
  | type name => name
  | loaded _ signature => signature
  | loader name => name
  | string text => text
  | stream _ resource => resource
  | array _ resource => resource
  | lasting object => object.label

def kindName : Object → String
  | type _ | loaded _ _ => "class"
  | loader _ => "loader"
  | string _ => "string"
  | stream _ _ => "stream"
  | array _ _ => "array"
  | lasting _ => "global"

def describe (o : Object) : String := o.kindName ++ " " ++ o.label

end Object

/-- A method that the machine has looked up. -/
structure Method where
  name : String
  deriving DecidableEq, Repr

/-- The events that the agent asks for. -/
inductive Event where
  | started
  | classDefinition
  deriving DecidableEq, Repr

def Event.number : Event → Nat
  | started => 50
  | classDefinition => 54

inductive Call where
  | getEnv (version : UInt32)
  | addCapabilities (bits : List Nat)
  /-- Which of the callbacks are given, in the order of the machine's table. -/
  | setEventCallbacks (given : List Bool)
  | enableEvent (event : Event)
  | getLoadedClasses
  | getClassSignature (type : Object)
  | retransformClass (type : Object)
  | allocate (size : Nat)
  | deallocate
  | getErrorName (code : UInt32)
  | findClass (name : String)
  | getMethod (type : Object) (name descriptor : String)
  | getStaticMethod (type : Object) (name descriptor : String)
  | newGlobalRef (object : Object)
  | deleteLocalRef (object : Object)
  | pushLocalFrame (capacity : Nat)
  | popLocalFrame
  | newString (text : String)
  | callObject (receiver : Object) (method : Method) (argument : Option Object)
  | callStaticObject (type : Object) (method : Method) (argument : Object)
  | callVoid (receiver : Object) (method : Method)
  | getArrayLength (array : Object)
  /-- The bytes of an array from its start. -/
  | getByteArrayRegion (array : Object) (length : Int32)
  | exceptionCheck
  | exceptionDescribe
  | exceptionClear
  | fatalError (text : String)
  deriving DecidableEq, Repr

/-- What a call gives back; a code of zero is success. -/
@[reducible] def Call.Reply : Call → Type
  | getEnv _ => Int32 × Bool
  | addCapabilities _ | setEventCallbacks _ | enableEvent _ | retransformClass _ | allocate _
  | deallocate => UInt32
  | getLoadedClasses => UInt32 × Option (List Object)
  | getClassSignature _ | getErrorName _ => UInt32 × Option Bytes
  | findClass _ | newGlobalRef _ | newString _ | callObject _ _ _ | callStaticObject _ _ _ =>
    Option Object
  | getMethod _ _ _ | getStaticMethod _ _ _ => Option Method
  | pushLocalFrame _ | getArrayLength _ => Int32
  | getByteArrayRegion _ _ => Bytes
  | exceptionCheck => Bool
  | deleteLocalRef _ | popLocalFrame | callVoid _ _ | exceptionDescribe | exceptionClear
  | fatalError _ => Unit

end ThreadWatch.Vm
