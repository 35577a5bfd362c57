import ThreadWatch.Text.Quoted
import ThreadWatch.Vm.Machine

/-!
# The native interface

Calls that may leave an exception pending are followed by a check, which clears it and fails.
References are let go of when what uses them is done, however it ends.
-/

namespace ThreadWatch.Vm.Machine

variable {σ α : Type} (m : Machine σ)

def checkException (what : String) : Act σ Unit := do
  if ← m.call .exceptionCheck then
    if m.isNoting then m.call .exceptionDescribe
    m.call .exceptionClear
    throw (.jni (.raised what))

/-- The reply of a call, if it raised nothing. -/
def checked (what : String) (reply : Option α) : Act σ (Option α) := do
  m.checkException what
  return reply

/-- Text is handed over up to its first zero, so it must not have one. -/
def checkText (text : String) : Act σ Unit :=
  if text.toList.contains '\x00' then throw (.jni (.containsNul (Quoted.quote text))) else pure ()

/-- Use a reference and let go of it. -/
def holding (object : Object) (body : Act σ α) : Act σ α :=
  body.andThen (m.call (.deleteLocalRef object))

def findClass (name : String) : Act σ Object := do
  checkText name
  match ← m.checked name (← m.call (.findClass name)) with
  | some type => return type
  | none => throw (.jni (.noClass name))

/-- The method that a call for its name found. -/
def foundMethod (name : String) (reply : Option Method) : Act σ Method := do
  match ← m.checked name reply with
  | some method => return method
  | none => throw (.jni (.noMethod name))

def method (type : Object) (name descriptor : String) : Act σ Method := do
  m.foundMethod name (← m.call (.getMethod type name descriptor))

def staticMethod (type : Object) (name descriptor : String) : Act σ Method := do
  m.foundMethod name (← m.call (.getStaticMethod type name descriptor))

/-- A lasting reference; a failure is told by the reply alone. -/
def globalRef (object : Object) : Act σ Object := do
  match ← m.call (.newGlobalRef object) with
  | some lasting => return lasting
  | none => throw (.jni .nullGlobal)

def newString (text : String) : Act σ Object := do
  checkText text
  match ← m.checked "NewStringUTF" (← m.call (.newString text)) with
  | some string => return string
  | none => throw (.jni .nullString)

def callObject (receiver : Object) (method : Method) (argument : Option Object) :
    Act σ (Option Object) := do
  m.checked "CallObjectMethodA" (← m.call (.callObject receiver method argument))

def callStaticObject (type : Object) (method : Method) (argument : Object) :
    Act σ (Option Object) := do
  m.checked "CallStaticObjectMethodA" (← m.call (.callStaticObject type method argument))

def callVoid (receiver : Object) (method : Method) : Act σ Unit := do
  m.call (.callVoid receiver method)
  m.checkException "CallVoidMethodA"

/-- The bytes of an array; what the machine does not fill in stays zero. -/
def byteArray (array : Object) : Act σ Bytes := do
  let length ← m.call (.getArrayLength array)
  m.checkException "GetArrayLength"
  let filled ← m.call (.getByteArrayRegion array length)
  m.checkException "GetByteArrayRegion"
  let size := length.toInt.toNat
  return filled.take size ++ List.replicate (size - filled.length) 0

/-- Run something within a frame of local references. -/
def framed (capacity : Nat) (body : Act σ α) : Act σ α := do
  if (← m.call (.pushLocalFrame capacity)) ≠ 0 then
    m.checkException "PushLocalFrame"
    throw (.jni .noFrame)
  body.andThen (m.call .popLocalFrame)

end ThreadWatch.Vm.Machine
