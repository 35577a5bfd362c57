/-!
# Faults

Every way in which reading, editing, resolving or attaching can fail, one constructor per cause.
The wording of a cause is in `Damage.message`, `Limit.message`, `JniTrouble.message` and
`Fault.message` alone.
-/

namespace ThreadWatch

/-- A byte as two upper-case hexadecimal digits, a longer number with as many as `width` asks. -/
def hexUpper (width n : Nat) : String :=
  let digits := (Nat.toDigits 16 n).map Char.toUpper
  String.ofList (List.replicate (width - digits.length) '0' ++ digits)

/-- What is wrong with a class file, a method body or a request about one. -/
inductive Damage where
  | magic (found : UInt32)
  | trailingAfterClass (count : Nat)
  | tooMany (count : Nat) (what : String)
  | lengthField (length : Nat)
  | attributeLength (length : Nat)
  | payloadLength (length : Nat)
  | attributeCount (count : Nat)
  | textByte (byte : UInt8) (position : Nat)
  | textTruncated (position : Nat)
  | descriptor (text : String)
  | poolCountZero
  | poolOverrun (count : Nat)
  | poolTag (tag : UInt8) (position : Nat)
  | poolIndex (index : UInt16) (count : Nat)
  | poolKind (index : UInt16) (found expected : String)
  | codeLength (length : UInt32)
  | trailingAfterCode (count : Nat)
  | handlerCount (count : Nat)
  | verificationTag (tag : UInt8)
  | frameType (tag : UInt8)
  | trailingAfterFrames
  | frameCount (count : Nat)
  | frameOrder (offset : Nat) (previous : Option Nat)
  | chopCount (count : UInt8)
  | appendCount (count : Nat)
  | tableBounds (position : Nat) (low high : Int32)
  | lookupCount (position : Nat) (count : Int32)
  | wideOpcode (position : Nat) (opcode : UInt8)
  | unknownOpcode (opcode : UInt8) (position : Nat)
  | boundary (offset : Nat)
  | negativeTarget (position : Nat) (target : Int)
  | stackUnderflow (position : Nat) (depth pops : UInt16)
  | preludeDepth (depth expected : UInt16)
  | callWithoutConstant (position : Nat)
  | callOfField (position : Nat) (owner name : String)
  | noBody (method : Nat) (signature : String)
  | noCall (kind : String) (position : Nat) (signature : String)
  deriving DecidableEq, Repr

namespace Damage

def message : Damage → String
  | magic found => "Invalid magic 0x" ++ hexUpper 8 found.toNat
  | trailingAfterClass count => s!"{count} trailing bytes after class file"
  | tooMany count what => s!"{count} {what} exceed the class file limit"
  | lengthField length => s!"Length {length} does not fit a u16 prefix"
  | attributeLength length => s!"Attribute of {length} bytes"
  | payloadLength length => s!"Attribute payload of {length} bytes"
  | attributeCount count => s!"{count} attributes"
  | textByte byte position =>
    "Invalid modified UTF-8 byte 0x" ++ hexUpper 2 byte.toNat ++ s!" at {position}"
  | textTruncated position => s!"Truncated modified UTF-8 sequence at {position}"
  | descriptor text => "Invalid method descriptor '" ++ text ++ "'"
  | poolCountZero => "Constant pool count of 0"
  | poolOverrun count => s!"Wide constant overruns the pool count of {count}"
  | poolTag tag position => s!"Unknown constant pool tag {tag} at offset {position}"
  | poolIndex index count => s!"Invalid constant pool index {index} (count {count})"
  | poolKind index found expected =>
    s!"Constant pool index {index} is {found}, expected {expected}"
  | codeLength length => s!"Invalid code length {length}"
  | trailingAfterCode count => s!"{count} trailing bytes after Code attribute"
  | handlerCount count => s!"{count} exception handlers"
  | verificationTag tag => s!"Unknown verification type tag {tag}"
  | frameType tag => s!"Reserved stack map frame type {tag}"
  | trailingAfterFrames => "Trailing bytes after StackMapTable"
  | frameCount count => s!"{count} stack map frames"
  | frameOrder offset none => s!"Stack map frame at {offset} cannot follow None"
  | frameOrder offset (some previous) =>
    s!"Stack map frame at {offset} cannot follow Some({previous})"
  | chopCount count => s!"Chop frame removing {count} locals"
  | appendCount count => s!"Append frame adding {count} locals"
  | tableBounds position low high =>
    s!"tableswitch at {position} has low {low} > high {high}"
  | lookupCount position count => s!"lookupswitch at {position} has {count} pairs"
  | wideOpcode position opcode =>
    s!"wide prefix at {position} applied to opcode 0x" ++ hexUpper 2 opcode.toNat
  | unknownOpcode opcode position =>
    "Invalid opcode 0x" ++ hexUpper 2 opcode.toNat ++ s!" at offset {position}"
  | boundary offset => s!"Offset {offset} is not an instruction boundary"
  | negativeTarget position target => s!"Branch at {position} targets negative offset {target}"
  | stackUnderflow position depth pops =>
    s!"Stack underflow at offset {position}: {depth} slots in use, {pops} popped"
  | preludeDepth depth expected => s!"Prelude leaves {depth} stack slots, expected {expected}"
  | callWithoutConstant position => s!"Invoke at {position} has no constant pool operand"
  | callOfField position owner name => s!"Invoke at {position} references field {owner}.{name}"
  | noBody method signature => s!"Method {method} has no code for call site {signature}"
  | noCall kind position signature =>
    s!"No {kind} at offset {position} for call site {signature}"

end Damage

/-- A method that cannot take what an edit asks of it. -/
inductive Limit where
  | localsFull (inUse more : UInt16)
  | stackGrowth (slots more : UInt16)
  | localsGrowth (slots more : UInt16)
  | alreadyInstrumented (signature : String) (position : Nat)
  deriving DecidableEq, Repr

namespace Limit

def message : Limit → String
  | localsFull inUse more => s!"{inUse} locals in use, no room for {more} more"
  | stackGrowth slots more => s!"Operand stack of {slots} slots cannot grow by {more}"
  | localsGrowth slots more => s!"{slots} locals cannot grow by {more}"
  | alreadyInstrumented signature position =>
    s!"Call site {signature} at offset {position} is already instrumented"

end Limit

/-- A native call that did not give what it was made for. -/
inductive JniTrouble where
  | raised (what : String)
  | noClass (name : String)
  | noMethod (name : String)
  | nullString
  | nullGlobal
  | noFrame
  /-- A string that cannot be handed over, already quoted. -/
  | containsNul (quoted : String)
  deriving DecidableEq, Repr

namespace JniTrouble

def message : JniTrouble → String
  | raised what => s!"{what} raised an exception"
  | noClass name => s!"class {name} not found"
  | noMethod name => s!"method {name} not found"
  | nullString => "NewStringUTF returned null"
  | nullGlobal => "NewGlobalRef returned null"
  | noFrame => "PushLocalFrame failed"
  | containsNul quoted => s!"{quoted} contains NUL"

end JniTrouble

/-- Why the file system refused. -/
inductive FileTrouble where
  | notFound
  | alreadyThere
  | notDirectory
  | isDirectory
  | nameTooLong
  | nulInName
  deriving DecidableEq, Repr

namespace FileTrouble

def message : FileTrouble → String
  | notFound => "No such file or directory (os error 2)"
  | alreadyThere => "File exists (os error 17)"
  | notDirectory => "Not a directory (os error 20)"
  | isDirectory => "Is a directory (os error 21)"
  | nameTooLong => "File name too long (os error 36)"
  | nulInName => "file name contained an unexpected NUL byte"

end FileTrouble

/-- Internal name of the type whose calls are watched. -/
def watchedType : String := "java/lang/Thread"

inductive Fault where
  | malformed (cause : Damage)
  | outOfBounds
  | notSupported (cause : Limit)
  | empty
  | file (cause : FileTrouble)
  | targetNotFound
  | targetNotLoaded (cause : Fault)
  | targetNotParsed (cause : Fault)
  | targetMisnamed (found : String)
  | lookupsUnavailable (cause : Fault)
  | branchOutOfRange (position : Nat) (distance : Int)
  | codeTooLarge (length : Nat)
  | poolFull
  | jvmti (operation : String) (code : UInt32)
  | jni (cause : JniTrouble)
  | notADirectory (path : String)
  | noSuchDevice
  | loggerInstalled
  | hookInstalled
  | agentLoaded
  /-- A count of slots got too large for sixteen bits. No other fault is like it: nothing answers
  it, and what was being done is given up where it stood. -/
  | overflow
  /-- A failure reported from outside, in its own words. -/
  | reported (text : String)
  deriving DecidableEq, Repr

namespace Fault

/-- Whether the fault is one of setting up, which nothing but giving up can answer. -/
def isSetup : Fault → Bool
  | targetNotFound | targetNotLoaded _ | targetNotParsed _ | targetMisnamed _
  | lookupsUnavailable _ => true
  | _ => false

def message : Fault → String
  | malformed cause => "Malformed - " ++ cause.message
  | outOfBounds => "Out of Bound read would have occurred!"
  | notSupported cause => "This construct is not supported - " ++ cause.message
  | empty => "Provided input was empty"
  | file cause => cause.message
  | targetNotFound => "Configuration error - " ++ watchedType ++ " could not be found"
  | targetNotLoaded cause =>
    "Configuration error - " ++ watchedType ++ " could not be loaded: " ++ cause.message
  | targetNotParsed cause =>
    "Configuration error - " ++ watchedType ++ " could not be parsed: " ++ cause.message
  | targetMisnamed found =>
    "Configuration error - Lookup of " ++ watchedType ++ " produced " ++ found
  | lookupsUnavailable cause =>
    "Configuration error - class lookups unavailable: " ++ cause.message
  | branchOutOfRange position distance =>
    s!"Branch at offset {position} can no longer reach its target (delta {distance})"
  | codeTooLarge length => s!"Rewritten method body is {length} bytes, the limit is 65535"
  | poolFull => "Constant pool is full"
  | jvmti operation code => s!"JVMTI {operation} failed with error {code}"
  | jni cause => "JNI - " ++ cause.message
  | notADirectory path => path ++ " is not a directory"
  | noSuchDevice => "No such device (os error 19)"
  | loggerInstalled => "A process-wide logger is already installed"
  | hookInstalled => "The class file load hook is already installed"
  | agentLoaded => "The agent is already loaded"
  | overflow => "attempt to add with overflow"
  | reported text => text

end Fault

/-- The damage as a failure of whatever met it. -/
def damaged {α : Type} (cause : Damage) : Except Fault α := .error (.malformed cause)

end ThreadWatch
