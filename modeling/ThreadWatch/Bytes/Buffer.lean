import ThreadWatch.Bytes.Scalar

/-!
# Writing into a growing buffer

Bytes are appended at the end; a length that is known only later is reserved and patched.
-/

namespace ThreadWatch

/-- The bytes behind their length in two bytes. -/
def prefixedBytes (bytes : Bytes) : Except Fault Bytes :=
  if bytes.length < 65536 then .ok (beBytes 2 bytes.length ++ bytes)
  else damaged (.lengthField bytes.length)

/-- Bytes written so far. -/
structure Buffer where
  data : Bytes
  deriving DecidableEq, Repr

namespace Buffer

def empty : Buffer := ⟨[]⟩

def size (b : Buffer) : Nat := b.data.length

def append (b : Buffer) (bytes : Bytes) : Buffer := ⟨b.data ++ bytes⟩

def scalar (b : Buffer) (s : Scalar) (v : Int) : Buffer := b.append (s.bytes v)

def prefixed (b : Buffer) (bytes : Bytes) : Except Fault Buffer := do
  return b.append (← prefixedBytes bytes)

/-- Room for a four-byte length, and where it is. -/
def reserve (b : Buffer) : Buffer × Nat := (b.append (beBytes 4 0), b.size)

def patch (b : Buffer) (s : Scalar) (slot : Nat) (v : Int) : Except Fault Buffer :=
  match Spot.write s v ⟨b.data, slot⟩ with
  | .ok _ p => .ok ⟨p.data⟩
  | .error fault _ => .error fault

/-- Fill the length reserved at `slot` with the number of bytes behind it. -/
def patchLength (b : Buffer) (slot : Nat) : Except Fault Buffer := do
  if b.size < slot + 4 then throw .outOfBounds
  let payload := b.size - (slot + 4)
  if payload ≥ spellable 4 then damaged (.payloadLength payload)
  b.patch .u32 slot payload

end Buffer

end ThreadWatch
