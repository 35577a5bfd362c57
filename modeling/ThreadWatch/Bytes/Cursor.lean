import ThreadWatch.Bytes.Scalar

/-!
# Reading with a cursor

A cursor is a position in given data, with what is left behind it. A step either moves it forward
over the bytes it read or fails; a failed step stays where it was.
-/

namespace ThreadWatch

structure Cursor where
  data : Bytes
  pos : Nat
  rest : Bytes
  rest_eq : rest = data.drop pos
  pos_le : pos ≤ data.length

/-- A reading step: what came of it, and where the cursor stands afterwards. -/
abbrev Reader := EStateM Fault Cursor

namespace Cursor

def start (data : Bytes) : Cursor := ⟨data, 0, data, rfl, Nat.zero_le _⟩

def hasMore (c : Cursor) : Bool := !c.rest.isEmpty

/-- Move to `pos`, which may be the end of the data. -/
def seek (pos : Nat) : Reader Unit := fun c =>
  if h : pos ≤ c.data.length then .ok () ⟨c.data, pos, c.data.drop pos, rfl, h⟩
  else .error .outOfBounds c

/-- The next `n` bytes. -/
def take (n : Nat) : Reader Bytes := fun c =>
  let taken := c.rest.take n
  if h : taken.length = n then
    .ok taken {
      data := c.data, pos := c.pos + n, rest := c.rest.drop n
      rest_eq := by rw [c.rest_eq, List.drop_drop]
      pos_le := by
        have hc := c.pos_le
        have hr : c.rest.length = c.data.length - c.pos := by rw [c.rest_eq, List.length_drop]
        have ht : n ≤ c.rest.length := by
          rw [show taken = c.rest.take n from rfl, List.length_take] at h; omega
        omega }
  else .error .outOfBounds c

def skip (n : Nat) : Reader Unit := do
  let _ ← take n

/-- The next byte, left unread. -/
def peek : Reader UInt8 := fun c =>
  match c.rest with
  | b :: _ => .ok b c
  | [] => .error .outOfBounds c

/-- Skip to the next multiple of `boundary`, counted from the start of the data. -/
def align (boundary : Nat) : Reader Unit := fun c =>
  skip ((boundary - c.pos % boundary) % boundary) c

def scalar (s : Scalar) : Reader Int := s.value <$> take s.size

def u8 : Reader UInt8 := (UInt8.ofNat ∘ beNat) <$> take 1
def u16 : Reader UInt16 := (UInt16.ofNat ∘ beNat) <$> take 2
def u32 : Reader UInt32 := (UInt32.ofNat ∘ beNat) <$> take 4
def u64 : Reader UInt64 := (UInt64.ofNat ∘ beNat) <$> take 8
def i16 : Reader Int16 := UInt16.toInt16 <$> u16
def i32 : Reader Int32 := UInt32.toInt32 <$> u32
def i64 : Reader Int64 := UInt64.toInt64 <$> u64

/-- As many bytes as a two-byte length says; if they are not all there, the length stays read. -/
def prefixed : Reader Bytes := do
  let length ← u16
  take length.toNat

def position : Reader Nat := fun c => .ok c.pos c

def remaining : Reader Nat := fun c => .ok c.rest.length c

def atEnd : Reader Bool := fun c => .ok c.rest.isEmpty c

/-- Fail for damage met while reading. -/
def damage {α : Type} (cause : Damage) : Reader α := throw (.malformed cause)

/-- `n` things, one after the other. -/
def times {α : Type} (item : Reader α) : Nat → Reader (List α)
  | 0 => pure []
  | n + 1 => do
    let first ← item
    return first :: (← times item n)

end Cursor

/-- What a reader makes of `data` from its start. -/
def Reader.run' {α : Type} (r : Reader α) (data : Bytes) : Except Fault α :=
  match r (Cursor.start data) with
  | .ok a _ => .ok a
  | .error fault _ => .error fault

end ThreadWatch
