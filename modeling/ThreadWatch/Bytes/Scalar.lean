import ThreadWatch.Fault

/-!
# Big-endian scalars

Integers of one, two, four or eight bytes, most significant byte first, signed ones in two's
complement. Reading what was written gives the value back, and the other way round.
-/

namespace ThreadWatch

abbrev Bytes := List UInt8

/-- The number that `bytes` spell, most significant first. -/
def beNat (bytes : Bytes) : Nat := bytes.foldl (fun n b => n * 256 + b.toNat) 0

/-- How many numbers `width` bytes can spell. -/
def spellable : Nat → Nat
  | 0 => 1
  | width + 1 => 256 * spellable width

/-- The low `width` bytes of `n`, most significant first. -/
def beBytes : Nat → Nat → Bytes
  | 0, _ => []
  | width + 1, n => UInt8.ofNat (n / spellable width) :: beBytes width n

@[simp] theorem length_beBytes (width n : Nat) : (beBytes width n).length = width := by
  induction width <;> simp_all [beBytes]

theorem foldl_be (bytes : Bytes) (n : Nat) :
    bytes.foldl (fun n b => n * 256 + b.toNat) n = n * spellable bytes.length + beNat bytes := by
  unfold beNat
  induction bytes generalizing n with
  | nil => simp [spellable]
  | cons b bytes ih =>
    rw [List.foldl_cons, List.foldl_cons, ih, ih (0 * 256 + b.toNat), List.length_cons,
      spellable, Nat.zero_mul, Nat.zero_add, Nat.add_mul, Nat.mul_assoc, Nat.add_assoc]

theorem beNat_cons (b : UInt8) (bytes : Bytes) :
    beNat (b :: bytes) = b.toNat * spellable bytes.length + beNat bytes := by
  rw [beNat, List.foldl_cons, foldl_be]
  simp

theorem beNat_lt (bytes : Bytes) : beNat bytes < spellable bytes.length := by
  induction bytes with
  | nil => simp [beNat, spellable]
  | cons b bytes ih =>
    have hb : b.toNat < 256 := b.toNat_lt
    rw [beNat_cons, List.length_cons, spellable]
    calc b.toNat * spellable bytes.length + beNat bytes
        < b.toNat * spellable bytes.length + spellable bytes.length := by omega
      _ = (b.toNat + 1) * spellable bytes.length := by rw [Nat.add_mul, Nat.one_mul]
      _ ≤ 256 * spellable bytes.length := Nat.mul_le_mul_right _ (by omega)

theorem beNat_beBytes (width n : Nat) : beNat (beBytes width n) = n % spellable width := by
  induction width with
  | zero => simp [beBytes, beNat, spellable, Nat.mod_one]
  | succ width ih =>
    rw [beBytes, beNat_cons, length_beBytes, ih, spellable, UInt8.toNat_ofNat',
      Nat.mul_comm 256, Nat.mod_mul, Nat.add_comm, Nat.mul_comm (spellable width)]

/-- The integer formats of the class file. -/
inductive Scalar where
  | u8 | i8 | u16 | i16 | u32 | i32 | u64 | i64
  deriving DecidableEq, Repr

namespace Scalar

def size : Scalar → Nat
  | u8 | i8 => 1
  | u16 | i16 => 2
  | u32 | i32 => 4
  | u64 | i64 => 8

def signed : Scalar → Bool
  | u8 | u16 | u32 | u64 => false
  | i8 | i16 | i32 | i64 => true

def name : Scalar → String
  | u8 => "u8"
  | i8 => "i8"
  | u16 => "u16"
  | i16 => "i16"
  | u32 => "u32"
  | i32 => "i32"
  | u64 => "u64"
  | i64 => "i64"

def all : List Scalar := [u8, i8, u16, i16, u32, i32, u64, i64]

/-- The value that `bytes` hold in this format. -/
def value (s : Scalar) (bytes : Bytes) : Int :=
  let n := beNat bytes
  if s.signed && 2 * n ≥ spellable s.size then n - (spellable s.size : Int) else n

/-- The bytes of `v` in this format, high bits dropped. -/
def bytes (s : Scalar) (v : Int) : Bytes :=
  beBytes s.size (v.emod (spellable s.size)).toNat

@[simp] theorem length_bytes (s : Scalar) (v : Int) : (s.bytes v).length = s.size :=
  length_beBytes _ _

end Scalar

/-- A buffer, and a place in it. -/
structure Spot where
  data : Bytes
  offset : Nat
  deriving DecidableEq, Repr

namespace Spot

/-- The scalar is read and the place moves behind it. -/
def read (s : Scalar) : EStateM Fault Spot Int := do
  let p ← get
  let stop := p.offset + s.size
  if p.data.length < stop then throw .outOfBounds
  set { p with offset := stop }
  return s.value ((p.data.drop p.offset).take s.size)

/-- The scalar is written over what stands there, and the place moves behind it. -/
def write (s : Scalar) (v : Int) : EStateM Fault Spot Unit := do
  let p ← get
  let stop := p.offset + s.size
  if p.data.length < stop then throw .outOfBounds
  set { p with data := p.data.take p.offset ++ s.bytes v ++ p.data.drop stop }
  modify fun p => { p with offset := stop }

end Spot

def be8 (n : UInt8) : Bytes := [n]
def be16 (n : UInt16) : Bytes := beBytes 2 n.toNat
def be32 (n : UInt32) : Bytes := beBytes 4 n.toNat
def be64 (n : UInt64) : Bytes := beBytes 8 n.toNat

end ThreadWatch
