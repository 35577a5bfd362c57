import ThreadWatch.Fault

/-!
# Method descriptors

The parameter and return types of a method, as far as moving values goes: which kind of load and
store a value takes and how many slots it fills.
-/

namespace ThreadWatch

/-- The kind of value that a load or store moves. -/
inductive ValueKind where
  | int
  | long
  | float
  | double
  | reference
  deriving DecidableEq, Repr

namespace ValueKind

def slots : ValueKind → UInt16
  | long | double => 2
  | int | float | reference => 1

def name : ValueKind → String
  | int => "int"
  | long => "long"
  | float => "float"
  | double => "double"
  | reference => "reference"

def all : List ValueKind := [int, long, float, double, reference]

end ValueKind

/-- So many slots as a count, which has sixteen bits. -/
def slotCount (n : Nat) : Except Fault UInt16 :=
  if n < UInt16.size then .ok (UInt16.ofNat n) else .error .overflow

def addSlots (a b : UInt16) : Except Fault UInt16 := slotCount (a.toNat + b.toNat)

structure MethodDescriptor where
  parameters : List ValueKind
  /-- Nothing for a method that returns no value. -/
  result : Option ValueKind
  deriving DecidableEq, Repr

namespace MethodDescriptor

/-- One type without its array dimensions, and the text behind it. -/
def elementType : List Char → Option (ValueKind × List Char)
  | 'B' :: rest | 'C' :: rest | 'I' :: rest | 'S' :: rest | 'Z' :: rest => some (.int, rest)
  | 'J' :: rest => some (.long, rest)
  | 'F' :: rest => some (.float, rest)
  | 'D' :: rest => some (.double, rest)
  | 'L' :: rest =>
    match rest.takeWhile (· ≠ ';'), rest.dropWhile (· ≠ ';') with
    | _ :: _, _ :: rest => some (.reference, rest)
    | _, _ => none
  | _ => none

/-- One type, and the text behind it; an array is a reference whatever it holds. -/
def fieldType (s : List Char) : Option (ValueKind × List Char) :=
  match s with
  | '[' :: s => (elementType (s.dropWhile (· = '['))).map fun (_, rest) => (.reference, rest)
  | s => elementType s

theorem length_dropWhile_le {α : Type} (p : α → Bool) (s : List α) :
    (s.dropWhile p).length ≤ s.length := (List.dropWhile_suffix p).length_le

theorem elementType_shorter {s rest : List Char} {k : ValueKind}
    (h : elementType s = some (k, rest)) : rest.length < s.length := by
  unfold elementType at h
  split at h
  case h_9 text =>
    split at h <;> simp at h
    next c r _ hr =>
      have := length_dropWhile_le (· ≠ ';') text
      rw [hr] at this
      simp_all
      omega
  all_goals simp_all

theorem fieldType_shorter {s rest : List Char} {k : ValueKind}
    (h : fieldType s = some (k, rest)) : rest.length < s.length := by
  unfold fieldType at h
  split at h
  · next text =>
    obtain ⟨⟨k', rest'⟩, h', heq⟩ := Option.map_eq_some_iff.1 h
    have hlt := elementType_shorter h'
    have hle := length_dropWhile_le (· = '[') text
    simp at heq
    simp [← heq.2]
    omega
  · exact elementType_shorter h

/-- The types up to the closing parenthesis, and the text behind it. -/
def parameterTypes (s : List Char) : Option (List ValueKind × List Char) :=
  match s with
  | ')' :: rest => some ([], rest)
  | s =>
    match h : fieldType s with
    | none => none
    | some (kind, rest) =>
      have := fieldType_shorter h
      (parameterTypes rest).map fun (kinds, rest) => (kind :: kinds, rest)
termination_by s.length

/-- What a method returns: a type that ends the text, or nothing. -/
def resultType : List Char → Option (Option ValueKind)
  | ['V'] => some none
  | s =>
    match fieldType s with
    | some (kind, []) => some (some kind)
    | _ => none

def ofChars? : List Char → Option MethodDescriptor
  | '(' :: s => do
    let (parameters, rest) ← parameterTypes s
    let result ← resultType rest
    return ⟨parameters, result⟩
  | _ => none

def parse (text : String) : Except Fault MethodDescriptor :=
  match ofChars? text.toList with
  | some d => .ok d
  | none => damaged (.descriptor text)

/-- The slots of the parameters, if they can be counted. -/
def parameterSlots (d : MethodDescriptor) : Except Fault UInt16 :=
  d.parameters.foldlM (fun n kind => addSlots n kind.slots) 0

def resultSlots (d : MethodDescriptor) : UInt16 :=
  match d.result with
  | some kind => kind.slots
  | none => 0

end MethodDescriptor

end ThreadWatch
