import ThreadWatch.Descriptor
import ThreadWatch.Proofs.Fallible

/-!
# The grammar of descriptors

A descriptor as the types it is made of, and what they are written as. Reading accepts exactly the
texts of descriptors, and no two descriptors have the same text.
-/

namespace ThreadWatch

/-- The types that a letter stands for. -/
inductive PrimitiveType where
  | byte
  | char
  | double
  | float
  | int
  | long
  | short
  | boolean
  deriving DecidableEq, Repr

namespace PrimitiveType

def letter : PrimitiveType → Char
  | byte => 'B'
  | char => 'C'
  | double => 'D'
  | float => 'F'
  | int => 'I'
  | long => 'J'
  | short => 'S'
  | boolean => 'Z'

/-- Whatever fits an int is moved as one. -/
def kind : PrimitiveType → ValueKind
  | byte | char | int | short | boolean => .int
  | double => .double
  | float => .float
  | long => .long

theorem letter_injective {p p' : PrimitiveType} (h : p.letter = p'.letter) : p = p' := by
  cases p <;> cases p' <;> first | rfl | exact absurd h (by decide)

/-- No letter of a type is a mark of another kind. -/
theorem letter_ne_mark (p : PrimitiveType) :
    p.letter ≠ '[' ∧ p.letter ≠ 'L' ∧ p.letter ≠ ')' ∧ p.letter ≠ 'V' := by
  cases p <;> decide

end PrimitiveType

/-- The types of fields, parameters and results. -/
inductive FieldType where
  | primitive (type : PrimitiveType)
  /-- Instances of a class, whose name may hold anything but the mark of its end. -/
  | object (name : List Char) (nonempty : name ≠ []) (unmarked : ';' ∉ name)
  | array (element : FieldType)

namespace FieldType

def chars : FieldType → List Char
  | primitive type => [type.letter]
  | object name _ _ => 'L' :: (name ++ [';'])
  | array element => '[' :: element.chars

def kind : FieldType → ValueKind
  | primitive type => type.kind
  | object _ _ _ | array _ => .reference

end FieldType

/-- What a method takes and gives. -/
structure Signature where
  parameters : List FieldType
  /-- Nothing for a method that returns no value. -/
  result : Option FieldType

namespace Signature

def resultChars : Option FieldType → List Char
  | none => ['V']
  | some type => type.chars

def chars (s : Signature) : List Char :=
  '(' :: (s.parameters.flatMap FieldType.chars ++ ')' :: resultChars s.result)

def descriptor (s : Signature) : MethodDescriptor :=
  ⟨s.parameters.map FieldType.kind, s.result.map FieldType.kind⟩

end Signature

namespace MethodDescriptor

/-! ### Types -/

/-- One dimension of an array is taken off, whatever stands behind it. -/
theorem fieldType_array (s : List Char) :
    fieldType ('[' :: s) = (fieldType s).map fun (_, rest) => (.reference, rest) := by
  cases s with
  | nil => rfl
  | cons c s =>
    by_cases hc : c = '['
    · subst hc
      simp [fieldType, Function.comp_def]
    · have hone : fieldType (c :: s) = elementType (c :: s) := by
        unfold fieldType
        split
        next heq => exact absurd (List.cons.inj heq).1 hc
        next => rfl
      rw [hone]
      simp [fieldType, hc]

/-- A name ends at the first mark of an end. -/
theorem span_name {name : List Char} (h : ';' ∉ name) (rest : List Char) :
    (name ++ ';' :: rest).takeWhile (· ≠ ';') = name ∧
      (name ++ ';' :: rest).dropWhile (· ≠ ';') = ';' :: rest := by
  have hname : ∀ c ∈ name, decide (c ≠ ';') = true := by
    intro c hc
    rw [decide_eq_true_eq]
    rintro rfl
    exact h hc
  rw [List.takeWhile_append_of_pos hname, List.dropWhile_append_of_pos hname]
  simp

/-- A class is read up to the end of its name, which is not empty. -/
theorem fieldType_object {name rest : List Char} (nonempty : name ≠ []) (unmarked : ';' ∉ name) :
    fieldType ('L' :: (name ++ ';' :: rest)) = some (.reference, rest) := by
  have helement : ∀ text, fieldType ('L' :: text) = elementType ('L' :: text) := fun _ => rfl
  obtain ⟨htake, hdrop⟩ := span_name unmarked rest
  obtain ⟨c, name, rfl⟩ := List.exists_cons_of_ne_nil nonempty
  rw [helement, elementType, htake, hdrop]

/-- A type that is written is read, whatever stands behind it. -/
theorem fieldType_chars_append (t : FieldType) (rest : List Char) :
    fieldType (t.chars ++ rest) = some (t.kind, rest) := by
  induction t with
  | primitive type => cases type <;> rfl
  | object name nonempty unmarked =>
    rw [FieldType.chars, List.cons_append, List.append_assoc]
    exact fieldType_object nonempty unmarked
  | array element ih =>
    rw [FieldType.chars, List.cons_append, fieldType_array, ih]
    rfl

theorem exists_chars_of_elementType {s rest : List Char} {kind : ValueKind}
    (h : elementType s = some (kind, rest)) :
    ∃ t : FieldType, t.kind = kind ∧ s = t.chars ++ rest := by
  unfold elementType at h
  split at h
  case h_9 text =>
    split at h
    next c name mark behind htake hdrop =>
      cases h
      have hsplit := List.takeWhile_append_dropWhile (p := (· ≠ ';')) (l := text)
      have hmark := List.head?_dropWhile_not (· ≠ ';') text
      have hunmarked : ';' ∉ c :: name := by
        rw [← htake]
        intro hmem
        simpa using List.all_eq_true.mp List.all_takeWhile _ hmem
      rw [hdrop] at hmark
      obtain rfl : mark = ';' := by simpa using hmark
      refine ⟨.object (c :: name) (List.cons_ne_nil _ _) hunmarked, rfl, ?_⟩
      rw [← hsplit, htake, hdrop]
      simp [FieldType.chars]
    · cases h
  case h_10 => cases h
  all_goals cases h
  · exact ⟨.primitive .byte, rfl, rfl⟩
  · exact ⟨.primitive .char, rfl, rfl⟩
  · exact ⟨.primitive .int, rfl, rfl⟩
  · exact ⟨.primitive .short, rfl, rfl⟩
  · exact ⟨.primitive .boolean, rfl, rfl⟩
  · exact ⟨.primitive .long, rfl, rfl⟩
  · exact ⟨.primitive .float, rfl, rfl⟩
  · exact ⟨.primitive .double, rfl, rfl⟩

/-- What is read as a type is the text of one. -/
theorem exists_chars_of_fieldType {s rest : List Char} {kind : ValueKind}
    (h : fieldType s = some (kind, rest)) :
    ∃ t : FieldType, t.kind = kind ∧ s = t.chars ++ rest := by
  induction s generalizing kind with
  | nil => cases h
  | cons c s ih =>
    by_cases hc : c = '['
    · subst hc
      -- the reader drops all brackets at once, a type has one for each of its dimensions
      rw [fieldType_array] at h
      obtain ⟨⟨inner, behind⟩, hinner, heq⟩ := Option.map_eq_some_iff.mp h
      cases heq
      obtain ⟨t, _, rfl⟩ := ih hinner
      exact ⟨.array t, rfl, rfl⟩
    · unfold fieldType at h
      split at h
      next heq => exact absurd (List.cons.inj heq).1 hc
      next => exact exists_chars_of_elementType h

end MethodDescriptor

namespace FieldType

theorem chars_injective {t t' : FieldType} (h : t.chars = t'.chars) : t = t' := by
  induction t generalizing t' with
  | primitive type =>
    have hletter := type.letter_ne_mark
    cases t' with
    | primitive type' => rw [PrimitiveType.letter_injective (List.cons.inj h).1]
    | object name _ _ => exact absurd (List.cons.inj h).1 hletter.2.1
    | array element => exact absurd (List.cons.inj h).1 hletter.1
  | object name _ _ =>
    cases t' with
    | primitive type' => exact absurd (List.cons.inj h).1.symm type'.letter_ne_mark.2.1
    | object name' _ _ =>
      obtain rfl := List.append_cancel_right (List.cons.inj h).2
      rfl
    | array element => exact absurd (List.cons.inj h).1 (by decide)
  | array element ih =>
    cases t' with
    | primitive type' => exact absurd (List.cons.inj h).1.symm type'.letter_ne_mark.1
    | object name _ _ => exact absurd (List.cons.inj h).1 (by decide)
    | array element' => rw [ih (List.cons.inj h).2]

/-- No type is the beginning of another. -/
theorem chars_append_inj {t t' : FieldType} {rest rest' : List Char}
    (h : t.chars ++ rest = t'.chars ++ rest') : t = t' ∧ rest = rest' := by
  have hread := MethodDescriptor.fieldType_chars_append t rest
  rw [h, MethodDescriptor.fieldType_chars_append] at hread
  obtain rfl : rest' = rest := congrArg Prod.snd (Option.some.inj hread)
  exact ⟨chars_injective (List.append_cancel_right h), rfl⟩

/-- The text of a type starts neither like the end of the parameters nor like no result. -/
theorem exists_chars_cons (t : FieldType) : ∃ c rest, t.chars = c :: rest ∧ c ≠ ')' ∧ c ≠ 'V' := by
  cases t with
  | primitive type => exact ⟨_, _, rfl, type.letter_ne_mark.2.2.1, type.letter_ne_mark.2.2.2⟩
  | object name _ _ => exact ⟨_, _, rfl, by decide, by decide⟩
  | array element => exact ⟨_, _, rfl, by decide, by decide⟩

end FieldType

namespace MethodDescriptor

/-! ### Descriptors -/

/-- Behind a type that is read stand the other parameters. -/
theorem parameterTypes_eq {s behind : List Char} {kind : ValueKind}
    (h : fieldType s = some (kind, behind)) :
    parameterTypes s =
      (parameterTypes behind).map fun (kinds, rest) => (kind :: kinds, rest) := by
  rw [parameterTypes.eq_def]
  split
  · cases h
  next =>
    split
    next hnone =>
      rw [h] at hnone
      cases hnone
    next found rest hfound =>
      rw [h] at hfound
      cases hfound
      rfl

theorem parameterTypes_end (rest : List Char) : parameterTypes (')' :: rest) = some ([], rest) := by
  rw [parameterTypes]

/-- Parameters are read up to the mark of their end. -/
theorem parameterTypes_chars (types : List FieldType) (rest : List Char) :
    parameterTypes (types.flatMap FieldType.chars ++ ')' :: rest) =
      some (types.map FieldType.kind, rest) := by
  induction types with
  | nil => exact parameterTypes_end rest
  | cons t types ih =>
    rw [List.flatMap_cons, List.append_assoc, parameterTypes_eq (fieldType_chars_append t _), ih]
    rfl

theorem exists_chars_of_parameterTypes {s rest : List Char} {kinds : List ValueKind}
    (h : parameterTypes s = some (kinds, rest)) :
    ∃ types : List FieldType, types.map FieldType.kind = kinds ∧
      s = types.flatMap FieldType.chars ++ ')' :: rest := by
  induction s using parameterTypes.induct generalizing kinds with
  | case1 behind =>
    rw [parameterTypes_end] at h
    cases h
    exact ⟨[], rfl, rfl⟩
  | case2 s hs hnone =>
    rw [parameterTypes.eq_def] at h
    split at h
    · exact absurd rfl (hs _)
    · split at h
      · cases h
      next hfound => exact absurd (hfound.symm.trans hnone) (by simp)
  | case3 s hs kind behind hsome _ ih =>
    rw [parameterTypes_eq hsome] at h
    obtain ⟨⟨others, _⟩, hothers, heq⟩ := Option.map_eq_some_iff.mp h
    cases heq
    obtain ⟨types, rfl, rfl⟩ := ih hothers
    obtain ⟨t, rfl, rfl⟩ := exists_chars_of_fieldType hsome
    exact ⟨t :: types, rfl, by rw [List.flatMap_cons, List.append_assoc]⟩

/-- A result is read if it ends the text. -/
theorem resultType_eq_some_iff {s : List Char} {kind : Option ValueKind} :
    resultType s = some kind ↔ ∃ result : Option FieldType,
      result.map FieldType.kind = kind ∧ s = Signature.resultChars result := by
  constructor
  · intro h
    unfold resultType at h
    split at h
    next =>
      cases h
      exact ⟨none, rfl, rfl⟩
    next =>
      split at h
      next hfound =>
        cases h
        obtain ⟨t, rfl, rfl⟩ := exists_chars_of_fieldType hfound
        exact ⟨some t, rfl, List.append_nil _⟩
      · cases h
  · rintro ⟨result, rfl, rfl⟩
    cases result with
    | none => rfl
    | some t =>
      have hread := fieldType_chars_append t []
      obtain ⟨c, rest, hchars, _, hc⟩ := t.exists_chars_cons
      rw [List.append_nil] at hread
      unfold resultType Signature.resultChars
      split
      next heq =>
        exact absurd (List.cons.inj (hchars.symm.trans heq)).1 hc
      next =>
        rw [hread]
        rfl

theorem ofChars?_eq_some_iff {s : List Char} {d : MethodDescriptor} :
    ofChars? s = some d ↔ ∃ signature : Signature, signature.descriptor = d ∧
      signature.chars = s := by
  constructor
  · intro h
    unfold ofChars? at h
    split at h
    next text =>
      obtain ⟨⟨kinds, rest⟩, hkinds, h⟩ := Option.bind_eq_some_iff.mp h
      obtain ⟨kind, hkind, h⟩ := Option.bind_eq_some_iff.mp h
      obtain rfl := Option.some.inj h
      obtain ⟨types, rfl, rfl⟩ := exists_chars_of_parameterTypes hkinds
      obtain ⟨result, rfl, rfl⟩ := resultType_eq_some_iff.mp hkind
      exact ⟨⟨types, result⟩, rfl, rfl⟩
    · cases h
  · rintro ⟨⟨types, result⟩, rfl, rfl⟩
    have hresult := resultType_eq_some_iff.mpr ⟨result, rfl, rfl⟩
    refine Option.bind_eq_some_iff.mpr ⟨_, parameterTypes_chars types _, ?_⟩
    exact Option.bind_eq_some_iff.mpr ⟨_, hresult, rfl⟩

end MethodDescriptor

namespace Signature

theorem resultChars_injective {result result' : Option FieldType}
    (h : resultChars result = resultChars result') : result = result' := by
  cases result with
  | none =>
    cases result' with
    | none => rfl
    | some t =>
      obtain ⟨c, rest, hchars, _, hc⟩ := t.exists_chars_cons
      exact absurd (List.cons.inj (h.trans hchars)).1.symm hc
  | some t =>
    cases result' with
    | none =>
      obtain ⟨c, rest, hchars, _, hc⟩ := t.exists_chars_cons
      exact absurd (List.cons.inj (hchars.symm.trans h)).1 hc
    | some t' => rw [FieldType.chars_injective h]

/-- The parameters end at the first mark of their end that is no part of a type. -/
theorem flatMap_chars_append_inj {types types' : List FieldType} {rest rest' : List Char}
    (h : types.flatMap FieldType.chars ++ ')' :: rest =
      types'.flatMap FieldType.chars ++ ')' :: rest') : types = types' ∧ rest = rest' := by
  induction types generalizing types' with
  | nil =>
    cases types' with
    | nil => exact ⟨rfl, (List.cons.inj h).2⟩
    | cons t types' =>
      obtain ⟨c, behind, hchars, hc, _⟩ := t.exists_chars_cons
      rw [List.flatMap_cons, hchars] at h
      exact absurd (List.cons.inj h).1.symm hc
  | cons t types ih =>
    cases types' with
    | nil =>
      obtain ⟨c, behind, hchars, hc, _⟩ := t.exists_chars_cons
      rw [List.flatMap_cons, hchars] at h
      exact absurd (List.cons.inj h).1 hc
    | cons t' types' =>
      rw [List.flatMap_cons, List.flatMap_cons, List.append_assoc, List.append_assoc] at h
      obtain ⟨rfl, hrest⟩ := FieldType.chars_append_inj h
      obtain ⟨rfl, rfl⟩ := ih hrest
      exact ⟨rfl, rfl⟩

theorem chars_injective {s s' : Signature} (h : s.chars = s'.chars) : s = s' := by
  obtain ⟨hparameters, hresult⟩ := flatMap_chars_append_inj (List.cons.inj h).2
  obtain ⟨parameters, result⟩ := s
  obtain ⟨parameters', result'⟩ := s'
  obtain rfl : parameters = parameters' := hparameters
  obtain rfl := resultChars_injective hresult
  rfl

end Signature

namespace MethodDescriptor

/-- A text is read as what its one signature moves, or it is no text of a signature and is turned
away. -/
theorem parse_iff_signature (text : String) :
    (∀ d, parse text = .ok d ↔ ∃ s : Signature, s.descriptor = d ∧
      ∀ s' : Signature, s'.chars = text.toList ↔ s' = s) ∧
    (parse text = .error (.malformed (.descriptor text)) ↔
      ∀ s : Signature, s.chars ≠ text.toList) := by
  have hone : ∀ s : Signature, s.chars = text.toList ↔
      ∀ s' : Signature, s'.chars = text.toList ↔ s' = s := by
    intro s
    constructor
    · rintro hs s'
      constructor
      · intro hs'
        exact Signature.chars_injective (hs'.trans hs.symm)
      · rintro rfl
        exact hs
    · intro h
      exact (h s).mpr rfl
  simp only [← hone, ← ofChars?_eq_some_iff]
  unfold parse
  cases hread : ofChars? text.toList with
  | some found =>
    obtain ⟨s, _, hs⟩ := ofChars?_eq_some_iff.mp hread
    refine ⟨by simp, ?_⟩
    simp only [reduceCtorEq, false_iff, not_forall, not_not]
    exact ⟨s, hs⟩
  | none =>
    refine ⟨by simp [damaged], ?_⟩
    simp only [damaged, true_iff]
    intro s hs
    have hfound := ofChars?_eq_some_iff.mpr ⟨s, rfl, hs⟩
    rw [hread] at hfound
    cases hfound

/-- The name of a class may hold the marks of everything but its own end. -/
example : parse "([L)[;D)V" = .ok ⟨[.reference, .double], none⟩ := by cbv

end MethodDescriptor

end ThreadWatch
