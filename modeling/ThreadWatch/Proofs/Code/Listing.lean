import ThreadWatch.Code.Instruction
import ThreadWatch.Proofs.Bytes.Spelling

/-!
# Code as a list of instructions

Which bytes are an instruction at a position, and which are instructions one behind the other.
Decoding accepts exactly such bytes. Only the padding of a switch may be anything, and only a switch
depends on where it stands.
-/

namespace ThreadWatch

namespace Opcode

theorem forall_opcode {p : UInt8 → Prop} (h : ∀ n < 256, p (UInt8.ofNat n)) (op : UInt8) :
    p op := by
  rw [← UInt8.ofNat_toNat (x := op)]
  exact h op.toNat op.toNat_lt

theorem shape_eq_branchW_iff (op : UInt8) : shape op = .branchW ↔ op = gotoW ∨ op = jsrW := by
  revert op
  apply forall_opcode
  decide +kernel

theorem shape_eq_wide_iff (op : UInt8) : shape op = .wide ↔ op = wide := by
  revert op
  apply forall_opcode
  decide +kernel

/-- Only what jumps has distances behind its opcode. -/
theorem shape_of_straight (op : UInt8) (h : flow op = .sequential ∨ flow op = .call) :
    shape op ≠ .branch ∧ shape op ≠ .branchW ∧ shape op ≠ .tableSwitch ∧
      shape op ≠ .lookupSwitch := by
  revert op
  apply forall_opcode
  decide +kernel

end Opcode

namespace Instruction

def int32Bytes (n : Int32) : Bytes := be32 n.toUInt32

def pairBytes (pair : Int32 × Int32) : Bytes := int32Bytes pair.1 ++ int32Bytes pair.2

@[simp] theorem length_int32Bytes (n : Int32) : (int32Bytes n).length = 4 := length_be32 _

@[simp] theorem length_pairBytes (pair : Int32 × Int32) : (pairBytes pair).length = 8 := by
  simp [pairBytes]

/-- The bytes behind an opcode of this shape at `position`, and the instruction they make. -/
inductive Follows (position : Nat) (opcode : UInt8) : Opcode.Shape → Instruction → Bytes → Prop
  | fixed (bytes : Bytes) :
    Follows position opcode (.fixed bytes.length) ⟨position, opcode, false, .fixed bytes⟩ bytes
  | branch (delta : Int16) :
    Follows position opcode .branch ⟨position, opcode, false, .branch delta.toInt32⟩
      (be16 delta.toUInt16)
  | branchW (delta : Int32) :
    Follows position opcode .branchW ⟨position, opcode, false, .branch delta⟩ (int32Bytes delta)
  | tableSwitch (pad : Bytes) (fallback low high : Int32) (deltas : List Int32) :
    pad.length = padding position → ¬ high < low →
    deltas.length = (high.toInt - low.toInt + 1).toNat →
    Follows position opcode .tableSwitch
      ⟨position, opcode, false, .tableSwitch fallback low high deltas⟩
      (pad ++ int32Bytes fallback ++ int32Bytes low ++ int32Bytes high ++ deltas.flatMap int32Bytes)
  | lookupSwitch (pad : Bytes) (fallback count : Int32) (pairs : List (Int32 × Int32)) :
    pad.length = padding position → ¬ count < 0 → pairs.length = count.toInt.toNat →
    Follows position opcode .lookupSwitch
      ⟨position, opcode, false, .lookupSwitch fallback pairs⟩
      (pad ++ int32Bytes fallback ++ int32Bytes count ++ pairs.flatMap pairBytes)
  | wide (widened : UInt8) (bytes : Bytes) : Opcode.wideOperands widened = some bytes.length →
    Follows position opcode .wide ⟨position, widened, true, .fixed bytes⟩ (widened :: bytes)

/-- The bytes are the instruction, and stand at `position`. -/
def Stands (position : Nat) (i : Instruction) (bytes : Bytes) : Prop :=
  ∃ opcode tail, bytes = opcode :: tail ∧ Follows position opcode (Opcode.shape opcode) i tail

/-- The bytes are the instructions, one behind the other from `position` on. -/
inductive Listing : Nat → List Instruction → Bytes → Prop
  | nil (position : Nat) : Listing position [] []
  | cons {position : Nat} {i : Instruction} {rest : List Instruction} {bytes tail : Bytes} :
    Stands position i bytes → Listing (position + bytes.length) rest tail →
    Listing position (i :: rest) (bytes ++ tail)

theorem spells_int32 : Cursor.i32.Spells fun n bytes => bytes = int32Bytes n := Reader.spells_i32

theorem spells_readPair : readPair.Spells fun pair bytes => bytes = pairBytes pair := by
  unfold readPair
  refine (spells_int32.pair spells_int32 _).congr fun pair bytes => ?_
  constructor
  · rintro ⟨key, delta, rfl, rfl⟩
    rfl
  · rintro rfl
    exact ⟨pair.1, pair.2, rfl, rfl⟩

@[simp] theorem length_flatMap_int32Bytes (ns : List Int32) :
    (ns.flatMap int32Bytes).length = 4 * ns.length := by
  induction ns with
  | nil => rfl
  | cons n ns ih => simp [ih]; omega

@[simp] theorem length_flatMap_pairBytes (pairs : List (Int32 × Int32)) :
    (pairs.flatMap pairBytes).length = 8 * pairs.length := by
  induction pairs with
  | nil => rfl
  | cons pair pairs ih => simp [ih]; omega

theorem spells_readTable (start : Nat) (fallback low high : Int32) :
    (readTable start fallback low high).Spells fun operand bytes =>
      ¬ high < low ∧ ∃ deltas, operand = .tableSwitch fallback low high deltas ∧
        deltas.length = (high.toInt - low.toInt + 1).toNat ∧
        bytes = deltas.flatMap int32Bytes := by
  unfold readTable
  refine Reader.Spells.checked (Reader.fails_damage _) (Reader.Spells.fits (Reader.fails_throw _)
    ((spells_int32.timesOf _).last _) ?_)
  intro operand bytes left hleft
  constructor
  · rintro ⟨deltas, rfl, hlength, rfl⟩
    rw [length_flatMap_int32Bytes] at hleft
    exact ⟨by omega, deltas, ⟨hlength, rfl⟩, rfl⟩
  · rintro ⟨_, deltas, ⟨hlength, rfl⟩, rfl⟩
    exact ⟨deltas, rfl, hlength, rfl⟩

theorem spells_readPairs (start : Nat) (fallback count : Int32) :
    (readPairs start fallback count).Spells fun operand bytes =>
      ¬ count < 0 ∧ ∃ pairs, operand = .lookupSwitch fallback pairs ∧
        pairs.length = count.toInt.toNat ∧ bytes = pairs.flatMap pairBytes := by
  unfold readPairs
  refine Reader.Spells.fits (Reader.fails_damage _)
    ((spells_readPair.timesOf _).last _) ?_
  intro operand bytes left hleft
  constructor
  · rintro ⟨hcount, pairs, rfl, hlength, rfl⟩
    rw [length_flatMap_pairBytes] at hleft
    have hfits : ¬ count.toInt.toNat * 8 > left := by omega
    exact ⟨by simp [hcount, hfits, -Int32.toNat_toInt], pairs, ⟨hlength, rfl⟩, rfl⟩
  · rintro ⟨hfits, pairs, ⟨hlength, rfl⟩, rfl⟩
    simp at hfits
    exact ⟨by simp [hfits.1], pairs, rfl, hlength, rfl⟩

theorem spellsAt_readTableSwitch (start : Nat) :
    (readTableSwitch start).SpellsAt (start + 1) fun operand bytes =>
      ∃ (pad : Bytes) (fallback low high : Int32) (deltas : List Int32),
        operand = .tableSwitch fallback low high deltas ∧ pad.length = padding start ∧
        ¬ high < low ∧ deltas.length = (high.toInt - low.toInt + 1).toNat ∧
        bytes = pad ++ int32Bytes fallback ++ int32Bytes low ++ int32Bytes high ++
          deltas.flatMap int32Bytes := by
  unfold readTableSwitch
  refine ((Reader.spellsAt_align 4 (start + 1)).bind fun _ pad _ => (spells_int32.bind fun fallback =>
    spells_int32.bind fun low => spells_int32.bind fun high =>
      spells_readTable start fallback low high).at _).congr ?_
  intro operand bytes
  constructor
  · rintro ⟨_, pad, _, hpad, ⟨fallback, _, _, rfl, ⟨low, _, _, rfl, ⟨high, _, _, rfl,
      ⟨hbounds, deltas, rfl, hlength, rfl⟩, rfl⟩, rfl⟩, rfl⟩, rfl⟩
    exact ⟨pad, fallback, low, high, deltas, rfl, hpad, hbounds, hlength, by simp⟩
  · rintro ⟨pad, fallback, low, high, deltas, rfl, hpad, hbounds, hlength, rfl⟩
    exact ⟨(), pad, _, hpad, ⟨fallback, _, _, rfl, ⟨low, _, _, rfl, ⟨high, _, _, rfl,
      ⟨hbounds, deltas, rfl, hlength, rfl⟩, rfl⟩, rfl⟩, rfl⟩, by simp⟩

theorem spellsAt_readLookupSwitch (start : Nat) :
    (readLookupSwitch start).SpellsAt (start + 1) fun operand bytes =>
      ∃ (pad : Bytes) (fallback count : Int32) (pairs : List (Int32 × Int32)),
        operand = .lookupSwitch fallback pairs ∧ pad.length = padding start ∧ ¬ count < 0 ∧
        pairs.length = count.toInt.toNat ∧
        bytes = pad ++ int32Bytes fallback ++ int32Bytes count ++ pairs.flatMap pairBytes := by
  unfold readLookupSwitch
  refine ((Reader.spellsAt_align 4 (start + 1)).bind fun _ pad _ => (spells_int32.bind fun fallback =>
    spells_int32.bind fun count => spells_readPairs start fallback count).at _).congr ?_
  intro operand bytes
  constructor
  · rintro ⟨_, pad, _, hpad, ⟨fallback, _, _, rfl, ⟨count, _, _, rfl,
      ⟨hcount, pairs, rfl, hlength, rfl⟩, rfl⟩, rfl⟩, rfl⟩
    exact ⟨pad, fallback, count, pairs, rfl, hpad, hcount, hlength, by simp⟩
  · rintro ⟨pad, fallback, count, pairs, rfl, hpad, hcount, hlength, rfl⟩
    exact ⟨(), pad, _, hpad, ⟨fallback, _, _, rfl, ⟨count, _, _, rfl,
      ⟨hcount, pairs, rfl, hlength, rfl⟩, rfl⟩, rfl⟩, by simp⟩

theorem spells_readWide (start : Nat) (opcode : UInt8) :
    (readWide start).Spells (Follows start opcode .wide) := by
  unfold readWide
  refine (Reader.spells_u8.bind fun widened => (?_ : Reader.Spells _ fun i bytes =>
    Opcode.wideOperands widened = some bytes.length ∧
      i = ⟨start, widened, true, .fixed bytes⟩)).congr ?_
  · cases hwide : Opcode.wideOperands widened with
    | none => exact (Reader.fails_damage _).spells (by simp)
    | some count =>
      refine ((Reader.spells_take count).last _).congr fun i bytes => ?_
      constructor
      · rintro ⟨operands, ⟨hlength, rfl⟩, rfl⟩
        simp [hlength]
      · rintro ⟨hlength, rfl⟩
        exact ⟨bytes, ⟨by simpa using hlength.symm, rfl⟩, rfl⟩
  · intro i bytes
    constructor
    · rintro ⟨widened, _, operands, rfl, ⟨hwide, rfl⟩, rfl⟩
      exact .wide widened operands hwide
    · intro h
      cases h with
      | wide widened operands hwide => exact ⟨widened, _, operands, rfl, ⟨hwide, rfl⟩, rfl⟩

/-- Each shape of opcode is read by a reader of its own. -/
theorem spellsAt_readBehind (start : Nat) (opcode : UInt8) :
    (readBehind start opcode).SpellsAt (start + 1)
      (Follows start opcode (Opcode.shape opcode)) := by
  unfold readBehind
  cases Opcode.shape opcode with
  | fixed count =>
    refine (((Reader.spells_take count).last _).congr fun i bytes => ?_).at _
    constructor
    · rintro ⟨operands, ⟨rfl, rfl⟩, rfl⟩
      exact .fixed _
    · intro h
      cases h with
      | fixed => exact ⟨bytes, ⟨rfl, rfl⟩, rfl⟩
  | branch =>
    refine ((Reader.spells_i16.last _).congr fun i bytes => ?_).at _
    constructor
    · rintro ⟨delta, rfl, rfl⟩
      exact .branch delta
    · intro h
      cases h with
      | branch delta => exact ⟨delta, rfl, rfl⟩
  | branchW =>
    refine ((spells_int32.last _).congr fun i bytes => ?_).at _
    constructor
    · rintro ⟨delta, rfl, rfl⟩
      exact .branchW delta
    · intro h
      cases h with
      | branchW delta => exact ⟨delta, rfl, rfl⟩
  | tableSwitch =>
    refine ((spellsAt_readTableSwitch start).last _).congr fun i bytes => ?_
    constructor
    · rintro ⟨_, ⟨pad, fallback, low, high, deltas, rfl, hpad, hbounds, hlength, rfl⟩, rfl⟩
      exact .tableSwitch pad fallback low high deltas hpad hbounds hlength
    · intro h
      cases h with
      | tableSwitch pad fallback low high deltas hpad hbounds hlength =>
        exact ⟨_, ⟨pad, fallback, low, high, deltas, rfl, hpad, hbounds, hlength, rfl⟩, rfl⟩
  | lookupSwitch =>
    refine ((spellsAt_readLookupSwitch start).last _).congr fun i bytes => ?_
    constructor
    · rintro ⟨_, ⟨pad, fallback, count, pairs, rfl, hpad, hcount, hlength, rfl⟩, rfl⟩
      exact .lookupSwitch pad fallback count pairs hpad hcount hlength
    · intro h
      cases h with
      | lookupSwitch pad fallback count pairs hpad hcount hlength =>
        exact ⟨_, ⟨pad, fallback, count, pairs, rfl, hpad, hcount, hlength, rfl⟩, rfl⟩
  | wide => exact (spells_readWide start opcode).at _
  | unknown =>
    refine ((Reader.fails_damage _).spells ?_).at _
    intro i bytes h
    cases h

theorem spellsAt_read (position : Nat) : read.SpellsAt position (Stands position) := by
  unfold read
  refine ((Reader.spellsAt_position position).bind fun start first hstart =>
    (Reader.spells_u8.at _).bind fun opcode bytes hopcode =>
      (?_ : Reader.SpellsAt _ _ (Follows position opcode (Opcode.shape opcode)))).congr ?_
  · obtain ⟨rfl, rfl⟩ := hstart
    rw [hopcode]
    exact spellsAt_readBehind start opcode
  · intro i bytes
    constructor
    · rintro ⟨_, _, _, ⟨rfl, rfl⟩, ⟨opcode, _, tail, rfl, htail, rfl⟩, rfl⟩
      exact ⟨opcode, tail, rfl, htail⟩
    · rintro ⟨opcode, tail, rfl, htail⟩
      exact ⟨position, [], _, ⟨rfl, rfl⟩, ⟨opcode, _, tail, rfl, htail, rfl⟩, rfl⟩

theorem Stands.length_pos {position : Nat} {i : Instruction} {bytes : Bytes}
    (h : Stands position i bytes) : 0 < bytes.length := by
  obtain ⟨opcode, tail, rfl, _⟩ := h
  simp

theorem listing_nil_iff {position : Nat} {instrs : List Instruction} :
    Listing position instrs [] ↔ instrs = [] := by
  constructor
  · intro h
    generalize hnil : ([] : Bytes) = code at h
    cases h with
    | nil => rfl
    | cons hstands _ =>
      have hpos := hstands.length_pos
      have hlength := congrArg List.length hnil
      simp only [List.length_nil, List.length_append] at hlength
      omega
  · rintro rfl
    exact .nil position

/-- There is code where there are instructions. -/
theorem Listing.nil_iff {position : Nat} {instrs : List Instruction} {code : Bytes}
    (h : Listing position instrs code) : instrs = [] ↔ code = [] := by
  cases h with
  | nil => simp
  | cons hstands _ => simp [List.ne_nil_of_length_pos hstands.length_pos]

theorem listing_cons_iff {position : Nat} {i : Instruction} {rest : List Instruction}
    {code : Bytes} :
    Listing position (i :: rest) code ↔ ∃ bytes tail, code = bytes ++ tail ∧
      Stands position i bytes ∧ Listing (position + bytes.length) rest tail := by
  constructor
  · intro h
    cases h with
    | cons hstands hrest => exact ⟨_, _, rfl, hstands, hrest⟩
  · rintro ⟨bytes, tail, rfl, hstands, hrest⟩
    exact .cons hstands hrest

/-- Reading up to the end accepts a listing of all that is left. -/
theorem readUpTo_eq_ok {limit : Nat} {c c' : Cursor} {instrs : List Instruction}
    (hlimit : c.rest.length ≤ limit) :
    readUpTo limit c = .ok instrs c' ↔ Listing c.pos instrs c.rest ∧ c.Passes c.rest c' := by
  induction limit generalizing c instrs with
  | zero =>
    have hrest : c.rest = [] := List.length_eq_zero_iff.mp (by omega)
    rw [readUpTo, Stateful.pure_eq_ok, hrest, listing_nil_iff, Cursor.passes_nil]
    simp [eq_comm]
  | succ limit ih =>
    have hstep : readUpTo (limit + 1) c = (if c.rest.isEmpty then pure [] else do
        let first ← read
        return first :: (← readUpTo limit) : Reader (List Instruction)) c := rfl
    rw [hstep]
    by_cases hrest : c.rest = []
    · rw [if_pos (by simp [hrest]), Stateful.pure_eq_ok, hrest, listing_nil_iff, Cursor.passes_nil]
      simp [eq_comm]
    · rw [if_neg (by simp [hrest])]
      simp only [Stateful.bind_eq_ok, Stateful.pure_eq_ok]
      constructor
      · rintro ⟨i, d, hread, rest, d', hmore, rfl, rfl⟩
        obtain ⟨bytes, hstands, hpass⟩ := (spellsAt_read c.pos c i d rfl).mp hread
        have hlength := congrArg List.length hpass.rest
        rw [List.length_append] at hlength
        have hpos := hstands.length_pos
        obtain ⟨hlisting, hpass'⟩ := (ih (by omega)).mp hmore
        rw [hpass.rest]
        exact ⟨.cons hstands (hpass.pos ▸ hlisting), hpass.trans hpass'⟩
      · rintro ⟨hlisting, hpass⟩
        cases instrs with
        | nil =>
          generalize c.rest = code at hlisting hrest
          cases hlisting
          exact absurd rfl hrest
        | cons i rest =>
          obtain ⟨bytes, tail, hcode, hstands, hlisting⟩ := listing_cons_iff.mp hlisting
          rw [hcode] at hpass
          obtain ⟨d, hfirst, hsecond⟩ := Cursor.passes_append.mp hpass
          have htail : d.rest = tail :=
            List.append_cancel_left (hfirst.rest.symm.trans hcode)
          have hpos := hstands.length_pos
          have hlength := congrArg List.length hcode
          rw [List.length_append] at hlength
          refine ⟨i, d, (spellsAt_read c.pos c i d rfl).mpr ⟨bytes, hstands, hfirst⟩, rest, c', ?_,
            rfl, rfl⟩
          rw [ih (by rw [htail]; omega), htail, hfirst.pos]
          exact ⟨hlisting, hsecond⟩

/-- Decoding accepts exactly the listings, and gives what is listed. -/
theorem decode_eq_ok_iff {code : Bytes} {instrs : List Instruction} :
    decode code = .ok instrs ↔ Listing 0 instrs code := by
  have hlimit : (Cursor.start code).rest.length ≤ code.length := Nat.le_refl _
  unfold decode
  rw [Reader.run'_eq_ok]
  constructor
  · rintro ⟨c', h⟩
    exact ((readUpTo_eq_ok hlimit).mp h).1
  · intro h
    obtain ⟨c', hpass, _⟩ := Cursor.exists_passes (List.append_nil (Cursor.start code).rest).symm
    exact ⟨c', (readUpTo_eq_ok hlimit).mpr ⟨h, hpass⟩⟩

theorem Stands.offset_eq {position : Nat} {i : Instruction} {bytes : Bytes}
    (h : Stands position i bytes) : i.offset = position := by
  obtain ⟨opcode, tail, rfl, h⟩ := h
  generalize Opcode.shape opcode = shape at h
  cases h <;> rfl

/-- Every instruction that is listed stands in the code at its offset. -/
theorem Listing.exists_drop {position : Nat} {instrs : List Instruction} {code : Bytes}
    (h : Listing position instrs code) {i : Instruction} (hi : i ∈ instrs) :
    position ≤ i.offset ∧ ∃ bytes rest, Stands i.offset i bytes ∧
      code.drop (i.offset - position) = bytes ++ rest := by
  induction h with
  | nil => simp at hi
  | @cons position first _ bytes tail hstands _ ih =>
    rcases List.mem_cons.mp hi with rfl | hi
    · have hoffset := hstands.offset_eq
      refine ⟨Nat.le_of_eq hoffset.symm, bytes, tail, hoffset.symm ▸ hstands, ?_⟩
      rw [hoffset, Nat.sub_self, List.drop_zero]
    · obtain ⟨hle, found, rest, hfound, hdrop⟩ := ih hi
      refine ⟨by omega, found, rest, hfound, ?_⟩
      rw [List.drop_append, List.drop_eq_nil_of_le (by omega), List.nil_append, Nat.sub_sub, hdrop]

theorem Listing.exists_stands {position : Nat} {instrs : List Instruction} {code : Bytes}
    (h : Listing position instrs code) {i : Instruction} (hi : i ∈ instrs) :
    ∃ bytes, Stands i.offset i bytes := by
  obtain ⟨_, bytes, _, hstands, _⟩ := h.exists_drop hi
  exact ⟨bytes, hstands⟩

theorem Stands.length_eq {position : Nat} {i : Instruction} {bytes : Bytes}
    (h : Stands position i bytes) : i.length = bytes.length := by
  obtain ⟨opcode, tail, rfl, h⟩ := h
  generalize hshape : Opcode.shape opcode = shape at h
  cases h with
  | fixed operands => simp [length, sizeAt]; omega
  | branch delta =>
    have hnarrow := (not_congr (Opcode.shape_eq_branchW_iff opcode)).mp (by simp [hshape])
    rw [not_or] at hnarrow
    simp [length, sizeAt, hnarrow]
  | branchW delta =>
    have hwide := (Opcode.shape_eq_branchW_iff opcode).mp hshape
    simp [length, sizeAt, hwide]
  | tableSwitch pad fallback low high deltas hpad => simp [length, sizeAt, hpad]; omega
  | lookupSwitch pad fallback count pairs hpad => simp [length, sizeAt, hpad]; omega
  | wide widened operands => simp [length, sizeAt]; omega

theorem Listing.append {position : Nat} {instrs instrs' : List Instruction} {code code' : Bytes}
    (h : Listing position instrs code) (h' : Listing (position + code.length) instrs' code') :
    Listing position (instrs ++ instrs') (code ++ code') := by
  induction h with
  | nil position => exact h'
  | cons hstands _ ih =>
    rw [List.append_assoc]
    refine .cons hstands (ih ?_)
    rwa [List.length_append, ← Nat.add_assoc] at h'

/-- Control goes from the instruction to the one behind it, or returns there from a call. -/
def IsStraight (i : Instruction) : Prop :=
  Opcode.flow i.opcode = .sequential ∨ Opcode.flow i.opcode = .call

instance (i : Instruction) : Decidable i.IsStraight := inferInstanceAs (Decidable (_ ∨ _))

/-- The instruction, `distance` further on. -/
def shift (distance : Nat) (i : Instruction) : Instruction :=
  { i with offset := i.offset + distance }

/-- A straight instruction is the same bytes wherever it stands. -/
theorem Stands.shift {position : Nat} {i : Instruction} {bytes : Bytes} (h : Stands position i bytes)
    (hstraight : i.IsStraight) (distance : Nat) :
    Stands (position + distance) (i.shift distance) bytes := by
  obtain ⟨opcode, tail, rfl, h⟩ := h
  refine ⟨opcode, tail, rfl, ?_⟩
  generalize hshape : Opcode.shape opcode = shape at h ⊢
  cases h with
  | fixed => exact .fixed _
  | wide widened operands hwide => exact .wide widened operands hwide
  | branch delta => exact absurd hshape (Opcode.shape_of_straight opcode hstraight).1
  | branchW delta => exact absurd hshape (Opcode.shape_of_straight opcode hstraight).2.1
  | tableSwitch => exact absurd hshape (Opcode.shape_of_straight opcode hstraight).2.2.1
  | lookupSwitch => exact absurd hshape (Opcode.shape_of_straight opcode hstraight).2.2.2

theorem Stands.targets_eq_nil {position : Nat} {i : Instruction} {bytes : Bytes}
    (h : Stands position i bytes) (hstraight : i.IsStraight) : i.targets = [] := by
  obtain ⟨opcode, tail, rfl, h⟩ := h
  generalize hshape : Opcode.shape opcode = shape at h
  cases h with
  | fixed operands => rfl
  | wide widened operands hwide => rfl
  | branch delta => exact absurd hshape (Opcode.shape_of_straight opcode hstraight).1
  | branchW delta => exact absurd hshape (Opcode.shape_of_straight opcode hstraight).2.1
  | tableSwitch => exact absurd hshape (Opcode.shape_of_straight opcode hstraight).2.2.1
  | lookupSwitch => exact absurd hshape (Opcode.shape_of_straight opcode hstraight).2.2.2

theorem Listing.targets_eq_nil {position : Nat} {instrs : List Instruction} {code : Bytes}
    (h : Listing position instrs code) (hstraight : ∀ i ∈ instrs, i.IsStraight) :
    ∀ i ∈ instrs, i.targets = [] := by
  induction h with
  | nil => simp
  | cons hstands _ ih =>
    rw [List.forall_mem_cons] at hstraight ⊢
    exact ⟨hstands.targets_eq_nil hstraight.1, ih hstraight.2⟩

theorem Listing.shift {position : Nat} {instrs : List Instruction} {code : Bytes}
    (h : Listing position instrs code) (hstraight : ∀ i ∈ instrs, i.IsStraight) (distance : Nat) :
    Listing (position + distance) (instrs.map (·.shift distance)) code := by
  induction h with
  | nil position => exact .nil _
  | cons hstands _ ih =>
    rw [List.forall_mem_cons] at hstraight
    have hrest := ih hstraight.2
    rw [Nat.add_right_comm] at hrest
    exact .cons (hstands.shift hstraight.1 distance) hrest

end Instruction

end ThreadWatch
