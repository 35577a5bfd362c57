import ThreadWatch.Proofs.Code.Reach

/-!
# Code written again

Decoding divides code into instructions, one behind the other and none empty. With nothing inserted
every instruction keeps its place, so every jump keeps its distance, and the code is written as it
was: only the padding of switches, which decoding does not look at, is zero afterwards.
-/

namespace ThreadWatch

namespace Instruction

/-- The instructions take all bytes from `start` to `stop`, each at least one, one behind the other. -/
inductive Tiles (stop : Nat) : Nat → List Instruction → Prop
  | nil : Tiles stop stop []
  | cons {start : Nat} {i : Instruction} {rest : List Instruction} :
    i.offset = start → 0 < i.length → Tiles stop (start + i.length) rest →
    Tiles stop start (i :: rest)

/-- The byte at `k` is one of the instruction. -/
def Covers (i : Instruction) (k : Nat) : Prop := i.offset ≤ k ∧ k < i.offset + i.length

namespace Tiles

variable {start stop : Nat} {instrs : List Instruction}

theorem le (h : Tiles stop start instrs) : start ≤ stop := by
  induction h with
  | nil => exact Nat.le_refl _
  | cons _ _ _ ih => omega

theorem le_offset (h : Tiles stop start instrs) {i : Instruction} (hi : i ∈ instrs) :
    start ≤ i.offset := by
  induction h with
  | nil => simp at hi
  | cons hoffset _ _ ih =>
    rcases List.mem_cons.mp hi with rfl | hi
    · exact Nat.le_of_eq hoffset.symm
    · have hrest := ih hi
      omega

/-- No byte is left out, and none is taken twice. -/
theorem existsUnique_covers (h : Tiles stop start instrs) {k : Nat} (hstart : start ≤ k)
    (hstop : k < stop) : ∃! i, i ∈ instrs ∧ i.Covers k := by
  induction h with
  | nil => exact absurd hstart (Nat.not_le.mpr hstop)
  | @cons start i rest hoffset hlength hrest ih =>
    by_cases hfirst : k < start + i.length
    · refine ⟨i, ⟨List.mem_cons_self .., by rw [Covers]; omega⟩, ?_⟩
      rintro j ⟨hj, hcovers⟩
      rcases List.mem_cons.mp hj with rfl | hj
      · rfl
      · have hbehind := hrest.le_offset hj
        have hbefore := hcovers.1
        omega
    · obtain ⟨i', ⟨hi', hcovers⟩, honly⟩ := ih (Nat.not_lt.mp hfirst)
      refine ⟨i', ⟨List.mem_cons_of_mem _ hi', hcovers⟩, ?_⟩
      rintro j ⟨hj, hj'⟩
      rcases List.mem_cons.mp hj with rfl | hj
      · have hend := hj'.2
        omega
      · exact honly j ⟨hj, hj'⟩

end Tiles

theorem Listing.tiles {position : Nat} {instrs : List Instruction} {code : Bytes}
    (h : Listing position instrs code) : Tiles (position + code.length) position instrs := by
  induction h with
  | nil => exact .nil
  | cons hstands _ ih =>
    rw [List.length_append, ← Nat.add_assoc]
    refine .cons hstands.offset_eq ?_ ?_
    · exact hstands.length_eq ▸ hstands.length_pos
    · rwa [hstands.length_eq]

/-! ### One instruction -/

theorem i32_bytes_toInt (delta : Int32) : Scalar.i32.bytes delta.toInt = int32Bytes delta := by
  rw [i32_bytes, Int32.ofInt_toInt]

theorem i16_bytes_toInt (delta : Int16) :
    Scalar.i16.bytes delta.toInt = be16 delta.toUInt16 := by
  rw [i16_bytes, Int16.ofInt_toInt]

/-- The operands start at a multiple of four. -/
def isSwitch (i : Instruction) : Bool :=
  match i.operand with
  | .tableSwitch .. | .lookupSwitch .. => true
  | .fixed _ | .branch _ => false

/-- The bytes of an instruction with zeros for padding. -/
def zeroed (i : Instruction) (bytes : Bytes) : Bytes :=
  if i.isSwitch then
    bytes.take 1 ++ List.replicate (padding i.offset) 0 ++ bytes.drop (1 + padding i.offset)
  else bytes

theorem zeroed_of_isSwitch {i : Instruction} (hswitch : i.isSwitch = true) {pad : Bytes}
    (hpad : pad.length = padding i.offset) (opcode : UInt8) (rest : Bytes) :
    i.zeroed (opcode :: (pad ++ rest)) =
      opcode :: (List.replicate (padding i.offset) 0 ++ rest) := by
  rw [zeroed, if_pos hswitch, ← hpad, Nat.add_comm 1]
  simp

/-- An instruction whose jumps keep their distances is written with its own bytes. -/
theorem Stands.bytesAt_eq_zeroed {position : Nat} {i : Instruction} {bytes : Bytes}
    (h : Stands position i bytes) {l : Layout}
    (hkept : ∀ delta ∈ i.deltas, l.distance i position delta = .ok delta.toInt) :
    i.bytesAt l position = .ok (i.zeroed bytes) := by
  have hbytes : ∀ delta ∈ i.deltas, l.distanceBytes i position delta = .ok (int32Bytes delta) := by
    intro delta hdelta
    rw [Layout.distanceBytes, hkept delta hdelta, ← i32_bytes_toInt]
    rfl
  obtain ⟨opcode, tail, rfl, h⟩ := h
  generalize hshape : Opcode.shape opcode = shape at h
  cases h with
  | fixed => rfl
  | wide widened operands hwide =>
    obtain rfl := (Opcode.shape_eq_wide_iff opcode).mp hshape
    rfl
  | branch delta =>
    have hnear : IsNear delta.toInt32.toInt := by
      rw [Int16.toInt_toInt32]
      exact ⟨delta.le_toInt, delta.toInt_le⟩
    rw [bytesAt_of_short rfl hshape, hkept _ (List.mem_singleton_self _)]
    refine (if_pos hnear).trans ?_
    rw [Int16.toInt_toInt32, i16_bytes_toInt]
    rfl
  | branchW delta =>
    have hopcode := (Opcode.shape_eq_branchW_iff opcode).mp hshape
    unfold Instruction.bytesAt
    dsimp only
    rw [hkept _ (List.mem_singleton_self _), ← i32_bytes_toInt]
    exact if_pos (by simpa using hopcode)
  | tableSwitch pad fallback low high deltas hpad hbounds hlength =>
    simp only [Instruction.deltas, List.forall_mem_cons] at hbytes
    unfold Instruction.bytesAt
    dsimp only
    rw [hbytes.1, mapM_of_forall_mem hbytes.2]
    simp only [List.append_assoc]
    rw [zeroed_of_isSwitch rfl hpad]
    simp only [bind, Except.bind, pure, Except.pure, List.flatMap_def, int32Bytes,
      List.cons_append]
  | lookupSwitch pad fallback count pairs hpad hcount hlength =>
    simp only [Instruction.deltas, List.forall_mem_cons, List.forall_mem_map] at hbytes
    have hpairs : ∀ pair ∈ pairs, (do
        return be32 pair.1.toUInt32 ++
          (← l.distanceBytes ⟨position, opcode, false, .lookupSwitch fallback pairs⟩ position
            pair.2) : Except Fault Bytes) = .ok (pairBytes pair) := by
      intro pair hpair
      rw [hbytes.2 pair hpair]
      rfl
    unfold Instruction.bytesAt
    dsimp only
    rw [hbytes.1, mapM_of_forall_mem hpairs]
    simp only [List.append_assoc]
    rw [zeroed_of_isSwitch rfl hpad]
    simp only [bind, Except.bind, pure, Except.pure, List.flatMap_def,
      List.cons_append, ← int32Bytes_of_count hcount hlength]

/-- Behind the opcode of a switch stands its padding. -/
theorem Stands.exists_pad {position : Nat} {i : Instruction} {bytes : Bytes}
    (h : Stands position i bytes) (hswitch : i.isSwitch = true) :
    ∃ opcode pad rest, bytes = opcode :: (pad ++ rest) ∧ pad.length = padding i.offset := by
  obtain ⟨opcode, tail, rfl, h⟩ := h
  generalize Opcode.shape opcode = shape at h
  cases h with
  | fixed | branch | branchW | wide => cases hswitch
  | tableSwitch pad fallback low high deltas hpad =>
    exact ⟨opcode, pad, int32Bytes fallback ++ int32Bytes low ++ int32Bytes high ++
      deltas.flatMap int32Bytes, by simp only [List.append_assoc], hpad⟩
  | lookupSwitch pad fallback count pairs hpad =>
    exact ⟨opcode, pad, int32Bytes fallback ++ int32Bytes count ++ pairs.flatMap pairBytes,
      by simp only [List.append_assoc], hpad⟩

/-- The byte at `k` is padding of the instruction. -/
def Pads (i : Instruction) (k : Nat) : Prop :=
  i.isSwitch = true ∧ i.offset < k ∧ k ≤ i.offset + padding i.offset

instance (i : Instruction) (k : Nat) : Decidable (i.Pads k) := inferInstanceAs (Decidable (_ ∧ _))

/-- The padding is zero, every other byte is kept. -/
theorem Stands.getElem?_zeroed {position : Nat} {i : Instruction} {bytes : Bytes}
    (h : Stands position i bytes) (k : Nat) :
    (i.zeroed bytes)[k]? = if i.Pads (position + k) then some 0 else bytes[k]? := by
  have hoffset := h.offset_eq
  by_cases hswitch : i.isSwitch = true
  · obtain ⟨opcode, pad, rest, rfl, hpad⟩ := h.exists_pad hswitch
    rw [zeroed_of_isSwitch hswitch hpad]
    cases k with
    | zero => rw [if_neg (by rw [Pads]; omega)]; rfl
    | succ k =>
      rw [List.getElem?_cons_succ, List.getElem?_cons_succ]
      by_cases hk : k < padding i.offset
      · rw [if_pos ⟨hswitch, by omega, by omega⟩, List.getElem?_append_left (by simpa using hk),
          List.getElem?_replicate_of_lt hk]
      · rw [if_neg (by rw [Pads]; omega), List.getElem?_append_right (by simpa using hk),
          List.getElem?_append_right (by omega), List.length_replicate, hpad]
  · rw [zeroed, if_neg hswitch, if_neg (fun hpads => hswitch hpads.1)]

theorem Stands.length_zeroed {position : Nat} {i : Instruction} {bytes : Bytes}
    (h : Stands position i bytes) : (i.zeroed bytes).length = bytes.length := by
  by_cases hswitch : i.isSwitch = true
  · obtain ⟨opcode, pad, rest, rfl, hpad⟩ := h.exists_pad hswitch
    simp [zeroed_of_isSwitch hswitch hpad, hpad]
  · rw [zeroed, if_neg hswitch]

theorem Stands.lt_of_pads {position : Nat} {i : Instruction} {bytes : Bytes}
    (h : Stands position i bytes) {k : Nat} (hpads : i.Pads k) : k < position + bytes.length := by
  obtain ⟨opcode, pad, rest, rfl, hpad⟩ := h.exists_pad hpads.1
  have hoffset := h.offset_eq
  have hle := hpads.2.2
  simp only [List.length_cons, List.length_append]
  omega

/-! ### All of the code -/

/-- The byte at `k` is padding of a switch. -/
def IsPadding (instrs : List Instruction) (k : Nat) : Prop := ∃ i ∈ instrs, i.Pads k

instance (instrs : List Instruction) (k : Nat) : Decidable (IsPadding instrs k) :=
  inferInstanceAs (Decidable (∃ _ ∈ _, _))

theorem isPadding_cons {i : Instruction} {rest : List Instruction} {k : Nat} :
    IsPadding (i :: rest) k ↔ i.Pads k ∨ IsPadding rest k := by
  simp [IsPadding]

/-- Instructions whose jumps keep their distances are written as they were. -/
theorem Listing.exists_written {position : Nat} {instrs : List Instruction} {code : Bytes}
    (h : Listing position instrs code) {l : Layout}
    (hkept : ∀ i ∈ instrs, ∀ delta ∈ i.deltas, l.distance i i.offset delta = .ok delta.toInt) :
    ∃ parts, (instrs.mapM fun i => i.bytesAt l i.offset) = .ok parts ∧
      parts.flatten.length = code.length ∧
      ∀ k, parts.flatten[k]? =
        if IsPadding instrs (position + k) then some 0 else code[k]? := by
  induction h with
  | nil => exact ⟨[], rfl, rfl, by simp [IsPadding]⟩
  | @cons position i rest bytes tail hstands hrest ih =>
    rw [List.forall_mem_cons] at hkept
    obtain ⟨parts, hparts, hlength, hbyte⟩ := ih hkept.2
    have hoffset := hstands.offset_eq
    have hfirst := hstands.bytesAt_eq_zeroed (hoffset ▸ hkept.1)
    refine ⟨i.zeroed bytes :: parts, ?_, ?_, fun k => ?_⟩
    · rw [List.mapM_cons, hoffset, hfirst, hparts]
      rfl
    · simp [hstands.length_zeroed, hlength]
    · simp only [List.flatten_cons, isPadding_cons]
      by_cases hk : k < bytes.length
      · -- the padding of what follows is behind `k`
        have hnone : ¬ IsPadding rest (position + k) := by
          rintro ⟨j, hj, _, hlt, _⟩
          have hbehind := hrest.tiles.le_offset hj
          omega
        rw [List.getElem?_append_left (hstands.length_zeroed ▸ hk),
          List.getElem?_append_left hk, hstands.getElem?_zeroed]
        simp only [hnone, or_false]
      · have hnone : ¬ i.Pads (position + k) := fun hpads => by
          have hlt := hstands.lt_of_pads hpads
          omega
        rw [List.getElem?_append_right (by rw [hstands.length_zeroed]; omega),
          List.getElem?_append_right (by omega), hstands.length_zeroed, hbyte,
          show position + bytes.length + (k - bytes.length) = position + k by omega]
        simp only [hnone, false_or]

/-- The instruction with nothing inserted in front of it. -/
def plain (i : Instruction) : Item := ⟨i, none⟩

namespace Tiles

variable {start stop : Nat} {instrs : List Instruction}

theorem stopFrom_plain (h : Tiles stop start instrs) :
    stopFrom start (instrs.map plain) = stop := by
  induction h with
  | nil => rfl
  | cons hoffset _ _ ih => rwa [← hoffset] at ih ⊢

/-- The group of every boundary starts at the boundary. -/
theorem stopFrom_takeWhile (h : Tiles stop start instrs) {old : Nat}
    (hold : old = stop ∨ ∃ i ∈ instrs, old = i.offset) :
    stopFrom start ((instrs.map plain).takeWhile fun item => item.instruction.offset < old) =
      old := by
  induction h with
  | nil => simpa [stopFrom, eq_comm] using hold
  | @cons start i rest hoffset hlength hrest ih =>
    by_cases hfirst : old = i.offset
    · rw [List.map_cons, List.takeWhile_cons_of_neg (by simp [plain, hfirst]), hfirst]
      exact hoffset.symm
    · have hold' : old = stop ∨ ∃ j ∈ rest, old = j.offset := by
        simpa [hfirst] using hold
      have hbehind : i.offset < old := by
        have hle := hrest.le
        rcases hold' with rfl | ⟨j, hj, rfl⟩
        · omega
        · have hoff := hrest.le_offset hj
          omega
      rw [List.map_cons, Laid.takeWhile_cons hbehind]
      exact hoffset ▸ ih hold'

end Tiles

section Plain

variable {code : Bytes} {instrs : List Instruction} (hdecode : decode code = .ok instrs)

include hdecode

theorem tiles_of_decode : Tiles code.length 0 instrs :=
  Nat.zero_add code.length ▸ (decode_eq_ok_iff.mp hdecode).tiles

theorem decode_eq_map_plain :
    decode code = .ok ((instrs.map plain).map (·.instruction)) := by
  rw [hdecode, List.map_map]
  exact congrArg _ (List.map_id _).symm

theorem groupIn_plain {old : Nat} (hold : IsBoundary code.length (instrs.map plain) old) :
    groupIn (instrs.map plain) old = old := by
  refine (tiles_of_decode hdecode).stopFrom_takeWhile ?_
  simpa [IsBoundary, plain, Int.natCast_inj] using hold

theorem startIn_plain {i : Instruction} (hi : i ∈ instrs) :
    (plain i).startIn (instrs.map plain) = i.offset :=
  groupIn_plain hdecode (.inr ⟨plain i, List.mem_map_of_mem hi, rfl⟩)

/-- What was at a boundary is there still. -/
theorem find_plain {l : Layout} (hl : l.Lays code.length (instrs.map plain)) {old : Nat}
    (hold : IsBoundary code.length (instrs.map plain) old) : l.find old = .ok ⟨old, old, old⟩ := by
  have hgroup := groupIn_plain hdecode hold
  rcases hold with hstop | ⟨item, hitem, hoffset⟩
  · obtain rfl := Int.ofNat.inj hstop
    rw [hl.groupIn_oldLength] at hgroup
    exact hl.find_iff.mpr ⟨rfl, .inr (by rw [Layout.stop, hgroup])⟩
  · obtain ⟨i, hi, rfl⟩ := List.mem_map.mp hitem
    obtain rfl := Int.ofNat.inj hoffset
    rw [hl.find_offset hitem, hgroup, startIn_plain hdecode hi]
    rfl

/-- Instructions with nothing in front of them are written as they are. -/
theorem mapM_plain {l : Layout} {parts : List Bytes}
    (hparts : (instrs.mapM fun i => i.bytesAt l i.offset) = .ok parts) :
    (instrs.map plain).mapM (Item.bytesIn l (instrs.map plain)) = .ok parts := by
  rw [mapM_eq_ok, List.forall₂_map_left_iff]
  have hmem := (List.forall₂_and_left instrs parts).mpr ⟨fun i hi => hi, mapM_eq_ok.mp hparts⟩
  refine hmem.imp fun i part ⟨hi, hpart⟩ => ?_
  rw [Item.bytesIn, startIn_plain hdecode hi]
  exact bind_eq_ok.mpr ⟨part, hpart, rfl⟩

variable {i : Instruction} (hlands : i.Lands code.length (instrs.map plain))

include hlands

/-- The distance to where the target is now is the distance there was. -/
theorem groupIn_target {delta : Int32} (hdelta : delta ∈ i.deltas) :
    (groupIn (instrs.map plain) (i.offset + delta.toInt).toNat : Int) = i.offset + delta.toInt := by
  have htarget := hlands _ (List.mem_map_of_mem hdelta)
  have hcast : ((i.offset + delta.toInt : Int).toNat : Int) = i.offset + delta.toInt := by
    rcases htarget with heq | ⟨item, _, heq⟩ <;> omega
  rw [groupIn_plain hdecode (hcast.symm ▸ htarget), hcast]

theorem distance_plain {l : Layout} (hl : l.Lays code.length (instrs.map plain)) {delta : Int32}
    (hdelta : delta ∈ i.deltas) : l.distance i i.offset delta = .ok delta.toInt := by
  rw [hl.distance_of_isBoundary (hlands _ (List.mem_map_of_mem hdelta)),
    groupIn_target hdecode hlands hdelta, Int.add_comm, Int.add_sub_cancel]

end Plain

/-- Decoding divides the code, and relocating its instructions with nothing inserted leaves every
boundary and every byte where it is, but for the padding of switches, which becomes zero. -/
theorem relocate_plain {code : Bytes} {instrs : List Instruction}
    (hdecode : decode code = .ok instrs) :
    Tiles code.length 0 instrs ∧ (∀ k < code.length, ∃! i, i ∈ instrs ∧ i.Covers k) ∧
    (code.length ≤ maxCodeLength → (∀ i ∈ instrs, i.Lands code.length (instrs.map plain)) →
      ∃ r, relocate code.length (instrs.map plain) = .ok r ∧ r.layout.length = code.length ∧
        (∀ old : Nat, IsBoundary code.length (instrs.map plain) old →
          r.layout.group old = .ok old ∧ r.layout.instruction old = .ok old) ∧
        r.code.length = code.length ∧
        ∀ k : Nat, r.code[k]? = if IsPadding instrs k then some 0 else code[k]?) := by
  have htiles := tiles_of_decode hdecode
  refine ⟨htiles, fun k hk => htiles.existsUnique_covers (Nat.zero_le _) hk, fun hlength hlands => ?_⟩
  have hstop := htiles.stopFrom_plain
  obtain ⟨l, hl, heq⟩ := exists_relocate_eq (decode_eq_map_plain hdecode) (hstop ▸ hlength)
  obtain ⟨parts, hparts, hcodeLength, hbyte⟩ :=
    (decode_eq_ok_iff.mp hdecode).exists_written fun i hi delta hdelta =>
      distance_plain hdecode (hlands i hi) hl hdelta
  refine ⟨⟨parts.flatten, l⟩, ?_, hl.length_eq.trans hstop, fun old hold => ?_, hcodeLength, ?_⟩
  · rw [heq, mapM_plain hdecode hparts]
    rfl
  · have hfind := find_plain hdecode hl hold
    exact ⟨map_eq_ok.mpr ⟨_, hfind, rfl⟩, map_eq_ok.mpr ⟨_, hfind, rfl⟩⟩
  · simpa only [Nat.zero_add] using hbyte

/-- A switch at offset 1, with two bytes of padding, and a jump back to the start. -/
def paddedCode : Bytes :=
  [Opcode.iconst0, 0xAA, 7, 7, 0, 0, 0, 19, 0, 0, 0, 0, 0, 0, 0, 0, 255, 255, 255, 255,
    0xA7, 255, 236]

def paddedInstructions : List Instruction := [
  ⟨0, Opcode.iconst0, false, .fixed []⟩, ⟨1, 0xAA, false, .tableSwitch 19 0 0 [-1]⟩,
  ⟨20, 0xA7, false, .branch (-20)⟩]

theorem relocate_plain_padded :
    decode paddedCode = .ok paddedInstructions ∧ ∃ r,
      relocate paddedCode.length (paddedInstructions.map plain) = .ok r ∧
      r.code.length = 23 ∧ r.code[2]? = some 0 ∧ r.code[3]? = some 0 ∧ r.code[7]? = some 19 := by
  have hdecode : decode paddedCode = .ok paddedInstructions := by decide +kernel
  obtain ⟨_, _, hwritten⟩ := relocate_plain hdecode
  obtain ⟨r, hr, _, _, hlength, hbyte⟩ := hwritten (by decide) (by decide)
  exact ⟨hdecode, r, hr, hlength, (hbyte 2).trans (by decide), (hbyte 3).trans (by decide),
    (hbyte 7).trans (by decide)⟩

end Instruction

end ThreadWatch
