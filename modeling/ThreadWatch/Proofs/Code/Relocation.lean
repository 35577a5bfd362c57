import ThreadWatch.Proofs.Code.Layout
import ThreadWatch.Proofs.Fallible

/-!
# Relocated code means what it meant

Relocated code is decoded again, group by group: what was inserted in front of an instruction, then
the instruction itself. Jumps go to the start of the group of their old target, and control falls
through the inserted code to the instruction, so no old transfer is lost and none is made up.
-/

namespace ThreadWatch

theorem i32_bytes (n : Int) : Scalar.i32.bytes n = Instruction.int32Bytes (Int32.ofInt n) := by
  rw [Instruction.int32Bytes, be32, Scalar.bytes]
  congr 1

theorem i16_bytes (n : Int) : Scalar.i16.bytes n = be16 (Int16.ofInt n).toUInt16 := by
  rw [be16, Scalar.bytes]
  congr 1

theorem exists_i32_bytes {n : Int} (hlow : -65535 ≤ n) (hhigh : n ≤ 65535) :
    ∃ delta : Int32, delta.toInt = n ∧ Scalar.i32.bytes n = Instruction.int32Bytes delta :=
  ⟨Int32.ofInt n, Int32.toInt_ofInt_of_le (by omega) (by omega), i32_bytes n⟩

theorem exists_i16_bytes {n : Int} (hlow : -32768 ≤ n) (hhigh : n ≤ 32767) :
    ∃ delta : Int16, delta.toInt = n ∧ Scalar.i16.bytes n = be16 delta.toUInt16 :=
  ⟨Int16.ofInt n, Int16.toInt_ofInt_of_le (by omega) (by omega), i16_bytes n⟩

namespace Layout

/-- What was a jump to `old` is a jump to `new`, the start of the group. -/
def Aims (l : Layout) (old new : Int) : Prop :=
  ∃ target group : Nat, old = target ∧ new = group ∧ l.group target = .ok group

/-- No group starts behind the longest body. -/
def IsBounded (l : Layout) : Prop := ∀ old group, l.group old = .ok group → group ≤ maxCodeLength

theorem Lays.isBounded {l : Layout} {oldLength : Nat} {items : List Item}
    (h : l.Lays oldLength items) : l.IsBounded := by
  intro old group hgroup
  obtain ⟨place, hplace, rfl⟩ := map_eq_ok.mp hgroup
  have hmax := h.length_le
  obtain ⟨_, hplace | rfl⟩ := h.find_iff.mp hplace
  · have hbounds := h.laid.of_mem hplace
    omega
  · exact hmax

variable {l : Layout} {i : Instruction} {start : Nat}

theorem distance_eq_ok (hbounded : l.IsBounded) (hstart : start ≤ maxCodeLength) {delta : Int32}
    {apart : Int} (h : l.distance i start delta = .ok apart) :
    l.Aims (i.offset + delta.toInt) (start + apart) ∧ -65535 ≤ apart ∧ apart ≤ 65535 := by
  unfold distance at h
  dsimp only at h
  split at h
  · cases h
  next hold =>
    obtain ⟨group, hgroup, h⟩ := bind_eq_ok.mp h
    cases pure_eq_ok.mp h
    have hle := hbounded _ _ hgroup
    simp only [maxCodeLength] at hle hstart
    exact ⟨⟨_, group, by omega, by omega, hgroup⟩, by omega, by omega⟩

theorem distanceBytes_eq_ok (hbounded : l.IsBounded) (hstart : start ≤ maxCodeLength)
    {delta : Int32} {bytes : Bytes} (h : l.distanceBytes i start delta = .ok bytes) :
    ∃ moved : Int32, bytes = Instruction.int32Bytes moved ∧
      l.Aims (i.offset + delta.toInt) (start + moved.toInt) := by
  obtain ⟨apart, happart, h⟩ := bind_eq_ok.mp h
  obtain ⟨haims, hlow, hhigh⟩ := distance_eq_ok hbounded hstart happart
  obtain ⟨moved, rfl, hbytes⟩ := exists_i32_bytes hlow hhigh
  exact ⟨moved, (pure_eq_ok.mp h).symm.trans hbytes, haims⟩

/-- The cases of a table, each written by its distance. -/
theorem mapM_distanceBytes (hbounded : l.IsBounded) (hstart : start ≤ maxCodeLength)
    {deltas : List Int32} {parts : List Bytes}
    (h : deltas.mapM (l.distanceBytes i start) = .ok parts) :
    ∃ moved : List Int32, parts.flatten = moved.flatMap Instruction.int32Bytes ∧
      List.Forall₂ (fun delta delta' : Int32 =>
        l.Aims (i.offset + delta.toInt) (start + delta'.toInt)) deltas moved := by
  obtain ⟨moved, rfl, hmoved⟩ := exists_map_of_forall₂ <| (mapM_eq_ok.mp h).imp fun _ _ hpart =>
    distanceBytes_eq_ok hbounded hstart hpart
  exact ⟨moved, List.flatMap_def.symm, hmoved⟩

/-- The cases of a lookup, each written by its key and its distance. -/
theorem mapM_pairBytes (hbounded : l.IsBounded) (hstart : start ≤ maxCodeLength)
    {pairs : List (Int32 × Int32)} {parts : List Bytes}
    (h : (pairs.mapM fun (key, delta) => do
      return be32 key.toUInt32 ++ (← l.distanceBytes i start delta)) = .ok parts) :
    ∃ moved : List (Int32 × Int32), parts.flatten = moved.flatMap Instruction.pairBytes ∧
      List.Forall₂ (fun pair pair' : Int32 × Int32 => pair'.1 = pair.1 ∧
        l.Aims (i.offset + pair.2.toInt) (start + pair'.2.toInt)) pairs moved := by
  obtain ⟨moved, rfl, hmoved⟩ := exists_map_of_forall₂ (f := Instruction.pairBytes)
    (r := fun pair pair' : Int32 × Int32 => pair'.1 = pair.1 ∧
      l.Aims (i.offset + pair.2.toInt) (start + pair'.2.toInt)) <|
    (mapM_eq_ok.mp h).imp fun pair part hpart => by
      obtain ⟨bytes, hbytes, hpart⟩ := bind_eq_ok.mp hpart
      obtain ⟨moved, rfl, haims⟩ := distanceBytes_eq_ok hbounded hstart hbytes
      exact ⟨(pair.1, moved), (pure_eq_ok.mp hpart).symm, rfl, haims⟩
  exact ⟨moved, List.flatMap_def.symm, hmoved⟩

end Layout

/-- The operand with its distances left out. -/
def Operand.still : Operand → Operand
  | .fixed bytes => .fixed bytes
  | .branch _ => .branch 0
  | .tableSwitch _ low high deltas => .tableSwitch 0 low high (deltas.map fun _ => 0)
  | .lookupSwitch _ pairs => .lookupSwitch 0 (pairs.map fun pair => (pair.1, 0))

@[simp] theorem Operand.still_branch (delta : Int32) : (Operand.branch delta).still = .branch 0 := rfl

namespace Instruction

/-- The same instruction, aimed at the groups of what it was aimed at. -/
structure MovedTo (l : Layout) (i moved : Instruction) : Prop where
  opcode : moved.opcode = i.opcode
  wide : moved.wide = i.wide
  operand : moved.operand.still = i.operand.still
  targets : List.Forall₂ l.Aims i.targets moved.targets

variable {l : Layout} {start : Nat}

/-- The number of pairs is the count that was read. -/
theorem int32Bytes_of_count {count : Int32} {n : Nat} (hcount : ¬ count < 0)
    (hn : n = count.toInt.toNat) : int32Bytes count = beBytes 4 n := by
  have hnat := Int32.toNat_toUInt32_of_le (Int32.not_lt.mp hcount)
  rw [int32Bytes, be32, hnat, hn, Int32.toNatClampNeg]

/-- What is written for an instruction at its new place is that instruction again. -/
theorem Stands.bytesAt {position : Nat} {i : Instruction} {bytes code : Bytes}
    (h : Stands position i bytes) (hbounded : l.IsBounded) (hstart : start ≤ maxCodeLength)
    (hcode : i.bytesAt l start = .ok code) :
    ∃ moved, Stands start moved code ∧ i.MovedTo l moved := by
  obtain ⟨opcode, tail, rfl, h⟩ := h
  generalize hshape : Opcode.shape opcode = shape at h
  cases h with
  | fixed =>
    cases hcode
    exact ⟨⟨start, opcode, false, .fixed tail⟩, ⟨opcode, tail, rfl, hshape ▸ .fixed tail⟩,
      rfl, rfl, rfl, .nil⟩
  | wide widened operands hwide =>
    cases hcode
    obtain rfl := (Opcode.shape_eq_wide_iff opcode).mp hshape
    exact ⟨⟨start, widened, true, .fixed operands⟩,
      ⟨Opcode.wide, _, rfl, hshape ▸ .wide widened operands hwide⟩, rfl, rfl, rfl, .nil⟩
  | branch delta =>
    obtain ⟨apart, happart, hcode⟩ := bind_eq_ok.mp hcode
    obtain ⟨haims, _, _⟩ := Layout.distance_eq_ok hbounded hstart happart
    have hnarrow := (not_congr (Opcode.shape_eq_branchW_iff opcode)).mp (by simp [hshape])
    rw [if_neg (by simpa using hnarrow)] at hcode
    split at hcode
    next hfits =>
      obtain ⟨moved, hmoved, hbytes⟩ := exists_i16_bytes hfits.1 hfits.2
      cases pure_eq_ok.mp hcode
      refine ⟨⟨start, opcode, false, .branch moved.toInt32⟩, ⟨opcode, _, rfl, ?_⟩, rfl, rfl,
        by simp, ?_⟩
      · rw [hshape, hbytes]
        exact .branch moved
      · refine .cons ?_ .nil
        dsimp only
        rwa [Int16.toInt_toInt32 moved, hmoved]
    · cases hcode
  | branchW delta =>
    obtain ⟨apart, happart, hcode⟩ := bind_eq_ok.mp hcode
    obtain ⟨haims, hlow, hhigh⟩ := Layout.distance_eq_ok hbounded hstart happart
    rw [if_pos (by simpa using (Opcode.shape_eq_branchW_iff opcode).mp hshape)] at hcode
    obtain ⟨moved, hmoved, hbytes⟩ := exists_i32_bytes hlow hhigh
    cases pure_eq_ok.mp hcode
    refine ⟨⟨start, opcode, false, .branch moved⟩, ⟨opcode, _, rfl, ?_⟩, rfl, rfl, rfl, ?_⟩
    · rw [hshape, hbytes]
      exact .branchW moved
    · refine .cons ?_ .nil
      dsimp only
      rwa [hmoved]
  | tableSwitch pad fallback low high deltas hpad hbounds hlength =>
    obtain ⟨first, hfirst, hcode⟩ := bind_eq_ok.mp hcode
    obtain ⟨parts, hparts, hcode⟩ := bind_eq_ok.mp hcode
    obtain ⟨fallback', rfl, hfallback⟩ := Layout.distanceBytes_eq_ok hbounded hstart hfirst
    obtain ⟨deltas', hflatten, hdeltas⟩ := Layout.mapM_distanceBytes hbounded hstart hparts
    cases pure_eq_ok.mp hcode
    refine ⟨⟨start, opcode, false, .tableSwitch fallback' low high deltas'⟩, ⟨opcode, _, rfl, ?_⟩,
      rfl, rfl, ?_, ?_⟩
    · rw [hshape, hflatten]
      exact .tableSwitch (List.replicate (padding start) 0) fallback' low high deltas'
        List.length_replicate hbounds (hdeltas.length_eq.symm.trans hlength)
    · simp [Operand.still, hdeltas.length_eq]
    · refine .cons hfallback ?_
      rw [List.forall₂_map_left_iff, List.forall₂_map_right_iff]
      exact hdeltas
  | lookupSwitch pad fallback count pairs hpad hcount hlength =>
    obtain ⟨first, hfirst, hcode⟩ := bind_eq_ok.mp hcode
    obtain ⟨parts, hparts, hcode⟩ := bind_eq_ok.mp hcode
    obtain ⟨fallback', rfl, hfallback⟩ := Layout.distanceBytes_eq_ok hbounded hstart hfirst
    obtain ⟨pairs', hflatten, hpairs⟩ := Layout.mapM_pairBytes hbounded hstart hparts
    have hkeys : pairs'.map (fun pair => (pair.1, (0 : Int32))) =
        pairs.map fun pair => (pair.1, (0 : Int32)) := by
      rw [← List.forall₂_eq_eq_eq, List.forall₂_map_left_iff, List.forall₂_map_right_iff]
      exact hpairs.flip.imp fun _ _ hpair => by rw [hpair.1]
    cases pure_eq_ok.mp hcode
    refine ⟨⟨start, opcode, false, .lookupSwitch fallback' pairs'⟩, ⟨opcode, _, rfl, ?_⟩,
      rfl, rfl, ?_, ?_⟩
    · rw [hshape, hflatten, ← int32Bytes_of_count hcount hlength]
      exact .lookupSwitch (List.replicate (padding start) 0) fallback' count pairs'
        List.length_replicate hcount (hpairs.length_eq.symm.trans hlength)
    · simp only [Operand.still, hkeys]
    · refine .cons hfallback ?_
      simp only [List.forall₂_map_left_iff, List.forall₂_map_right_iff]
      exact hpairs.imp fun _ _ hpair => hpair.2

/-- The size at a place does not depend on the distances. -/
theorem sizeAt_still (i : Instruction) (position : Nat) :
    { i with operand := i.operand.still }.sizeAt position = i.sizeAt position := by
  cases hoperand : i.operand <;> simp [sizeAt, Operand.still, hoperand]

theorem MovedTo.sizeAt {i moved : Instruction} (h : i.MovedTo l moved) (position : Nat) :
    moved.sizeAt position = i.sizeAt position := by
  rw [← sizeAt_still, ← sizeAt_still i, h.operand]
  simp only [Instruction.sizeAt, h.opcode, h.wide]

/-- A constant is named in operands without distances. -/
theorem MovedTo.constant? {i moved : Instruction} (h : i.MovedTo l moved) :
    moved.constant? = i.constant? := by
  have hoperand := h.operand
  unfold Instruction.constant?
  rw [h.opcode, h.wide]
  cases hi : i.operand <;> cases hm : moved.operand <;> simp_all [Operand.still]

/-- Control may go on behind the instruction. -/
def FallsThrough (i : Instruction) : Prop :=
  Opcode.flow i.opcode = .conditional ∨ i.IsStraight

instance (i : Instruction) : Decidable i.FallsThrough := inferInstanceAs (Decidable (_ ∨ _))

/-- Control goes from `start` through all the instructions to `stop`, and nowhere else. -/
inductive FallsTo (stop : Nat) : Nat → List Instruction → Prop
  | nil : FallsTo stop stop []
  | cons {start : Nat} {i : Instruction} {rest : List Instruction} :
    i.offset = start → i.IsStraight → i.targets = [] → FallsTo stop (start + i.length) rest →
    FallsTo stop start (i :: rest)

theorem Listing.fallsTo {start : Nat} {instrs : List Instruction} {code : Bytes}
    (h : Listing start instrs code) (hstraight : ∀ i ∈ instrs, i.IsStraight) :
    FallsTo (start + code.length) start instrs := by
  induction h with
  | nil => exact .nil
  | cons hstands _ ih =>
    rw [List.forall_mem_cons] at hstraight
    have hrest := ih hstraight.2
    rw [Nat.add_assoc, ← List.length_append] at hrest
    refine .cons hstands.offset_eq hstraight.1 (hstands.targets_eq_nil hstraight.1) ?_
    rwa [hstands.length_eq]

theorem FallsTo.of_mem {start stop : Nat} {instrs : List Instruction}
    (h : FallsTo stop start instrs) {i : Instruction} (hi : i ∈ instrs) :
    i.IsStraight ∧ i.targets = [] := by
  induction h with
  | nil => simp at hi
  | cons _ hstraight htargets _ ih =>
    rcases List.mem_cons.mp hi with rfl | hi
    · exact ⟨hstraight, htargets⟩
    · exact ih hi

/-- Control can go from the instruction to `target`: behind it, or by a jump. -/
def CanGo (i : Instruction) (target : Int) : Prop :=
  i.FallsThrough ∧ target = (i.offset + i.length : Nat) ∨ target ∈ i.targets

/-- Control can go from the instruction at `source` to `target`. -/
def Goes (code : List Instruction) (source : Nat) (target : Int) : Prop :=
  ∃ i ∈ code, i.offset = source ∧ i.CanGo target

theorem MovedTo.fallsThrough_iff {i moved : Instruction} (h : i.MovedTo l moved) :
    moved.FallsThrough ↔ i.FallsThrough := by
  simp only [FallsThrough, IsStraight, h.opcode]

end Instruction

/-- An item in relocated code: where its group starts, the instructions inserted there, and the
instruction of the item. -/
structure Group where
  start : Nat
  inserted : List Instruction
  moved : Instruction

namespace Group

def instructions (g : Group) : List Instruction := g.inserted ++ [g.moved]

/-- The offset is within what was inserted or within the instruction. -/
def Holds (g : Group) (offset : Nat) : Prop :=
  g.start ≤ offset ∧ offset < g.moved.offset + g.moved.length

end Group

namespace Item

/-- What is inserted reads as straight code. -/
def IsStraight (item : Item) : Prop :=
  ∃ inserted, Instruction.decode item.insertedBytes = .ok inserted ∧
    ∀ i ∈ inserted, i.IsStraight

/-- The group holds what was inserted, moved to its start, and the item's instruction behind it. -/
structure Becomes (l : Layout) (item : Item) (g : Group) : Prop where
  group : l.group item.instruction.offset = .ok g.start
  instruction : l.instruction item.instruction.offset = .ok g.moved.offset
  inserted : ∃ inserted, Instruction.decode item.insertedBytes = .ok inserted ∧
    g.inserted = inserted.map (·.shift g.start)
  falls : Instruction.FallsTo g.moved.offset g.start g.inserted
  moved : item.instruction.MovedTo l g.moved
  next : l.group (item.instruction.offset + item.instruction.length) =
    .ok (g.moved.offset + g.moved.length)

end Item

namespace Laid

variable {l : Layout} {oldStop newStop old new : Nat} {items : List Item} {places : List Place}

theorem group_head (h : Laid oldStop newStop old new items places)
    (hfind : ∀ place ∈ places, l.find place.old = .ok place)
    (hstop : l.group oldStop = .ok newStop) : l.group old = .ok new := by
  cases h with
  | nil => exact hstop
  | cons hoffset _ _ =>
    have hhead := hfind _ (List.mem_cons_self ..)
    exact map_eq_ok.mpr ⟨_, hhead, rfl⟩

/-- What is written for the items reads as their groups. -/
theorem exists_groups (h : Laid oldStop newStop old new items places)
    (hfind : ∀ place ∈ places, l.find place.old = .ok place)
    (hstop : l.group oldStop = .ok newStop) (hbounded : l.IsBounded)
    (hmax : newStop ≤ maxCodeLength) {code : Bytes}
    (hcode : Instruction.Listing old (items.map (·.instruction)) code)
    (hstraight : ∀ item ∈ items, item.IsStraight) {parts : List Bytes}
    (hparts : List.Forall₂ (fun (x : Item × Place) part => ∃ bytes,
      x.1.instruction.bytesAt l x.2.start = .ok bytes ∧ x.1.insertedBytes ++ bytes = part)
      (items.zip places) parts) :
    ∃ groups, List.Forall₂ (Item.Becomes l) items groups ∧
      Instruction.Listing new (groups.flatMap Group.instructions) parts.flatten := by
  induction h generalizing code parts with
  | nil =>
    cases hparts
    exact ⟨[], .nil, .nil _⟩
  | @cons old new item rest places hoffset hlength hrest ih =>
    obtain ⟨bytes, tail, rfl, hstands, htail⟩ := Instruction.listing_cons_iff.mp hcode
    rw [List.forall_mem_cons] at hstraight hfind
    cases hparts with
    | @cons _ part _ parts hpart hparts =>
      obtain ⟨written, hwritten, rfl⟩ := hpart
      obtain ⟨inserted, hdecode, hinserted⟩ := hstraight.1
      have hfits : new + item.insertedBytes.length ≤ maxCodeLength := by
        have hle := hrest.new_le
        omega
      obtain ⟨moved, hmoved, hmovedTo⟩ := hstands.bytesAt hbounded hfits hwritten
      have hsize : item.instruction.sizeAt (new + item.insertedBytes.length) = written.length := by
        rw [← hmovedTo.sizeAt, ← hmoved.length_eq, Instruction.length, hmoved.offset_eq]
      have hold : old + item.instruction.length = old + bytes.length := by
        rw [hstands.length_eq]
      rw [hold, hsize] at hrest ih
      obtain ⟨groups, hgroups, hlisting⟩ := ih hfind.2 htail hstraight.2 hparts
      have hnext := hrest.group_head hfind.2 hstop
      have hlisted := (Instruction.decode_eq_ok_iff.mp hdecode).shift hinserted new
      rw [Nat.zero_add] at hlisted
      refine ⟨⟨new, inserted.map (·.shift new), moved⟩ :: groups, .cons ?_ hgroups, ?_⟩
      · constructor
        · rw [hoffset]
          exact map_eq_ok.mpr ⟨_, hfind.1, rfl⟩
        · rw [hoffset]
          exact map_eq_ok.mpr ⟨_, hfind.1, hmoved.offset_eq.symm⟩
        · exact ⟨inserted, hdecode, rfl⟩
        · rw [hmoved.offset_eq]
          refine hlisted.fallsTo ?_
          rw [List.forall_mem_map]
          exact hinserted
        · exact hmovedTo
        · rw [hoffset, hold, hnext, hmoved.offset_eq, hmoved.length_eq]
      · have hgroup := hlisted.append (.cons hmoved (.nil _))
        rw [List.append_nil] at hgroup
        refine hgroup.append ?_
        rwa [List.length_append, ← Nat.add_assoc]

end Laid

theorem relocate_eq_ok {oldLength : Nat} {items : List Item} {r : Relocated}
    (h : relocate oldLength items = .ok r) :
    ∃ places newLength parts, placesFrom 0 items = .ok (places, newLength) ∧
      r = ⟨parts.flatten, places, newLength, Layout.indexOf oldLength places newLength⟩ ∧
      List.Forall₂ (fun (x : Item × Place) part => ∃ bytes,
        x.1.instruction.bytesAt r.layout x.2.start = .ok bytes ∧
          x.1.insertedBytes ++ bytes = part) (items.zip places) parts := by
  obtain ⟨layout, hlayout, h⟩ := bind_eq_ok.mp h
  obtain ⟨parts, hparts, h⟩ := bind_eq_ok.mp h
  obtain ⟨⟨places, newLength⟩, hplaces, hlayout⟩ := bind_eq_ok.mp hlayout
  cases pure_eq_ok.mp hlayout
  cases pure_eq_ok.mp h
  refine ⟨places, newLength, parts, hplaces, rfl, (mapM_eq_ok.mp hparts).imp fun x part hpart => ?_⟩
  obtain ⟨bytes, hbytes, hpart⟩ := bind_eq_ok.mp hpart
  exact ⟨bytes, hbytes, pure_eq_ok.mp hpart⟩

section Relocate

variable {code : Bytes} {items : List Item} {r : Relocated}
  (hcode : Instruction.decode code = .ok (items.map (·.instruction)))
  (hr : relocate code.length items = .ok r)

include hcode hr

theorem lays_of_relocate : r.layout.Lays code.length items := by
  obtain ⟨places, newLength, _, hplaces, rfl, _⟩ := relocate_eq_ok hr
  exact Layout.lays_of_listing (Instruction.decode_eq_ok_iff.mp hcode) hplaces

/-- Relocated code is the groups of the items, one behind the other. -/
theorem exists_groups_of_relocate (hstraight : ∀ item ∈ items, item.IsStraight) :
    ∃ groups, List.Forall₂ (Item.Becomes r.layout) items groups ∧
      Instruction.decode r.code = .ok (groups.flatMap Group.instructions) := by
  have hlays := lays_of_relocate hcode hr
  obtain ⟨places, newLength, parts, hplaces, rfl, hparts⟩ := relocate_eq_ok hr
  obtain ⟨groups, hgroups, hnew⟩ := hlays.laid.exists_groups
    (fun place hplace => hlays.find_iff.mpr ⟨rfl, .inl hplace⟩) hlays.group_stop hlays.isBounded
    hlays.length_le (Instruction.decode_eq_ok_iff.mp hcode) hstraight hparts
  exact ⟨groups, hgroups, Instruction.decode_eq_ok_iff.mpr hnew⟩

end Relocate

namespace Item.Becomes

variable {l : Layout} {item : Item} {g : Group}

/-- Where an instruction goes, it goes to the group from its new place. -/
theorem canGo (h : item.Becomes l g) {target : Int} (hgoes : item.instruction.CanGo target) :
    ∃ target', l.Aims target target' ∧ g.moved.CanGo target' := by
  rcases hgoes with ⟨hfalls, rfl⟩ | htarget
  · exact ⟨_, ⟨_, _, rfl, rfl, h.next⟩, .inl ⟨h.moved.fallsThrough_iff.mpr hfalls, rfl⟩⟩
  · obtain ⟨target', htarget', haims⟩ := exists_of_mem_left h.moved.targets htarget
    exact ⟨target', haims, .inr htarget'⟩

theorem canGo_of_moved (h : item.Becomes l g) {target' : Int} (hgoes : g.moved.CanGo target') :
    ∃ target, l.Aims target target' ∧ item.instruction.CanGo target := by
  rcases hgoes with ⟨hfalls, rfl⟩ | htarget'
  · exact ⟨_, ⟨_, _, rfl, rfl, h.next⟩, .inl ⟨h.moved.fallsThrough_iff.mp hfalls, rfl⟩⟩
  · obtain ⟨target, htarget, haims⟩ := exists_of_mem_right h.moved.targets htarget'
    exact ⟨target, haims, .inr htarget⟩

/-- Inserted code is only fallen through. -/
theorem canGo_inserted_iff (h : item.Becomes l g) {i : Instruction} (hi : i ∈ g.inserted)
    {target' : Int} : i.CanGo target' ↔ target' = (i.offset + i.length : Nat) := by
  obtain ⟨hstraight, htargets⟩ := h.falls.of_mem hi
  have hfalls : i.FallsThrough := .inr hstraight
  simp [Instruction.CanGo, hfalls, htargets]

/-- Nothing of the group is on the other side of a moved offset. -/
theorem le_iff (h : item.Becomes l g) {oldLength : Nat} {items : List Item}
    (hlays : l.Lays oldLength items) (hitem : item ∈ items) {a a' p : Nat}
    (ha : l.group a = .ok a') (hp : g.Holds p) : a' ≤ p ↔ a ≤ item.instruction.offset := by
  constructor
  · intro hle
    rcases hlays.le_or_stop_le ha hitem with hbefore | hbehind
    · exact hbefore
    · have hstop := hlays.group_le h.next ha hbehind
      have hheld := hp.2
      omega
  · intro hle
    exact Nat.le_trans (hlays.group_le ha h.group hle) hp.1

end Item.Becomes

theorem Layout.Aims.unique {l : Layout} {old new new' : Int} (h : l.Aims old new)
    (h' : l.Aims old new') : new = new' := by
  obtain ⟨target, group, rfl, rfl, hgroup⟩ := h
  obtain ⟨target', group', htarget, rfl, hgroup'⟩ := h'
  obtain rfl := Int.ofNat.inj htarget
  cases hgroup.symm.trans hgroup'
  rfl

section Transfers

variable {l : Layout} {items : List Item} {groups : List Group}

/-- No transfer of the old code is lost. -/
theorem exists_goes_groups (h : List.Forall₂ (Item.Becomes l) items groups) {source : Nat}
    {target : Int} (hgoes : Instruction.Goes (items.map (·.instruction)) source target) :
    ∃ source' target', l.instruction source = .ok source' ∧ l.Aims target target' ∧
      Instruction.Goes (groups.flatMap Group.instructions) source' target' := by
  obtain ⟨i, hi, rfl, hgo⟩ := hgoes
  obtain ⟨item, hitem, rfl⟩ := List.mem_map.mp hi
  obtain ⟨g, hg, hbecomes⟩ := exists_of_mem_left h hitem
  obtain ⟨target', haims, hgo'⟩ := hbecomes.canGo hgo
  refine ⟨_, target', hbecomes.instruction, haims, g.moved, ?_, rfl, hgo'⟩
  exact List.mem_flatMap.mpr ⟨g, hg, List.mem_append_right _ (List.mem_singleton_self _)⟩

/-- The transfers of the new code are those of the old code, each from where its instruction is now
to the start of the group it went to, and the steps through what was inserted. -/
theorem goes_groups_iff (h : List.Forall₂ (Item.Becomes l) items groups) {source' : Nat}
    {target' : Int} :
    Instruction.Goes (groups.flatMap Group.instructions) source' target' ↔
      (∃ source target, Instruction.Goes (items.map (·.instruction)) source target ∧
        l.instruction source = .ok source' ∧ l.Aims target target') ∨
      ∃ g ∈ groups, ∃ i ∈ g.inserted, source' = i.offset ∧
        target' = (i.offset + i.length : Nat) := by
  constructor
  · rintro ⟨i, hi, rfl, hgo⟩
    obtain ⟨g, hg, hi⟩ := List.mem_flatMap.mp hi
    obtain ⟨item, hitem, hbecomes⟩ := exists_of_mem_right h hg
    rcases List.mem_append.mp hi with hi | hi
    · exact .inr ⟨g, hg, i, hi, rfl, (hbecomes.canGo_inserted_iff hi).mp hgo⟩
    · obtain rfl := List.mem_singleton.mp hi
      obtain ⟨target, haims, hgo⟩ := hbecomes.canGo_of_moved hgo
      exact .inl ⟨_, target, ⟨_, List.mem_map_of_mem hitem, rfl, hgo⟩, hbecomes.instruction, haims⟩
  · rintro (⟨source, target, hgoes, hsource, haims⟩ | ⟨g, hg, i, hi, rfl, rfl⟩)
    · obtain ⟨source'', target'', hsource', haims', hgoes'⟩ := exists_goes_groups h hgoes
      cases hsource.symm.trans hsource'
      rwa [haims.unique haims']
    · obtain ⟨item, hitem, hbecomes⟩ := exists_of_mem_right h hg
      refine ⟨i, ?_, rfl, (hbecomes.canGo_inserted_iff hi).mpr rfl⟩
      exact List.mem_flatMap.mpr ⟨g, hg, List.mem_append_left _ hi⟩

end Transfers

/-- Relocated code is the groups of the old instructions, and control moves in it as in the old
code, but for the steps through what was inserted. -/
theorem relocate_regroups {code : Bytes} {items : List Item} {r : Relocated}
    (hcode : Instruction.decode code = .ok (items.map (·.instruction)))
    (hstraight : ∀ item ∈ items, item.IsStraight) (hr : relocate code.length items = .ok r) :
    ∃ groups, List.Forall₂ (Item.Becomes r.layout) items groups ∧
      Instruction.decode r.code = .ok (groups.flatMap Group.instructions) ∧
      (∀ source target, Instruction.Goes (items.map (·.instruction)) source target →
        ∃ source' target', r.layout.instruction source = .ok source' ∧
          r.layout.Aims target target' ∧
          Instruction.Goes (groups.flatMap Group.instructions) source' target') ∧
      ∀ source' target', Instruction.Goes (groups.flatMap Group.instructions) source' target' →
        (∃ source target, Instruction.Goes (items.map (·.instruction)) source target ∧
          r.layout.instruction source = .ok source' ∧ r.layout.Aims target target') ∨
        ∃ g ∈ groups, ∃ i ∈ g.inserted, source' = i.offset ∧
          target' = (i.offset + i.length : Nat) := by
  obtain ⟨groups, hgroups, hdecode⟩ := exists_groups_of_relocate hcode hr hstraight
  refine ⟨groups, hgroups, hdecode, ?_, ?_⟩
  · intro source target hgoes
    exact exists_goes_groups hgroups hgoes
  · intro source' target' hgoes
    exact (goes_groups_iff hgroups).mp hgoes

/-- A jump back to the start, with a constant pushed and dropped in front of it. -/
def loopItems : List Item := [
  ⟨⟨0, Opcode.iconst0, false, .fixed []⟩, none⟩,
  ⟨⟨1, 0xA7, false, .branch (-1)⟩, some [Opcode.iconst0, 0x57]⟩]

theorem relocate_regroups_loop :
    ∃ groups r, relocate 4 loopItems = .ok r ∧
      Instruction.decode [Opcode.iconst0, 0xA7, 0xFF, 0xFF] =
        .ok (loopItems.map (·.instruction)) ∧
      (∀ item ∈ loopItems, item.IsStraight) ∧ r.code = [3, 3, 0x57, 0xA7, 0xFF, 0xFD] ∧
      List.Forall₂ (Item.Becomes r.layout) loopItems groups ∧
      Instruction.decode r.code = .ok (groups.flatMap Group.instructions) := by
  have hcode : Instruction.decode [Opcode.iconst0, 0xA7, 0xFF, 0xFF] =
      .ok (loopItems.map (·.instruction)) := by rfl
  have hstraight : ∀ item ∈ loopItems, item.IsStraight := by
    simp only [loopItems, List.forall_mem_cons]
    exact ⟨⟨[], rfl, by simp⟩, ⟨[⟨0, Opcode.iconst0, false, .fixed []⟩, ⟨1, 0x57, false, .fixed []⟩],
      rfl, by decide⟩, by simp⟩
  have hr : relocate 4 loopItems = .ok ⟨[3, 3, 0x57, 0xA7, 0xFF, 0xFD], [⟨0, 0, 0⟩, ⟨1, 1, 3⟩], 6,
      #[some ⟨0, 0, 0⟩, some ⟨1, 1, 3⟩, none, none, some ⟨4, 6, 6⟩]⟩ := by rfl
  obtain ⟨groups, hgroups, hdecode, _⟩ := relocate_regroups hcode hstraight hr
  exact ⟨groups, _, hr, hcode, hstraight, rfl, hgroups, hdecode⟩

end ThreadWatch
