import Mathlib.Data.List.TakeWhile
import ThreadWatch.Proofs.Code.Relocation

/-!
# What can be relocated

Where everything stands is known before anything is written, so it can be said of the items alone
whether they can be relocated: they must not become too long, every jump must go to an instruction
or to the end, and a jump of 16 bits must still be near enough. The first of these that fails
decides the error.
-/

namespace ThreadWatch

/-- Where the items end that are laid out from `position` on, however long they are. -/
def stopFrom : Nat → List Item → Nat
  | position, [] => position
  | position, item :: rest =>
    let start := position + item.insertedBytes.length
    stopFrom (start + item.instruction.sizeAt start) rest

/-- Where the group of the old offset starts: behind all that stood in front of it. -/
def groupIn (items : List Item) (old : Nat) : Nat :=
  stopFrom 0 (items.takeWhile fun item => item.instruction.offset < old)

/-- An instruction stands at the old offset, or the code ended there. -/
def IsBoundary (oldLength : Nat) (items : List Item) (old : Int) : Prop :=
  old = oldLength ∨ ∃ item ∈ items, old = item.instruction.offset

instance (oldLength : Nat) (items : List Item) (old : Int) :
    Decidable (IsBoundary oldLength items old) :=
  inferInstanceAs (Decidable (_ ∨ _))

namespace Instruction

/-- No jump goes into an instruction or out of the code. -/
def Lands (oldLength : Nat) (items : List Item) (i : Instruction) : Prop :=
  ∀ target ∈ i.targets, IsBoundary oldLength items target

/-- The distance fits in the 16 bits that a short jump has for it. -/
def IsNear (distance : Int) : Prop := -32768 ≤ distance ∧ distance ≤ 32767

instance (distance : Int) : Decidable (IsNear distance) := inferInstanceAs (Decidable (_ ∧ _))

/-- A short jump from `start` still gets to where its target is now. -/
def Reaches (items : List Item) (start : Nat) (i : Instruction) : Prop :=
  Opcode.shape i.opcode = .branch →
    ∀ target ∈ i.targets, IsNear (groupIn items target.toNat - start)

instance (oldLength : Nat) (items : List Item) (i : Instruction) :
    Decidable (i.Lands oldLength items) :=
  inferInstanceAs (Decidable (∀ _ ∈ _, _))

instance (items : List Item) (start : Nat) (i : Instruction) : Decidable (i.Reaches items start) :=
  inferInstanceAs (Decidable (_ → _))

end Instruction

namespace Item

/-- Where the instruction of the item stands now. -/
def startIn (items : List Item) (item : Item) : Nat :=
  groupIn items item.instruction.offset + item.insertedBytes.length

def Lands (oldLength : Nat) (items : List Item) (item : Item) : Prop :=
  item.instruction.Lands oldLength items

def Reaches (items : List Item) (item : Item) : Prop :=
  item.instruction.Reaches items (item.startIn items)

instance (oldLength : Nat) (items : List Item) (item : Item) :
    Decidable (item.Lands oldLength items) :=
  inferInstanceAs (Decidable (Instruction.Lands ..))

instance (items : List Item) (item : Item) : Decidable (item.Reaches items) :=
  inferInstanceAs (Decidable (Instruction.Reaches ..))

end Item

/-! ### Where everything stands -/

theorem le_stopFrom (position : Nat) (items : List Item) : position ≤ stopFrom position items := by
  induction items generalizing position with
  | nil => exact Nat.le_refl _
  | cons item rest ih =>
    rw [stopFrom]
    have hrest := ih (position + item.insertedBytes.length +
      item.instruction.sizeAt (position + item.insertedBytes.length))
    omega

/-- Items that end within the longest body are laid out. -/
theorem placesFrom_of_le {position : Nat} {items : List Item}
    (h : stopFrom position items ≤ maxCodeLength) :
    ∃ places, placesFrom position items = .ok (places, stopFrom position items) := by
  induction items generalizing position with
  | nil => exact ⟨[], rfl⟩
  | cons item rest ih =>
    rw [stopFrom] at h
    obtain ⟨places, hplaces⟩ := ih h
    have hnext := Nat.le_trans (le_stopFrom _ rest) h
    rw [placesFrom, if_neg (Nat.not_lt.mpr hnext), hplaces]
    exact ⟨_, rfl⟩

/-- Of items that do not, the first that ends behind the longest body is too much. -/
theorem placesFrom_of_lt {position : Nat} {items : List Item} (hposition : position ≤ maxCodeLength)
    (h : maxCodeLength < stopFrom position items) :
    ∃ length, maxCodeLength < length ∧
      placesFrom position items = .error (.codeTooLarge length) := by
  induction items generalizing position with
  | nil => exact absurd h (Nat.not_lt.mpr hposition)
  | cons item rest ih =>
    rw [stopFrom] at h
    rw [placesFrom]
    by_cases hnext : position + item.insertedBytes.length +
        item.instruction.sizeAt (position + item.insertedBytes.length) > maxCodeLength
    · rw [if_pos hnext]
      exact ⟨_, hnext, rfl⟩
    · obtain ⟨length, hlength, hplaces⟩ := ih (Nat.not_lt.mp hnext) h
      rw [if_neg hnext, hplaces]
      exact ⟨length, hlength, rfl⟩

namespace Laid

variable {oldStop newStop old new : Nat} {items : List Item} {places : List Place}

theorem newStop_eq (h : Laid oldStop newStop old new items places) :
    newStop = stopFrom new items := by
  induction h with
  | nil => rfl
  | cons _ _ _ ih => exact ih

/-- In front of a later offset stand the first item and what is in front of it among the rest. -/
theorem takeWhile_cons {item : Item} {rest : List Item} {offset : Nat}
    (hoffset : item.instruction.offset < offset) :
    (item :: rest).takeWhile (fun item => item.instruction.offset < offset) =
      item :: rest.takeWhile fun item => item.instruction.offset < offset :=
  List.takeWhile_cons_of_pos (by simpa using hoffset)

/-- The places are those that the items in front of each item leave to it. -/
theorem places_eq (h : Laid oldStop newStop old new items places) :
    places = items.map fun item =>
      let group := stopFrom new
        (items.takeWhile fun other => other.instruction.offset < item.instruction.offset)
      ⟨item.instruction.offset, group, group + item.insertedBytes.length⟩ := by
  induction h with
  | nil => rfl
  | cons hoffset hlength hrest ih =>
    rw [List.map_cons, List.takeWhile_cons_of_neg (by simp)]
    refine congrArg₂ List.cons ?_ (ih.trans (List.map_congr_left fun other hother => ?_))
    · simp only [stopFrom, hoffset]
    · have hbehind := hrest.le_offset hother
      rw [takeWhile_cons (by omega), stopFrom]

/-- Everything stands in front of the end. -/
theorem takeWhile_oldStop (h : Laid oldStop newStop old new items places) :
    items.takeWhile (fun item => item.instruction.offset < oldStop) = items := by
  rw [List.takeWhile_eq_self_iff]
  intro item hitem
  have hstop := h.stop_le hitem
  have hpos : 0 < item.instruction.length := item.instruction.sizeAt_pos _
  simp only [decide_eq_true_eq]
  omega

/-- Only the padding of a switch depends on its place. -/
theorem length_le_sizeAt (i : Instruction) (position : Nat) :
    i.length ≤ 4 * i.sizeAt position := by
  have hpadding : Instruction.padding i.offset < 4 := Nat.mod_lt _ (by decide)
  unfold Instruction.length Instruction.sizeAt
  cases i.operand <;> dsimp only <;> omega

theorem oldStop_le (h : Laid oldStop newStop old new items places) :
    oldStop + 4 * new ≤ old + 4 * newStop := by
  induction h with
  | nil => exact Nat.le_refl _
  | @cons old new item _ _ _ _ _ ih =>
    have hlength := length_le_sizeAt item.instruction (new + item.insertedBytes.length)
    omega

end Laid

namespace Layout.Lays

variable {l : Layout} {oldLength : Nat} {items : List Item}

theorem length_eq (h : l.Lays oldLength items) : l.length = stopFrom 0 items := h.laid.newStop_eq

theorem places_eq (h : l.Lays oldLength items) :
    l.places = items.map fun item =>
      ⟨item.instruction.offset, groupIn items item.instruction.offset, item.startIn items⟩ :=
  h.laid.places_eq

theorem groupIn_oldLength (h : l.Lays oldLength items) : groupIn items oldLength = l.length := by
  rw [groupIn, h.laid.takeWhile_oldStop, h.length_eq]

theorem find_offset (h : l.Lays oldLength items) {item : Item} (hitem : item ∈ items) :
    l.find item.instruction.offset =
      .ok ⟨item.instruction.offset, groupIn items item.instruction.offset, item.startIn items⟩ := by
  refine h.find_iff.mpr ⟨rfl, .inl ?_⟩
  rw [h.places_eq]
  exact List.mem_map_of_mem hitem

theorem instruction_offset (h : l.Lays oldLength items) {item : Item} (hitem : item ∈ items) :
    l.instruction item.instruction.offset = .ok (item.startIn items) :=
  map_eq_ok.mpr ⟨_, h.find_offset hitem, rfl⟩

theorem group_of_isBoundary (h : l.Lays oldLength items) {old : Nat}
    (hold : IsBoundary oldLength items old) : l.group old = .ok (groupIn items old) := by
  rcases hold with hstop | ⟨item, hitem, hoffset⟩
  · obtain rfl := Int.ofNat.inj hstop
    rw [h.group_stop, h.groupIn_oldLength]
  · obtain rfl := Int.ofNat.inj hoffset
    exact map_eq_ok.mpr ⟨_, h.find_offset hitem, rfl⟩

theorem isBoundary_of_find (h : l.Lays oldLength items) {old : Nat} {place : Place}
    (hplace : l.find old = .ok place) : IsBoundary oldLength items old := by
  obtain ⟨rfl, hplace | rfl⟩ := h.find_iff.mp hplace
  · rw [h.places_eq] at hplace
    obtain ⟨item, hitem, rfl⟩ := List.mem_map.mp hplace
    exact .inr ⟨item, hitem, rfl⟩
  · exact .inl rfl

theorem find_of_not_isBoundary (h : l.Lays oldLength items) {old : Nat}
    (hold : ¬ IsBoundary oldLength items old) : l.find old = damaged (.boundary old) := by
  cases hfind : l.find old with
  | ok place => exact absurd (h.isBoundary_of_find hfind) hold
  | error e =>
    unfold find at hfind
    split at hfind
    · cases hfind
    · exact hfind.symm

end Layout.Lays

/-! ### What fails, and how -/

/-- The step succeeds if `p` holds, and finds the code malformed if not. -/
def Demands {α : Type} (p : Prop) (x : Except Fault α) : Prop :=
  (p → ∃ a, x = .ok a) ∧ (¬ p → ∃ damage, x = .error (.malformed damage))

namespace Demands

variable {α β : Type} {p q : Prop} {x : Except Fault α}

theorem ok (a : α) : Demands True (.ok a : Except Fault α) :=
  ⟨fun _ => ⟨a, rfl⟩, fun h => (h trivial).elim⟩

theorem congr (hx : Demands p x) (h : p ↔ q) : Demands q x := by rwa [← propext h]

theorem bind {f : α → Except Fault β} (hx : Demands p x) (hf : ∀ a, Demands q (f a)) :
    Demands (p ∧ q) (x >>= f) := by
  by_cases hp : p
  · obtain ⟨a, rfl⟩ := hx.1 hp
    exact (hf a).congr (by simp [hp])
  · obtain ⟨damage, rfl⟩ := hx.2 hp
    exact ⟨fun h => (hp h.1).elim, fun _ => ⟨damage, rfl⟩⟩

/-- A last step that cannot fail demands nothing. -/
theorem bind_ok {f : α → Except Fault β} (hx : Demands p x) (hf : ∀ a, ∃ b, f a = .ok b) :
    Demands p (x >>= f) :=
  (hx.bind fun a => (hf a).elim fun b hb => hb ▸ ok b).congr (Iff.of_eq (and_true p))

theorem mapM {f : α → Except Fault β} {demand : α → Prop} {xs : List α}
    (h : ∀ x, Demands (demand x) (f x)) : Demands (∀ x ∈ xs, demand x) (xs.mapM f) := by
  induction xs with
  | nil => exact (ok []).congr (by simp)
  | cons x xs ih =>
    rw [List.mapM_cons, List.forall_mem_cons]
    exact (h x).bind fun _ => ih.bind_ok fun _ => ⟨_, rfl⟩

end Demands

namespace Instruction

/-- What is short is a jump with one distance, a jump that is not is long. -/
theorem Stands.short_or_long {position : Nat} {i : Instruction} {bytes : Bytes}
    (h : Stands position i bytes) :
    (∃ delta, i.operand = .branch delta ∧ Opcode.shape i.opcode = .branch) ∨
      (Opcode.shape i.opcode = .branch → i.targets = []) ∧
        ∀ delta, i.operand = .branch delta → Opcode.shape i.opcode = .branchW := by
  obtain ⟨opcode, tail, rfl, h⟩ := h
  generalize hshape : Opcode.shape opcode = shape at h
  cases h with
  | branch delta => exact .inl ⟨_, rfl, hshape⟩
  | branchW delta => exact .inr ⟨by simp [hshape], fun _ _ => hshape⟩
  | fixed | wide => exact .inr ⟨fun _ => rfl, by simp⟩
  | tableSwitch | lookupSwitch => exact .inr ⟨by simp [hshape], by simp⟩

end Instruction

namespace Layout.Lays

variable {l : Layout} {oldLength : Nat} {items : List Item}

theorem distance_of_isBoundary (h : l.Lays oldLength items) {i : Instruction} {delta : Int32}
    (htarget : IsBoundary oldLength items (i.offset + delta.toInt)) (start : Nat) :
    l.distance i start delta =
      .ok (groupIn items (i.offset + delta.toInt).toNat - start) := by
  have hnat : ¬ (i.offset + delta.toInt : Int) < 0 := by
    rcases htarget with heq | ⟨item, _, heq⟩ <;> omega
  have hcast : ((i.offset + delta.toInt : Int).toNat : Int) = i.offset + delta.toInt := by omega
  unfold Layout.distance
  dsimp only
  rw [if_neg hnat, h.group_of_isBoundary (hcast ▸ htarget)]
  rfl

theorem demands_distance (h : l.Lays oldLength items) (i : Instruction) (start : Nat)
    (delta : Int32) :
    Demands (IsBoundary oldLength items (i.offset + delta.toInt)) (l.distance i start delta) := by
  refine ⟨fun htarget => ⟨_, h.distance_of_isBoundary htarget start⟩, fun htarget => ?_⟩
  unfold Layout.distance
  dsimp only
  by_cases hnegative : (i.offset + delta.toInt : Int) < 0
  · rw [if_pos hnegative]
    exact ⟨_, rfl⟩
  · have hcast : ((i.offset + delta.toInt : Int).toNat : Int) = i.offset + delta.toInt := by omega
    rw [if_neg hnegative, Layout.group, h.find_of_not_isBoundary (hcast ▸ htarget)]
    exact ⟨_, rfl⟩

theorem demands_distanceBytes (h : l.Lays oldLength items) (i : Instruction) (start : Nat)
    (delta : Int32) :
    Demands (IsBoundary oldLength items (i.offset + delta.toInt))
      (l.distanceBytes i start delta) :=
  (h.demands_distance i start delta).bind_ok fun _ => ⟨_, rfl⟩

/-- Whatever is not short demands only that it lands. -/
theorem demands_bytesAt (h : l.Lays oldLength items) {i : Instruction} (start : Nat)
    (hlong : ∀ delta, i.operand = .branch delta → Opcode.shape i.opcode = .branchW) :
    Demands (i.Lands oldLength items) (i.bytesAt l start) := by
  unfold Instruction.Lands Instruction.bytesAt Instruction.targets Instruction.deltas
  cases hoperand : i.operand with
  | fixed bytes => exact (Demands.ok _).congr (by simp)
  | branch delta =>
    have hopcode := (Opcode.shape_eq_branchW_iff _).mp (hlong delta hoperand)
    refine ((h.demands_distance i start delta).bind_ok fun distance =>
      ⟨i.opcode :: Scalar.i32.bytes distance, ?_⟩).congr ?_
    · exact if_pos (by simpa using hopcode)
    · simp
  | tableSwitch fallback low high deltas =>
    refine ((h.demands_distanceBytes i start fallback).bind fun _ =>
      (Demands.mapM (h.demands_distanceBytes i start)).bind_ok fun _ => ⟨_, rfl⟩).congr ?_
    simp
  | lookupSwitch fallback pairs =>
    refine ((h.demands_distanceBytes i start fallback).bind fun _ =>
      (Demands.mapM fun pair : Int32 × Int32 =>
        (h.demands_distanceBytes i start pair.2).bind_ok fun _ => ⟨_, rfl⟩).bind_ok
          fun _ => ⟨_, rfl⟩).congr ?_
    simp only [List.map_cons, List.map_map, List.forall_mem_cons, List.forall_mem_map,
      Function.comp_apply]

end Layout.Lays

namespace Instruction

variable {l : Layout} {oldLength start : Nat} {items : List Item} {i : Instruction}

/-- A short jump is written if its distance fits. -/
theorem bytesAt_of_short {delta : Int32} (hoperand : i.operand = .branch delta)
    (hshape : Opcode.shape i.opcode = .branch) :
    i.bytesAt l start = l.distance i start delta >>= fun distance =>
      if IsNear distance then .ok (i.opcode :: Scalar.i16.bytes distance)
      else .error (.branchOutOfRange start distance) := by
  have hopcode := (not_congr (Opcode.shape_eq_branchW_iff i.opcode)).mp (by simp [hshape])
  unfold bytesAt
  rw [hoperand]
  refine congrArg (l.distance i start delta >>= ·) (funext fun distance => ?_)
  rw [if_neg (by simpa using hopcode)]
  rfl

variable {position : Nat} {bytes : Bytes} (h : l.Lays oldLength items)
  (hstands : Stands position i bytes)

include h hstands

theorem exists_bytesAt (hlands : i.Lands oldLength items) (hreaches : i.Reaches items start) :
    ∃ code, i.bytesAt l start = .ok code := by
  rcases hstands.short_or_long with ⟨delta, hoperand, hshape⟩ | ⟨_, hlong⟩
  · have htarget : (i.offset + delta.toInt : Int) ∈ i.targets := by simp [targets, deltas, hoperand]
    rw [bytesAt_of_short hoperand hshape, h.distance_of_isBoundary (hlands _ htarget)]
    exact ⟨_, if_pos (hreaches hshape _ htarget)⟩
  · exact (h.demands_bytesAt start hlong).1 hlands

theorem bytesAt_of_not_lands (hlands : ¬ i.Lands oldLength items) :
    ∃ damage, i.bytesAt l start = .error (.malformed damage) := by
  rcases hstands.short_or_long with ⟨delta, hoperand, hshape⟩ | ⟨_, hlong⟩
  · have htarget : ¬ IsBoundary oldLength items (i.offset + delta.toInt) := by
      simpa [Lands, targets, deltas, hoperand] using hlands
    obtain ⟨damage, hdistance⟩ := (h.demands_distance i start delta).2 htarget
    rw [bytesAt_of_short hoperand hshape, hdistance]
    exact ⟨damage, rfl⟩
  · exact (h.demands_bytesAt start hlong).2 hlands

theorem bytesAt_of_not_reaches (hlands : i.Lands oldLength items)
    (hreaches : ¬ i.Reaches items start) :
    ∃ distance, i.bytesAt l start = .error (.branchOutOfRange start distance) ∧
      ¬ IsNear distance := by
  rcases hstands.short_or_long with ⟨delta, hoperand, hshape⟩ | ⟨hnone, _⟩
  · have htarget : (i.offset + delta.toInt : Int) ∈ i.targets := by simp [targets, deltas, hoperand]
    have hfar : ¬ IsNear (groupIn items (i.offset + delta.toInt).toNat - start) := by
      simpa [Reaches, targets, deltas, hoperand, hshape] using hreaches
    rw [bytesAt_of_short hoperand hshape, h.distance_of_isBoundary (hlands _ htarget)]
    exact ⟨_, if_neg hfar, hfar⟩
  · refine absurd (fun hshape target htarget => ?_) hreaches
    rw [hnone hshape] at htarget
    cases htarget

end Instruction

/-! ### What is relocated -/

/-- What is inserted, and behind it the instruction of the item, read again from where it stands
and aimed at the groups of its targets. -/
def Item.Written (l : Layout) (items : List Item) (item : Item) (part : Bytes) : Prop :=
  ∃ bytes moved, part = item.insertedBytes ++ bytes ∧
    Instruction.Stands (item.startIn items) moved bytes ∧ item.instruction.MovedTo l moved

/-- Every length and offset fits in 32 bits, and every distance and count in the new code is read
as what was written there. -/
structure Relocated.IsLossless (r : Relocated) (oldLength : Nat) (items : List Item) : Prop where
  oldLength_lt : oldLength < 4294967296
  length_eq : r.layout.length = stopFrom 0 items
  length_le : r.layout.length ≤ maxCodeLength
  group : ∀ old : Nat, IsBoundary oldLength items old →
    r.layout.group old = .ok (groupIn items old) ∧ groupIn items old ≤ maxCodeLength
  instruction : ∀ item ∈ items, item.instruction.offset < 4294967296 ∧
    r.layout.instruction item.instruction.offset = .ok (item.startIn items) ∧
    item.startIn items ≤ maxCodeLength
  written : ∃ parts, r.code = parts.flatten ∧
    List.Forall₂ (Item.Written r.layout items) items parts

namespace Layout.Lays

variable {l : Layout} {oldLength : Nat} {items : List Item}

theorem startIn_le (h : l.Lays oldLength items) {item : Item} (hitem : item ∈ items) :
    item.startIn items ≤ maxCodeLength := by
  have hplace := (h.find_iff.mp (h.find_offset hitem)).2
  have hmax := h.length_le
  rcases hplace with hplace | heq
  · have hstart := (h.laid.of_mem hplace).2.2.2
    dsimp only at hstart
    omega
  · have hstart := congrArg Place.start heq
    dsimp only [Layout.stop] at hstart
    omega

theorem oldLength_lt (h : l.Lays oldLength items) : oldLength < 4294967296 := by
  have hold := h.laid.oldStop_le
  have hmax := h.length_le
  simp only [maxCodeLength] at hmax
  omega

end Layout.Lays

/-- What is written for the item where it stands among the items. -/
def Item.bytesIn (l : Layout) (items : List Item) (item : Item) : Except Fault Bytes :=
  return item.insertedBytes ++ (← item.instruction.bytesAt l (item.startIn items))

theorem Layout.Lays.mapM_zip_places {l : Layout} {oldLength : Nat} {items : List Item}
    (h : l.Lays oldLength items) :
    ((items.zip l.places).mapM fun (item, place) => do
      return item.insertedBytes ++ (← item.instruction.bytesAt l place.start)) =
        items.mapM (Item.bytesIn l items) := by
  rw [h.places_eq, ← List.map_prod_left_eq_zip, List.mapM_map]
  rfl

/-- Items that are too long are not even aimed. -/
theorem relocate_of_lt {items : List Item} (h : maxCodeLength < stopFrom 0 items)
    (oldLength : Nat) :
    ∃ length, maxCodeLength < length ∧
      relocate oldLength items = .error (.codeTooLarge length) := by
  obtain ⟨length, hlength, hplaces⟩ := placesFrom_of_lt (Nat.zero_le _) h
  refine ⟨length, hlength, ?_⟩
  rw [relocate, Layout.ofItems, hplaces]
  rfl

theorem exists_bytesIn {l : Layout} {oldLength position : Nat} {items : List Item} {item : Item}
    {bytes : Bytes} (h : l.Lays oldLength items)
    (hstands : Instruction.Stands position item.instruction bytes)
    (hitem : item.Lands oldLength items ∧ item.Reaches items) :
    ∃ part, item.bytesIn l items = .ok part := by
  obtain ⟨code, hcode⟩ := Instruction.exists_bytesAt h hstands hitem.1 hitem.2
  exact ⟨_, bind_eq_ok.mpr ⟨code, hcode, rfl⟩⟩

section Accepting

variable {code : Bytes} {items : List Item}
  (hcode : Instruction.decode code = .ok (items.map (·.instruction)))

include hcode

/-- Items that are not too long are written one after the other, each at its place. -/
theorem exists_relocate_eq (hfits : stopFrom 0 items ≤ maxCodeLength) :
    ∃ l : Layout, l.Lays code.length items ∧
      relocate code.length items =
        items.mapM (Item.bytesIn l items) >>= fun parts => .ok ⟨parts.flatten, l⟩ := by
  obtain ⟨places, hplaces⟩ := placesFrom_of_le hfits
  have hlays := Layout.lays_of_listing (Instruction.decode_eq_ok_iff.mp hcode) hplaces
  refine ⟨_, hlays, ?_⟩
  rw [← hlays.mapM_zip_places, relocate, Layout.ofItems, hplaces]
  rfl

theorem stands_of_mem {item : Item} (hitem : item ∈ items) :
    ∃ bytes, Instruction.Stands item.instruction.offset item.instruction bytes :=
  (Instruction.decode_eq_ok_iff.mp hcode).exists_stands (List.mem_map_of_mem hitem)

theorem isLossless_of_relocate {r : Relocated} (hr : relocate code.length items = .ok r) :
    r.IsLossless code.length items := by
  have hlays := lays_of_relocate hcode hr
  have hfits : stopFrom 0 items ≤ maxCodeLength := hlays.length_eq ▸ hlays.length_le
  refine ⟨hlays.oldLength_lt, hlays.length_eq, hlays.length_le, fun old hold => ?_,
    fun item hitem => ⟨?_, hlays.instruction_offset hitem, hlays.startIn_le hitem⟩, ?_⟩
  · have hgroup := hlays.group_of_isBoundary hold
    exact ⟨hgroup, hlays.isBounded _ _ hgroup⟩
  · have hstop := hlays.laid.stop_le hitem
    have hlength := hlays.oldLength_lt
    omega
  · obtain ⟨l, _, heq⟩ := exists_relocate_eq hcode hfits
    obtain ⟨parts, hparts, hmake⟩ := bind_eq_ok.mp (heq.symm.trans hr)
    cases hmake
    refine ⟨parts, rfl, ?_⟩
    have hwritten := (List.forall₂_and_left items parts).mpr
      ⟨fun item hitem => hitem, mapM_eq_ok.mp hparts⟩
    refine hwritten.imp fun item part ⟨hitem, hpart⟩ => ?_
    obtain ⟨bytes, hbytes, hpart⟩ := bind_eq_ok.mp hpart
    obtain ⟨_, hstands⟩ := stands_of_mem hcode hitem
    obtain ⟨moved, hmoved, hmovedTo⟩ :=
      hstands.bytesAt hlays.isBounded (hlays.startIn_le hitem) hbytes
    exact ⟨bytes, moved, (pure_eq_ok.mp hpart).symm, hmoved, hmovedTo⟩

theorem relocate_eq_ok_iff : (∃ r, relocate code.length items = .ok r) ↔
    stopFrom 0 items ≤ maxCodeLength ∧
      ∀ item ∈ items, item.Lands code.length items ∧ item.Reaches items := by
  constructor
  · rintro ⟨r, hr⟩
    have hlays := lays_of_relocate hcode hr
    have hfits : stopFrom 0 items ≤ maxCodeLength := hlays.length_eq ▸ hlays.length_le
    obtain ⟨l, hl, heq⟩ := exists_relocate_eq hcode hfits
    obtain ⟨parts, hparts, _⟩ := bind_eq_ok.mp (heq.symm.trans hr)
    refine ⟨hfits, fun item hitem => ?_⟩
    obtain ⟨_, hstands⟩ := stands_of_mem hcode hitem
    obtain ⟨part, _, hpart⟩ := exists_of_mem_left (mapM_eq_ok.mp hparts) hitem
    obtain ⟨bytes, hbytes, _⟩ := bind_eq_ok.mp hpart
    have hlands : item.Lands code.length items := by
      by_contra hlands
      obtain ⟨_, herror⟩ := Instruction.bytesAt_of_not_lands hl hstands hlands
      cases hbytes.symm.trans herror
    refine ⟨hlands, ?_⟩
    by_contra hreaches
    obtain ⟨_, herror, _⟩ := Instruction.bytesAt_of_not_reaches hl hstands hlands hreaches
    cases hbytes.symm.trans herror
  · rintro ⟨hfits, hall⟩
    obtain ⟨l, hl, heq⟩ := exists_relocate_eq hcode hfits
    have hparts : ∀ item ∈ items, ∃ part, item.bytesIn l items = .ok part := by
      intro item hitem
      obtain ⟨_, hstands⟩ := stands_of_mem hcode hitem
      exact exists_bytesIn hl hstands (hall item hitem)
    obtain ⟨parts, hparts⟩ := exists_forall₂ hparts
    rw [heq]
    exact ⟨_, bind_eq_ok.mpr ⟨parts, mapM_eq_ok.mpr hparts, rfl⟩⟩

/-- The first item that cannot be written decides the error. -/
theorem exists_relocate_eq_error (hfits : stopFrom 0 items ≤ maxCodeLength)
    {before after : List Item} {item : Item} (hitems : items = before ++ item :: after)
    (hbefore : ∀ b ∈ before, b.Lands code.length items ∧ b.Reaches items) :
    ∃ l : Layout, l.Lays code.length items ∧
      ∀ e, item.instruction.bytesAt l (item.startIn items) = .error e →
        relocate code.length items = .error e := by
  obtain ⟨l, hl, heq⟩ := exists_relocate_eq hcode hfits
  refine ⟨l, hl, fun e he => ?_⟩
  have hwritten : ∀ b ∈ before, ∃ part, b.bytesIn l items = .ok part := by
    intro b hb
    obtain ⟨_, hstands⟩ := stands_of_mem hcode (hitems ▸ List.mem_append_left _ hb)
    exact exists_bytesIn hl hstands (hbefore b hb)
  have hfails : item.bytesIn l items = .error e := by
    rw [Item.bytesIn, he]
    rfl
  rw [heq, mapM_eq_error.mpr ⟨before, item, after, hitems, hwritten, hfails⟩]
  rfl

/-- Relocation accepts exactly what can be represented: code that is not too long, where every jump
goes to an instruction or to the end and every short one is near enough. Otherwise the length is the
error, or what the first item does that does neither; and where it succeeds, nothing is cut off. -/
theorem relocate_accepts_iff :
    ((∃ r, relocate code.length items = .ok r) ↔ stopFrom 0 items ≤ maxCodeLength ∧
      ∀ item ∈ items, item.Lands code.length items ∧ item.Reaches items) ∧
    (maxCodeLength < stopFrom 0 items → ∃ length, maxCodeLength < length ∧
      relocate code.length items = .error (.codeTooLarge length)) ∧
    (stopFrom 0 items ≤ maxCodeLength →
      ∀ before item after, items = before ++ item :: after →
        (∀ b ∈ before, b.Lands code.length items ∧ b.Reaches items) →
        (¬ item.Lands code.length items → ∃ damage,
          relocate code.length items = .error (.malformed damage)) ∧
        (item.Lands code.length items → ¬ item.Reaches items → ∃ distance,
          relocate code.length items = .error (.branchOutOfRange (item.startIn items) distance) ∧
            ¬ Instruction.IsNear distance)) ∧
    ∀ r, relocate code.length items = .ok r → r.IsLossless code.length items := by
  refine ⟨relocate_eq_ok_iff hcode, fun hlong => relocate_of_lt hlong _, ?_,
    fun r hr => isLossless_of_relocate hcode hr⟩
  intro hfits before item after hitems hbefore
  obtain ⟨l, hl, herror⟩ := exists_relocate_eq_error hcode hfits hitems hbefore
  have hmem : item ∈ items := hitems ▸ List.mem_append_right _ (List.mem_cons_self ..)
  obtain ⟨_, hstands⟩ := stands_of_mem hcode hmem
  constructor
  · intro hlands
    obtain ⟨damage, hbytes⟩ := Instruction.bytesAt_of_not_lands hl hstands hlands
    exact ⟨damage, herror _ hbytes⟩
  · intro hlands hreaches
    obtain ⟨distance, hbytes, hfar⟩ :=
      Instruction.bytesAt_of_not_reaches hl hstands hlands hreaches
    exact ⟨distance, herror _ hbytes, hfar⟩

end Accepting

theorem relocate_accepts_iff_loop :
    Instruction.decode [Opcode.iconst0, 0xA7, 0xFF, 0xFF] = .ok (loopItems.map (·.instruction)) ∧
      ∃ r, relocate 4 loopItems = .ok r ∧ r.layout.length = 6 ∧ r.IsLossless 4 loopItems := by
  have hcode : Instruction.decode [Opcode.iconst0, 0xA7, 0xFF, 0xFF] =
      .ok (loopItems.map (·.instruction)) := by rfl
  obtain ⟨haccepts, _, _, hlossless⟩ := relocate_accepts_iff hcode
  obtain ⟨r, hr⟩ := haccepts.mpr (by decide)
  have hr' := hlossless r hr
  exact ⟨hcode, r, hr, hr'.length_eq, hr'⟩

end ThreadWatch
