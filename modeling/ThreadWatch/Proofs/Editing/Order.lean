import ThreadWatch.Proofs.Code.FrameLimits
import ThreadWatch.Proofs.Code.Reencoding
import ThreadWatch.Proofs.Editing.Tables

/-!
# Relocated code keeps its order

Insertions push everything behind them further on, but not all of it equally far, as a switch is
padded anew wherever it stands. The padding rounds up, so what stood later still ends later, and no
instruction comes to stand in front of where it was. Scopes thus keep an end behind their start, and
frames can be written again.
-/

namespace ThreadWatch

namespace Instruction

/-- What starts later ends later. -/
theorem stop_le_stop (i : Instruction) {p q : Nat} (h : p ≤ q) :
    p + i.sizeAt p ≤ q + i.sizeAt q := by
  unfold sizeAt padding
  cases i.operand <;> dsimp only <;> omega

/-- Only a switch may take more in another place, and that is padding. -/
theorem sizeAt_le (i : Instruction) (p q : Nat) :
    i.sizeAt q ≤ i.sizeAt p + if i.isSwitch then 3 else 0 := by
  unfold sizeAt padding isSwitch
  cases i.operand <;> simp <;> omega

end Instruction

namespace Laid

variable {oldStop newStop old new : Nat} {items : List Item} {places : List Place}

/-- What is laid out from no earlier on stays no earlier. -/
theorem old_le_new (h : Laid oldStop newStop old new items places) (hle : old ≤ new) :
    oldStop ≤ newStop ∧ ∀ place ∈ places, place.old ≤ place.group := by
  induction h with
  | nil => exact ⟨hle, by simp⟩
  | @cons old new item _ _ hoffset _ _ ih =>
    have hstop := item.instruction.stop_le_stop
      (Nat.le_trans hle (Nat.le_add_right new item.insertedBytes.length))
    have hlength : item.instruction.length = item.instruction.sizeAt old := by
      rw [← hoffset, Instruction.length]
    obtain ⟨hend, hrest⟩ := ih (hlength ▸ hstop)
    exact ⟨hend, List.forall_mem_cons.mpr ⟨hle, hrest⟩⟩

/-- The code grows by what is inserted, and by the padding of its switches. -/
theorem newStop_le (h : Laid oldStop newStop old new items places) :
    newStop + old ≤ oldStop + new + (items.map (·.insertedBytes.length)).sum +
      3 * items.countP (·.instruction.isSwitch) := by
  induction h with
  | nil =>
    rw [List.map_nil, List.sum_nil, List.countP_nil]
    omega
  | @cons old new item _ _ _ _ _ ih =>
    have hsize : item.instruction.sizeAt (new + item.insertedBytes.length) ≤
        item.instruction.length + if item.instruction.isSwitch then 3 else 0 :=
      item.instruction.sizeAt_le _ _
    rw [List.map_cons, List.sum_cons, List.countP_cons]
    split at hsize
    next hswitch =>
      rw [if_pos hswitch]
      omega
    next hswitch =>
      rw [if_neg hswitch]
      omega

theorem start_lt_stop (h : Laid oldStop newStop old new items places) {place : Place}
    (hplace : place ∈ places) : place.start < newStop := by
  induction h with
  | nil => simp at hplace
  | @cons old new item _ _ _ _ hrest ih =>
    have hsize := item.instruction.sizeAt_pos (new + item.insertedBytes.length)
    have hbehind := hrest.new_le
    rcases List.mem_cons.mp hplace with rfl | hplace
    · dsimp only
      omega
    · exact ih hplace

/-- Parts of the sizes that were laid out end where the layout does. -/
theorem length_flatten (h : Laid oldStop newStop old new items places) {parts : List Bytes}
    (hparts : List.Forall₂ (fun (x : Item × Place) part =>
      part.length = x.1.insertedBytes.length + x.1.instruction.sizeAt x.2.start)
      (items.zip places) parts) : new + parts.flatten.length = newStop := by
  induction h generalizing parts with
  | nil =>
    cases hparts
    rfl
  | cons _ _ _ ih =>
    cases hparts with
    | cons hpart hrest =>
      have hlength := ih hrest
      rw [List.flatten_cons, List.length_append, hpart]
      dsimp only at hlength ⊢
      omega

end Laid

namespace Layout.Lays

variable {l : Layout} {oldLength : Nat} {items : List Item} {a b : Nat}

/-- An instruction stands in front of the group of whatever stood behind it. -/
theorem instruction_lt_group (h : l.Lays oldLength items) {start group : Nat}
    (ha : l.instruction a = .ok start) (hb : l.group b = .ok group) (hlt : a < b) :
    start < group := by
  obtain ⟨p, hp, rfl⟩ := map_eq_ok.mp ha
  obtain ⟨q, hq, rfl⟩ := map_eq_ok.mp hb
  obtain ⟨hpold, hp⟩ := h.find_iff.mp hp
  obtain ⟨hqold, hq⟩ := h.find_iff.mp hq
  rw [← hpold, ← hqold] at hlt
  rcases hp with hp | rfl <;> rcases hq with hq | rfl
  · exact h.laid.start_lt_group hp hq hlt
  · exact h.laid.start_lt_stop hp
  · exact absurd hlt (Nat.not_lt.mpr (h.laid.of_mem hq).2.1.le)
  · exact absurd hlt (Nat.lt_irrefl _)

/-- Groups of different offsets start in different places. -/
theorem group_lt (h : l.Lays oldLength items) {group group' : Nat} (ha : l.group a = .ok group)
    (hb : l.group b = .ok group') (hlt : a < b) : group < group' := by
  obtain ⟨p, hp, rfl⟩ := map_eq_ok.mp ha
  have hstart : l.instruction a = .ok p.start := map_eq_ok.mpr ⟨p, hp, rfl⟩
  have hle : p.group ≤ p.start := by
    obtain ⟨_, hp | rfl⟩ := h.find_iff.mp hp
    · exact (h.laid.of_mem hp).2.2.1
    · exact Nat.le_refl _
  exact Nat.lt_of_le_of_lt hle (h.instruction_lt_group hstart hb hlt)

end Layout.Lays

theorem FrameKind.MovedTo.isCounted {l : Layout} {k moved : FrameKind} (h : k.MovedTo l moved)
    (hcounted : k.IsCounted) : moved.IsCounted := by
  cases h with
  | append hitems => exact ⟨hitems.length_eq ▸ hcounted.1, hitems.length_eq ▸ hcounted.2⟩
  | chop => exact hcounted
  | same | sameOne | full => trivial

/-- Every instruction stands behind what is inserted in front of it, that behind all that stood
earlier, and none stands in front of where it was. The end is where the code ends, which has grown
by no more than what is inserted and three bytes for each switch; other offsets are refused. -/
structure Relocated.IsOrdered (r : Relocated) (oldLength : Nat) (items : List Item) : Prop where
  instruction : ∀ item ∈ items, ∃ group, r.layout.group item.instruction.offset = .ok group ∧
    r.layout.instruction item.instruction.offset = .ok (group + item.insertedBytes.length) ∧
    item.instruction.offset ≤ group
  stop : r.layout.group oldLength = .ok r.layout.length ∧
    r.layout.instruction oldLength = .ok r.layout.length
  order : ∀ a b start group, r.layout.instruction a = .ok start → r.layout.group b = .ok group →
    a < b → start < group
  refused : ∀ old : Nat, ¬ IsBoundary oldLength items old →
    r.layout.group old = damaged (.boundary old) ∧
      r.layout.instruction old = damaged (.boundary old)
  code : r.code.length = r.layout.length
  grown : oldLength ≤ r.layout.length
  bounded : r.layout.length ≤ oldLength + (items.map (·.insertedBytes.length)).sum +
    3 * items.countP (·.instruction.isSwitch)

section Moving

variable {code : Bytes} {items : List Item} {r : Relocated}
  (hcode : Instruction.decode code = .ok (items.map (·.instruction)))
  (hr : relocate code.length items = .ok r)

include hcode hr

theorem length_code : r.code.length = r.layout.length := by
  have hlays := lays_of_relocate hcode hr
  obtain ⟨parts, hparts, hwritten⟩ := (isLossless_of_relocate hcode hr).written
  have hsizes : List.Forall₂ (fun (x : Item × Place) part =>
      part.length = x.1.insertedBytes.length + x.1.instruction.sizeAt x.2.start)
      (items.zip r.layout.places) parts := by
    rw [hlays.places_eq, ← List.map_prod_left_eq_zip, List.forall₂_map_left_iff]
    refine hwritten.imp fun item part hitem => ?_
    obtain ⟨bytes, moved, hpart, hstands, hmoved⟩ := hitem
    rw [hpart, List.length_append, ← hstands.length_eq, Instruction.length, hstands.offset_eq,
      hmoved.sizeAt]
  rw [hparts, ← hlays.laid.length_flatten hsizes, Nat.zero_add]

theorem isOrdered_of_relocate : r.IsOrdered code.length items := by
  have hlays := lays_of_relocate hcode hr
  obtain ⟨hgrown, hgroup⟩ := hlays.laid.old_le_new (Nat.le_refl 0)
  have hbound := hlays.laid.newStop_le
  refine {
    instruction := fun item hitem => ?_
    stop := ⟨hlays.group_stop, map_eq_ok.mpr ⟨_, hlays.find_iff.mpr ⟨rfl, .inr rfl⟩, rfl⟩⟩
    order := fun a b start group => hlays.instruction_lt_group
    refused := fun old hold => ?_
    code := length_code hcode hr
    grown := hgrown
    bounded := by omega }
  · have hplace := hlays.find_offset hitem
    refine ⟨_, map_eq_ok.mpr ⟨_, hplace, rfl⟩, hlays.instruction_offset hitem, hgroup ⟨_, _, _⟩ ?_⟩
    rw [hlays.places_eq]
    exact List.mem_map_of_mem hitem
  · rw [Layout.group, Layout.instruction, hlays.find_of_not_isBoundary hold]
    exact ⟨rfl, rfl⟩

/-- A scope does not end in front of its start, so its length can be told. -/
theorem moveScope_of_groups {v : LocalVariable} {start stop : Nat}
    (hstart : r.layout.group v.start.toNat = .ok start)
    (hstop : r.layout.group (v.start.toNat + v.length.toNat) = .ok stop) :
    start ≤ stop ∧ ∃ moved, Body.moveScope r.layout v = .ok moved ∧ v.MovedTo r.layout moved := by
  have hlays := lays_of_relocate hcode hr
  have hstop' : stop < 65536 := Nat.lt_succ_of_le (hlays.isBounded _ _ hstop)
  have hle := hlays.group_le hstart hstop (Nat.le_add_right _ _)
  have hnarrow : ∀ {offset : Nat}, offset < 65536 →
      Body.narrow offset = .ok (UInt16.ofNat offset) := fun hlt => if_pos hlt
  have hmoved : Body.moveScope r.layout v =
      .ok { v with start := UInt16.ofNat start, length := UInt16.ofNat (stop - start) } := by
    rw [Body.moveScope, hstart, hstop]
    dsimp only [bind, Except.bind]
    rw [hnarrow (by omega), hnarrow (by omega)]
    rfl
  exact ⟨hle, _, hmoved, Body.moveScope_eq_ok hlays hmoved⟩

/-- Frames that were read are encodable where they are moved to. -/
theorem encode_of_moved {info : Bytes} {frames moved : List Frame}
    (hframes : Frame.decode info = .ok frames)
    (hmoved : frames.mapM (Body.moveFrame r.layout) = .ok moved) :
    ∃ out, Frame.encode moved = .ok out := by
  have hlays := lays_of_relocate hcode hr
  have hall := (mapM_eq_ok.mp hmoved).imp fun _ _ => Body.moveFrame_eq_ok
  obtain ⟨placed, parts, hplaced, hcount, -⟩ := Frame.decode_eq_ok.mp hframes
  have hbounded : ∀ f ∈ moved, f.offset ≤ maxCodeLength := by
    intro f hf
    obtain ⟨f', _, hmovedTo⟩ := exists_of_mem_right hall hf
    exact hlays.isBounded _ _ hmovedTo.offset
  have hordered : moved.Pairwise fun f g => f.offset < g.offset :=
    pairwise_of_forall₂ hall (hplaced ▸ Frame.pairwise_placeFrom 0 placed) fun f g f' g' hf hg hlt =>
      hlays.group_lt hf.offset hg.offset hlt
  have hencodable : Frame.Encodable moved := {
    count := by
      rw [← hall.length_eq, hplaced, Frame.length_placeFrom]
      omega
    first := fun f hf => hbounded f (List.mem_of_mem_head? hf)
    later := by
      refine (hordered.imp_of_mem fun {f g} _ hg hlt => ?_).isChain
      have hg := hbounded g hg
      rw [maxCodeLength] at hg
      exact ⟨hlt, by omega⟩
    counted := fun f hf => by
      obtain ⟨f', hf', hmovedTo⟩ := exists_of_mem_right hall hf
      exact hmovedTo.kind.isCounted (Frame.isCounted_of_decode hframes f' hf') }
  obtain ⟨_, hout⟩ | ⟨hnot, _⟩ := Frame.encode_cases moved
  · exact hout
  · exact absurd hencodable hnot

/-- Relocated code is in order. So no scope loses its length, and the frames that can be moved can be
written. -/
theorem relocate_keeps_order :
    r.IsOrdered code.length items ∧
      (∀ (v : LocalVariable) (start stop : Nat), r.layout.group v.start.toNat = .ok start →
        r.layout.group (v.start.toNat + v.length.toNat) = .ok stop →
        start ≤ stop ∧ ∃ moved, Body.moveScope r.layout v = .ok moved ∧ v.MovedTo r.layout moved) ∧
      ∀ info frames moved, Frame.decode info = .ok frames →
        frames.mapM (Body.moveFrame r.layout) = .ok moved → ∃ out, Frame.encode moved = .ok out := by
  refine ⟨isOrdered_of_relocate hcode hr, ?_, ?_⟩
  · intro v start stop hstart hstop
    exact moveScope_of_groups hcode hr hstart hstop
  · intro info frames moved hframes hmoved
    exact encode_of_moved hcode hr hframes hmoved

end Moving

/-- A switch between a constant and the end, padded by two bytes. -/
def paddedSwitch : Bytes := [Opcode.iconst0, 0xAB, 0, 0, 0, 0, 0, 11, 0, 0, 0, 0, 0xB1]

/-- A byte in front of the switch, which leaves it with one byte of padding. -/
def absorbingItems : List Item := [
  ⟨⟨0, Opcode.iconst0, false, .fixed []⟩, none⟩,
  ⟨⟨1, 0xAB, false, .lookupSwitch 11 []⟩, some [0x00]⟩,
  ⟨⟨12, 0xB1, false, .fixed []⟩, none⟩]

/-- The same, relocated: what stands behind the switch stays where it was. -/
def absorbed : Relocated where
  code := [Opcode.iconst0, 0x00, 0xAB, 0, 0, 0, 0, 10, 0, 0, 0, 0, 0xB1]
  layout := {
    places := [⟨0, 0, 0⟩, ⟨1, 1, 2⟩, ⟨12, 12, 12⟩]
    length := 13
    index := #[some ⟨0, 0, 0⟩, some ⟨1, 1, 2⟩, none, none, none, none, none, none, none, none, none,
      none, some ⟨12, 12, 12⟩, some ⟨13, 13, 13⟩] }

theorem relocate_keeps_order_absorbed :
    Instruction.decode paddedSwitch = .ok (absorbingItems.map (·.instruction)) ∧
      relocate paddedSwitch.length absorbingItems = .ok absorbed ∧
      absorbed.IsOrdered paddedSwitch.length absorbingItems ∧
      (∃ moved, Body.moveScope absorbed.layout ⟨1, 11, 5, 6, 0⟩ = .ok moved ∧
        LocalVariable.MovedTo absorbed.layout ⟨1, 11, 5, 6, 0⟩ moved) ∧
      ∃ frames moved, Frame.decode [0, 2, 1, 10] = .ok frames ∧
        frames.mapM (Body.moveFrame absorbed.layout) = .ok moved ∧
        ∃ out, Frame.encode moved = .ok out := by
  have hcode : Instruction.decode paddedSwitch = .ok (absorbingItems.map (·.instruction)) := by
    decide +kernel
  have hr : relocate paddedSwitch.length absorbingItems = .ok absorbed := by rfl
  obtain ⟨hordered, hscopes, hframes⟩ := relocate_keeps_order hcode hr
  obtain ⟨_, hscope⟩ := hscopes ⟨1, 11, 5, 6, 0⟩ 1 12 (by rfl) (by rfl)
  have hread : Frame.decode [0, 2, 1, 10] = .ok [⟨1, .same⟩, ⟨12, .same⟩] := by rfl
  have hmoved : [⟨1, .same⟩, ⟨12, .same⟩].mapM (Body.moveFrame absorbed.layout) =
      .ok [⟨1, .same⟩, ⟨12, .same⟩] := by rfl
  exact ⟨hcode, hr, hordered, hscope, _, _, hread, hmoved, hframes _ _ _ hread hmoved⟩

end ThreadWatch
