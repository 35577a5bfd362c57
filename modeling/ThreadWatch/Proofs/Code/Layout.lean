import ThreadWatch.Proofs.Code.Listing
import ThreadWatch.Code.Relocate

/-!
# Layouts of listed code

Old and new positions side by side: the places of a layout follow each other as the items do, and
looking an old offset up finds the place that was made for it.
-/

namespace ThreadWatch

theorem Instruction.sizeAt_pos (i : Instruction) (position : Nat) : 0 < i.sizeAt position := by
  unfold sizeAt
  split
  · split <;> omega
  · split <;> omega
  · omega
  · omega

/-- Items laid out from `old` and `new` on have these places, and end at `oldStop` and `newStop`. -/
inductive Laid (oldStop newStop : Nat) : Nat → Nat → List Item → List Place → Prop
  | nil : Laid oldStop newStop oldStop newStop [] []
  | cons {old new : Nat} {item : Item} {rest : List Item} {places : List Place} :
    item.instruction.offset = old → 0 < item.instruction.length →
    Laid oldStop newStop (old + item.instruction.length)
      (new + item.insertedBytes.length +
        item.instruction.sizeAt (new + item.insertedBytes.length)) rest places →
    Laid oldStop newStop old new (item :: rest)
      (⟨old, new, new + item.insertedBytes.length⟩ :: places)

namespace Laid

variable {oldStop newStop old new : Nat} {items : List Item} {places : List Place}

theorem old_le (h : Laid oldStop newStop old new items places) : old ≤ oldStop := by
  induction h with
  | nil => exact Nat.le_refl _
  | cons _ _ _ ih => omega

theorem new_le (h : Laid oldStop newStop old new items places) : new ≤ newStop := by
  induction h with
  | nil => exact Nat.le_refl _
  | cons _ _ _ ih => omega

theorem of_mem (h : Laid oldStop newStop old new items places) {place : Place}
    (hplace : place ∈ places) :
    old ≤ place.old ∧ place.old < oldStop ∧ place.group ≤ place.start ∧ place.start ≤ newStop := by
  induction h with
  | nil => simp at hplace
  | cons _ hlength hrest ih =>
    have hold := hrest.old_le
    have hnew := hrest.new_le
    rcases List.mem_cons.mp hplace with rfl | hplace
    · refine ⟨Nat.le_refl _, ?_, Nat.le_add_right _ _, ?_⟩ <;> (dsimp only; omega)
    · have htail := ih hplace
      exact ⟨by omega, htail.2⟩

theorem pairwise (h : Laid oldStop newStop old new items places) :
    places.Pairwise fun a b => a.old ≠ b.old := by
  induction h with
  | nil => exact .nil
  | cons _ hlength hrest ih =>
    refine .cons ?_ ih
    intro place hplace
    have htail := (hrest.of_mem hplace).1
    dsimp only
    omega

theorem le_group (h : Laid oldStop newStop old new items places) {place : Place}
    (hplace : place ∈ places) : new ≤ place.group := by
  induction h with
  | nil => simp at hplace
  | cons _ _ _ ih =>
    rcases List.mem_cons.mp hplace with rfl | hplace
    · exact Nat.le_refl _
    · have htail := ih hplace
      omega

/-- Groups stand in the order of their instructions. -/
theorem group_le (h : Laid oldStop newStop old new items places) {p q : Place} (hp : p ∈ places)
    (hq : q ∈ places) (hle : p.old ≤ q.old) : p.group ≤ q.group := by
  induction h with
  | nil => simp at hp
  | cons _ hlength hrest ih =>
    rcases List.mem_cons.mp hp with rfl | hp'
    · rcases List.mem_cons.mp hq with rfl | hq'
      · exact Nat.le_refl _
      · have hafter := hrest.le_group hq'
        dsimp only
        omega
    · have hafter := (hrest.of_mem hp').1
      rcases List.mem_cons.mp hq with rfl | hq'
      · dsimp only at hle
        omega
      · exact ih hp' hq'

/-- An instruction stands in front of every later group. -/
theorem start_lt_group (h : Laid oldStop newStop old new items places) {p q : Place}
    (hp : p ∈ places) (hq : q ∈ places) (hlt : p.old < q.old) : p.start < q.group := by
  induction h with
  | nil => simp at hp
  | @cons old new item _ _ _ hlength hrest ih =>
    have hsize := item.instruction.sizeAt_pos (new + item.insertedBytes.length)
    rcases List.mem_cons.mp hp with rfl | hp' <;> rcases List.mem_cons.mp hq with rfl | hq'
    · exact absurd hlt (Nat.lt_irrefl _)
    · have hafter := hrest.le_group hq'
      dsimp only
      omega
    · have hafter := (hrest.of_mem hp').1
      dsimp only at hlt
      omega
    · exact ih hp' hq'

theorem le_offset (h : Laid oldStop newStop old new items places) {item : Item}
    (hitem : item ∈ items) : old ≤ item.instruction.offset := by
  induction h with
  | nil => simp at hitem
  | cons hoffset _ _ ih =>
    rcases List.mem_cons.mp hitem with rfl | hitem
    · exact Nat.le_of_eq hoffset.symm
    · have htail := ih hitem
      omega

theorem stop_le (h : Laid oldStop newStop old new items places) {item : Item}
    (hitem : item ∈ items) :
    item.instruction.offset + item.instruction.length ≤ oldStop := by
  induction h with
  | nil => simp at hitem
  | cons hoffset _ hrest ih =>
    have hold := hrest.old_le
    rcases List.mem_cons.mp hitem with rfl | hitem
    · omega
    · exact ih hitem

/-- No place is within an instruction. -/
theorem le_or_stop_le (h : Laid oldStop newStop old new items places) {item : Item}
    (hitem : item ∈ items) {place : Place} (hplace : place ∈ places) :
    place.old ≤ item.instruction.offset ∨
      item.instruction.offset + item.instruction.length ≤ place.old := by
  induction h with
  | nil => simp at hitem
  | cons hoffset _ hrest ih =>
    rcases List.mem_cons.mp hitem with rfl | hitem <;>
      rcases List.mem_cons.mp hplace with rfl | hplace
    · exact .inl (Nat.le_of_eq hoffset.symm)
    · have hafter := (hrest.of_mem hplace).1
      exact .inr (by omega)
    · have hafter := hrest.le_offset hitem
      exact .inl (by dsimp only; omega)
    · exact ih hitem hplace

end Laid

/-- Laying out listed code gives each instruction its place, within the longest body. -/
theorem laid_of_listing {old new newStop : Nat} {items : List Item} {code : Bytes}
    {places : List Place} (hlisting : Instruction.Listing old (items.map (·.instruction)) code)
    (hplaces : placesFrom new items = .ok (places, newStop)) (hnew : new ≤ maxCodeLength) :
    Laid (old + code.length) newStop old new items places ∧ newStop ≤ maxCodeLength := by
  induction items generalizing old new code places with
  | nil =>
    cases hlisting
    cases hplaces
    exact ⟨.nil, hnew⟩
  | cons item items ih =>
    obtain ⟨bytes, tail, rfl, hstands, hrest⟩ := Instruction.listing_cons_iff.mp hlisting
    have hlength : item.instruction.length = bytes.length := hstands.length_eq
    have hpos := hstands.length_pos
    rw [placesFrom] at hplaces
    simp only [bind, Except.bind, pure, Except.pure] at hplaces
    split at hplaces
    · simp at hplaces
    next hfits =>
      split at hplaces
      · simp at hplaces
      next found hfound =>
        obtain ⟨rest, stop⟩ := found
        cases hplaces
        obtain ⟨hlaid, hstop⟩ := ih hrest hfound (by omega)
        rw [List.length_append, ← Nat.add_assoc, hstands.offset_eq]
        refine ⟨.cons hstands.offset_eq (by omega) ?_, hstop⟩
        rwa [hlength]

namespace Layout

theorem getElem?_fill_of_not_mem {table : Array (Option Place)} {places : List Place} {old : Nat}
    (h : ∀ place ∈ places, place.old ≠ old) :
    (places.foldl (fun table place => table.setIfInBounds place.old (some place)) table)[old]? =
      table[old]? := by
  induction places generalizing table with
  | nil => rfl
  | cons place places ih =>
    rw [List.forall_mem_cons] at h
    rw [List.foldl_cons, ih h.2, Array.getElem?_setIfInBounds_ne h.1]

theorem size_fill (table : Array (Option Place)) (places : List Place) :
    (places.foldl (fun table place => table.setIfInBounds place.old (some place)) table).size =
      table.size := by
  induction places generalizing table with
  | nil => rfl
  | cons place places ih => rw [List.foldl_cons, ih, Array.size_setIfInBounds]

theorem getElem?_fill_of_mem {table : Array (Option Place)} {places : List Place} {place : Place}
    (hpairwise : places.Pairwise fun a b => a.old ≠ b.old) (hplace : place ∈ places)
    (hbound : place.old < table.size) :
    (places.foldl (fun table place => table.setIfInBounds place.old (some place)) table)[place.old]? =
      some (some place) := by
  induction places generalizing table with
  | nil => simp at hplace
  | cons first places ih =>
    rw [List.pairwise_cons] at hpairwise
    rw [List.foldl_cons]
    rcases List.mem_cons.mp hplace with rfl | hplace
    · rw [getElem?_fill_of_not_mem fun other hother => (hpairwise.1 other hother).symm,
        Array.getElem?_setIfInBounds_self_of_lt hbound]
    · exact ih hpairwise.2 hplace (by rwa [Array.size_setIfInBounds])

/-- The end of the old code, where the new code ends. -/
def stop (oldLength newLength : Nat) : Place := ⟨oldLength, newLength, newLength⟩

theorem find_of_getElem? {l : Layout} {old : Nat} {place : Place} :
    l.find old = .ok place ↔ l.index[old]? = some (some place) := by
  unfold find
  split
  · next found hfound => simp [hfound]
  · next hnone =>
    constructor
    · intro h
      cases h
    · intro h
      exact absurd h (hnone place)

/-- Exactly the places of the items and the end are found. -/
theorem find_eq_ok_iff {oldLength newLength : Nat} {items : List Item} {places : List Place}
    (hlaid : Laid oldLength newLength 0 0 items places) {old : Nat} {place : Place} :
    find ⟨places, newLength, indexOf oldLength places newLength⟩ old = .ok place ↔
      place.old = old ∧ (place ∈ places ∨ place = stop oldLength newLength) := by
  have hsize : (Array.replicate (oldLength + 1) (none : Option Place)).size = oldLength + 1 :=
    Array.size_replicate
  have hmem : ∀ {found : Place}, found ∈ places →
      (indexOf oldLength places newLength)[found.old]? = some (some found) := by
    intro found hfound
    have hbound := (hlaid.of_mem hfound).2.1
    unfold indexOf
    rw [Array.getElem?_setIfInBounds_ne (by omega),
      getElem?_fill_of_mem hlaid.pairwise hfound (by omega)]
  have hstop : (indexOf oldLength places newLength)[oldLength]? =
      some (some (stop oldLength newLength)) := by
    unfold indexOf
    rw [Array.getElem?_setIfInBounds_self_of_lt (by rw [size_fill]; omega), stop]
  rw [find_of_getElem?]
  constructor
  · intro h
    by_cases hold : old = oldLength
    · subst hold
      cases hstop.symm.trans h
      exact ⟨rfl, .inr rfl⟩
    · by_cases hfound : ∃ found ∈ places, found.old = old
      · obtain ⟨found, hfound, rfl⟩ := hfound
        cases (hmem hfound).symm.trans h
        exact ⟨rfl, .inl hfound⟩
      · simp only [not_exists, not_and] at hfound
        dsimp only [indexOf] at h
        rw [Array.getElem?_setIfInBounds_ne (Ne.symm hold), getElem?_fill_of_not_mem hfound,
          Array.getElem?_replicate] at h
        split at h <;> simp at h
  · rintro ⟨rfl, hplace | rfl⟩
    · exact hmem hplace
    · exact hstop

/-- The layout of these items, which were a body of `oldLength` bytes. -/
structure Lays (l : Layout) (oldLength : Nat) (items : List Item) : Prop where
  laid : Laid oldLength l.length 0 0 items l.places
  length_le : l.length ≤ maxCodeLength
  find_iff : ∀ {old : Nat} {place : Place}, l.find old = .ok place ↔
    place.old = old ∧ (place ∈ l.places ∨ place = stop oldLength l.length)

theorem lays_of_listing {code : Bytes} {items : List Item} {places : List Place} {newLength : Nat}
    (hlisting : Instruction.Listing 0 (items.map (·.instruction)) code)
    (hplaces : placesFrom 0 items = .ok (places, newLength)) :
    Lays ⟨places, newLength, indexOf code.length places newLength⟩ code.length items := by
  obtain ⟨hlaid, hmax⟩ := laid_of_listing hlisting hplaces (Nat.zero_le _)
  rw [Nat.zero_add] at hlaid
  exact ⟨hlaid, hmax, find_eq_ok_iff hlaid⟩

namespace Lays

variable {l : Layout} {oldLength : Nat} {items : List Item} {a b a' b' : Nat}

theorem group_stop (h : l.Lays oldLength items) : l.group oldLength = .ok l.length :=
  map_eq_ok.mpr ⟨_, h.find_iff.mpr ⟨rfl, .inr rfl⟩, rfl⟩

/-- Groups stand in the order of the offsets they were made for. -/
theorem group_le (h : l.Lays oldLength items) (ha : l.group a = .ok a') (hb : l.group b = .ok b')
    (hle : a ≤ b) : a' ≤ b' := by
  obtain ⟨p, hp, rfl⟩ := map_eq_ok.mp ha
  obtain ⟨q, hq, rfl⟩ := map_eq_ok.mp hb
  obtain ⟨hpold, hp⟩ := h.find_iff.mp hp
  obtain ⟨hqold, hq⟩ := h.find_iff.mp hq
  rw [← hpold, ← hqold] at hle
  rcases hp with hp | rfl <;> rcases hq with hq | rfl
  · exact h.laid.group_le hp hq hle
  · have hbounds := h.laid.of_mem hp
    exact Nat.le_trans hbounds.2.2.1 hbounds.2.2.2
  · have hbounds := h.laid.of_mem hq
    exact absurd hle (Nat.not_le.mpr hbounds.2.1)
  · exact Nat.le_refl _

/-- No offset within an instruction has a group. -/
theorem le_or_stop_le (h : l.Lays oldLength items) (ha : l.group a = .ok a') {item : Item}
    (hitem : item ∈ items) :
    a ≤ item.instruction.offset ∨ item.instruction.offset + item.instruction.length ≤ a := by
  obtain ⟨place, hplace, _⟩ := map_eq_ok.mp ha
  obtain ⟨rfl, hplace | rfl⟩ := h.find_iff.mp hplace
  · exact h.laid.le_or_stop_le hitem hplace
  · exact .inr (h.laid.stop_le hitem)

/-- No instruction stands within what was inserted in front of another. -/
theorem lt_group_or_start_le (h : l.Lays oldLength items) (ha : l.instruction a = .ok a')
    {place : Place} (hplace : place ∈ l.places) : a' < place.group ∨ place.start ≤ a' := by
  obtain ⟨found, hfound, rfl⟩ := map_eq_ok.mp ha
  obtain ⟨rfl, hmem | rfl⟩ := h.find_iff.mp hfound
  · rcases Nat.lt_trichotomy found.old place.old with hlt | hsame | hlt
    · exact .inl (h.laid.start_lt_group hmem hplace hlt)
    · have hfound' := h.find_iff.mpr ⟨hsame.symm, .inl hplace⟩
      cases hfound.symm.trans hfound'
      exact .inr (Nat.le_refl _)
    · have hbehind := h.laid.start_lt_group hplace hmem hlt
      have hgroup := (h.laid.of_mem hmem).2.2.1
      exact .inr (by omega)
  · exact .inr (h.laid.of_mem hplace).2.2.2

end Lays

end Layout

end ThreadWatch
