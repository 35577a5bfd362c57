import ThreadWatch.Proofs.Bytes.Spelling
import ThreadWatch.Proofs.Pool.Interning

/-!
# Pools are read as they are written

A pool that was read has an empty slot 0 and behind it the slots of its constants, so that empty
slots stand behind wide constants alone. Such a pool is read back from its bytes, and from nothing
else.
-/

namespace ThreadWatch

namespace Constant

/-- Behind a tag stand the operands of a constant with that tag. -/
theorem spells_operands (tag : UInt8) (position : Nat) :
    (operands tag position).Spells fun c bytes => c.tag = tag ∧ c.payload = .ok bytes := by
  unfold operands
  split
  case' h_1 => refine spells_prefixed.map.congr ?_
  case' h_2 => refine Reader.spells_i32.map.congr ?_
  case' h_3 => refine Reader.spells_u32.map.congr ?_
  case' h_4 => refine Reader.spells_i64.map.congr ?_
  case' h_5 => refine Reader.spells_u64.map.congr ?_
  case' h_6 | h_7 | h_13 | h_16 | h_17 => refine Reader.spells_u16.map.congr ?_
  case' h_8 | h_9 | h_10 | h_11 | h_14 | h_15 =>
    refine (Reader.spells_u16.pair Reader.spells_u16 _).congr ?_
  case' h_12 => refine (Reader.spells_u8.pair Reader.spells_u16 _).congr ?_
  case h_18 =>
    refine (Reader.fails_damage _).spells ?_
    rintro c bytes ⟨rfl, _⟩
    cases c with
    | member kind _ _ => cases kind <;> simp_all [Constant.tag]
    | _ => simp_all [Constant.tag]
  -- the tag tells the constants apart
  all_goals
    intro c bytes
    cases c with
    | member kind _ _ => cases kind <;> simp [Constant.tag, payload, eq_comm]
    | _ => simp [Constant.tag, payload, eq_comm]

theorem bytes_eq_ok {c : Constant} {bytes : Bytes} :
    c.bytes = .ok bytes ↔ ∃ payload, c.payload = .ok payload ∧ bytes = c.tag :: payload := by
  unfold Constant.bytes
  simp only [bind_eq_ok, pure_eq_ok, eq_comm (a := bytes)]

theorem spells_read : read.Spells fun c bytes => c.bytes = .ok bytes := by
  intro cur c cur'
  have hrun : read cur = (Cursor.u8 >>= fun tag => operands tag cur.pos) cur := rfl
  rw [hrun, (Reader.spells_u8.bind fun tag => spells_operands tag cur.pos) cur c cur']
  constructor
  · rintro ⟨_, ⟨tag, _, payload, rfl, ⟨rfl, hpayload⟩, rfl⟩, hpass⟩
    exact ⟨_, bytes_eq_ok.mpr ⟨payload, hpayload, rfl⟩, hpass⟩
  · rintro ⟨bytes, hbytes, hpass⟩
    obtain ⟨payload, hpayload, rfl⟩ := bytes_eq_ok.mp hbytes
    exact ⟨_, ⟨c.tag, be8 c.tag, payload, rfl, ⟨rfl, hpayload⟩, rfl⟩, hpass⟩

end Constant

namespace Pool

/-- An empty slot 0, and behind it the slots of constants. -/
def IsShaped (p : Pool) : Prop :=
  ∃ cs : List Constant, p.slots.toList = none :: cs.flatMap spread

theorem Grown.isShaped {allowed : Constant → Prop} {p q : Pool} (h : Grown allowed p q)
    (hp : p.IsShaped) : q.IsShaped := by
  obtain ⟨cs, hcs⟩ := hp
  obtain ⟨more, _, hmore⟩ := h.slots
  exact ⟨cs ++ more, by rw [hmore, hcs, List.flatMap_append, List.cons_append]⟩

@[simp] theorem length_spread (c : Constant) : (spread c).length = c.width := by
  unfold spread Constant.width
  split <;> rfl

/-- Constants that take `count` slots, and their bytes. -/
def Fills (count : Nat) (cs : List Constant) (bytes : Bytes) : Prop :=
  (cs.flatMap spread).length = count ∧ Written Constant.bytes cs bytes

theorem fills_zero_iff {cs : List Constant} {bytes : Bytes} :
    Fills 0 cs bytes ↔ cs = [] ∧ bytes = [] := by
  cases cs with
  | nil => simp [Fills, written_nil_iff]
  | cons c cs =>
    have hwidth : 0 < c.width := by
      unfold Constant.width
      split <;> omega
    simp [Fills]
    omega

theorem fills_cons_iff {count : Nat} {c : Constant} {cs : List Constant} {bytes : Bytes} :
    Fills count (c :: cs) bytes ↔ c.width ≤ count ∧ ∃ first tail, c.bytes = .ok first ∧
      Fills (count - c.width) cs tail ∧ bytes = first ++ tail := by
  unfold Fills
  rw [List.flatMap_cons, List.length_append, length_spread, written_cons_iff]
  constructor
  · rintro ⟨hcount, first, tail, hfirst, htail, rfl⟩
    exact ⟨by omega, first, tail, hfirst, ⟨by omega, htail⟩, rfl⟩
  · rintro ⟨hwidth, first, tail, hfirst, ⟨hcount, htail⟩, rfl⟩
    exact ⟨by omega, first, tail, hfirst, htail, rfl⟩

/-- As many slots as are left are filled with constants. -/
theorem spells_readSlots (count left : Nat) (slots : Array (Option Constant)) :
    (readSlots count left slots).Spells fun p bytes => ∃ cs,
      p.slots.toList = slots.toList ++ cs.flatMap spread ∧ Fills left cs bytes := by
  induction left, slots using readSlots.induct with
  | case1 slots =>
    refine (Reader.Spells.pure _).congr fun p bytes => ?_
    constructor
    · rintro ⟨rfl, rfl⟩
      exact ⟨[], by simp, fills_zero_iff.mpr ⟨rfl, rfl⟩⟩
    · rintro ⟨cs, hslots, hfills⟩
      obtain ⟨rfl, rfl⟩ := fills_zero_iff.mp hfills
      rw [List.flatMap_nil, List.append_nil] at hslots
      obtain ⟨found⟩ := p
      exact ⟨congrArg Pool.mk (Array.toList_inj.mp hslots), rfl⟩
  | case2 left slots hwide hnarrow =>
    rw [readSlots]
    refine (Constant.spells_read.bind fun c => (?_ : Reader.Spells _ fun (p : Pool) bytes =>
      c.width ≤ left + 1 ∧ ∃ cs, p.slots.toList = (push slots c).toList ++ cs.flatMap spread ∧
        Fills (left + 1 - c.width) cs bytes)).congr fun p bytes => ?_
    · unfold Constant.width
      split
      next =>
        cases left with
        | zero =>
          refine (Reader.fails_damage _).spells fun p bytes h => ?_
          exact absurd h.1 (by decide)
        | succ left => exact (hwide c).congr fun p bytes => (and_iff_right (by omega)).symm
      next => exact (hnarrow c).congr fun p bytes => (and_iff_right (by omega)).symm
    · constructor
      · rintro ⟨c, first, tail, hfirst, ⟨hwidth, cs, hslots, hfills⟩, rfl⟩
        refine ⟨c :: cs, ?_, fills_cons_iff.mpr ⟨hwidth, first, tail, hfirst, hfills, rfl⟩⟩
        rw [hslots, toList_push, List.append_assoc, List.flatMap_cons]
      · rintro ⟨cs, hslots, hfills⟩
        cases cs with
        | nil => simp [Fills] at hfills
        | cons c cs =>
          obtain ⟨hwidth, first, tail, hfirst, hrest, rfl⟩ := fills_cons_iff.mp hfills
          refine ⟨c, first, tail, hfirst, ⟨hwidth, cs, ?_, hrest⟩, rfl⟩
          rw [hslots, toList_push, List.append_assoc, List.flatMap_cons]

/-- The slots of constants are written as the constants. -/
theorem written_slots_iff {cs : List Constant} {bytes : Bytes} :
    Written slotBytes (cs.flatMap spread) bytes ↔ Written Constant.bytes cs bytes := by
  induction cs generalizing bytes with
  | nil => rw [List.flatMap_nil, written_nil_iff, written_nil_iff]
  | cons c cs ih =>
    rw [List.flatMap_cons, spread, written_cons_iff]
    simp only [← ih]
    split
    next =>
      simp only [List.cons_append, List.nil_append, written_cons_iff]
      constructor
      · rintro ⟨first, _, hfirst, ⟨_, tail, hnone, htail, rfl⟩, rfl⟩
        cases hnone
        exact ⟨first, tail, hfirst, htail, rfl⟩
      · rintro ⟨first, tail, hfirst, htail, rfl⟩
        exact ⟨first, tail, hfirst, ⟨[], tail, rfl, htail, rfl⟩, rfl⟩
    next =>
      rw [List.singleton_append, written_cons_iff]
      exact Iff.rfl

theorem bytes_eq_ok {p : Pool} {bytes : Bytes} :
    p.bytes = .ok bytes ↔ p.count < 65536 ∧ ∃ tail, Written slotBytes (p.slots.toList.drop 1) tail ∧
      bytes = beBytes 2 p.count ++ tail := by
  unfold Pool.bytes
  split
  next hfull =>
    constructor
    · intro h
      cases h
    · rintro ⟨hlt, _⟩
      omega
  next hfull =>
    dsimp only
    rw [bind_eq_ok, and_iff_right (by omega)]
    unfold Written
    constructor
    · rintro ⟨parts, hparts, h⟩
      exact ⟨parts.flatten, ⟨parts, hparts, rfl⟩, (pure_eq_ok.mp h).symm⟩
    · rintro ⟨_, ⟨parts, hparts, rfl⟩, rfl⟩
      exact ⟨parts, hparts, rfl⟩

theorem count_eq {p : Pool} {cs : List Constant}
    (hslots : p.slots.toList = none :: cs.flatMap spread) :
    p.count = (cs.flatMap spread).length + 1 := by
  rw [count, ← Array.length_toList, hslots, List.length_cons]

/-- Shaped pools are read back from their bytes. -/
theorem spells_read : read.Spells fun p bytes => p.IsShaped ∧ p.bytes = .ok bytes := by
  unfold Pool.read
  refine (Reader.spells_u16.bind fun count => (?_ : Reader.Spells _ fun (p : Pool) bytes =>
    count ≠ 0 ∧ ∃ cs, p.slots.toList = none :: cs.flatMap spread ∧
      Fills (count.toNat - 1) cs bytes)).congr fun p bytes => ?_
  · split
    next hzero => exact (Reader.fails_damage _).spells fun p bytes h => h.1 hzero
    next hzero =>
      exact (spells_readSlots _ _ _).congr fun p bytes => (and_iff_right hzero).symm
  · rw [bytes_eq_ok]
    constructor
    · rintro ⟨count, _, tail, rfl, ⟨hzero, cs, hslots, hlength, htail⟩, rfl⟩
      have hpos : count.toNat ≠ 0 := fun h => hzero (UInt16.toNat_inj.mp h)
      have hcount : p.count = count.toNat := by
        rw [count_eq hslots]
        omega
      refine ⟨⟨cs, hslots⟩, by rw [hcount]; exact count.toNat_lt, tail, ?_, by rw [hcount, be16]⟩
      rw [hslots]
      exact written_slots_iff.mpr htail
    · rintro ⟨⟨cs, hslots⟩, hlt, tail, htail, rfl⟩
      rw [hslots] at htail
      have hcount : (UInt16.ofNat p.count).toNat = p.count := UInt16.toNat_ofNat_of_lt' hlt
      have hlength := count_eq hslots
      refine ⟨UInt16.ofNat p.count, _, tail, rfl, ⟨?_, cs, hslots, ?_, ?_⟩, ?_⟩
      · intro hzero
        rw [hzero] at hcount
        change 0 = _ at hcount
        omega
      · rw [hcount]
        omega
      · exact written_slots_iff.mp htail
      · rw [be16_ofNat hlt]

/-- A pool that can be written has an index for every slot. -/
theorem isIndexed_of_bytes {p : Pool} {bytes : Bytes} (h : p.bytes = .ok bytes) :
    p.IsIndexed := by
  have hlt := (bytes_eq_ok.mp h).1
  unfold IsIndexed capacity
  omega

/-- So has a pool that was read. -/
theorem isIndexed_of_read {c c' : Cursor} {p : Pool} (h : read c = .ok p c') : p.IsIndexed := by
  obtain ⟨bytes, ⟨_, hbytes⟩, _⟩ := (spells_read c p c').mp h
  exact isIndexed_of_bytes hbytes

/-! ### Empty slots -/

/-- The slot holds a constant that takes two. -/
def HoldsWide (slot : Option Constant) : Prop := ∃ c, slot = some c ∧ c.isWide = true

@[simp] theorem not_holdsWide_none : ¬ HoldsWide none := by simp [HoldsWide]

@[simp] theorem holdsWide_some_iff {c : Constant} : HoldsWide (some c) ↔ c.isWide = true := by
  simp [HoldsWide]

/-- Exactly the slots behind wide constants are empty, the first one left aside. -/
def Spaced (slots : List (Option Constant)) : Prop :=
  ∀ i, slots[i + 1]? = some none ↔ ∃ c, slots[i]? = some (some c) ∧ c.isWide = true

theorem spaced_singleton_iff {x : Option Constant} : Spaced [x] ↔ ¬ HoldsWide x := by
  constructor
  · rintro h ⟨c, rfl, hwide⟩
    exact absurd ((h 0).mpr ⟨c, rfl, hwide⟩) (by simp)
  · intro hx i
    cases i with
    | zero => simpa [HoldsWide] using hx
    | succ i => simp

theorem spaced_cons_iff {x y : Option Constant} {rest : List (Option Constant)} :
    Spaced (x :: y :: rest) ↔ (y = none ↔ HoldsWide x) ∧ Spaced (y :: rest) := by
  constructor
  · intro h
    exact ⟨by simpa [HoldsWide] using h 0, fun i => h (i + 1)⟩
  · rintro ⟨hfirst, hrest⟩ i
    cases i with
    | zero => simpa [HoldsWide] using hfirst
    | succ i => exact hrest i

theorem spaced_spread {x : Option Constant} (hx : ¬ HoldsWide x) (cs : List Constant) :
    Spaced (x :: cs.flatMap spread) := by
  induction cs generalizing x with
  | nil => exact spaced_singleton_iff.mpr hx
  | cons c cs ih =>
    rw [List.flatMap_cons, spread]
    split
    next hwide =>
      simp only [List.cons_append, List.nil_append, spaced_cons_iff]
      exact ⟨by simp [hx], by simp [hwide], ih not_holdsWide_none⟩
    next hnarrow =>
      rw [List.singleton_append, spaced_cons_iff]
      exact ⟨by simp [hx], ih (by simpa using hnarrow)⟩

/-- Behind a slot that holds nothing wide stand the slots of constants. -/
theorem exists_spread_of_spaced {x : Option Constant} (hx : ¬ HoldsWide x)
    {rest : List (Option Constant)} (h : Spaced (x :: rest)) :
    ∃ cs : List Constant, rest = cs.flatMap spread := by
  match rest, h with
  | [], _ => exact ⟨[], rfl⟩
  | none :: _, h => exact absurd ((spaced_cons_iff.mp h).1.mp rfl) hx
  | some c :: rest, h =>
    have hbehind := (spaced_cons_iff.mp h).2
    by_cases hwide : c.isWide = true
    · match rest, hbehind with
      | [], hbehind =>
        exact absurd (holdsWide_some_iff.mpr hwide) (spaced_singleton_iff.mp hbehind)
      | y :: rest, hbehind =>
        obtain ⟨hempty, hrest⟩ := spaced_cons_iff.mp hbehind
        obtain rfl := hempty.mpr (holdsWide_some_iff.mpr hwide)
        obtain ⟨cs, rfl⟩ := exists_spread_of_spaced not_holdsWide_none hrest
        exact ⟨c :: cs, by simp [spread, hwide]⟩
    · obtain ⟨cs, rfl⟩ := exists_spread_of_spaced (by simpa using hwide) hbehind
      exact ⟨c :: cs, by simp [spread, hwide]⟩

/-- Slot 0 and exactly the slots behind wide constants are empty. -/
structure IsWellFormed (p : Pool) : Prop where
  first : p.slots[0]? = some none
  empty_iff : ∀ i, p.slots[i + 1]? = some none ↔
    ∃ c, p.slots[i]? = some (some c) ∧ c.isWide = true

theorem isShaped_iff {p : Pool} : p.IsShaped ↔ p.IsWellFormed := by
  have hspaced : Spaced p.slots.toList ↔ ∀ i, p.slots[i + 1]? = some none ↔
      ∃ c, p.slots[i]? = some (some c) ∧ c.isWide = true := by
    simp only [Spaced, Array.getElem?_toList]
  constructor
  · rintro ⟨cs, hslots⟩
    refine ⟨by rw [← Array.getElem?_toList, hslots]; rfl, hspaced.mp ?_⟩
    rw [hslots]
    exact spaced_spread not_holdsWide_none cs
  · rintro ⟨hfirst, hempty⟩
    rw [← Array.getElem?_toList, ← List.head?_eq_getElem?] at hfirst
    obtain ⟨rest, hslots⟩ := List.head?_eq_some_iff.mp hfirst
    have hrest := hspaced.mpr hempty
    rw [hslots] at hrest
    obtain ⟨cs, rfl⟩ := exists_spread_of_spaced not_holdsWide_none hrest
    exact ⟨cs, hslots⟩

end Pool

end ThreadWatch
