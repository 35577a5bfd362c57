import ThreadWatch.Proofs.Text.ModifiedUtf8

/-!
# Groups of bytes

Modified UTF-8 is read in groups of one to three bytes, each of them for one UTF-16 unit. Bytes are
text if they split into groups, which they do in one way at most; and they are what the text is
encoded as if every group is as short as it can be and no half of a surrogate pair stands alone.
-/

namespace ThreadWatch

namespace Units

/-- Every surrogate is half of a pair. -/
inductive Paired : List UInt16 → Prop
  | nil : Paired []
  | single {u : UInt16} {us : List UInt16} : isHigh u = false → isLow u = false → Paired us →
    Paired (u :: us)
  | pair {u v : UInt16} {us : List UInt16} : isHigh u = true → isLow v = true → Paired us →
    Paired (u :: v :: us)

theorem isHigh_iff {u : UInt16} : isHigh u = true ↔ 0xD800 ≤ u.toNat ∧ u.toNat ≤ 0xDBFF := by
  rw [isHigh, Bool.and_eq_true, decide_eq_true_eq, decide_eq_true_eq, UInt16.le_iff_toNat_le,
    UInt16.le_iff_toNat_le]
  rfl

theorem isLow_iff {u : UInt16} : isLow u = true ↔ 0xDC00 ≤ u.toNat ∧ u.toNat ≤ 0xDFFF := by
  rw [isLow, Bool.and_eq_true, decide_eq_true_eq, decide_eq_true_eq, UInt16.le_iff_toNat_le,
    UInt16.le_iff_toNat_le]
  rfl

/-! ### The units of characters -/

theorem toNat_ofNat_of_lt {n : Nat} (h : n < 0xD800 ∨ 0xDFFF < n ∧ n < 0x110000) :
    (Char.ofNat n).toNat = n := by
  have hvalid : n.isValidChar := by
    unfold Nat.isValidChar
    omega
  rw [Char.ofNat, dif_pos hvalid]
  rfl

/-- A unit that is no surrogate is the unit of its character. -/
theorem ofChar_single {u : UInt16} (hhigh : isHigh u = false) (hlow : isLow u = false) :
    ofChar (single u) = [u] := by
  have hlt : u.toNat < 65536 := u.toNat_lt
  have hplain : u.toNat < 0xD800 ∨ 0xDFFF < u.toNat ∧ u.toNat < 0x110000 := by
    rw [Bool.eq_false_iff, Ne, isHigh_iff] at hhigh
    rw [Bool.eq_false_iff, Ne, isLow_iff] at hlow
    omega
  rw [single, hhigh, hlow, Bool.or_false, if_neg Bool.false_ne_true, ofChar,
    toNat_ofNat_of_lt hplain, if_pos hlt, UInt16.ofNat_toNat]

/-- The halves of a pair are the units of its character. -/
theorem ofChar_pair {u v : UInt16} (hhigh : isHigh u = true) (hlow : isLow v = true) :
    ofChar (pair u v) = [u, v] := by
  obtain ⟨hu, hu'⟩ := isHigh_iff.mp hhigh
  obtain ⟨hv, hv'⟩ := isLow_iff.mp hlow
  rw [pair, ofChar, toNat_ofNat_of_lt (by omega), if_neg (by omega)]
  have hdivides : 0xD800 + (0x10000 + (u.toNat - 0xD800) * 0x400 + (v.toNat - 0xDC00) - 0x10000) /
      0x400 = u.toNat := by omega
  have hremains : 0xDC00 + (0x10000 + (u.toNat - 0xD800) * 0x400 + (v.toNat - 0xDC00) - 0x10000) %
      0x400 = v.toNat := by omega
  dsimp only
  rw [hdivides, hremains, UInt16.ofNat_toNat, UInt16.ofNat_toNat]

theorem chars_cons_of_not_high {u : UInt16} (h : isHigh u = false) (us : List UInt16) :
    chars (u :: us) = single u :: chars us := by
  cases us with
  | nil => rfl
  | cons v us => simp [chars, h]

/-- Where no surrogate stands alone, the characters have the units that they were read from. -/
theorem Paired.flatMap_chars {us : List UInt16} (h : Paired us) :
    (chars us).flatMap ofChar = us := by
  induction h with
  | nil => rfl
  | single hhigh hlow _ ih =>
    rw [chars_cons_of_not_high hhigh, List.flatMap_cons, ofChar_single hhigh hlow, ih]
    rfl
  | pair hhigh hlow _ ih =>
    rw [chars, hhigh, hlow, Bool.and_true, if_pos rfl, List.flatMap_cons, ofChar_pair hhigh hlow,
      ih]
    rfl

theorem Paired.ofChar_append {us : List UInt16} (h : Paired us) (c : Char) :
    Paired (ofChar c ++ us) := by
  have hbounds := toNat_bounds c
  by_cases hbasic : c.toNat < 0x10000
  · have hunits : ofChar c = [UInt16.ofNat c.toNat] := if_pos hbasic
    have hvalue : (UInt16.ofNat c.toNat).toNat = c.toNat := UInt16.toNat_ofNat_of_lt' hbasic
    rw [hunits]
    refine .single (single_ofNat hbasic).1 ?_ h
    rw [Bool.eq_false_iff, Ne, isLow_iff, hvalue]
    omega
  · obtain ⟨hhigh, hlow, _⟩ := pair_ofNat (Nat.not_lt.mp hbasic)
    have hunits : ofChar c = [UInt16.ofNat (0xD800 + (c.toNat - 0x10000) / 0x400),
        UInt16.ofNat (0xDC00 + (c.toNat - 0x10000) % 0x400)] := if_neg hbasic
    rw [hunits]
    exact .pair hhigh hlow h

theorem paired_flatMap (cs : List Char) : Paired (cs.flatMap ofChar) := by
  induction cs with
  | nil => exact .nil
  | cons c cs ih =>
    rw [List.flatMap_cons]
    exact ih.ofChar_append c

end Units

namespace ModifiedUtf8

/-! ### Groups -/

/-- A byte behind the first of its group. -/
abbrev Follows (b : UInt8) : Prop := 0x80 ≤ b.toNat ∧ b.toNat ≤ 0xBF

theorem isPlain_iff {a : UInt8} : isPlain a = true ↔ 0x01 ≤ a.toNat ∧ a.toNat ≤ 0x7F := by
  rw [isPlain, Bool.and_eq_true, decide_eq_true_eq, decide_eq_true_eq, UInt8.le_iff_toNat_le,
    UInt8.le_iff_toNat_le]
  rfl

theorem leadsTwo_iff {a : UInt8} : leadsTwo a = true ↔ 0xC0 ≤ a.toNat ∧ a.toNat ≤ 0xDF := by
  rw [leadsTwo, Bool.and_eq_true, decide_eq_true_eq, decide_eq_true_eq, UInt8.le_iff_toNat_le,
    UInt8.le_iff_toNat_le]
  rfl

theorem leadsThree_iff {a : UInt8} : leadsThree a = true ↔ 0xE0 ≤ a.toNat ∧ a.toNat ≤ 0xEF := by
  rw [leadsThree, Bool.and_eq_true, decide_eq_true_eq, decide_eq_true_eq, UInt8.le_iff_toNat_le,
    UInt8.le_iff_toNat_le]
  rfl

theorem continues_iff {b : UInt8} : continues b = true ↔ Follows b := by
  have hall : ∀ n < 256, continues (UInt8.ofNat n) = true ↔
      0x80 ≤ (UInt8.ofNat n).toNat ∧ (UInt8.ofNat n).toNat ≤ 0xBF := by decide +kernel
  rw [← UInt8.ofNat_toNat (x := b)]
  exact hall b.toNat b.toNat_lt

/-- The bytes that stand for one unit. -/
inductive Group where
  | one (a : UInt8) (first : 0x01 ≤ a.toNat ∧ a.toNat ≤ 0x7F)
  | two (a b : UInt8) (first : 0xC0 ≤ a.toNat ∧ a.toNat ≤ 0xDF) (second : Follows b)
  | three (a b c : UInt8) (first : 0xE0 ≤ a.toNat ∧ a.toNat ≤ 0xEF) (second : Follows b)
    (third : Follows c)

namespace Group

def bytes : Group → Bytes
  | one a _ => [a]
  | two a b _ _ => [a, b]
  | three a b c _ _ _ => [a, b, c]

/-- Six bits in each byte but the first. -/
def unit : Group → UInt16
  | one a _ => UInt16.ofNat a.toNat
  | two a b _ _ => UInt16.ofNat ((a.toNat - 0xC0) * 64 + (b.toNat - 0x80))
  | three a b c _ _ _ =>
    UInt16.ofNat ((a.toNat - 0xE0) * 4096 + (b.toNat - 0x80) * 64 + (c.toNat - 0x80))

/-- No shorter group is for the same unit; zero has no group of one byte. -/
def IsShortest : Group → Prop
  | one _ _ => True
  | g@(two _ _ _ _) => g.unit.toNat = 0 ∨ 0x80 ≤ g.unit.toNat ∧ g.unit.toNat ≤ 0x7FF
  | g@(three _ _ _ _ _ _) => 0x800 ≤ g.unit.toNat

/-- The first byte tells how many belong to its group. -/
theorem bytes_append_inj {g g' : Group} {rest rest' : Bytes}
    (h : g.bytes ++ rest = g'.bytes ++ rest') : g = g' ∧ rest = rest' := by
  cases g with
  | one a first =>
    cases g' with
    | one a' first' =>
      cases h
      exact ⟨rfl, rfl⟩
    | two a' b' first' =>
      cases h
      omega
    | three a' b' c' first' =>
      cases h
      omega
  | two a b first =>
    cases g' with
    | one a' first' =>
      cases h
      omega
    | two a' b' first' =>
      cases h
      exact ⟨rfl, rfl⟩
    | three a' b' c' first' =>
      cases h
      omega
  | three a b c first =>
    cases g' with
    | one a' first' =>
      cases h
      omega
    | two a' b' first' =>
      cases h
      omega
    | three a' b' c' first' =>
      cases h
      exact ⟨rfl, rfl⟩

theorem bytes_ne_nil (g : Group) : g.bytes ≠ [] := by
  cases g <;> exact List.cons_ne_nil _ _

/-- Bytes split into groups in one way at most. -/
theorem flatMap_bytes_injective {groups groups' : List Group}
    (h : groups.flatMap bytes = groups'.flatMap bytes) : groups = groups' := by
  induction groups generalizing groups' with
  | nil =>
    cases groups' with
    | nil => rfl
    | cons g' groups' =>
      rw [List.flatMap_nil, List.flatMap_cons, eq_comm, List.append_eq_nil_iff] at h
      exact absurd h.1 g'.bytes_ne_nil
  | cons g groups ih =>
    cases groups' with
    | nil =>
      rw [List.flatMap_nil, List.flatMap_cons, List.append_eq_nil_iff] at h
      exact absurd h.1 g.bytes_ne_nil
    | cons g' groups' =>
      rw [List.flatMap_cons, List.flatMap_cons] at h
      obtain ⟨rfl, hrest⟩ := bytes_append_inj h
      rw [ih hrest]

/-! ### What a group stands for -/

section Bits

variable {a b c : UInt8}

theorem eq_lead2 (h : 0xC0 ≤ a.toNat ∧ a.toNat ≤ 0xDF) :
    a.toNat - 0xC0 < 32 ∧ a = lead2 (a.toNat - 0xC0) := by
  refine ⟨by omega, ?_⟩
  rw [lead2, Nat.add_sub_cancel' h.1, UInt8.ofNat_toNat]

theorem eq_lead3 (h : 0xE0 ≤ a.toNat ∧ a.toNat ≤ 0xEF) :
    a.toNat - 0xE0 < 16 ∧ a = lead3 (a.toNat - 0xE0) := by
  refine ⟨by omega, ?_⟩
  rw [lead3, Nat.add_sub_cancel' h.1, UInt8.ofNat_toNat]

theorem eq_follow (h : Follows b) : b.toNat - 0x80 < 64 ∧ b = follow (b.toNat - 0x80) := by
  obtain ⟨hlow, hhigh⟩ := h
  refine ⟨by omega, ?_⟩
  rw [follow, Nat.add_sub_cancel' hlow, UInt8.ofNat_toNat]

theorem toNat_unit_one (first : 0x01 ≤ a.toNat ∧ a.toNat ≤ 0x7F) :
    (one a first).unit.toNat = a.toNat :=
  UInt16.toNat_ofNat_of_lt' (by
    change a.toNat < 65536
    omega)

theorem toNat_unit_two (first : 0xC0 ≤ a.toNat ∧ a.toNat ≤ 0xDF) (second : Follows b) :
    (two a b first second).unit.toNat = (a.toNat - 0xC0) * 64 + (b.toNat - 0x80) := by
  have hb := (eq_follow second).1
  refine UInt16.toNat_ofNat_of_lt' ?_
  change _ < 65536
  omega

theorem toNat_unit_three (first : 0xE0 ≤ a.toNat ∧ a.toNat ≤ 0xEF) (second : Follows b)
    (third : Follows c) : (three a b c first second third).unit.toNat =
      (a.toNat - 0xE0) * 4096 + (b.toNat - 0x80) * 64 + (c.toNat - 0x80) := by
  have hb := (eq_follow second).1
  have hc := (eq_follow third).1
  refine UInt16.toNat_ofNat_of_lt' ?_
  change _ < 65536
  omega

theorem unit2_eq (first : 0xC0 ≤ a.toNat ∧ a.toNat ≤ 0xDF) (second : Follows b) :
    unit2 a b = (two a b first second).unit := by
  obtain ⟨hm, ha⟩ := eq_lead2 first
  obtain ⟨hn, hb⟩ := eq_follow second
  rw [← UInt16.toNat_inj, toNat_unit_two, ← unit2_spec hm hn, ← ha, ← hb]

theorem unit3_eq (first : 0xE0 ≤ a.toNat ∧ a.toNat ≤ 0xEF) (second : Follows b)
    (third : Follows c) : unit3 a b c = (three a b c first second third).unit := by
  obtain ⟨hl, ha⟩ := eq_lead3 first
  obtain ⟨hm, hb⟩ := eq_follow second
  obtain ⟨hn, hc⟩ := eq_follow third
  rw [← UInt16.toNat_inj, toNat_unit_three, ← unit3_spec hl hm hn, ← ha, ← hb, ← hc]

end Bits

/-! ### Reading groups -/

/-- A group is read as its unit, whatever follows. -/
theorem unitsFrom_bytes (g : Group) (pos : Nat) (rest : Bytes) :
    unitsFrom pos (g.bytes ++ rest) =
      (g.unit :: ·) <$> unitsFrom (pos + g.bytes.length) rest := by
  cases g with
  | one a first =>
    have hunit : a.toUInt16 = (one a first).unit := by
      rw [← UInt16.toNat_inj, toNat_unit_one, UInt8.toNat_toUInt16]
    rw [bytes, List.singleton_append, unitsFrom.eq_def]
    dsimp only
    rw [if_pos (isPlain_iff.mpr first), hunit]
    rfl
  | two a b first second =>
    have hplain : ¬ isPlain a = true := by
      rw [isPlain_iff]
      omega
    rw [bytes, List.cons_append, List.singleton_append, unitsFrom.eq_def]
    dsimp only
    rw [if_neg hplain, if_pos (leadsTwo_iff.mpr first), if_pos (continues_iff.mpr second),
      unit2_eq first second]
    rfl
  | three a b c first second third =>
    have hplain : ¬ isPlain a = true := by
      rw [isPlain_iff]
      omega
    have htwo : ¬ leadsTwo a = true := by
      rw [leadsTwo_iff]
      omega
    rw [bytes, List.cons_append, List.cons_append, List.singleton_append, unitsFrom.eq_def]
    dsimp only
    rw [if_neg hplain, if_neg htwo, if_pos (leadsThree_iff.mpr first),
      continues_iff.mpr second, if_pos (continues_iff.mpr third), unit3_eq first second third]
    rfl

theorem unitsFrom_flatMap (groups : List Group) (pos : Nat) :
    unitsFrom pos (groups.flatMap bytes) = .ok (groups.map unit) := by
  induction groups generalizing pos with
  | nil => rfl
  | cons g groups ih =>
    rw [List.flatMap_cons, unitsFrom_bytes, ih]
    rfl

theorem exists_groups_append {rest : Bytes} (g : Group)
    (h : ∃ groups : List Group, rest = groups.flatMap bytes) :
    ∃ groups : List Group, g.bytes ++ rest = groups.flatMap bytes := by
  obtain ⟨groups, rfl⟩ := h
  exact ⟨g :: groups, rfl⟩

/-- What is read splits into groups. -/
theorem exists_groups {data : Bytes} {pos : Nat} {us : List UInt16}
    (h : unitsFrom pos data = .ok us) : ∃ groups : List Group, data = groups.flatMap bytes := by
  fun_induction unitsFrom pos data generalizing us with
  | case1 => exact ⟨[], rfl⟩
  | case2 pos a rest hplain ih =>
    obtain ⟨_, hrest, _⟩ := map_eq_ok.mp h
    exact exists_groups_append (.one a (isPlain_iff.mp hplain)) (ih hrest)
  | case3 pos a _ htwo b rest hsecond ih =>
    obtain ⟨_, hrest, _⟩ := map_eq_ok.mp h
    exact exists_groups_append (.two a b (leadsTwo_iff.mp htwo) (continues_iff.mp hsecond))
      (ih hrest)
  | case7 pos a _ _ hthree b c rest hsecond hthird ih =>
    obtain ⟨_, hrest, _⟩ := map_eq_ok.mp h
    rw [Bool.not_eq_true, Bool.not_eq_false'] at hsecond
    exact exists_groups_append (.three a b c (leadsThree_iff.mp hthree)
      (continues_iff.mp hsecond) (continues_iff.mp hthird)) (ih hrest)
  | _ => cases h

/-! ### Writing groups -/

/-- A unit is written as a group that is read as it. -/
theorem exists_bytes_eq_encodeUnit (u : UInt16) :
    ∃ g : Group, g.unit = u ∧ g.bytes = encodeUnit u := by
  have hread : unitsFrom 0 (encodeUnit u) = .ok [u] := by
    rw [← List.append_nil (encodeUnit u), unitsFrom_encodeUnit]
    rfl
  obtain ⟨groups, hgroups⟩ := exists_groups hread
  rw [hgroups, unitsFrom_flatMap] at hread
  obtain ⟨g, rfl, hunit⟩ := List.map_eq_singleton_iff.mp (Except.ok.inj hread)
  refine ⟨g, hunit, ?_⟩
  rw [hgroups, List.flatMap_singleton]

section Shortest

variable {a b c : UInt8}

theorem isShortest_two_iff (first : 0xC0 ≤ a.toNat ∧ a.toNat ≤ 0xDF) (second : Follows b) :
    (two a b first second).IsShortest ↔ encodeUnit (two a b first second).unit = [a, b] := by
  obtain ⟨hm, ha⟩ := eq_lead2 first
  obtain ⟨hn, hb⟩ := eq_follow second
  have hunit := toNat_unit_two first second
  dsimp only [IsShortest]
  generalize (two a b first second).unit = u at hunit ⊢
  constructor
  · intro hshort
    have hquotient : u.toNat / 64 = a.toNat - 0xC0 := by omega
    have hremainder : u.toNat % 64 = b.toNat - 0x80 := by omega
    rw [encodeUnit_of_two (by omega) (by omega), hquotient, hremainder, ← ha, ← hb]
  · intro hwritten
    by_contra hlong
    rw [encodeUnit_of_plain (by omega) (by omega)] at hwritten
    cases hwritten

theorem isShortest_three_iff (first : 0xE0 ≤ a.toNat ∧ a.toNat ≤ 0xEF) (second : Follows b)
    (third : Follows c) : (three a b c first second third).IsShortest ↔
      encodeUnit (three a b c first second third).unit = [a, b, c] := by
  obtain ⟨hl, ha⟩ := eq_lead3 first
  obtain ⟨hm, hb⟩ := eq_follow second
  obtain ⟨hn, hc⟩ := eq_follow third
  have hunit := toNat_unit_three first second third
  dsimp only [IsShortest]
  generalize (three a b c first second third).unit = u at hunit ⊢
  constructor
  · intro hshort
    have hquotient : u.toNat / 4096 = a.toNat - 0xE0 := by omega
    have hmiddle : u.toNat / 64 % 64 = b.toNat - 0x80 := by omega
    have hremainder : u.toNat % 64 = c.toNat - 0x80 := by omega
    rw [encodeUnit_of_three (by omega), hquotient, hmiddle, hremainder, ← ha, ← hb, ← hc]
  · intro hwritten
    by_contra hlong
    by_cases hplain : 1 ≤ u.toNat ∧ u.toNat ≤ 0x7F
    · rw [encodeUnit_of_plain hplain.1 hplain.2] at hwritten
      cases hwritten
    · rw [encodeUnit_of_two hplain (by omega)] at hwritten
      cases hwritten

end Shortest

/-- The shortest group of a unit is the one it is written as. -/
theorem isShortest_iff (g : Group) : g.IsShortest ↔ encodeUnit g.unit = g.bytes := by
  cases g with
  | one a first =>
    have hunit := toNat_unit_one first
    refine iff_of_true trivial ?_
    rw [encodeUnit_of_plain (by omega) (by omega), hunit, UInt8.ofNat_toNat]
    rfl
  | two a b first second => exact isShortest_two_iff first second
  | three a b c first second third => exact isShortest_three_iff first second third

/-- Groups are what their units are written as if all of them are shortest. -/
theorem forall_isShortest_iff (groups : List Group) : (∀ g ∈ groups, g.IsShortest) ↔
    (groups.map unit).flatMap encodeUnit = groups.flatMap bytes := by
  induction groups with
  | nil => simp
  | cons g groups ih =>
    rw [List.forall_mem_cons, List.map_cons, List.flatMap_cons, List.flatMap_cons, isShortest_iff,
      ih]
    constructor
    · rintro ⟨hg, hgroups⟩
      rw [hg, hgroups]
    · intro h
      obtain ⟨g', _, hg'⟩ := exists_bytes_eq_encodeUnit g.unit
      rw [← hg'] at h ⊢
      obtain ⟨rfl, hgroups⟩ := bytes_append_inj h
      exact ⟨rfl, hgroups⟩

/-- As they are written: each group is the shortest of its unit, each surrogate half of a pair. -/
structure Canonical (groups : List Group) : Prop where
  shortest : ∀ g ∈ groups, g.IsShortest
  paired : Units.Paired (groups.map unit)

end Group

/-! ### Plain bytes -/

theorem unitsFrom_of_plain {data : Bytes} (h : data.all isPlain = true) (pos : Nat) :
    unitsFrom pos data = .ok (data.map UInt8.toUInt16) := by
  induction data generalizing pos with
  | nil => rfl
  | cons a data ih =>
    rw [List.all_cons, Bool.and_eq_true] at h
    rw [unitsFrom.eq_def]
    dsimp only
    rw [if_pos h.1, ih h.2]
    rfl

theorem chars_of_plain {data : Bytes} (h : data.all isPlain = true) :
    Units.chars (data.map UInt8.toUInt16) = data.map fun a => Char.ofNat a.toNat := by
  induction data with
  | nil => rfl
  | cons a data ih =>
    rw [List.all_cons, Bool.and_eq_true, isPlain_iff] at h
    have hhigh : Units.isHigh a.toUInt16 = false := by
      rw [Bool.eq_false_iff, Ne, Units.isHigh_iff, UInt8.toNat_toUInt16]
      omega
    have hlow : Units.isLow a.toUInt16 = false := by
      rw [Bool.eq_false_iff, Ne, Units.isLow_iff, UInt8.toNat_toUInt16]
      omega
    rw [List.map_cons, Units.chars_cons_of_not_high hhigh, ih h.2, List.map_cons, Units.single,
      hhigh, hlow, UInt8.toNat_toUInt16]
    rfl

/-- Plain bytes are read as they would be among others. -/
theorem decode_eq (data : Bytes) :
    decode data = (fun us => String.ofList (Units.chars us)) <$> units data := by
  unfold decode
  split
  next hplain =>
    rw [units, unitsFrom_of_plain hplain, ← chars_of_plain hplain]
    rfl
  next => cases units data <;> rfl

/-! ### Text and bytes -/

/-- Encoded text is read as itself. Bytes are read if they split into groups, plain bytes like any
others; and the text that is read is encoded as the same bytes just if the groups are canonical.
No other groups are the same bytes. -/
theorem encode_decode_iff_canonical :
    (∀ text, decode (encode text) = .ok text) ∧
    (∀ data, (∃ text, decode data = .ok text) ↔
      ∃ groups : List Group, data = groups.flatMap Group.bytes) ∧
    (∀ data, decode data = (fun us => String.ofList (Units.chars us)) <$> units data) ∧
    (∀ (groups : List Group) (text : String), decode (groups.flatMap Group.bytes) = .ok text →
      (encode text = groups.flatMap Group.bytes ↔ Group.Canonical groups)) ∧
    ∀ groups groups' : List Group,
      groups.flatMap Group.bytes = groups'.flatMap Group.bytes → groups = groups' := by
  refine ⟨decode_encode, fun data => ⟨?_, ?_⟩, decode_eq, fun groups text htext => ?_,
    fun _ _ => Group.flatMap_bytes_injective⟩
  · rintro ⟨text, htext⟩
    rw [decode_eq] at htext
    obtain ⟨_, hunits, _⟩ := map_eq_ok.mp htext
    exact Group.exists_groups hunits
  · rintro ⟨groups, rfl⟩
    rw [decode_eq, units, Group.unitsFrom_flatMap]
    exact ⟨_, rfl⟩
  · rw [decode_eq, units, Group.unitsFrom_flatMap] at htext
    obtain rfl : String.ofList (Units.chars (groups.map Group.unit)) = text := Except.ok.inj htext
    rw [encode_eq, String.toList_ofList]
    constructor
    · intro hsame
      -- the groups are read as the units of the text, in which no surrogate stands alone
      have hunits := Group.unitsFrom_flatMap groups 0
      rw [← hsame, unitsFrom_flatMap] at hunits
      have hpaired := Units.paired_flatMap (Units.chars (groups.map Group.unit))
      rw [Except.ok.inj hunits] at hsame hpaired
      exact ⟨(Group.forall_isShortest_iff groups).mpr hsame, hpaired⟩
    · rintro ⟨hshortest, hpaired⟩
      rw [hpaired.flatMap_chars, (Group.forall_isShortest_iff groups).mp hshortest]

namespace Group

/-- Zero, as it is written. -/
def zero : Group := .two 0xC0 0x80 (by decide) (by decide)

def highHalf : Group := .three 0xED 0xA0 0xBD (by decide) (by decide) (by decide)

def lowHalf : Group := .three 0xED 0xB8 0x80 (by decide) (by decide) (by decide)

end Group

/-- A pair is kept, but half of it is lost. -/
theorem encode_decode_iff_canonical_halves :
    decode ([Group.zero, Group.highHalf, Group.lowHalf].flatMap Group.bytes) = .ok "\x00😀" ∧
      Group.Canonical [Group.zero, Group.highHalf, Group.lowHalf] ∧
      decode ([Group.zero, Group.highHalf].flatMap Group.bytes) = .ok "\x00\uFFFD" ∧
      ¬ Group.Canonical [Group.zero, Group.highHalf] := by
  have hpair : decode ([Group.zero, Group.highHalf, Group.lowHalf].flatMap Group.bytes) =
      .ok "\x00😀" := by decide +kernel
  have hhalf : decode ([Group.zero, Group.highHalf].flatMap Group.bytes) = .ok "\x00\uFFFD" := by
    decide +kernel
  obtain ⟨_, _, _, hcanonical, _⟩ := encode_decode_iff_canonical
  refine ⟨hpair, (hcanonical _ _ hpair).mp (by decide +kernel), hhalf, fun hnot => ?_⟩
  exact absurd ((hcanonical _ _ hhalf).mpr hnot) (by decide +kernel)

end ModifiedUtf8

end ThreadWatch
