import ThreadWatch.Text.ModifiedUtf8
import ThreadWatch.Proofs.Fallible

/-!
# Text survives its encoding

What is encoded as modified UTF-8 is decoded to the same text: unit by unit first, then character
by character.
-/

namespace ThreadWatch

namespace ModifiedUtf8

/-- The first of two bytes, with the five bits it carries. -/
def lead2 (n : Nat) : UInt8 := UInt8.ofNat (0xC0 + n)

/-- The first of three bytes, with the four bits it carries. -/
def lead3 (n : Nat) : UInt8 := UInt8.ofNat (0xE0 + n)

/-- A byte behind the first, with the six bits it carries. -/
def follow (n : Nat) : UInt8 := UInt8.ofNat (0x80 + n)

theorem plain_spec : ∀ n < 128, 1 ≤ n → isPlain (UInt8.ofNat n) = true ∧
    (UInt8.ofNat n).toUInt16.toNat = n := by decide

theorem lead2_spec : ∀ n < 32, isPlain (lead2 n) = false ∧ leadsTwo (lead2 n) = true ∧
    (lead2 n &&& 0x1F).toNat = n ∧ UInt8.ofNat n ||| 0xC0 = lead2 n := by decide

theorem lead3_spec : ∀ n < 16, isPlain (lead3 n) = false ∧ leadsTwo (lead3 n) = false ∧
    leadsThree (lead3 n) = true ∧ (lead3 n &&& 0x0F).toNat = n ∧
    UInt8.ofNat n ||| 0xE0 = lead3 n := by decide

theorem follow_spec : ∀ n < 64, continues (follow n) = true ∧ (follow n &&& 0x3F).toNat = n ∧
    UInt8.ofNat n ||| 0x80 = follow n := by decide

theorem toUInt8_eq_ofNat (u : UInt16) : u.toUInt8 = UInt8.ofNat u.toNat := by
  apply UInt8.toNat_inj.mp
  simp

theorem encodeUnit_of_plain {u : UInt16} (hlow : 1 ≤ u.toNat) (hhigh : u.toNat ≤ 0x7F) :
    encodeUnit u = [UInt8.ofNat u.toNat] := by
  have hplain : 1 ≤ u ∧ u ≤ 0x7F := ⟨UInt16.le_iff_toNat_le.mpr hlow, UInt16.le_iff_toNat_le.mpr hhigh⟩
  rw [encodeUnit, if_pos (by simpa using hplain), toUInt8_eq_ofNat]

theorem toNat_shift6 (u : UInt16) : (u >>> 6).toNat = u.toNat / 64 := by
  simp [UInt16.toNat_shiftRight, Nat.shiftRight_eq_div_pow]

theorem toNat_shift12 (u : UInt16) : (u >>> 12).toNat = u.toNat / 4096 := by
  simp [UInt16.toNat_shiftRight, Nat.shiftRight_eq_div_pow]

theorem toNat_low6 (u : UInt16) : (u &&& 0x3F).toNat = u.toNat % 64 := by
  rw [UInt16.toNat_and]
  exact Nat.and_two_pow_sub_one_eq_mod u.toNat 6

theorem encodeUnit_of_two {u : UInt16} (hlow : ¬ (1 ≤ u.toNat ∧ u.toNat ≤ 0x7F))
    (hhigh : u.toNat ≤ 0x7FF) :
    encodeUnit u = [lead2 (u.toNat / 64), follow (u.toNat % 64)] := by
  have hplain : ¬ (1 ≤ u ∧ u ≤ 0x7F) := by
    rwa [UInt16.le_iff_toNat_le, UInt16.le_iff_toNat_le]
  have htwo : u ≤ 0x7FF := UInt16.le_iff_toNat_le.mpr hhigh
  rw [encodeUnit, if_neg (by simpa using hplain), if_pos htwo, toUInt8_eq_ofNat, toUInt8_eq_ofNat,
    toNat_shift6, toNat_low6, (lead2_spec _ (by omega)).2.2.2, (follow_spec _ (by omega)).2.2]

theorem encodeUnit_of_three {u : UInt16} (hlow : 0x7FF < u.toNat) :
    encodeUnit u = [lead3 (u.toNat / 4096), follow (u.toNat / 64 % 64), follow (u.toNat % 64)] := by
  have hplain : ¬ (1 ≤ u ∧ u ≤ 0x7F) := by
    rw [UInt16.le_iff_toNat_le, UInt16.le_iff_toNat_le]
    change ¬ (1 ≤ u.toNat ∧ u.toNat ≤ 0x7F)
    omega
  have htwo : ¬ u ≤ 0x7FF := by
    rw [UInt16.le_iff_toNat_le]
    change ¬ u.toNat ≤ 0x7FF
    omega
  have hlt : u.toNat < 65536 := u.toNat_lt
  rw [encodeUnit, if_neg (by simpa using hplain), if_neg htwo, toUInt8_eq_ofNat, toUInt8_eq_ofNat,
    toUInt8_eq_ofNat, toNat_shift12, toNat_low6, toNat_low6, toNat_shift6,
    (lead3_spec _ (by omega)).2.2.2.2, (follow_spec _ (by omega)).2.2,
    (follow_spec _ (by omega)).2.2]

theorem shift6_or {m n : Nat} (hm : m < 1024) (hn : n < 64) :
    m <<< 6 % 65536 ||| n = m * 64 + n := by
  have hshift : m <<< 6 % 65536 = m <<< 6 := by
    rw [Nat.shiftLeft_eq]
    omega
  rw [hshift, ← Nat.shiftLeft_add_eq_or_of_lt hn, Nat.shiftLeft_eq]

theorem shift12_or {l n : Nat} (hl : l < 16) (hn : n < 4096) :
    l <<< 12 % 65536 ||| n = l * 4096 + n := by
  have hshift : l <<< 12 % 65536 = l <<< 12 := by
    rw [Nat.shiftLeft_eq]
    omega
  rw [hshift, ← Nat.shiftLeft_add_eq_or_of_lt hn, Nat.shiftLeft_eq]

theorem unit2_spec {m n : Nat} (hm : m < 32) (hn : n < 64) :
    (unit2 (lead2 m) (follow n)).toNat = m * 64 + n := by
  have hlead := (lead2_spec m hm).2.2.1
  have hfollow := (follow_spec n hn).2.1
  simp only [unit2, UInt16.toNat_or, UInt16.toNat_shiftLeft, UInt8.toNat_toUInt16, hlead, hfollow]
  exact shift6_or (by omega) hn

theorem unit3_spec {l m n : Nat} (hl : l < 16) (hm : m < 64) (hn : n < 64) :
    (unit3 (lead3 l) (follow m) (follow n)).toNat = l * 4096 + m * 64 + n := by
  have hlead := (lead3_spec l hl).2.2.2.1
  have hmiddle := (follow_spec m hm).2.1
  have hlast := (follow_spec n hn).2.1
  simp only [unit3, UInt16.toNat_or, UInt16.toNat_shiftLeft, UInt8.toNat_toUInt16, hlead, hmiddle,
    hlast, Nat.or_assoc]
  calc _ = l <<< 12 % 65536 ||| (m * 64 + n) := congrArg _ (shift6_or (by omega) hn)
    _ = l * 4096 + (m * 64 + n) := shift12_or hl (by omega)
    _ = l * 4096 + m * 64 + n := (Nat.add_assoc _ _ _).symm

/-- The units are read back one by one, wherever they stand. -/
theorem unitsFrom_encodeUnit (u : UInt16) (pos : Nat) (rest : Bytes) :
    unitsFrom pos (encodeUnit u ++ rest) =
      (u :: ·) <$> unitsFrom (pos + (encodeUnit u).length) rest := by
  have hlt : u.toNat < 65536 := u.toNat_lt
  by_cases hplain : 1 ≤ u.toNat ∧ u.toNat ≤ 0x7F
  · obtain ⟨hbyte, hvalue⟩ := plain_spec u.toNat (by omega) hplain.1
    have hunit : (UInt8.ofNat u.toNat).toUInt16 = u := UInt16.toNat_inj.mp hvalue
    rw [encodeUnit_of_plain hplain.1 hplain.2, List.cons_append, List.nil_append, unitsFrom.eq_def]
    simp only [hbyte, hunit]
    rfl
  · by_cases htwo : u.toNat ≤ 0x7FF
    · obtain ⟨hfirst, hleads, _, _⟩ := lead2_spec (u.toNat / 64) (by omega)
      obtain ⟨hfollows, _, _⟩ := follow_spec (u.toNat % 64) (by omega)
      have hunit : unit2 (lead2 (u.toNat / 64)) (follow (u.toNat % 64)) = u := by
        apply UInt16.toNat_inj.mp
        rw [unit2_spec (by omega) (by omega)]
        omega
      rw [encodeUnit_of_two hplain htwo]
      simp only [List.cons_append, List.nil_append, unitsFrom, hfirst, hleads, hfollows, hunit]
      rfl
    · obtain ⟨hfirst, hnot, hleads, _, _⟩ := lead3_spec (u.toNat / 4096) (by omega)
      obtain ⟨hmiddle, _, _⟩ := follow_spec (u.toNat / 64 % 64) (by omega)
      obtain ⟨hlast, _, _⟩ := follow_spec (u.toNat % 64) (by omega)
      have hunit : unit3 (lead3 (u.toNat / 4096)) (follow (u.toNat / 64 % 64))
          (follow (u.toNat % 64)) = u := by
        apply UInt16.toNat_inj.mp
        rw [unit3_spec (by omega) (by omega) (by omega)]
        omega
      rw [encodeUnit_of_three (by omega)]
      simp only [List.cons_append, List.nil_append, unitsFrom, hfirst, hnot, hleads, hmiddle, hlast,
        hunit]
      rfl

theorem unitsFrom_flatMap (us : List UInt16) (pos : Nat) :
    unitsFrom pos (us.flatMap encodeUnit) = .ok us := by
  induction us generalizing pos with
  | nil => rfl
  | cons u us ih =>
    rw [List.flatMap_cons, unitsFrom_encodeUnit, ih]
    rfl

end ModifiedUtf8

namespace Units

theorem toNat_bounds (c : Char) :
    c.toNat < 0x110000 ∧ ¬ (0xD800 ≤ c.toNat ∧ c.toNat ≤ 0xDFFF) := by
  have hvalid := c.valid
  simp only [UInt32.isValidChar, Nat.isValidChar] at hvalid
  have hvalue : c.val.toNat = c.toNat := rfl
  omega

theorem single_ofNat {c : Char} (hbasic : c.toNat < 0x10000) :
    isHigh (UInt16.ofNat c.toNat) = false ∧ single (UInt16.ofNat c.toNat) = c := by
  have hbounds := toNat_bounds c
  have hvalue : (UInt16.ofNat c.toNat).toNat = c.toNat := UInt16.toNat_ofNat_of_lt' hbasic
  have hhigh : isHigh (UInt16.ofNat c.toNat) = false := by
    simp [isHigh, UInt16.le_iff_toNat_le, hvalue]
    omega
  have hlow : isLow (UInt16.ofNat c.toNat) = false := by
    simp [isLow, UInt16.le_iff_toNat_le, hvalue]
    omega
  refine ⟨hhigh, ?_⟩
  simp [single, hhigh, hlow, hvalue]

theorem pair_ofNat {c : Char} (hbeyond : 0x10000 ≤ c.toNat) :
    isHigh (UInt16.ofNat (0xD800 + (c.toNat - 0x10000) / 0x400)) = true ∧
      isLow (UInt16.ofNat (0xDC00 + (c.toNat - 0x10000) % 0x400)) = true ∧
      pair (UInt16.ofNat (0xD800 + (c.toNat - 0x10000) / 0x400))
        (UInt16.ofNat (0xDC00 + (c.toNat - 0x10000) % 0x400)) = c := by
  have hbounds := toNat_bounds c
  have hhigh : (UInt16.ofNat (0xD800 + (c.toNat - 0x10000) / 0x400)).toNat =
      0xD800 + (c.toNat - 0x10000) / 0x400 := UInt16.toNat_ofNat_of_lt' (by
    change _ < 65536
    omega)
  have hlow : (UInt16.ofNat (0xDC00 + (c.toNat - 0x10000) % 0x400)).toNat =
      0xDC00 + (c.toNat - 0x10000) % 0x400 := UInt16.toNat_ofNat_of_lt' (by
    change _ < 65536
    omega)
  simp only [isHigh, isLow, pair, UInt16.le_iff_toNat_le, hhigh, hlow, Bool.and_eq_true,
    decide_eq_true_eq]
  refine ⟨⟨?_, ?_⟩, ⟨?_, ?_⟩, ?_⟩
  · exact Nat.le_add_right _ _
  · change _ ≤ 0xDBFF
    omega
  · exact Nat.le_add_right _ _
  · change _ ≤ 0xDFFF
    omega
  · have hvalue : 0x10000 + (0xD800 + (c.toNat - 0x10000) / 0x400 - 0xD800) * 0x400 +
        (0xDC00 + (c.toNat - 0x10000) % 0x400 - 0xDC00) = c.toNat := by omega
    rw [hvalue, Char.ofNat_toNat]

/-- The units of a character are read as that character, whatever follows. -/
theorem chars_ofChar (c : Char) (rest : List UInt16) :
    chars (ofChar c ++ rest) = c :: chars rest := by
  unfold ofChar
  by_cases hbasic : c.toNat < 0x10000
  · obtain ⟨hhigh, hsingle⟩ := single_ofNat hbasic
    simp only [hbasic, if_true, List.cons_append, List.nil_append]
    cases rest with
    | nil => simp [chars, hsingle]
    | cons v rest => simp [chars, hhigh, hsingle]
  · obtain ⟨hhigh, hlow, hpair⟩ := pair_ofNat (Nat.not_lt.mp hbasic)
    simp only [hbasic, if_false, List.cons_append, List.nil_append]
    rw [chars, hhigh, hlow, hpair]
    rfl

theorem chars_flatMap (cs : List Char) : chars (cs.flatMap ofChar) = cs := by
  induction cs with
  | nil => rfl
  | cons c cs ih => rw [List.flatMap_cons, chars_ofChar, ih]

end Units

namespace ModifiedUtf8

theorem encode_eq (text : String) :
    encode text = (text.toList.flatMap Units.ofChar).flatMap encodeUnit := by
  rw [encode, List.flatMap_assoc]

theorem units_encode (text : String) :
    units (encode text) = .ok (text.toList.flatMap Units.ofChar) := by
  rw [units, encode_eq, unitsFrom_flatMap]

theorem all_isPlain_encodeUnit {u : UInt16} :
    (encodeUnit u).all isPlain = true ↔ 1 ≤ u.toNat ∧ u.toNat ≤ 0x7F := by
  have hlt : u.toNat < 65536 := u.toNat_lt
  by_cases hplain : 1 ≤ u.toNat ∧ u.toNat ≤ 0x7F
  · obtain ⟨hbyte, _⟩ := plain_spec u.toNat (by omega) hplain.1
    simp only [encodeUnit_of_plain hplain.1 hplain.2, List.all_cons, hbyte, List.all_nil, hplain,
      and_self, Bool.and_self]
  · by_cases htwo : u.toNat ≤ 0x7FF
    · obtain ⟨hbyte, _⟩ := lead2_spec (u.toNat / 64) (by omega)
      simp [encodeUnit_of_two hplain htwo, hbyte, hplain]
    · obtain ⟨hbyte, _⟩ := lead3_spec (u.toNat / 4096) (by omega)
      simp [encodeUnit_of_three (Nat.not_le.mp htwo), hbyte, hplain]

theorem map_plain_ofChar {c : Char} (h : ((Units.ofChar c).flatMap encodeUnit).all isPlain = true) :
    ((Units.ofChar c).flatMap encodeUnit).map (fun b => Char.ofNat b.toNat) = [c] := by
  have hbounds := Units.toNat_bounds c
  by_cases hbasic : c.toNat < 0x10000
  · have hunits : Units.ofChar c = [UInt16.ofNat c.toNat] := if_pos hbasic
    have hvalue : (UInt16.ofNat c.toNat).toNat = c.toNat := UInt16.toNat_ofNat_of_lt' hbasic
    rw [hunits, List.flatMap_singleton] at h ⊢
    obtain ⟨hlow, hhigh⟩ := all_isPlain_encodeUnit.mp h
    rw [encodeUnit_of_plain hlow hhigh, hvalue, List.map_singleton,
      UInt8.toNat_ofNat_of_lt' (by change _ < 256; omega), Char.ofNat_toNat]
  · have hunits : Units.ofChar c = [UInt16.ofNat (0xD800 + (c.toNat - 0x10000) / 0x400),
        UInt16.ofNat (0xDC00 + (c.toNat - 0x10000) % 0x400)] := if_neg hbasic
    have hvalue : (UInt16.ofNat (0xD800 + (c.toNat - 0x10000) / 0x400)).toNat =
        0xD800 + (c.toNat - 0x10000) / 0x400 := UInt16.toNat_ofNat_of_lt' (by
      change _ < 65536
      omega)
    rw [hunits, List.flatMap_cons, List.all_append, Bool.and_eq_true, all_isPlain_encodeUnit,
      hvalue] at h
    omega

/-- Plain bytes are their characters. -/
theorem map_plain_eq {cs : List Char}
    (h : ((cs.flatMap Units.ofChar).flatMap encodeUnit).all isPlain = true) :
    ((cs.flatMap Units.ofChar).flatMap encodeUnit).map (fun b => Char.ofNat b.toNat) = cs := by
  induction cs with
  | nil => rfl
  | cons c cs ih =>
    rw [List.flatMap_cons, List.flatMap_append, List.all_append, Bool.and_eq_true] at h
    rw [List.flatMap_cons, List.flatMap_append, List.map_append, ih h.2]
    exact congrArg (· ++ cs) (map_plain_ofChar h.1)

/-- Encoded text is decoded to itself. -/
theorem decode_encode (text : String) : decode (encode text) = .ok text := by
  unfold decode
  split
  next hplain =>
    rw [encode_eq] at hplain ⊢
    rw [map_plain_eq hplain, String.ofList_toList]
  next =>
    rw [units_encode, bind_eq_ok]
    refine ⟨_, rfl, ?_⟩
    rw [Units.chars_flatMap, String.ofList_toList]
    rfl

theorem encode_injective {text text' : String} (h : encode text = encode text') : text = text' := by
  have hdecode := decode_encode text
  rw [h, decode_encode] at hdecode
  exact (Except.ok.inj hdecode).symm

end ModifiedUtf8

end ThreadWatch
