import ThreadWatch.Bytes.Buffer
import ThreadWatch.Bytes.Cursor
import ThreadWatch.Proofs.Fallible

/-!
# Readers and what they read

A reader spells a format if it gives a value exactly where the bytes of the value stand, and stops
behind them. Both directions are in the one equivalence: what was written is read back, and what
was read is what stood there.
-/

namespace ThreadWatch

variable {α β : Type}

theorem spellable_pos (width : Nat) : 0 < spellable width := by
  induction width with
  | zero => simp [spellable]
  | succ width ih => simp only [spellable]; omega

/-- Multiples of what the width can spell do not show. -/
theorem beBytes_add_mul (width k n : Nat) :
    beBytes width (k * spellable width + n) = beBytes width n := by
  induction width generalizing k with
  | zero => rfl
  | succ width ih =>
    have hk : k * spellable (width + 1) = k * 256 * spellable width := by
      rw [spellable, Nat.mul_assoc]
    have hdiv : (k * 256 * spellable width + n) / spellable width =
        k * 256 + n / spellable width := by
      rw [Nat.mul_comm (k * 256), Nat.mul_add_div (spellable_pos width)]
    have hbyte : UInt8.ofNat (k * 256 + n / spellable width) =
        UInt8.ofNat (n / spellable width) := by
      apply UInt8.toNat_inj.mp
      simp only [UInt8.toNat_ofNat']
      omega
    rw [hk, beBytes, beBytes, hdiv, hbyte, ih]

theorem beBytes_beNat (bytes : Bytes) : beBytes bytes.length (beNat bytes) = bytes := by
  induction bytes with
  | nil => rfl
  | cons b bytes ih =>
    have hlow := beNat_lt bytes
    have hhigh : (b.toNat * spellable bytes.length + beNat bytes) / spellable bytes.length =
        b.toNat := by
      rw [Nat.mul_comm, Nat.mul_add_div (spellable_pos _), Nat.div_eq_of_lt hlow, Nat.add_zero]
    rw [List.length_cons, beBytes, beNat_cons, hhigh, beBytes_add_mul, ih, UInt8.ofNat_toNat]

theorem beNat_beBytes_of_lt {width n : Nat} (h : n < spellable width) :
    beNat (beBytes width n) = n := by
  rw [beNat_beBytes, Nat.mod_eq_of_lt h]

@[simp] theorem length_be16 (n : UInt16) : (be16 n).length = 2 := length_beBytes 2 _
@[simp] theorem length_be32 (n : UInt32) : (be32 n).length = 4 := length_beBytes 4 _
@[simp] theorem length_be64 (n : UInt64) : (be64 n).length = 8 := length_beBytes 8 _

theorem be8_eq_iff {bytes : Bytes} {n : UInt8} :
    bytes.length = 1 ∧ UInt8.ofNat (beNat bytes) = n ↔ bytes = be8 n := by
  constructor
  · rintro ⟨hlength, rfl⟩
    match bytes, hlength with
    | [b], _ => simp [be8, beNat]
  · rintro rfl
    exact ⟨rfl, by simp [be8, beNat]⟩

theorem be16_eq_iff {bytes : Bytes} {n : UInt16} :
    bytes.length = 2 ∧ UInt16.ofNat (beNat bytes) = n ↔ bytes = be16 n := by
  have hwidth : spellable 2 = 65536 := rfl
  constructor
  · rintro ⟨hlength, rfl⟩
    have hlt := beNat_lt bytes
    rw [hlength, hwidth] at hlt
    rw [be16, UInt16.toNat_ofNat_of_lt' hlt, ← hlength, beBytes_beNat]
  · rintro rfl
    have hlt : n.toNat < spellable 2 := n.toNat_lt
    exact ⟨length_be16 n, by rw [be16, beNat_beBytes_of_lt hlt, UInt16.ofNat_toNat]⟩

/-- Two bytes joined are the number that they spell. -/
theorem join_eq_ofNat (high low : UInt8) :
    high.toUInt16 <<< 8 ||| low.toUInt16 = UInt16.ofNat (beNat [high, low]) := by
  have hhigh : high.toNat < 256 := high.toNat_lt
  have hlow : low.toNat < 256 := low.toNat_lt
  have hjoined : beNat [high, low] = high.toNat * 256 + low.toNat := by
    simp [beNat]
  rw [← UInt16.toNat_inj, UInt16.toNat_or, UInt16.toNat_shiftLeft, UInt8.toNat_toUInt16,
    UInt8.toNat_toUInt16, hjoined, UInt16.toNat_ofNat_of_lt' (by change _ < 65536; omega)]
  change (high.toNat <<< 8) % 65536 ||| low.toNat = _
  rw [Nat.mod_eq_of_lt (by rw [Nat.shiftLeft_eq]; omega), ← Nat.shiftLeft_add_eq_or_of_lt hlow,
    Nat.shiftLeft_eq]

theorem be16_join (high low : UInt8) :
    be16 (high.toUInt16 <<< 8 ||| low.toUInt16) = [high, low] :=
  (be16_eq_iff.mp ⟨rfl, (join_eq_ofNat high low).symm⟩).symm

theorem join_be16 (n : UInt16) :
    ∃ high low, be16 n = [high, low] ∧ high.toUInt16 <<< 8 ||| low.toUInt16 = n := by
  obtain ⟨hlength, hn⟩ := be16_eq_iff.mpr (Eq.refl (be16 n))
  obtain ⟨high, low, hbytes⟩ := List.length_eq_two.mp hlength
  refine ⟨high, low, hbytes, ?_⟩
  rw [join_eq_ofNat, ← hbytes, hn]

theorem be16_ofNat {n : Nat} (h : n < 65536) : be16 (UInt16.ofNat n) = beBytes 2 n := by
  rw [be16, UInt16.toNat_ofNat_of_lt' h]

theorem be32_eq_iff {bytes : Bytes} {n : UInt32} :
    bytes.length = 4 ∧ UInt32.ofNat (beNat bytes) = n ↔ bytes = be32 n := by
  have hwidth : spellable 4 = 4294967296 := rfl
  constructor
  · rintro ⟨hlength, rfl⟩
    have hlt := beNat_lt bytes
    rw [hlength, hwidth] at hlt
    rw [be32, UInt32.toNat_ofNat_of_lt' hlt, ← hlength, beBytes_beNat]
  · rintro rfl
    have hlt : n.toNat < spellable 4 := n.toNat_lt
    exact ⟨length_be32 n, by rw [be32, beNat_beBytes_of_lt hlt, UInt32.ofNat_toNat]⟩

theorem be64_eq_iff {bytes : Bytes} {n : UInt64} :
    bytes.length = 8 ∧ UInt64.ofNat (beNat bytes) = n ↔ bytes = be64 n := by
  have hwidth : spellable 8 = 18446744073709551616 := rfl
  constructor
  · rintro ⟨hlength, rfl⟩
    have hlt := beNat_lt bytes
    rw [hlength, hwidth] at hlt
    rw [be64, UInt64.toNat_ofNat_of_lt' hlt, ← hlength, beBytes_beNat]
  · rintro rfl
    have hlt : n.toNat < spellable 8 := n.toNat_lt
    exact ⟨length_be64 n, by rw [be64, beNat_beBytes_of_lt hlt, UInt64.ofNat_toNat]⟩

/-- The items are written as these bytes, one behind the other. -/
def Written (write : α → Except Fault Bytes) (items : List α) (bytes : Bytes) : Prop :=
  ∃ parts, items.mapM write = .ok parts ∧ bytes = parts.flatten

theorem written_nil_iff {write : α → Except Fault Bytes} {bytes : Bytes} :
    Written write [] bytes ↔ bytes = [] := by
  unfold Written
  constructor
  · rintro ⟨parts, hparts, rfl⟩
    cases mapM_eq_ok.mp hparts
    rfl
  · rintro rfl
    exact ⟨[], rfl, rfl⟩

theorem written_cons_iff {write : α → Except Fault Bytes} {a : α} {rest : List α} {bytes : Bytes} :
    Written write (a :: rest) bytes ↔ ∃ first tail, write a = .ok first ∧
      Written write rest tail ∧ bytes = first ++ tail := by
  unfold Written
  constructor
  · rintro ⟨parts, hparts, rfl⟩
    cases mapM_eq_ok.mp hparts with
    | @cons _ first _ parts hfirst hrest =>
      exact ⟨first, parts.flatten, hfirst, ⟨parts, mapM_eq_ok.mpr hrest, rfl⟩, List.flatten_cons⟩
  · rintro ⟨first, _, hfirst, ⟨parts, hparts, rfl⟩, rfl⟩
    exact ⟨first :: parts, mapM_eq_ok.mpr (.cons hfirst (mapM_eq_ok.mp hparts)),
      List.flatten_cons.symm⟩

/-- Items can be written one behind the other if each of them can. -/
theorem exists_written_iff {write : α → Except Fault Bytes} {items : List α} :
    (∃ bytes, Written write items bytes) ↔ ∀ a ∈ items, ∃ part, write a = .ok part := by
  constructor
  · rintro ⟨_, parts, hparts, _⟩ a ha
    obtain ⟨part, _, hpart⟩ := exists_of_mem_left (mapM_eq_ok.mp hparts) ha
    exact ⟨part, hpart⟩
  · intro h
    obtain ⟨parts, hparts⟩ := exists_forall₂ h
    exact ⟨parts.flatten, parts, mapM_eq_ok.mpr hparts, rfl⟩

theorem written_ok_iff {f : α → Bytes} {items : List α} {bytes : Bytes} :
    Written (fun a => .ok (f a)) items bytes ↔ bytes = items.flatMap f := by
  induction items generalizing bytes with
  | nil => rw [written_nil_iff, List.flatMap_nil]
  | cons a rest ih => simp [written_cons_iff, ih]

namespace Cursor

/-- The cursor goes from `c` over `bytes` to `c'`. -/
structure Passes (c : Cursor) (bytes : Bytes) (c' : Cursor) : Prop where
  data : c'.data = c.data
  pos : c'.pos = c.pos + bytes.length
  rest : c.rest = bytes ++ c'.rest

theorem eq_of_data_pos {c c' : Cursor} (hdata : c.data = c'.data) (hpos : c.pos = c'.pos) :
    c = c' := by
  cases c with
  | mk data pos rest rest_eq _ =>
    cases c' with
    | mk data' pos' rest' rest_eq' _ =>
      cases hdata
      cases hpos
      cases rest_eq
      cases rest_eq'
      rfl

theorem passes_nil {c c' : Cursor} : c.Passes [] c' ↔ c' = c := by
  constructor
  · rintro ⟨hdata, hpos, _⟩
    exact eq_of_data_pos hdata hpos
  · rintro rfl
    exact ⟨rfl, rfl, rfl⟩

theorem Passes.trans {c c' c'' : Cursor} {first second : Bytes} (h : c.Passes first c')
    (h' : c'.Passes second c'') : c.Passes (first ++ second) c'' where
  data := h'.data.trans h.data
  pos := by rw [h'.pos, h.pos, List.length_append, Nat.add_assoc]
  rest := by rw [h.rest, h'.rest, List.append_assoc]

theorem Passes.unique {c c' c'' : Cursor} {bytes : Bytes} (h : c.Passes bytes c')
    (h' : c.Passes bytes c'') : c' = c'' :=
  eq_of_data_pos (h.data.trans h'.data.symm) (h.pos.trans h'.pos.symm)

theorem length_rest (c : Cursor) : c.pos + c.rest.length = c.data.length := by
  have hpos := c.pos_le
  rw [c.rest_eq, List.length_drop]
  omega

/-- Where bytes stand, the cursor can go over them. -/
theorem exists_passes {c : Cursor} {bytes tail : Bytes} (h : c.rest = bytes ++ tail) :
    ∃ c', c.Passes bytes c' ∧ c'.rest = tail := by
  have hle : c.pos + bytes.length ≤ c.data.length := by
    have hlength := c.length_rest
    rw [h, List.length_append] at hlength
    omega
  have htail : c.data.drop (c.pos + bytes.length) = tail := by
    rw [← List.drop_drop, ← c.rest_eq, h, List.drop_left]
  exact ⟨⟨c.data, c.pos + bytes.length, tail, htail.symm, hle⟩, ⟨rfl, rfl, h⟩, rfl⟩

theorem passes_append {c c'' : Cursor} {first second : Bytes} :
    c.Passes (first ++ second) c'' ↔ ∃ c', c.Passes first c' ∧ c'.Passes second c'' := by
  constructor
  · intro h
    obtain ⟨c', hfirst, htail⟩ := exists_passes (h.rest.trans (List.append_assoc _ _ _))
    obtain ⟨d, hsecond, _⟩ := exists_passes htail
    obtain rfl := h.unique (hfirst.trans hsecond)
    exact ⟨c', hfirst, hsecond⟩
  · rintro ⟨c', hfirst, hsecond⟩
    exact hfirst.trans hsecond

theorem take_eq_ok {n : Nat} {c c' : Cursor} {bytes : Bytes} :
    take n c = .ok bytes c' ↔ bytes.length = n ∧ c.Passes bytes c' := by
  unfold take
  constructor
  · intro h
    simp only at h
    split at h
    · next hlength =>
      cases h
      exact ⟨hlength, rfl, by rw [hlength], (List.take_append_drop n c.rest).symm⟩
    · simp at h
  · rintro ⟨rfl, h⟩
    have htake : c.rest.take bytes.length = bytes := by rw [h.rest, List.take_left]
    have hlength : (c.rest.take bytes.length).length = bytes.length := by rw [htake]
    rw [dif_pos hlength]
    congr 1
    exact eq_of_data_pos h.data.symm h.pos.symm

end Cursor

namespace Reader

theorem run'_eq_ok {r : Reader α} {data : Bytes} {a : α} :
    r.run' data = .ok a ↔ ∃ c', r (Cursor.start data) = .ok a c' := by
  unfold Reader.run'
  cases r (Cursor.start data) with
  | ok a c' => simp
  | error fault c' => simp

/-- The reader never gives anything. -/
def Fails (r : Reader α) : Prop := ∀ c a c', r c ≠ .ok a c'

theorem fails_damage (cause : Damage) : (Cursor.damage cause : Reader α).Fails := by
  intro c a c' h
  cases h

theorem fails_throw (fault : Fault) : (throw fault : Reader α).Fails := by
  intro c a c' h
  cases h

theorem Fails.bind {r : Reader α} (h : r.Fails) {k : α → Reader β} : (r >>= k).Fails := by
  intro c b c' hb
  obtain ⟨a, c'', hr, _⟩ := Stateful.bind_eq_ok.mp hb
  exact h c a c'' hr

/-- The reader gives `a` exactly where bytes stand that spell it, and stops behind them. -/
def Spells (r : Reader α) (spell : α → Bytes → Prop) : Prop :=
  ∀ c a c', r c = .ok a c' ↔ ∃ bytes, spell a bytes ∧ c.Passes bytes c'

theorem Fails.spells {r : Reader α} (h : r.Fails) {spell : α → Bytes → Prop}
    (hspell : ∀ a bytes, ¬ spell a bytes) : r.Spells spell := by
  intro c a c'
  constructor
  · intro hr
    exact absurd hr (h c a c')
  · rintro ⟨bytes, hbytes, _⟩
    exact absurd hbytes (hspell a bytes)

namespace Spells

variable {r : Reader α} {spell : α → Bytes → Prop}

theorem congr {spell' : α → Bytes → Prop} (h : r.Spells spell)
    (heq : ∀ a bytes, spell a bytes ↔ spell' a bytes) : r.Spells spell' := by
  intro c a c'
  simp only [h c a c', heq]

theorem pure (a : α) : (Pure.pure a : Reader α).Spells fun b bytes => b = a ∧ bytes = [] := by
  intro c b c'
  rw [Stateful.pure_eq_ok]
  constructor
  · rintro ⟨rfl, rfl⟩
    exact ⟨[], ⟨rfl, rfl⟩, Cursor.passes_nil.mpr rfl⟩
  · rintro ⟨_, ⟨rfl, rfl⟩, h⟩
    exact ⟨rfl, Cursor.passes_nil.mp h⟩

theorem bind {f : α → Reader β} {spell' : α → β → Bytes → Prop} (h : r.Spells spell)
    (hf : ∀ a, (f a).Spells (spell' a)) :
    (r >>= f).Spells fun b bytes =>
      ∃ a first second, spell a first ∧ spell' a b second ∧ bytes = first ++ second := by
  intro c b c''
  rw [Stateful.bind_eq_ok]
  constructor
  · rintro ⟨a, c', hr, hfa⟩
    obtain ⟨first, hfirst, hpass⟩ := (h c a c').mp hr
    obtain ⟨second, hsecond, hpass'⟩ := (hf a c' b c'').mp hfa
    exact ⟨_, ⟨a, first, second, hfirst, hsecond, rfl⟩, hpass.trans hpass'⟩
  · rintro ⟨_, ⟨a, first, second, hfirst, hsecond, rfl⟩, hpass⟩
    obtain ⟨c', hpass, hpass'⟩ := Cursor.passes_append.mp hpass
    exact ⟨a, c', (h c a c').mpr ⟨first, hfirst, hpass⟩,
      (hf a c' b c'').mpr ⟨second, hsecond, hpass'⟩⟩

theorem map {f : α → β} (h : r.Spells spell) :
    (f <$> r).Spells fun b bytes => ∃ a, spell a bytes ∧ f a = b := by
  intro c b c'
  rw [Stateful.map_eq_ok]
  constructor
  · rintro ⟨a, hr, rfl⟩
    obtain ⟨bytes, hbytes, hpass⟩ := (h c a c').mp hr
    exact ⟨bytes, ⟨a, hbytes, rfl⟩, hpass⟩
  · rintro ⟨bytes, ⟨a, hbytes, rfl⟩, hpass⟩
    exact ⟨a, (h c a c').mpr ⟨bytes, hbytes, hpass⟩, rfl⟩

/-- A step after which nothing more is read. -/
theorem last (h : r.Spells spell) (f : α → β) :
    (r >>= fun a => Pure.pure (f a)).Spells fun b bytes => ∃ a, spell a bytes ∧ f a = b := by
  rw [bind_pure_comp]
  exact h.map

/-- Two things, one behind the other. -/
theorem pair {γ : Type} {r' : Reader β} {f : α → Bytes} {g : β → Bytes}
    (h : r.Spells fun a bytes => bytes = f a) (h' : r'.Spells fun b bytes => bytes = g b)
    (k : α → β → γ) :
    (do return k (← r) (← r') : Reader γ).Spells fun c bytes =>
      ∃ a b, k a b = c ∧ bytes = f a ++ g b := by
  refine (h.bind fun a => h'.last _).congr fun c bytes => ⟨?_, ?_⟩
  · rintro ⟨a, _, _, rfl, ⟨b, rfl, rfl⟩, rfl⟩
    exact ⟨a, b, rfl, rfl⟩
  · rintro ⟨a, b, rfl, rfl⟩
    exact ⟨a, _, _, rfl, ⟨b, rfl, rfl⟩, rfl⟩

/-- A check that may turn away before anything is read. -/
theorem checked {γ : Type} {p : Prop} [Decidable p] {bad : Reader γ} {k : γ → Reader α}
    (hbad : bad.Fails) (h : r.Spells spell) :
    (if p then bad >>= k else r).Spells fun a bytes => ¬ p ∧ spell a bytes := by
  intro c a c'
  split
  · next hp => simp [hbad.bind c a c', hp]
  · next hp => simp [h c a c', hp]

/-- A check of how much is left, which what is read itself decides. -/
theorem fits {γ : Type} {p : Nat → Prop} [DecidablePred p] {bad : Reader γ} {k : γ → Reader α}
    {spell' : α → Bytes → Prop} (hbad : bad.Fails) (h : r.Spells spell)
    (hp : ∀ a bytes left, bytes.length ≤ left → (spell' a bytes ↔ ¬ p left ∧ spell a bytes)) :
    (Cursor.remaining >>= fun left => if p left then bad >>= k else r).Spells spell' := by
  intro c a c'
  have hrun : (Cursor.remaining >>= fun left => if p left then bad >>= k else r) c =
      (if p c.rest.length then bad >>= k else r : Reader α) c := rfl
  rw [hrun, h.checked hbad c a c']
  constructor
  · rintro ⟨bytes, hbytes, hpass⟩
    have hle : bytes.length ≤ c.rest.length := by simp [hpass.rest]
    exact ⟨bytes, (hp a bytes _ hle).mpr hbytes, hpass⟩
  · rintro ⟨bytes, hbytes, hpass⟩
    have hle : bytes.length ≤ c.rest.length := by simp [hpass.rest]
    exact ⟨bytes, (hp a bytes _ hle).mp hbytes, hpass⟩

end Spells

theorem spells_take (n : Nat) :
    (Cursor.take n).Spells fun taken bytes => taken.length = n ∧ bytes = taken := by
  intro c taken c'
  rw [Cursor.take_eq_ok]
  constructor
  · rintro ⟨hlength, hpass⟩
    exact ⟨taken, ⟨hlength, rfl⟩, hpass⟩
  · rintro ⟨_, ⟨hlength, rfl⟩, hpass⟩
    exact ⟨hlength, hpass⟩

/-- A number of a fixed width, as `be` writes it. -/
theorem spells_number {ν : Type} {width : Nat} {ofNat : Nat → ν} {be : ν → Bytes}
    (h : ∀ bytes n, bytes.length = width ∧ ofNat (beNat bytes) = n ↔ bytes = be n) :
    ((ofNat ∘ beNat) <$> Cursor.take width).Spells fun n bytes => bytes = be n := by
  refine (spells_take width).map.congr fun n bytes => ?_
  rw [← h]
  constructor
  · rintro ⟨taken, ⟨hlength, rfl⟩, hn⟩
    exact ⟨hlength, hn⟩
  · rintro ⟨hlength, hn⟩
    exact ⟨bytes, ⟨hlength, rfl⟩, hn⟩

theorem spells_u8 : Cursor.u8.Spells fun n bytes => bytes = be8 n :=
  spells_number fun _ _ => be8_eq_iff

theorem spells_u16 : Cursor.u16.Spells fun n bytes => bytes = be16 n :=
  spells_number fun _ _ => be16_eq_iff

theorem spells_u32 : Cursor.u32.Spells fun n bytes => bytes = be32 n :=
  spells_number fun _ _ => be32_eq_iff

theorem spells_u64 : Cursor.u64.Spells fun n bytes => bytes = be64 n :=
  spells_number fun _ _ => be64_eq_iff

theorem spells_i16 : Cursor.i16.Spells fun n bytes => bytes = be16 n.toUInt16 := by
  refine spells_u16.map.congr fun n bytes => ⟨?_, ?_⟩
  · rintro ⟨a, rfl, rfl⟩
    rfl
  · rintro rfl
    exact ⟨_, rfl, rfl⟩

theorem spells_i32 : Cursor.i32.Spells fun n bytes => bytes = be32 n.toUInt32 := by
  refine spells_u32.map.congr fun n bytes => ⟨?_, ?_⟩
  · rintro ⟨a, rfl, rfl⟩
    rfl
  · rintro rfl
    exact ⟨_, rfl, rfl⟩

theorem spells_i64 : Cursor.i64.Spells fun n bytes => bytes = be64 n.toUInt64 := by
  refine spells_u64.map.congr fun n bytes => ⟨?_, ?_⟩
  · rintro ⟨a, rfl, rfl⟩
    rfl
  · rintro rfl
    exact ⟨_, rfl, rfl⟩

/-- Items one behind the other. -/
theorem Spells.times {r : Reader α} {spell : α → Bytes → Prop} (h : r.Spells spell) (n : Nat) :
    (Cursor.times r n).Spells fun items bytes =>
      items.length = n ∧ ∃ parts, List.Forall₂ spell items parts ∧ bytes = parts.flatten := by
  induction n with
  | zero =>
    refine (Spells.pure _).congr fun items bytes => ⟨?_, ?_⟩
    · rintro ⟨rfl, rfl⟩
      exact ⟨rfl, [], .nil, rfl⟩
    · rintro ⟨hlength, parts, hparts, rfl⟩
      obtain rfl := List.length_eq_zero_iff.mp hlength
      cases hparts
      exact ⟨rfl, rfl⟩
  | succ n ih =>
    refine (h.bind fun first => ih.last _).congr fun items bytes => ⟨?_, ?_⟩
    · rintro ⟨first, part, _, hpart, ⟨rest, ⟨hlength, parts, hparts, rfl⟩, rfl⟩, rfl⟩
      exact ⟨by simp [hlength], part :: parts, .cons hpart hparts, List.flatten_cons.symm⟩
    · rintro ⟨hlength, parts, hparts, rfl⟩
      cases hparts with
      | nil => simp at hlength
      | @cons first part rest parts hpart hparts =>
        exact ⟨first, part, parts.flatten, hpart,
          ⟨rest, ⟨by simpa using hlength, parts, hparts, rfl⟩, rfl⟩, List.flatten_cons⟩

theorem Spells.ok {r : Reader α} {f : α → Bytes} (h : r.Spells fun a bytes => bytes = f a) :
    r.Spells fun a bytes => (.ok (f a) : Except Fault Bytes) = .ok bytes :=
  h.congr fun a bytes => by rw [Except.ok.injEq, eq_comm]

/-- Items one behind the other that can be written. -/
theorem Spells.timesWritten {r : Reader α} {write : α → Except Fault Bytes}
    (h : r.Spells fun a bytes => write a = .ok bytes) (n : Nat) :
    (Cursor.times r n).Spells fun items bytes => items.length = n ∧ Written write items bytes := by
  refine (h.times n).congr fun items bytes => and_congr_right fun _ => ?_
  simp only [Written, mapM_eq_ok]

/-- A two-byte count, and so many items. -/
theorem Spells.counted {r : Reader α} {write : α → Except Fault Bytes}
    (h : r.Spells fun a bytes => write a = .ok bytes) :
    (Cursor.u16 >>= fun count => Cursor.times r count.toNat).Spells fun items bytes =>
      items.length < 65536 ∧ ∃ tail, Written write items tail ∧
        bytes = beBytes 2 items.length ++ tail := by
  refine (spells_u16.bind fun count => h.timesWritten _).congr fun items bytes => ⟨?_, ?_⟩
  · rintro ⟨count, _, tail, rfl, ⟨hlength, htail⟩, rfl⟩
    rw [hlength]
    exact ⟨count.toNat_lt, tail, htail, rfl⟩
  · rintro ⟨hlt, tail, htail, rfl⟩
    refine ⟨UInt16.ofNat items.length, _, tail, rfl, ⟨?_, htail⟩, ?_⟩
    · exact (UInt16.toNat_ofNat_of_lt' hlt).symm
    · rw [be16_ofNat hlt]

/-- Items one behind the other, each with its own bytes. -/
theorem Spells.timesOf {r : Reader α} {f : α → Bytes} (h : r.Spells fun a bytes => bytes = f a)
    (n : Nat) :
    (Cursor.times r n).Spells fun items bytes => items.length = n ∧ bytes = items.flatMap f := by
  refine (h.ok.timesWritten n).congr fun items bytes => ?_
  rw [written_ok_iff]

/-- A reader that is content with a part of the data. -/
theorem Spells.run'_eq_ok {r : Reader α} {spell : α → Bytes → Prop} (h : r.Spells spell)
    {data : Bytes} {a : α} :
    r.run' data = .ok a ↔ ∃ bytes tail, spell a bytes ∧ data = bytes ++ tail := by
  rw [Reader.run'_eq_ok]
  constructor
  · rintro ⟨c', hr⟩
    obtain ⟨bytes, hspell, hpass⟩ := (h _ a c').mp hr
    exact ⟨bytes, c'.rest, hspell, hpass.rest⟩
  · rintro ⟨bytes, tail, hspell, hdata⟩
    obtain ⟨c', hpass, _⟩ := Cursor.exists_passes (c := Cursor.start data) hdata
    exact ⟨c', (h _ a c').mpr ⟨bytes, hspell, hpass⟩⟩

/-- The reader spells a format where it starts at `position`. -/
def SpellsAt (r : Reader α) (position : Nat) (spell : α → Bytes → Prop) : Prop :=
  ∀ c a c', c.pos = position → (r c = .ok a c' ↔ ∃ bytes, spell a bytes ∧ c.Passes bytes c')

theorem Spells.at {r : Reader α} {spell : α → Bytes → Prop} (h : r.Spells spell)
    (position : Nat) : r.SpellsAt position spell := fun c a c' _ => h c a c'

namespace SpellsAt

variable {r : Reader α} {position : Nat} {spell : α → Bytes → Prop}

theorem congr {spell' : α → Bytes → Prop} (h : r.SpellsAt position spell)
    (heq : ∀ a bytes, spell a bytes ↔ spell' a bytes) : r.SpellsAt position spell' := by
  intro c a c' hpos
  simp only [h c a c' hpos, heq]

theorem bind {f : α → Reader β} {spell' : α → β → Bytes → Prop} (h : r.SpellsAt position spell)
    (hf : ∀ a first, spell a first → (f a).SpellsAt (position + first.length) (spell' a)) :
    (r >>= f).SpellsAt position fun b bytes =>
      ∃ a first second, spell a first ∧ spell' a b second ∧ bytes = first ++ second := by
  intro c b c'' hpos
  rw [Stateful.bind_eq_ok]
  constructor
  · rintro ⟨a, c', hr, hfa⟩
    obtain ⟨first, hfirst, hpass⟩ := (h c a c' hpos).mp hr
    have hpos' : c'.pos = position + first.length := by rw [hpass.pos, hpos]
    obtain ⟨second, hsecond, hpass'⟩ := (hf a first hfirst c' b c'' hpos').mp hfa
    exact ⟨_, ⟨a, first, second, hfirst, hsecond, rfl⟩, hpass.trans hpass'⟩
  · rintro ⟨_, ⟨a, first, second, hfirst, hsecond, rfl⟩, hpass⟩
    obtain ⟨c', hpass, hpass'⟩ := Cursor.passes_append.mp hpass
    have hpos' : c'.pos = position + first.length := by rw [hpass.pos, hpos]
    exact ⟨a, c', (h c a c' hpos).mpr ⟨first, hfirst, hpass⟩,
      (hf a first hfirst c' b c'' hpos').mpr ⟨second, hsecond, hpass'⟩⟩

theorem last (h : r.SpellsAt position spell) (f : α → β) :
    (r >>= fun a => Pure.pure (f a)).SpellsAt position fun b bytes =>
      ∃ a, spell a bytes ∧ f a = b := by
  refine (h.bind fun a _ _ => (Spells.pure (f a)).at _).congr fun b bytes => ⟨?_, ?_⟩
  · rintro ⟨a, first, _, hfirst, ⟨rfl, rfl⟩, rfl⟩
    rw [List.append_nil]
    exact ⟨a, hfirst, rfl⟩
  · rintro ⟨a, hbytes, rfl⟩
    exact ⟨a, bytes, [], hbytes, ⟨rfl, rfl⟩, (List.append_nil _).symm⟩

end SpellsAt

/-- Aligning skips bytes without a look at them. -/
theorem spellsAt_align (boundary position : Nat) :
    (Cursor.align boundary).SpellsAt position fun _ bytes =>
      bytes.length = (boundary - position % boundary) % boundary := by
  rintro c a c' rfl
  show (Cursor.take _ >>= fun _ => Pure.pure ()) c = _ ↔ _
  rw [((spells_take _).last fun _ => ()) c a c']
  constructor
  · rintro ⟨_, ⟨taken, ⟨hlength, rfl⟩, _⟩, hpass⟩
    exact ⟨_, hlength, hpass⟩
  · rintro ⟨bytes, hlength, hpass⟩
    exact ⟨bytes, ⟨bytes, ⟨hlength, rfl⟩, rfl⟩, hpass⟩

theorem spellsAt_position (position : Nat) :
    Cursor.position.SpellsAt position fun a bytes => a = position ∧ bytes = [] := by
  rintro c a c' rfl
  show (.ok c.pos c : EStateM.Result _ _ _) = _ ↔ _
  constructor
  · intro h
    cases h
    exact ⟨[], ⟨rfl, rfl⟩, Cursor.passes_nil.mpr rfl⟩
  · rintro ⟨_, ⟨rfl, rfl⟩, hpass⟩
    rw [Cursor.passes_nil.mp hpass]

/-- The reader gives `a` exactly where all that is left spells it. -/
def SpellsAll (r : Reader α) (spell : α → Bytes → Prop) : Prop :=
  ∀ c a c', r c = .ok a c' ↔ spell a c.rest ∧ c.Passes c.rest c'

namespace SpellsAll

variable {r : Reader α} {spell : α → Bytes → Prop}

theorem congr {spell' : α → Bytes → Prop} (h : r.SpellsAll spell)
    (heq : ∀ a bytes, spell a bytes ↔ spell' a bytes) : r.SpellsAll spell' := by
  intro c a c'
  rw [h c a c', heq]

/-- What is read first, and then all of what is left. -/
theorem bind {f : α → Reader β} {spell' : α → β → Bytes → Prop} (h : r.Spells spell)
    (hf : ∀ a, (f a).SpellsAll (spell' a)) :
    (r >>= f).SpellsAll fun b bytes =>
      ∃ a first second, spell a first ∧ spell' a b second ∧ bytes = first ++ second := by
  intro c b c''
  rw [Stateful.bind_eq_ok]
  constructor
  · rintro ⟨a, c', hr, hfa⟩
    obtain ⟨first, hfirst, hpass⟩ := (h c a c').mp hr
    obtain ⟨hsecond, hpass'⟩ := (hf a c' b c'').mp hfa
    refine ⟨⟨a, first, c'.rest, hfirst, hsecond, hpass.rest⟩, ?_⟩
    rw [hpass.rest]
    exact hpass.trans hpass'
  · rintro ⟨⟨a, first, second, hfirst, hsecond, hrest⟩, hpass⟩
    rw [hrest] at hpass
    obtain ⟨c', hpass, hpass'⟩ := Cursor.passes_append.mp hpass
    have hleft : c'.rest = second := List.append_cancel_left (hpass.rest.symm.trans hrest)
    refine ⟨a, c', (h c a c').mpr ⟨first, hfirst, hpass⟩, (hf a c' b c'').mpr ?_⟩
    rw [hleft]
    exact ⟨hsecond, hpass'⟩

/-- A check that may turn away before anything is read. -/
theorem checked {γ : Type} {p : Prop} [Decidable p] {bad : Reader γ} {k : γ → Reader α}
    (hbad : bad.Fails) (h : r.SpellsAll spell) :
    (if p then bad >>= k else r).SpellsAll fun a bytes => ¬ p ∧ spell a bytes := by
  intro c a c'
  split
  · next hp => simp [hbad.bind c a c', hp]
  · next hp => simp [h c a c', hp]

/-- A check that turns away whatever is left. -/
theorem turnAway {γ : Type} {p : Cursor → Prop} [DecidablePred p] (hp : ∀ c, p c ↔ c.rest ≠ [])
    {bad : Cursor → Reader γ} {k : γ → Reader α} (hbad : ∀ c, (bad c).Fails) (a : α) :
    Reader.SpellsAll (fun c => (if p c then bad c >>= k else Pure.pure a : Reader α) c)
      fun b bytes => b = a ∧ bytes = [] := by
  intro c b c'
  dsimp only
  rw [((Spells.pure a).checked (hbad c)) c b c', hp, not_not]
  constructor
  · rintro ⟨_, ⟨hrest, rfl, rfl⟩, hpass⟩
    rw [hrest]
    exact ⟨⟨rfl, rfl⟩, hpass⟩
  · rintro ⟨⟨rfl, hrest⟩, hpass⟩
    rw [hrest] at hpass
    exact ⟨[], ⟨hrest, rfl, rfl⟩, hpass⟩

/-- The check that nothing is left. -/
theorem finish {γ : Type} {bad : Nat → Reader γ} {k : γ → Reader α} (hbad : ∀ left, (bad left).Fails)
    (a : α) :
    (Cursor.remaining >>= fun left => if left > 0 then bad left >>= k else Pure.pure a).SpellsAll
      fun b bytes => b = a ∧ bytes = [] :=
  turnAway (p := fun c => c.rest.length > 0) (fun _ => List.length_pos_iff)
    (fun c => hbad c.rest.length) a

/-- The check that the end is reached. -/
theorem atEnd {γ : Type} {bad : Reader γ} {k : γ → Reader α} (hbad : bad.Fails) (a : α) :
    (Cursor.atEnd >>= fun done => if (!done) = true then bad >>= k else Pure.pure a).SpellsAll
      fun b bytes => b = a ∧ bytes = [] :=
  turnAway (p := fun c => (!c.rest.isEmpty) = true) (fun c => by simp) (fun _ => hbad) a

theorem run'_eq_ok {data : Bytes} {a : α} (h : r.SpellsAll spell) :
    r.run' data = .ok a ↔ spell a data := by
  rw [Reader.run'_eq_ok]
  constructor
  · rintro ⟨c', hr⟩
    exact ((h _ a c').mp hr).1
  · intro hspell
    obtain ⟨c', hpass, _⟩ := Cursor.exists_passes
      (c := Cursor.start data) (List.append_nil data).symm
    exact ⟨c', (h _ a c').mpr ⟨hspell, hpass⟩⟩

end SpellsAll

end Reader

theorem prefixedBytes_eq_ok {text bytes : Bytes} :
    prefixedBytes text = .ok bytes ↔
      text.length < 65536 ∧ bytes = beBytes 2 text.length ++ text := by
  unfold prefixedBytes
  split
  next h => simp [h, eq_comm]
  next h => simp [h, damaged]

/-- A length of two bytes, and so many bytes. -/
theorem spells_prefixed :
    Cursor.prefixed.Spells fun text bytes => prefixedBytes text = .ok bytes := by
  unfold Cursor.prefixed
  refine (Reader.spells_u16.bind fun length => Reader.spells_take _).congr fun text bytes => ?_
  rw [prefixedBytes_eq_ok]
  constructor
  · rintro ⟨length, _, _, rfl, ⟨hlength, rfl⟩, rfl⟩
    rw [hlength]
    exact ⟨length.toNat_lt, rfl⟩
  · rintro ⟨hlt, rfl⟩
    refine ⟨UInt16.ofNat text.length, _, text, rfl, ⟨?_, rfl⟩, ?_⟩
    · exact (UInt16.toNat_ofNat_of_lt' hlt).symm
    · rw [be16_ofNat hlt]

end ThreadWatch
