import Mathlib.Algebra.Order.Ring.Int
import Mathlib.Order.Bounds.Basic
import ThreadWatch.Proofs.Bytes.Spelling

/-!
# What moving a cursor comes to

Whatever is asked of a cursor, and in whichever order, it stays within its data: a move that goes
well gives the bytes that it went over, and one that fails leaves the cursor where it was, but for a
length that was read before the bytes behind it were found missing. The accesses at an offset are
the same for a buffer that is written into as well.
-/

namespace ThreadWatch

namespace Scalar

/-- The values of the format. -/
def Holds (s : Scalar) (v : Int) : Prop :=
  if s.signed then -(spellable s.size : Int) ≤ 2 * v ∧ 2 * v < spellable s.size
  else 0 ≤ v ∧ v < spellable s.size

instance (s : Scalar) (v : Int) : Decidable (s.Holds v) := by
  unfold Holds
  infer_instance

variable {s : Scalar} {v : Int} {bytes : Bytes}

/-- Multiples of what the format can spell do not show. -/
theorem bytes_add_mul (s : Scalar) (n : Nat) (k : Int) :
    s.bytes (n + k * spellable s.size) = beBytes s.size n := by
  have hmod : ((n + k * spellable s.size : Int).emod (spellable s.size)).toNat =
      n % spellable s.size := by
    change ((n + k * spellable s.size : Int) % (spellable s.size : Int)).toNat = _
    rw [Int.add_mul_emod_self_right]
    omega
  have hdiv : n = n / spellable s.size * spellable s.size + n % spellable s.size := by
    rw [Nat.mul_comm, Nat.div_add_mod]
  rw [bytes, hmod]
  conv_rhs => rw [hdiv, beBytes_add_mul]

/-- A sign is a multiple of what the format can spell. -/
theorem value_eq (s : Scalar) (bytes : Bytes) :
    ∃ k : Int, s.value bytes = beNat bytes + k * spellable s.size := by
  unfold value
  simp only
  split
  · exact ⟨-1, by omega⟩
  · exact ⟨0, by omega⟩

theorem bytes_value (h : bytes.length = s.size) : s.bytes (s.value bytes) = bytes := by
  obtain ⟨k, hk⟩ := value_eq s bytes
  rw [hk, bytes_add_mul, ← h, beBytes_beNat]

theorem holds_value (h : bytes.length = s.size) : s.Holds (s.value bytes) := by
  have hlt := beNat_lt bytes
  rw [h] at hlt
  unfold Holds value
  cases s.signed with
  | false =>
    simp only [Bool.false_eq_true, if_false, Bool.false_and]
    omega
  | true =>
    simp only [if_true, Bool.true_and, decide_eq_true_eq]
    split <;> omega

theorem value_bytes (h : s.Holds v) : s.value (s.bytes v) = v := by
  have hpos := spellable_pos s.size
  have hlow : beNat (s.bytes v) = (v.emod (spellable s.size)).toNat := by
    have hlt : (v % (spellable s.size : Int)).toNat < spellable s.size := by
      have := Int.emod_lt_of_pos v (b := spellable s.size) (by omega)
      omega
    exact beNat_beBytes_of_lt hlt
  -- of the two numbers that differ by all that can be spelled, the one that the format has
  have hmod : v.emod (spellable s.size) = if 0 ≤ v then v else v + spellable s.size := by
    change v % (spellable s.size : Int) = _
    unfold Holds at h
    split
    · exact Int.emod_eq_of_lt (by assumption) (by split at h <;> omega)
    · rw [← Int.add_emod_right]
      exact Int.emod_eq_of_lt (by split at h <;> omega) (by omega)
  unfold value
  simp only [hlow, hmod]
  unfold Holds at h
  cases hsigned : s.signed with
  | false =>
    simp only [hsigned, Bool.false_eq_true, if_false, Bool.false_and] at h ⊢
    rw [if_pos h.1]
    omega
  | true =>
    simp only [hsigned, if_true, Bool.true_and, decide_eq_true_eq] at h ⊢
    split <;> split <;> omega

theorem spellable_eq (width : Nat) : spellable width = 2 ^ (8 * width) := by
  induction width with
  | zero => rfl
  | succ width ih => rw [spellable, ih, Nat.mul_succ, Nat.pow_add, Nat.mul_comm]

/-- An unsigned format is the word of its width. -/
theorem value_of_unsigned (hs : s.signed = false) (h : bytes.length = s.size) :
    s.value bytes = (BitVec.ofNat (8 * s.size) (beNat bytes)).toNat := by
  have hlt := beNat_lt bytes
  rw [h, spellable_eq] at hlt
  rw [BitVec.toNat_ofNat, Nat.mod_eq_of_lt hlt]
  simp [value, hs]

/-- A signed format is the word of its width in two's complement. -/
theorem value_of_signed (hs : s.signed = true) (h : bytes.length = s.size) :
    s.value bytes = (BitVec.ofNat (8 * s.size) (beNat bytes)).toInt := by
  have hlt := beNat_lt bytes
  rw [h, spellable_eq] at hlt
  rw [BitVec.toInt_eq_toNat_cond, BitVec.toNat_ofNat, Nat.mod_eq_of_lt hlt]
  simp only [value, hs, Bool.true_and, decide_eq_true_eq, spellable_eq]
  split <;> split <;> omega

/-- A value and its bytes say the same. -/
theorem value_eq_iff :
    bytes.length = s.size ∧ s.value bytes = v ↔ s.Holds v ∧ bytes = s.bytes v := by
  constructor
  · rintro ⟨hlength, rfl⟩
    exact ⟨holds_value hlength, (bytes_value hlength).symm⟩
  · rintro ⟨hholds, rfl⟩
    exact ⟨length_bytes s v, value_bytes hholds⟩

end Scalar

/-- The padding goes to the next multiple. -/
theorem isLeast_align (pos : Nat) {boundary : Nat} (h : 0 < boundary) :
    IsLeast {n | pos ≤ n ∧ boundary ∣ n}
      (pos + (boundary - pos % boundary) % boundary) := by
  have hlt := Nat.mod_lt pos h
  have hpos := Nat.div_add_mod pos boundary
  rcases Nat.eq_zero_or_pos (pos % boundary) with hzero | hsome
  · rw [hzero, Nat.sub_zero, Nat.mod_self, Nat.add_zero]
    exact ⟨⟨le_refl _, Nat.dvd_of_mod_eq_zero hzero⟩, fun n hn => hn.1⟩
  · rw [Nat.mod_eq_of_lt (by omega)]
    have hnext : pos + (boundary - pos % boundary) = boundary * (pos / boundary + 1) := by
      rw [Nat.mul_add, Nat.mul_one]
      omega
    refine ⟨⟨by omega, hnext ▸ Nat.dvd_mul_right _ _⟩, ?_⟩
    rintro n ⟨hle, k, rfl⟩
    rw [hnext]
    refine Nat.mul_le_mul_left boundary (Nat.lt_of_mul_lt_mul_left (a := boundary) ?_)
    omega

namespace Reader

theorem spells_skip (count : Nat) :
    (Cursor.skip count).Spells fun _ bytes => bytes.length = count := by
  refine ((spells_take count).last fun _ => ()).congr fun _ bytes => ?_
  constructor
  · rintro ⟨_, ⟨hlength, rfl⟩, _⟩
    exact hlength
  · intro hlength
    exact ⟨bytes, ⟨hlength, rfl⟩, rfl⟩

theorem spells_scalar (s : Scalar) :
    (Cursor.scalar s).Spells fun v bytes => s.Holds v ∧ bytes = s.bytes v := by
  refine (spells_take s.size).map.congr fun v bytes => ?_
  rw [← Scalar.value_eq_iff]
  constructor
  · rintro ⟨_, ⟨hlength, rfl⟩, hv⟩
    exact ⟨hlength, hv⟩
  · rintro ⟨hlength, hv⟩
    exact ⟨bytes, ⟨hlength, rfl⟩, hv⟩

end Reader

/-- These bytes stand from one place of the data to the other. -/
structure Between (data : Bytes) (pos stop : Nat) (bytes : Bytes) : Prop where
  stop_eq : stop = pos + bytes.length
  stop_le : stop ≤ data.length
  eq : data.extract pos stop = bytes

theorem between_extract {data : Bytes} {pos stop : Nat} (hle : pos ≤ stop)
    (hstop : stop ≤ data.length) : Between data pos stop (data.extract pos stop) where
  stop_eq := by simp; omega
  stop_le := hstop
  eq := rfl

namespace Cursor

variable {c c' : Cursor}

/-- The bytes that the cursor goes over are those between the two places. -/
theorem passes_iff {bytes : Bytes} :
    c.Passes bytes c' ↔ c'.data = c.data ∧ Between c.data c.pos c'.pos bytes := by
  constructor
  · intro h
    refine ⟨h.data, h.pos, h.data ▸ c'.pos_le, ?_⟩
    change (c.data.drop c.pos).take (c'.pos - c.pos) = bytes
    rw [← c.rest_eq, h.rest, h.pos, Nat.add_sub_cancel_left, List.take_left]
  · rintro ⟨hdata, hpos, -, hbytes⟩
    refine ⟨hdata, hpos, ?_⟩
    rw [c.rest_eq, c'.rest_eq, hdata, ← hbytes, hpos, ← List.drop_drop]
    change _ = (c.data.drop c.pos).take (c.pos + bytes.length - c.pos) ++ _
    rw [Nat.add_sub_cancel_left, List.take_append_drop]

theorem seek_eq_ok {pos : Nat} :
    seek pos c = .ok () c' ↔ c'.data = c.data ∧ c'.pos = pos := by
  unfold seek
  constructor
  · intro h
    split at h
    · cases h
      exact ⟨rfl, rfl⟩
    · cases h
  · rintro ⟨hdata, rfl⟩
    rw [dif_pos (hdata ▸ c'.pos_le)]
    exact congrArg (EStateM.Result.ok ()) (eq_of_data_pos hdata.symm rfl)

theorem peek_eq (c : Cursor) :
    peek c = match c.data[c.pos]? with
      | some b => .ok b c
      | none => .error .outOfBounds c := by
  have hhead : c.rest.head? = c.data[c.pos]? := by rw [c.rest_eq, List.head?_drop]
  rw [← hhead]
  unfold peek
  cases c.rest <;> rfl

theorem take_eq_error {n : Nat} {fault : Fault} (h : take n c = .error fault c') :
    fault = .outOfBounds ∧ c' = c ∧ c.data.length < c.pos + n := by
  have hlength := c.length_rest
  unfold take at h
  simp only at h
  split at h
  · cases h
  · next hshort =>
    cases h
    rw [List.length_take] at hshort
    exact ⟨rfl, rfl, by omega⟩

/-- What may be asked of a cursor. -/
inductive Move where
  | seek (pos : Nat)
  | skip (count : Nat)
  | align (boundary : Nat) (pos : 0 < boundary)
  | peek
  | scalar (s : Scalar)
  | take (count : Nat)
  | prefixed
  deriving DecidableEq

/-- What a move gives. -/
inductive Found where
  | nothing
  | byte (b : UInt8)
  | number (v : Int)
  | bytes (bytes : Bytes)
  deriving DecidableEq, Repr

namespace Move

def run : Move → Reader Found
  | seek pos => (fun _ => .nothing) <$> Cursor.seek pos
  | skip count => (fun _ => .nothing) <$> Cursor.skip count
  | align boundary _ => (fun _ => .nothing) <$> Cursor.align boundary
  | peek => .byte <$> Cursor.peek
  | scalar s => .number <$> Cursor.scalar s
  | take count => .bytes <$> Cursor.take count
  | prefixed => .bytes <$> Cursor.prefixed

/-- The move from `pos` gives something and ends at the place named last. What is read stands
between the two places. -/
inductive Gives (data : Bytes) (pos : Nat) : Move → Found → Nat → Prop
  | seek {stop : Nat} (stop_le : stop ≤ data.length) : Gives data pos (.seek stop) .nothing stop
  | skip {count : Nat} (stop_le : pos + count ≤ data.length) :
    Gives data pos (.skip count) .nothing (pos + count)
  | align {boundary stop : Nat} {h : 0 < boundary}
    (least : IsLeast {n | pos ≤ n ∧ boundary ∣ n} stop) (stop_le : stop ≤ data.length) :
    Gives data pos (.align boundary h) .nothing stop
  | peek {b : UInt8} (here : data[pos]? = some b) : Gives data pos .peek (.byte b) pos
  | scalar {s : Scalar} {v : Int} {stop : Nat} (holds : s.Holds v)
    (between : Between data pos stop (s.bytes v)) : Gives data pos (.scalar s) (.number v) stop
  | take {bytes : Bytes} {stop : Nat} (between : Between data pos stop bytes) :
    Gives data pos (.take bytes.length) (.bytes bytes) stop
  | prefixed {bytes : Bytes} {stop : Nat} (short : bytes.length < 65536)
    (between : Between data pos stop (beBytes 2 bytes.length ++ bytes)) :
    Gives data pos .prefixed (.bytes bytes) stop

theorem Gives.stop_le {data : Bytes} {pos stop : Nat} {m : Move} {found : Found}
    (h : m.Gives data pos found stop) : stop ≤ data.length := by
  cases h with
  | peek here => exact (List.getElem?_eq_some_iff.mp here).1.le
  | scalar _ between => exact between.stop_le
  | take between => exact between.stop_le
  | prefixed _ between => exact between.stop_le
  | _ => assumption

variable {found : Found} {fault : Fault}

/-- A move that reads goes over the bytes of what it gives. -/
theorem map_eq_ok {α : Type} {r : Reader α} {spell : α → Bytes → Prop} {f : α → Found}
    (h : r.SpellsAt c.pos spell) :
    (f <$> r) c = .ok found c' ↔ c'.data = c.data ∧ ∃ a bytes, f a = found ∧ spell a bytes ∧
      Between c.data c.pos c'.pos bytes := by
  rw [Stateful.map_eq_ok]
  simp only [h c _ c' rfl, passes_iff]
  constructor
  · rintro ⟨a, ⟨bytes, hspell, hdata, hbytes⟩, hfound⟩
    exact ⟨hdata, a, bytes, hfound, hspell, hbytes⟩
  · rintro ⟨hdata, a, bytes, hfound, hspell, hbytes⟩
    exact ⟨a, ⟨bytes, hspell, hdata, hbytes⟩, hfound⟩

/-- A move past bytes that it does not look at only needs them to be there. -/
theorem moves_eq_ok {r : Reader Unit} {n : Nat}
    (h : r.SpellsAt c.pos fun _ bytes => bytes.length = n) :
    ((fun _ => Found.nothing) <$> r) c = .ok found c' ↔ c'.data = c.data ∧
      found = .nothing ∧ c'.pos = c.pos + n ∧ c'.pos ≤ c.data.length := by
  refine (map_eq_ok h).trans (and_congr_right fun _ => ?_)
  constructor
  · rintro ⟨_, bytes, rfl, rfl, hbetween⟩
    exact ⟨rfl, hbetween.stop_eq, hbetween.stop_le⟩
  · rintro ⟨rfl, hstop, hle⟩
    have hbetween := between_extract (hstop.symm ▸ Nat.le_add_right _ _) hle
    have hlength := hbetween.stop_eq
    exact ⟨(), _, rfl, by omega, hbetween⟩

/-- A move goes well exactly where there is something for it to give. -/
theorem run_eq_ok (m : Move) :
    m.run c = .ok found c' ↔ c'.data = c.data ∧ m.Gives c.data c.pos found c'.pos := by
  cases m with
  | seek stop =>
    refine Stateful.map_eq_ok.trans ?_
    constructor
    · rintro ⟨_, hseek, rfl⟩
      obtain ⟨hdata, rfl⟩ := seek_eq_ok.mp hseek
      exact ⟨hdata, .seek (hdata ▸ c'.pos_le)⟩
    · rintro ⟨hdata, hgives⟩
      generalize hpos : c'.pos = pos at hgives
      cases hgives with
      | seek => exact ⟨(), seek_eq_ok.mpr ⟨hdata, hpos⟩, rfl⟩
  | skip count =>
    refine (moves_eq_ok ((Reader.spells_skip count).at c.pos)).trans (and_congr_right fun _ => ?_)
    constructor
    · rintro ⟨rfl, hstop, hle⟩
      rw [hstop] at hle ⊢
      exact .skip hle
    · intro hgives
      generalize c'.pos = pos at hgives ⊢
      cases hgives with
      | skip hle => exact ⟨rfl, rfl, hle⟩
  | align boundary h =>
    refine (moves_eq_ok (Reader.spellsAt_align boundary c.pos)).trans (and_congr_right fun _ => ?_)
    have hleast := isLeast_align c.pos h
    constructor
    · rintro ⟨rfl, hstop, hle⟩
      exact .align (hstop ▸ hleast) hle
    · intro hgives
      generalize c'.pos = pos at hgives ⊢
      cases hgives with
      | align hleast' hle => exact ⟨rfl, hleast'.unique hleast, hle⟩
  | peek =>
    refine Stateful.map_eq_ok.trans ?_
    rw [peek_eq]
    constructor
    · rintro ⟨b, hpeek, rfl⟩
      split at hpeek
      · next hb =>
        cases hpeek
        exact ⟨rfl, .peek hb⟩
      · cases hpeek
    · rintro ⟨hdata, hgives⟩
      generalize hpos : c'.pos = pos at hgives
      cases hgives with
      | peek hb =>
        rw [hb]
        exact ⟨_, congrArg (EStateM.Result.ok _) (eq_of_data_pos hdata.symm hpos.symm), rfl⟩
  | scalar s =>
    refine (map_eq_ok ((Reader.spells_scalar s).at c.pos)).trans (and_congr_right fun _ => ?_)
    constructor
    · rintro ⟨v, _, rfl, ⟨hholds, rfl⟩, hbetween⟩
      exact .scalar hholds hbetween
    · rintro (_ | _ | _ | _ | ⟨hholds, hbetween⟩)
      exact ⟨_, _, rfl, ⟨hholds, rfl⟩, hbetween⟩
  | take count =>
    refine (map_eq_ok ((Reader.spells_take count).at c.pos)).trans (and_congr_right fun _ => ?_)
    constructor
    · rintro ⟨taken, _, rfl, ⟨rfl, rfl⟩, hbetween⟩
      exact .take hbetween
    · rintro (_ | _ | _ | _ | _ | hbetween)
      exact ⟨_, _, rfl, ⟨rfl, rfl⟩, hbetween⟩
  | prefixed =>
    refine (map_eq_ok (spells_prefixed.at c.pos)).trans (and_congr_right fun _ => ?_)
    simp only [prefixedBytes_eq_ok]
    constructor
    · rintro ⟨taken, _, rfl, ⟨hshort, rfl⟩, hbetween⟩
      exact .prefixed hshort hbetween
    · rintro (_ | _ | _ | _ | _ | _ | ⟨hshort, hbetween⟩)
      exact ⟨_, _, rfl, ⟨hshort, rfl⟩, hbetween⟩

/-- Only a length that was read before its bytes were found missing is left behind. -/
theorem run_eq_error (m : Move) (h : m.run c = .error fault c') :
    fault = .outOfBounds ∧ c'.data = c.data ∧
      c'.pos = if m = .prefixed ∧ c.pos + 2 ≤ c.data.length then c.pos + 2 else c.pos := by
  cases m with
  | seek stop =>
    have hseek := Stateful.map_eq_error.mp h
    unfold Cursor.seek at hseek
    split at hseek
    · cases hseek
    · cases hseek
      exact ⟨rfl, rfl, rfl⟩
  | skip count =>
    obtain ⟨rfl, rfl, -⟩ := take_eq_error (Stateful.map_eq_error.mp (Stateful.map_eq_error.mp h))
    exact ⟨rfl, rfl, rfl⟩
  | align boundary hpos =>
    have halign : Cursor.skip _ c = .error fault c' := Stateful.map_eq_error.mp h
    obtain ⟨rfl, rfl, -⟩ := take_eq_error (Stateful.map_eq_error.mp halign)
    exact ⟨rfl, rfl, rfl⟩
  | peek =>
    have hpeek := Stateful.map_eq_error.mp h
    rw [peek_eq] at hpeek
    split at hpeek
    · cases hpeek
    · cases hpeek
      exact ⟨rfl, rfl, rfl⟩
  | scalar s =>
    obtain ⟨rfl, rfl, -⟩ := take_eq_error (Stateful.map_eq_error.mp (Stateful.map_eq_error.mp h))
    exact ⟨rfl, rfl, rfl⟩
  | take count =>
    obtain ⟨rfl, rfl, -⟩ := take_eq_error (Stateful.map_eq_error.mp h)
    exact ⟨rfl, rfl, rfl⟩
  | prefixed =>
    rcases Stateful.bind_eq_error.mp (Stateful.map_eq_error.mp h) with hlength | ⟨n, there, hn, h⟩
    · obtain ⟨rfl, rfl, hlt⟩ := take_eq_error (Stateful.map_eq_error.mp hlength)
      rw [if_neg (by omega)]
      exact ⟨rfl, rfl, rfl⟩
    · obtain ⟨rfl, rfl, -⟩ := take_eq_error h
      obtain ⟨_, rfl, hpass⟩ := (Reader.spells_u16 c n c').mp hn
      have hpos : c'.pos = c.pos + 2 := hpass.pos
      have hle := c'.pos_le
      rw [hpass.data, hpos] at hle
      rw [if_pos ⟨rfl, hle⟩]
      exact ⟨rfl, hpass.data, hpos⟩

/-- What comes of a move from `pos`; it fails only where there is nothing to give. -/
inductive Ends (data : Bytes) (pos : Nat) (m : Move) : EStateM.Result Fault Cursor Found → Prop
  | gives {c : Cursor} {found : Found} (data_eq : c.data = data)
    (gives : m.Gives data pos found c.pos) : Ends data pos m (.ok found c)
  | fails {c : Cursor} (data_eq : c.data = data)
    (nothing : ∀ found stop, ¬ m.Gives data pos found stop)
    (pos_eq : c.pos = if m = .prefixed ∧ pos + 2 ≤ data.length then pos + 2 else pos) :
    Ends data pos m (.error .outOfBounds c)

theorem ends_run (m : Move) (c : Cursor) : m.Ends c.data c.pos (m.run c) := by
  cases hrun : m.run c with
  | ok found c' =>
    obtain ⟨hdata, hgives⟩ := (run_eq_ok m).mp hrun
    exact .gives hdata hgives
  | error fault c' =>
    obtain ⟨rfl, hdata, hpos⟩ := run_eq_error m hrun
    refine .fails hdata (fun found stop hgives => ?_) hpos
    -- what there is to give would have been given
    have hok : m.run c = .ok found ⟨c.data, stop, _, rfl, hgives.stop_le⟩ :=
      (run_eq_ok m).mpr ⟨rfl, hgives⟩
    cases hok.symm.trans hrun

/-- The cursor after a move, whether it went well or not. -/
def after (c : Cursor) (m : Move) : Cursor :=
  match m.run c with
  | .ok _ c' => c'
  | .error _ c' => c'

theorem data_after (c : Cursor) (m : Move) : (after c m).data = c.data := by
  have hends := ends_run m c
  unfold after
  generalize m.run c = result at hends ⊢
  cases hends with
  | gives hdata => exact hdata
  | fails hdata => exact hdata

end Move

/-- The cursor after moves one behind the other, those that fail included. -/
def afterAll (moves : List Move) (c : Cursor) : Cursor := moves.foldl Move.after c

theorem data_afterAll (moves : List Move) (c : Cursor) : (afterAll moves c).data = c.data := by
  induction moves generalizing c with
  | nil => rfl
  | cons m moves ih => exact (ih (Move.after c m)).trans (Move.data_after c m)

/-- Only what is made of as many bytes as are taken counts. -/
theorem map_take_congr {α : Type} {n : Nat} {f g : Bytes → α}
    (h : ∀ bytes, bytes.length = n → f bytes = g bytes) : f <$> take n = g <$> take n := by
  funext c
  show EStateM.map f _ c = EStateM.map g _ c
  unfold EStateM.map
  cases htake : take n c with
  | ok bytes c' => exact congrArg (EStateM.Result.ok · c') (h bytes (take_eq_ok.mp htake).1)
  | error fault c' => rfl

theorem scalar_of_unsigned {s : Scalar} (h : s.signed = false) :
    scalar s =
      (fun bytes => ((BitVec.ofNat (8 * s.size) (beNat bytes)).toNat : Int)) <$> take s.size :=
  map_take_congr fun _ hlength => Scalar.value_of_unsigned h hlength

theorem scalar_of_signed {s : Scalar} (h : s.signed = true) :
    scalar s = (fun bytes => (BitVec.ofNat (8 * s.size) (beNat bytes)).toInt) <$> take s.size :=
  map_take_congr fun _ hlength => Scalar.value_of_signed h hlength

/-- The reader of machine words for a format, if there is one; the words are read as numbers. -/
def words? : Scalar → Option (Reader Int)
  | .u8 => some ((fun n => (n.toNat : Int)) <$> u8)
  | .u16 => some ((fun n => (n.toNat : Int)) <$> u16)
  | .u32 => some ((fun n => (n.toNat : Int)) <$> u32)
  | .u64 => some ((fun n => (n.toNat : Int)) <$> u64)
  | .i16 => some (Int16.toInt <$> i16)
  | .i32 => some (Int32.toInt <$> i32)
  | .i64 => some (Int64.toInt <$> i64)
  | .i8 => none

theorem words?_eq_some {s : Scalar} {r : Reader Int} (h : words? s = some r) : r = scalar s := by
  cases s <;> cases h
  case u8 | u16 | u32 | u64 =>
    rw [scalar_of_unsigned rfl]
    simp only [u8, u16, u32, u64, Functor.map_map]
    rfl
  case i16 | i32 | i64 =>
    rw [scalar_of_signed rfl]
    simp only [i16, i32, i64, u16, u32, u64, Functor.map_map]
    rfl

end Cursor

/-- The sum of two machine words does not overflow and is no more than `length`. -/
def SumWithin (a b : UInt64) (length : Nat) : Prop :=
  a.toNat + b.toNat < UInt64.size ∧ (a + b).toNat ≤ length

theorem sumWithin_iff {a b : UInt64} {length : Nat} (hwords : length < UInt64.size) :
    SumWithin a b length ↔ a.toNat + b.toNat ≤ length := by
  unfold SumWithin
  rw [UInt64.toNat_add]
  change _ < UInt64.size ∧ (_ % UInt64.size) ≤ length ↔ _
  constructor
  · rintro ⟨hlt, hle⟩
    rwa [Nat.mod_eq_of_lt hlt] at hle
  · intro hle
    have hlt := hle.trans_lt hwords
    exact ⟨hlt, by rwa [Nat.mod_eq_of_lt hlt]⟩

/-- The padding in machine words never wraps around. -/
theorem toNat_padding (pos : UInt64) {boundary : UInt64} (h : 0 < boundary) :
    ((boundary - pos % boundary) % boundary).toNat =
      (boundary.toNat - pos.toNat % boundary.toNat) % boundary.toNat := by
  have hlt : pos.toNat % boundary.toNat < boundary.toNat := Nat.mod_lt _ h
  rw [UInt64.toNat_mod, UInt64.toNat_sub_of_le, UInt64.toNat_mod]
  exact UInt64.le_iff_toNat_le.mpr (by rw [UInt64.toNat_mod]; exact hlt.le)

namespace Spot

/-- There is room for the scalar. -/
def Fits (s : Scalar) (p : Spot) : Prop := p.offset + s.size ≤ p.data.length

instance (s : Scalar) (p : Spot) : Decidable (p.Fits s) := inferInstanceAs (Decidable (_ ≤ _))

variable {s : Scalar} {p p' : Spot} {v : Int} {fault : Fault}

/-- Nothing was moved when a lack of room is found. -/
theorem read_of_not_fits (h : ¬ Fits s p) : read s p = .error .outOfBounds p := by
  show (ite (p.data.length < p.offset + s.size) _ _ : EStateM Fault Spot Int) p = _
  rw [if_pos (Nat.lt_of_not_le h)]
  rfl

theorem read_of_fits (h : Fits s p) :
    read s p = .ok (s.value (p.data.extract p.offset (p.offset + s.size)))
      ⟨p.data, p.offset + s.size⟩ := by
  have hextract : (p.data.drop p.offset).take s.size =
      p.data.extract p.offset (p.offset + s.size) := by
    change _ = (p.data.drop p.offset).take (p.offset + s.size - p.offset)
    rw [Nat.add_sub_cancel_left]
  rw [← hextract]
  show (ite (p.data.length < p.offset + s.size) _ _ : EStateM Fault Spot Int) p = _
  rw [if_neg (Nat.not_lt.mpr h)]
  rfl

/-- What is read is the value of the bytes that stand there. -/
theorem read_eq_ok : read s p = .ok v p' ↔
    s.Holds v ∧ p'.data = p.data ∧ Between p.data p.offset p'.offset (s.bytes v) := by
  constructor
  · intro h
    by_cases hfits : Fits s p
    · have hbetween := between_extract (Nat.le_add_right p.offset s.size) hfits
      have hlength : (p.data.extract p.offset (p.offset + s.size)).length = s.size := by
        have := hbetween.stop_eq
        omega
      cases (read_of_fits hfits).symm.trans h
      rw [Scalar.bytes_value hlength]
      exact ⟨Scalar.holds_value hlength, rfl, hbetween⟩
    · cases (read_of_not_fits hfits).symm.trans h
  · rintro ⟨hholds, hdata, hbetween⟩
    have hstop : p'.offset = p.offset + s.size := by
      rw [hbetween.stop_eq, Scalar.length_bytes]
    have hplace : p' = ⟨p.data, p.offset + s.size⟩ := by
      rw [← hstop, ← hdata]
    have hfits : Fits s p := hstop.symm.trans_le hbetween.stop_le
    rw [read_of_fits hfits, ← hstop, hbetween.eq, Scalar.value_bytes hholds,
      hplace]

/-- Nothing was written when a lack of room is found. -/
theorem write_of_not_fits (v : Int) (h : ¬ Fits s p) : write s v p = .error .outOfBounds p := by
  show (ite (p.data.length < p.offset + s.size) _ _ : EStateM Fault Spot Unit) p = _
  rw [if_pos (Nat.lt_of_not_le h)]
  rfl

theorem write_of_fits (v : Int) (h : Fits s p) :
    write s v p = .ok () ⟨p.data.take p.offset ++ s.bytes v ++ p.data.drop (p.offset + s.size),
      p.offset + s.size⟩ := by
  show (ite (p.data.length < p.offset + s.size) _ _ : EStateM Fault Spot Unit) p = _
  rw [if_neg (Nat.not_lt.mpr h)]
  rfl

/-- The value stands where it was written, and the rest is as it was. -/
structure Written (s : Scalar) (v : Int) (p p' : Spot) : Prop where
  between : Between p'.data p.offset p'.offset (s.bytes v)
  length_eq : p'.data.length = p.data.length
  others : ∀ i, i < p.offset ∨ p'.offset ≤ i → p'.data[i]? = p.data[i]?

theorem exists_written (v : Int) (h : Fits s p) :
    ∃ p', write s v p = .ok () p' ∧ Written s v p p' := by
  have hfits : p.offset + s.size ≤ p.data.length := h
  have hfront : (p.data.take p.offset).length = p.offset := by
    rw [List.length_take]
    omega
  have hlength : (p.data.take p.offset ++ s.bytes v ++ p.data.drop (p.offset + s.size)).length =
      p.data.length := by
    simp
    omega
  refine ⟨_, write_of_fits v h, ⟨?_, ?_, ?_⟩, hlength, fun i hi => ?_⟩
  · rw [Scalar.length_bytes]
  · rw [hlength]
    exact hfits
  · change (List.drop p.offset _).take (p.offset + s.size - p.offset) = _
    rw [List.append_assoc, List.drop_left' hfront, Nat.add_sub_cancel_left,
      List.take_left' (Scalar.length_bytes s v)]
  · rcases hi with hi | hi
    · rw [List.append_assoc, List.getElem?_append_left (by omega), List.getElem?_take_of_lt hi]
    · have hbefore : (p.data.take p.offset ++ s.bytes v).length = p.offset + s.size := by
        rw [List.length_append, hfront, Scalar.length_bytes]
      change p.offset + s.size ≤ i at hi
      rw [List.getElem?_append_right (by omega), hbefore, List.getElem?_drop,
        Nat.add_sub_cancel' hi]

end Spot

namespace Cursor

theorem skip_iff {n : Nat} {c : Cursor} :
    (∃ c', skip n c = .ok () c') ↔ c.pos + n ≤ c.data.length := by
  constructor
  · rintro ⟨c', hskip⟩
    obtain ⟨bytes, rfl, hpass⟩ := (Reader.spells_skip n c () c').mp hskip
    rw [← hpass.pos, ← hpass.data]
    exact c'.pos_le
  · intro hle
    cases hskip : skip n c with
    | ok _ c' => exact ⟨c', rfl⟩
    | error fault c' =>
      have hshort := (take_eq_error (Stateful.map_eq_error.mp hskip)).2.2
      omega

/-- In machine words the moves come to the same. -/
theorem words_agree {c : Cursor} {pos : UInt64} (hwords : c.data.length < UInt64.size)
    (hpos : c.pos = pos.toNat) :
    (∀ count : UInt64, (∃ c', skip count.toNat c = .ok () c') ↔
      SumWithin pos count c.data.length) ∧
    ∀ boundary : UInt64, 0 < boundary →
      align boundary.toNat c = skip ((boundary - pos % boundary) % boundary).toNat c := by
  refine ⟨fun count => ?_, fun boundary hboundary => ?_⟩
  · rw [sumWithin_iff hwords, ← hpos, skip_iff]
  · rw [toNat_padding pos hboundary, ← hpos]
    rfl

end Cursor

/-- Whatever was asked of a cursor before, a move ends within the data: it gives the bytes that it
went over, or there was nothing to give and it stays where it was, or behind a length whose bytes
are missing. An access at an offset goes well exactly where it has room, and what is written is read
back, with the other bytes as they were; one that fails changes nothing. Machine words and the
readers of them come to the same. -/
theorem moves_and_accesses_exact :
    (∀ (data : Bytes) (moves : List Cursor.Move) (m : Cursor.Move),
      let here := Cursor.afterAll moves (Cursor.start data)
      here.data = data ∧ here.pos ≤ data.length ∧ m.Ends data here.pos (m.run here)) ∧
    (∀ (s : Scalar) (p : Spot),
      (p.Fits s →
        (∃ v, Spot.read s p = .ok v ⟨p.data, p.offset + s.size⟩ ∧ s.Holds v ∧
          Between p.data p.offset (p.offset + s.size) (s.bytes v)) ∧
        ∀ v, s.Holds v → ∃ p', Spot.write s v p = .ok () p' ∧ Spot.Written s v p p' ∧
          Spot.read s ⟨p'.data, p.offset⟩ = .ok v p') ∧
      (¬ p.Fits s →
        Spot.read s p = .error .outOfBounds p ∧
        ∀ v, Spot.write s v p = .error .outOfBounds p)) ∧
    (∀ (s : Scalar) (data : Bytes) (offset : UInt64), data.length < UInt64.size →
      (Spot.Fits s ⟨data, offset.toNat⟩ ↔
        SumWithin offset (UInt64.ofNat s.size) data.length)) ∧
    (∀ (c : Cursor) (pos : UInt64), c.data.length < UInt64.size → c.pos = pos.toNat →
      (∀ count : UInt64, (∃ c', Cursor.skip count.toNat c = .ok () c') ↔
        SumWithin pos count c.data.length) ∧
      ∀ boundary : UInt64, 0 < boundary → Cursor.align boundary.toNat c =
        Cursor.skip ((boundary - pos % boundary) % boundary).toNat c) ∧
    (∀ s r, Cursor.words? s = some r → r = Cursor.scalar s) := by
  refine ⟨fun data moves m => ?_,
    fun s p => ⟨fun hfits => ⟨?_, fun v hholds => ?_⟩, fun hfits => ?_⟩,
    fun s data offset hwords => ?_, fun c pos => Cursor.words_agree,
    fun s r => Cursor.words?_eq_some⟩
  · intro here
    have hdata : here.data = data := Cursor.data_afterAll moves _
    have hends := Cursor.Move.ends_run m here
    rw [hdata] at hends
    exact ⟨hdata, hdata ▸ here.pos_le, hends⟩
  · have hread := Spot.read_of_fits hfits
    obtain ⟨hholds, -, hbetween⟩ := Spot.read_eq_ok.mp hread
    exact ⟨_, hread, hholds, hbetween⟩
  · obtain ⟨p', hwrite, hwritten⟩ := Spot.exists_written v hfits
    exact ⟨p', hwrite, hwritten, Spot.read_eq_ok.mpr ⟨hholds, rfl, hwritten.between⟩⟩
  · exact ⟨Spot.read_of_not_fits hfits, fun v => Spot.write_of_not_fits v hfits⟩
  · have hsize : (UInt64.ofNat s.size).toNat = s.size := by cases s <;> rfl
    rw [sumWithin_iff hwords, hsize]
    rfl

/-- A length whose bytes are missing, a skip that would wrap around, and an alignment and a place
beyond the end. -/
def straying : List Cursor.Move :=
  [.prefixed, .skip 18446744073709551615, .align 4 (by decide), .seek 4, .take 2]

theorem moves_and_accesses_exact_straying :
    (Cursor.afterAll straying (Cursor.start [0, 5, 120])).pos = 2 ∧
      (∃ c, Cursor.Move.peek.run (Cursor.afterAll straying (Cursor.start [0, 5, 120])) =
        .ok (.byte 120) c) ∧
      (∃ p', Spot.write .i16 (-2) ⟨[1, 2, 3, 4], 1⟩ = .ok () p' ∧
        Spot.read .i16 ⟨p'.data, 1⟩ = .ok (-2) p') ∧
      Spot.read .u32 ⟨[1, 2, 3, 4], 1⟩ = .error .outOfBounds ⟨[1, 2, 3, 4], 1⟩ ∧
      ¬ SumWithin 18446744073709551615 (UInt64.ofNat 4) 4 := by
  obtain ⟨hmoves, haccesses, hwords, -, -⟩ := moves_and_accesses_exact
  have hpos : (Cursor.afterAll straying (Cursor.start [0, 5, 120])).pos = 2 := by decide +kernel
  obtain ⟨-, -, hends⟩ := hmoves [0, 5, 120] straying .peek
  rw [hpos] at hends
  have hpeek : ∃ c, Cursor.Move.peek.run (Cursor.afterAll straying (Cursor.start [0, 5, 120])) =
      .ok (.byte 120) c := by
    cases hends with
    | gives _ hgives =>
      generalize Cursor.pos _ = stop at hgives
      cases hgives with
      | peek hbyte =>
        cases hbyte
        exact ⟨_, rfl⟩
  obtain ⟨p', hwrite, -, hback⟩ :=
    ((haccesses .i16 ⟨[1, 2, 3, 4], 1⟩).1 (by decide)).2 (-2) (by decide)
  obtain ⟨hread, -⟩ := (haccesses .u32 ⟨[1, 2, 3, 4], 1⟩).2 (by decide)
  have hfits := hwords .u32 [1, 2, 3, 4] 18446744073709551615 (by decide)
  exact ⟨hpos, hpeek, ⟨p', hwrite, hback⟩, hread, fun h => absurd (hfits.mpr h) (by decide)⟩

end ThreadWatch
