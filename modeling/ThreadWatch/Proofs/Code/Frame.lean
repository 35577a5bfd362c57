import Mathlib.Algebra.GroupWithZero.Nat
import ThreadWatch.Code.Frame
import ThreadWatch.Proofs.Bytes.Spelling

/-!
# Frame tables are read as they are written

What a table says of each frame has one short form, and for two kinds of frame also a stretched one
that spends two bytes on any distance. Both are read; the short one is written. So frames are always
read back, and a table that was read is written again byte for byte unless it had stretched forms.
-/

namespace ThreadWatch

namespace Verification

theorem spells_read : read.Spells fun v bytes => bytes = v.bytes := by
  unfold read
  refine (Reader.spells_u8.bind fun tag => (?_ : Reader.Spells _ fun v tail =>
    tag :: tail = v.bytes)).congr fun v bytes => ?_
  · split
    case h_8 | h_9 =>
      refine Reader.spells_u16.map.congr fun v bytes => ?_
      cases v <;> simp [Verification.bytes]
    case h_10 =>
      refine (Reader.fails_damage _).spells fun v bytes => ?_
      cases v <;> simp_all [Verification.bytes]
    all_goals
      refine (Reader.Spells.pure _).congr fun v bytes => ?_
      cases v <;> simp [Verification.bytes]
  · constructor
    · rintro ⟨tag, _, tail, rfl, h, rfl⟩
      exact h
    · rintro rfl
      obtain ⟨tag, tail, h⟩ : ∃ tag tail, v.bytes = tag :: tail := by cases v <;> exact ⟨_, _, rfl⟩
      rw [h]
      exact ⟨tag, _, tail, rfl, rfl, rfl⟩

end Verification

/-! ### Tags -/

theorem toUInt8_le {delta : UInt16} (h : delta ≤ 63) :
    delta.toUInt8 ≤ 63 ∧ delta.toUInt8.toUInt16 = delta := by
  rw [UInt16.le_iff_toNat_le] at h
  rw [UInt8.le_iff_toNat_le, ← UInt16.toNat_inj]
  simp at *
  omega

theorem toUInt16_le {tag : UInt8} (h : tag ≤ 63) : tag.toUInt16 ≤ 63 := by
  rw [UInt8.le_iff_toNat_le] at h
  rw [UInt16.le_iff_toNat_le]
  simpa using h

theorem tag_of_count {n : Nat} (hlow : 1 ≤ n) (hhigh : n ≤ 3) :
    252 ≤ 251 + UInt8.ofNat n ∧ 251 + UInt8.ofNat n ≤ 254 ∧
      n = (251 + UInt8.ofNat n - 251).toNat := by
  match n, hlow, hhigh with
  | 1, _, _ | 2, _, _ | 3, _, _ => decide

theorem count_of_tag {tag : UInt8} (hlow : 252 ≤ tag) (hhigh : tag ≤ 254) :
    1 ≤ (tag - 251).toNat ∧ (tag - 251).toNat ≤ 3 ∧
      251 + UInt8.ofNat (tag - 251).toNat = tag := by
  have hvalue : (tag - 251).toNat = tag.toNat - 251 :=
    UInt8.toNat_sub_of_le _ _ (by grind : (251 : UInt8) ≤ tag)
  have hback : 251 + (tag - 251) = tag := by grind
  have hlow' : 252 ≤ tag.toNat := hlow
  have hhigh' : tag.toNat ≤ 254 := hhigh
  rw [UInt8.ofNat_toNat]
  exact ⟨by omega, by omega, hback⟩

namespace FrameKind

theorem spells_readItems :
    readItems.Spells fun items bytes => items.length < 65536 ∧ bytes = itemBytes items := by
  unfold readItems
  refine (Verification.spells_read.ok.counted).congr fun items bytes => and_congr_right fun _ => ?_
  simp only [written_ok_iff, itemBytes, exists_eq_left]

/-- The frame at this distance stands as these bytes, the tag in front. -/
inductive Stands : UInt8 → UInt16 → FrameKind → Bytes → Prop
  | same {tag : UInt8} : tag ≤ 63 → Stands tag tag.toUInt16 .same [tag]
  | sameOne {tag : UInt8} (item : Verification) : ¬ tag ≤ 63 → tag ≤ 127 →
    Stands tag (tag - 64).toUInt16 (.sameOne item) (tag :: item.bytes)
  | sameOneFar (delta : UInt16) (item : Verification) :
    Stands 247 delta (.sameOne item) (247 :: (be16 delta ++ item.bytes))
  | chop {tag : UInt8} (delta : UInt16) : 248 ≤ tag → tag ≤ 250 →
    Stands tag delta (.chop (251 - tag)) (tag :: be16 delta)
  | sameFar (delta : UInt16) : Stands 251 delta .same (251 :: be16 delta)
  | append {tag : UInt8} (delta : UInt16) (items : List Verification) : 252 ≤ tag → tag ≤ 254 →
    items.length = (tag - 251).toNat →
    Stands tag delta (.append items) (tag :: (be16 delta ++ items.flatMap Verification.bytes))
  | full (delta : UInt16) (locals stack : List Verification) : locals.length < 65536 →
    stack.length < 65536 →
    Stands 255 delta (.full locals stack) (255 :: (be16 delta ++ (itemBytes locals ++ itemBytes stack)))

theorem Stands.head {tag : UInt8} {delta : UInt16} {kind : FrameKind} {bytes : Bytes}
    (h : Stands tag delta kind bytes) : ∃ tail, bytes = tag :: tail := by
  cases h <;> exact ⟨_, rfl⟩

/-- The reader gives the frame whose tag was read before. -/
abbrev Finishes (tag : UInt8) (r : Reader (UInt16 × FrameKind)) : Prop :=
  r.Spells fun p tail => Stands tag p.1 p.2 (tag :: tail)

section Ranges

-- one range of tags each: the forms that are not the range's own have tags outside it
variable {tag : UInt8}

theorem finishes_same (hsame : tag ≤ 63) :
    Finishes tag (do return (tag.toUInt16, .same)) := by
  refine (Reader.Spells.pure _).congr fun ⟨delta, kind⟩ bytes => ⟨?_, fun h => ?_⟩
  · rintro ⟨⟨⟩, rfl⟩
    exact .same hsame
  · cases h with
    | same => exact ⟨rfl, rfl⟩
    | _ => grind

theorem finishes_sameOne (hlow : ¬ tag ≤ 63) (hhigh : tag ≤ 127) :
    Finishes tag (do return ((tag - 64).toUInt16, .sameOne (← Verification.read))) := by
  refine (Verification.spells_read.last _).congr fun ⟨delta, kind⟩ bytes => ⟨?_, fun h => ?_⟩
  · rintro ⟨item, rfl, ⟨⟩⟩
    exact .sameOne item hlow hhigh
  · cases h with
    | sameOne item => exact ⟨item, rfl, rfl⟩
    | _ => grind

theorem finishes_sameOneFar :
    Finishes 247 (do return (← Cursor.u16, .sameOne (← Verification.read))) := by
  refine (Reader.spells_u16.pair Verification.spells_read _).congr
    fun ⟨delta, kind⟩ bytes => ⟨?_, fun h => ?_⟩
  · rintro ⟨delta, item, ⟨⟩, rfl⟩
    exact .sameOneFar delta item
  · cases h with
    | sameOneFar _ item => exact ⟨delta, item, rfl, rfl⟩
    | _ => grind

theorem finishes_chop (hlow : 248 ≤ tag) (hhigh : tag ≤ 250) :
    Finishes tag (do return (← Cursor.u16, .chop (251 - tag))) := by
  refine (Reader.spells_u16.last _).congr fun ⟨delta, kind⟩ bytes => ⟨?_, fun h => ?_⟩
  · rintro ⟨delta, rfl, ⟨⟩⟩
    exact .chop delta hlow hhigh
  · cases h with
    | chop => exact ⟨delta, rfl, rfl⟩
    | _ => grind

theorem finishes_sameFar : Finishes 251 (do return (← Cursor.u16, .same)) := by
  refine (Reader.spells_u16.last _).congr fun ⟨delta, kind⟩ bytes => ⟨?_, fun h => ?_⟩
  · rintro ⟨delta, rfl, ⟨⟩⟩
    exact .sameFar delta
  · cases h with
    | sameFar => exact ⟨delta, rfl, rfl⟩
    | _ => grind

theorem finishes_append (hlow : 252 ≤ tag) (hhigh : tag ≤ 254) :
    Finishes tag (do
      return (← Cursor.u16, .append (← Cursor.times Verification.read (tag - 251).toNat))) := by
  refine (Reader.spells_u16.bind fun delta =>
    (Verification.spells_read.timesOf _).last _).congr fun ⟨delta, kind⟩ bytes => ⟨?_, fun h => ?_⟩
  · rintro ⟨delta, _, _, rfl, ⟨items, ⟨hlength, rfl⟩, ⟨⟩⟩, rfl⟩
    exact .append delta items hlow hhigh hlength
  · cases h with
    | append _ items _ _ hlength => exact ⟨delta, _, _, rfl, ⟨items, ⟨hlength, rfl⟩, rfl⟩, rfl⟩
    | _ => grind

theorem finishes_full :
    Finishes 255 (do return (← Cursor.u16, .full (← readItems) (← readItems))) := by
  refine (Reader.spells_u16.bind fun delta => spells_readItems.bind fun locals =>
    spells_readItems.last _).congr fun ⟨delta, kind⟩ bytes => ⟨?_, fun h => ?_⟩
  · rintro ⟨delta, _, _, rfl, ⟨locals, _, _, ⟨hlocals, rfl⟩, ⟨stack, ⟨hstack, rfl⟩, ⟨⟩⟩, rfl⟩, rfl⟩
    exact .full delta locals stack hlocals hstack
  · cases h with
    | full _ locals stack hlocals hstack =>
      exact ⟨delta, _, _, rfl, ⟨locals, _, _, ⟨hlocals, rfl⟩, ⟨stack, ⟨hstack, rfl⟩, rfl⟩, rfl⟩, rfl⟩
    | _ => grind

end Ranges

theorem spells_read : read.Spells fun p bytes => ∃ tag, Stands tag p.1 p.2 bytes := by
  unfold read
  refine (Reader.spells_u8.bind fun tag => (?_ : Finishes tag _)).congr fun p bytes => ?_
  · simp only [Bool.and_eq_true, decide_eq_true_eq]
    split
    next hsame => exact finishes_same hsame
    next hsame =>
    split
    next hone => exact finishes_sameOne hsame hone
    next hone =>
    split
    next hfar => exact hfar ▸ finishes_sameOneFar
    next hfar =>
    split
    next hchop => exact finishes_chop hchop.1 hchop.2
    next hchop =>
    split
    next hsameFar => exact hsameFar ▸ finishes_sameFar
    next hsameFar =>
    split
    next happend => exact finishes_append happend.1 happend.2
    next happend =>
    split
    next hfull => exact hfull ▸ finishes_full
    next hfull =>
      refine (Reader.fails_damage _).spells fun ⟨delta, kind⟩ bytes h => ?_
      cases h <;> grind
  · constructor
    · rintro ⟨tag, _, tail, rfl, h, rfl⟩
      exact ⟨tag, h⟩
    · rintro ⟨tag, h⟩
      obtain ⟨tail, rfl⟩ := h.head
      exact ⟨tag, _, tail, rfl, h, rfl⟩

/-- The items that a full frame lists can be counted. -/
def Fits : FrameKind → Prop
  | full locals stack => locals.length ≤ 65535 ∧ stack.length ≤ 65535
  | _ => True

/-- A form with two bytes for the distance, where one byte would hold tag and distance. -/
def isStretched (tag : UInt8) (delta : UInt16) : Bool := (tag = 247 || tag = 251) && delta < 64

variable {tag : UInt8} {delta : UInt16} {kind : FrameKind} {part : Bytes}

theorem Stands.fits (h : Stands tag delta kind part) : kind.Fits := by
  cases h with
  | full _ locals stack hlocals hstack => exact ⟨by omega, by omega⟩
  | _ => trivial

theorem stands_of_bytes (hfits : kind.Fits) (h : kind.bytes delta = .ok part) :
    ∃ tag, Stands tag delta kind part := by
  cases kind with
  | same =>
    cases h
    split
    next hsmall =>
      obtain ⟨htag, hdelta⟩ := toUInt8_le hsmall
      have hstands := Stands.same htag
      rw [hdelta] at hstands
      exact ⟨_, hstands⟩
    next => exact ⟨_, .sameFar delta⟩
  | sameOne item =>
    cases h
    split
    next hsmall =>
      obtain ⟨htag, hdelta⟩ := toUInt8_le hsmall
      have hlow : ¬ 64 + delta.toUInt8 ≤ 63 := by grind
      have hhigh : 64 + delta.toUInt8 ≤ 127 := by grind
      have hstands := Stands.sameOne item hlow hhigh
      rw [show 64 + delta.toUInt8 - 64 = delta.toUInt8 by grind, hdelta] at hstands
      exact ⟨_, hstands⟩
    next => exact ⟨_, .sameOneFar delta item⟩
  | chop count =>
    simp only [FrameKind.bytes] at h
    split at h
    next hcount =>
      cases h
      rw [Bool.and_eq_true, decide_eq_true_eq, decide_eq_true_eq] at hcount
      have hlow : 248 ≤ 251 - count := by grind
      have hhigh : 251 - count ≤ 250 := by grind
      have hstands := Stands.chop delta hlow hhigh
      rw [show 251 - (251 - count) = count by grind] at hstands
      exact ⟨_, hstands⟩
    next => cases h
  | append items =>
    simp only [FrameKind.bytes] at h
    split at h
    next hcount =>
      cases h
      rw [Bool.and_eq_true, decide_eq_true_eq, decide_eq_true_eq] at hcount
      obtain ⟨hlow, hhigh, hlength⟩ := tag_of_count hcount.1 hcount.2
      exact ⟨_, .append delta items hlow hhigh hlength⟩
    next => cases h
  | full locals stack =>
    cases h
    have hstands := Stands.full delta locals stack (Nat.lt_succ_of_le hfits.1)
      (Nat.lt_succ_of_le hfits.2)
    exact ⟨_, by simpa using hstands⟩

/-- The writer gives what stands there, unless that is a stretched form. -/
theorem Stands.bytes_eq (h : Stands tag delta kind part) (hshort : isStretched tag delta = false) :
    kind.bytes delta = .ok part := by
  cases h with
  | same htag =>
    simp [FrameKind.bytes, toUInt16_le htag]
  | sameOne item hlow hhigh =>
    have hsmall : tag - 64 ≤ 63 := by grind
    have htag : 64 + (tag - 64) = tag := by grind
    simp only [FrameKind.bytes]
    rw [if_pos (toUInt16_le hsmall), UInt8.toUInt8_toUInt16, htag]
    rfl
  | sameOneFar _ item =>
    have hfar : ¬ delta ≤ 63 := by simp [isStretched] at hshort; grind
    simp [FrameKind.bytes, hfar]
  | chop _ hlow hhigh =>
    simp only [FrameKind.bytes]
    rw [if_pos (by simp; grind), show 251 - (251 - tag) = tag by grind]
  | sameFar =>
    have hfar : ¬ delta ≤ 63 := by simp [isStretched] at hshort; grind
    simp [FrameKind.bytes, hfar]
  | append _ items hlow hhigh hlength =>
    obtain ⟨hone, hthree, htag⟩ := count_of_tag hlow hhigh
    rw [← hlength] at hone hthree htag
    simp only [FrameKind.bytes]
    rw [if_pos (by simp [hone, hthree]), htag]
    rfl
  | full => simp [FrameKind.bytes]

theorem Stands.bytes_shorter (h : Stands tag delta kind part) (hlong : isStretched tag delta = true) :
    ∃ short, kind.bytes delta = .ok short ∧ short.length + 2 = part.length := by
  simp only [isStretched, Bool.and_eq_true, decide_eq_true_eq, Bool.or_eq_true] at hlong
  have hsmall : delta ≤ 63 := by grind
  cases h with
  | sameOneFar _ item => exact ⟨_, rfl, by simp [hsmall]; omega⟩
  | sameFar => exact ⟨_, rfl, by simp [hsmall]⟩
  | _ => grind

end FrameKind

namespace Frame

/-- A frame at its distance. -/
def spell (p : UInt16 × FrameKind) : Except Fault Bytes := p.2.bytes p.1

/-- Where distances count from behind a frame. -/
def behind : Option Nat → Nat
  | none => 0
  | some previous => previous + 1

theorem distance_eq_some {previous : Option Nat} {offset : Nat} {delta : UInt16} :
    distance previous offset = some delta ↔ offset = behind previous + delta.toNat := by
  have hlt := delta.toNat_lt
  have hbase : distance previous offset = if behind previous ≤ offset ∧
      offset - behind previous < 65536 then some (UInt16.ofNat (offset - behind previous))
        else none := by
    cases previous <;> rfl
  rw [hbase]
  split
  next h =>
    rw [Option.some.injEq, ← UInt16.toNat_inj, UInt16.toNat_ofNat_of_lt' h.2]
    omega
  next h =>
    constructor
    · intro hnone
      cases hnone
    · intro hoffset
      omega

@[simp] theorem length_placeFrom (base : Nat) (placed : List (UInt16 × FrameKind)) :
    (placeFrom base placed).length = placed.length := by
  induction placed generalizing base with
  | nil => rfl
  | cons p placed ih => simp [placeFrom, ih]

/-- Every frame stands at most 65536 behind the one before it. -/
theorem mem_placeFrom {base : Nat} {placed : List (UInt16 × FrameKind)} {f : Frame}
    (h : f ∈ placeFrom base placed) :
    base ≤ f.offset ∧ f.offset < base + 65536 * placed.length := by
  induction placed generalizing base with
  | nil => simp [placeFrom] at h
  | cons p placed ih =>
    obtain ⟨delta, kind⟩ := p
    have hlt := delta.toNat_lt
    rw [List.length_cons]
    rcases List.mem_cons.mp h with rfl | h
    · dsimp only
      omega
    · have hrest := ih h
      omega

theorem pairwise_placeFrom (base : Nat) (placed : List (UInt16 × FrameKind)) :
    (placeFrom base placed).Pairwise fun f g => f.offset < g.offset := by
  induction placed generalizing base with
  | nil => exact .nil
  | cons p placed ih =>
    refine .cons (fun f hf => ?_) (ih _)
    have hbehind := (mem_placeFrom hf).1
    dsimp only
    omega

theorem encodeFrom_eq_ok {previous : Option Nat} {frames : List Frame} {bytes : Bytes} :
    encodeFrom previous frames = .ok bytes ↔ ∃ placed,
      frames = placeFrom (behind previous) placed ∧ Written spell placed bytes := by
  induction frames generalizing previous bytes with
  | nil =>
    constructor
    · intro h
      cases h
      exact ⟨[], rfl, written_nil_iff.mpr rfl⟩
    · rintro ⟨placed, hframes, hwritten⟩
      cases placed with
      | nil => rw [written_nil_iff.mp hwritten, encodeFrom]
      | cons => cases hframes
  | cons f frames ih =>
    constructor
    · intro h
      rw [encodeFrom] at h
      split at h
      · cases h
      next delta hdelta =>
        obtain ⟨first, hfirst, hrest⟩ := bind_eq_ok.mp h
        obtain ⟨tail, htail, hbytes⟩ := bind_eq_ok.mp hrest
        obtain ⟨placed, rfl, hwritten⟩ := ih.mp htail
        refine ⟨(delta, f.kind) :: placed, ?_, ?_⟩
        · rw [placeFrom, ← distance_eq_some.mp hdelta]
          rfl
        · exact written_cons_iff.mpr ⟨first, tail, hfirst, hwritten, (pure_eq_ok.mp hbytes).symm⟩
    · rintro ⟨placed, hframes, hwritten⟩
      cases placed with
      | nil => cases hframes
      | cons p placed =>
        obtain ⟨delta, kind⟩ := p
        rw [placeFrom] at hframes
        obtain ⟨rfl, rfl⟩ := List.cons.inj hframes
        obtain ⟨first, tail, hfirst, hrest, rfl⟩ := written_cons_iff.mp hwritten
        rw [encodeFrom, distance_eq_some.mpr rfl]
        exact bind_eq_ok.mpr ⟨first, hfirst, bind_eq_ok.mpr ⟨tail, ih.mpr ⟨placed, rfl, hrest⟩, rfl⟩⟩

theorem encode_eq_ok {frames : List Frame} {out : Bytes} :
    encode frames = .ok out ↔ ∃ placed, frames = placeFrom 0 placed ∧ placed.length < 65536 ∧
      ∃ tail, Written spell placed tail ∧ out = beBytes 2 placed.length ++ tail := by
  have hcount : ∀ bytes, encode.countBytes frames.length = .ok bytes ↔
      frames.length < 65536 ∧ bytes = beBytes 2 frames.length := by
    intro bytes
    unfold encode.countBytes
    split
    next h => simp [h, eq_comm]
    next h => simp [h, damaged]
  unfold encode
  simp only [bind_eq_ok, hcount, encodeFrom_eq_ok, pure_eq_ok]
  constructor
  · rintro ⟨_, ⟨hlt, rfl⟩, tail, ⟨placed, rfl, hwritten⟩, rfl⟩
    rw [length_placeFrom] at hlt ⊢
    exact ⟨placed, rfl, hlt, tail, hwritten, rfl⟩
  · rintro ⟨placed, rfl, hlt, tail, hwritten, rfl⟩
    exact ⟨_, ⟨by rwa [length_placeFrom], rfl⟩, tail, ⟨placed, rfl, hwritten⟩,
      by rw [length_placeFrom]⟩

/-- The frames stand as these bytes, one part a frame. -/
abbrev Lists (placed : List (UInt16 × FrameKind)) (parts : List Bytes) : Prop :=
  List.Forall₂ (fun p part => ∃ tag, FrameKind.Stands tag p.1 p.2 part) placed parts

theorem decode_eq_ok {info : Bytes} {frames : List Frame} :
    decode info = .ok frames ↔ ∃ placed parts, frames = placeFrom 0 placed ∧
      placed.length < 65536 ∧ Lists placed parts ∧
      info = beBytes 2 placed.length ++ parts.flatten := by
  have hread := Reader.SpellsAll.bind Reader.spells_u16 fun count =>
    Reader.SpellsAll.bind (FrameKind.spells_read.times count.toNat) fun placed =>
      Reader.SpellsAll.atEnd (k := fun _ : Unit => pure (placeFrom 0 placed))
        (Reader.fails_damage .trailingAfterFrames) (placeFrom 0 placed)
  refine (hread.run'_eq_ok (r := read)).trans ?_
  constructor
  · rintro ⟨count, _, _, rfl, ⟨placed, _, _, ⟨hlength, parts, hparts, rfl⟩, ⟨rfl, rfl⟩, rfl⟩, rfl⟩
    refine ⟨placed, parts, rfl, ?_, hparts, ?_⟩
    · rw [hlength]
      exact count.toNat_lt
    · rw [hlength, List.append_nil, be16]
  · rintro ⟨placed, parts, rfl, hlt, hparts, rfl⟩
    refine ⟨UInt16.ofNat placed.length, _, _, rfl, ⟨placed, _, [], ⟨?_, parts, hparts, rfl⟩,
      ⟨rfl, rfl⟩, rfl⟩, ?_⟩
    · exact (UInt16.toNat_ofNat_of_lt' hlt).symm
    · rw [be16_ofNat hlt, List.append_nil]

/-! ### Forms -/

/-- The tag and the distance of the next frame. -/
def readForm : Reader (UInt8 × UInt16) := do
  let tag ← Cursor.peek
  let (delta, _) ← FrameKind.read
  return (tag, delta)

/-- The form of every frame in a table. -/
def forms (info : Bytes) : Except Fault (List (UInt8 × UInt16)) :=
  (Cursor.u16 >>= fun count => Cursor.times readForm count.toNat).run' info

/-- Whether a frame of the table stands in a stretched form. -/
def isStretched (info : Bytes) : Bool :=
  match forms info with
  | .ok found => found.any fun form => FrameKind.isStretched form.1 form.2
  | .error _ => false

theorem peek_eq_ok {c c' : Cursor} {b : UInt8} :
    Cursor.peek c = .ok b c' ↔ c' = c ∧ ∃ tail, c.rest = b :: tail := by
  unfold Cursor.peek
  split
  next found tail hrest => simp [hrest]; grind
  next hrest => simp [hrest]

theorem spells_readForm :
    readForm.Spells fun form bytes => ∃ kind, FrameKind.Stands form.1 form.2 kind bytes := by
  intro c form c'
  unfold readForm
  rw [Stateful.bind_eq_ok]
  constructor
  · rintro ⟨tag, _, hpeek, hread⟩
    obtain ⟨rfl, tail, hrest⟩ := peek_eq_ok.mp hpeek
    obtain ⟨⟨delta, kind⟩, _, hread, hform⟩ := Stateful.bind_eq_ok.mp hread
    obtain ⟨rfl, rfl⟩ := Stateful.pure_eq_ok.mp hform
    obtain ⟨bytes, ⟨found, hstands⟩, hpass⟩ := (FrameKind.spells_read _ _ _).mp hread
    obtain ⟨more, rfl⟩ := hstands.head
    cases hrest.symm.trans hpass.rest
    exact ⟨_, ⟨kind, hstands⟩, hpass⟩
  · rintro ⟨bytes, ⟨kind, hstands⟩, hpass⟩
    obtain ⟨more, rfl⟩ := hstands.head
    refine ⟨form.1, c, peek_eq_ok.mpr ⟨rfl, _, hpass.rest⟩, Stateful.bind_eq_ok.mpr
      ⟨(form.2, kind), c', ?_, Stateful.pure_eq_ok.mpr ⟨rfl, rfl⟩⟩⟩
    exact (FrameKind.spells_read _ _ _).mpr ⟨_, ⟨form.1, hstands⟩, hpass⟩

/-- The parts are frames in these forms. -/
abbrev Formed (found : List (UInt8 × UInt16)) (parts : List Bytes) : Prop :=
  List.Forall₂ (fun form part => ∃ kind, FrameKind.Stands form.1 form.2 kind part) found parts

theorem forms_eq_ok {found : List (UInt8 × UInt16)} {parts : List Bytes}
    (hlt : found.length < 65536) (h : Formed found parts) :
    forms (beBytes 2 found.length ++ parts.flatten) = .ok found := by
  have hread := Reader.spells_u16.bind fun count => spells_readForm.times count.toNat
  refine hread.run'_eq_ok.mpr ⟨_, [], ⟨UInt16.ofNat found.length, _, _, rfl, ⟨?_, parts, h, rfl⟩,
    rfl⟩, ?_⟩
  · exact (UInt16.toNat_ofNat_of_lt' hlt).symm
  · rw [be16_ofNat hlt, List.append_nil]

/-- What is written for the frames of a table is shorter by the stretched forms. -/
theorem Lists.exists_written {placed : List (UInt16 × FrameKind)} {parts : List Bytes}
    (h : Lists placed parts) : ∃ (found : List (UInt8 × UInt16)) (out : Bytes),
      Formed found parts ∧ Written spell placed out ∧ out.length ≤ parts.flatten.length ∧
      (out = parts.flatten ↔
        (found.any fun form => FrameKind.isStretched form.1 form.2) = false) := by
  induction h with
  | nil => exact ⟨[], [], .nil, written_nil_iff.mpr rfl, Nat.le_refl _, by simp⟩
  | @cons p part placed parts hpart _ ih =>
    obtain ⟨tag, hstands⟩ := hpart
    obtain ⟨found, out, hfound, hwritten, hle, hiff⟩ := ih
    cases hform : FrameKind.isStretched tag p.1 with
    | false =>
      refine ⟨(tag, p.1) :: found, part ++ out, .cons ⟨p.2, hstands⟩ hfound,
        written_cons_iff.mpr ⟨part, out, hstands.bytes_eq hform, hwritten, rfl⟩, ?_, ?_⟩
      · simpa using hle
      · rw [List.flatten_cons, List.append_cancel_left_eq, hiff]
        simp [hform]
    | true =>
      obtain ⟨short, hshort, hlength⟩ := hstands.bytes_shorter hform
      have hless : (short ++ out).length < (part :: parts).flatten.length := by
        rw [List.flatten_cons, List.length_append, List.length_append]
        omega
      refine ⟨(tag, p.1) :: found, short ++ out, .cons ⟨p.2, hstands⟩ hfound,
        written_cons_iff.mpr ⟨short, out, hshort, hwritten, rfl⟩, Nat.le_of_lt hless, ?_⟩
      constructor
      · intro heq
        rw [heq] at hless
        exact absurd hless (Nat.lt_irrefl _)
      · intro hnone
        simp [hform] at hnone

theorem map_kind_placeFrom (base : Nat) (placed : List (UInt16 × FrameKind)) :
    (placeFrom base placed).map (·.kind) = placed.map (·.2) := by
  induction placed generalizing base with
  | nil => rfl
  | cons p placed ih =>
    obtain ⟨delta, kind⟩ := p
    simp [placeFrom, ih]

theorem fits_placeFrom_iff {base : Nat} {placed : List (UInt16 × FrameKind)} :
    (∀ f ∈ placeFrom base placed, f.kind.Fits) ↔ ∀ p ∈ placed, p.2.Fits := by
  rw [← List.forall_mem_map (f := Frame.kind) (P := FrameKind.Fits), map_kind_placeFrom,
    List.forall_mem_map]

theorem decode_of_encode {frames : List Frame} (hfits : ∀ f ∈ frames, f.kind.Fits) {out : Bytes}
    (h : encode frames = .ok out) : decode out = .ok frames := by
  obtain ⟨placed, rfl, hlt, tail, ⟨parts, hparts, rfl⟩, rfl⟩ := encode_eq_ok.mp h
  refine decode_eq_ok.mpr ⟨placed, parts, rfl, hlt, ?_, rfl⟩
  rw [fits_placeFrom_iff] at hfits
  exact ((List.forall₂_and_left _ _).mpr ⟨hfits, mapM_eq_ok.mp hparts⟩).imp
    fun _ _ hpart => FrameKind.stands_of_bytes hpart.1 hpart.2

theorem stands_of_decode {info : Bytes} {frames : List Frame} (h : decode info = .ok frames)
    {f : Frame} (hf : f ∈ frames) : ∃ tag delta part, FrameKind.Stands tag delta f.kind part := by
  obtain ⟨placed, parts, rfl, _, hlists, _⟩ := decode_eq_ok.mp h
  have hkind : f.kind ∈ placed.map (·.2) := map_kind_placeFrom 0 placed ▸ List.mem_map_of_mem hf
  obtain ⟨p, hp, hkind⟩ := List.mem_map.mp hkind
  obtain ⟨part, _, tag, hstands⟩ := exists_of_mem_left hlists hp
  exact ⟨tag, p.1, part, hkind ▸ hstands⟩

theorem fits_of_decode {info : Bytes} {frames : List Frame} (h : decode info = .ok frames) :
    ∀ f ∈ frames, f.kind.Fits := by
  intro f hf
  obtain ⟨_, _, _, hstands⟩ := stands_of_decode h hf
  exact hstands.fits

/-- Reading a table and writing its frames undo each other, up to the stretched forms: the frames
stand at growing offsets of at most thirty-two bits, and take no more bytes than the table had. -/
theorem decode_encode_frames (frames : List Frame) :
    (∀ info, decode info = .ok frames →
      (∀ f ∈ frames, f.offset + 1 < 2 ^ 32) ∧
      frames.Pairwise (fun f g => f.offset < g.offset) ∧
      ∃ out, encode frames = .ok out ∧ out.length ≤ info.length ∧ decode out = .ok frames ∧
        (out = info ↔ isStretched info = false)) ∧
    ((∀ f ∈ frames, f.kind.Fits) → ∀ out, encode frames = .ok out → decode out = .ok frames) := by
  refine ⟨fun info h => ?_, fun hfits out hout => decode_of_encode hfits hout⟩
  have hfits := fits_of_decode h
  obtain ⟨placed, parts, rfl, hlt, hlists, rfl⟩ := decode_eq_ok.mp h
  obtain ⟨found, tail, hfound, hwritten, hle, hiff⟩ := hlists.exists_written
  have hforms : found.length = placed.length := hfound.length_eq.trans hlists.length_eq.symm
  have hread := forms_eq_ok (hforms ▸ hlt) hfound
  rw [hforms] at hread
  have hout : encode (placeFrom 0 placed) = .ok (beBytes 2 placed.length ++ tail) :=
    encode_eq_ok.mpr ⟨placed, rfl, hlt, tail, hwritten, rfl⟩
  refine ⟨fun f hf => ?_, pairwise_placeFrom _ _, _, hout, ?_, decode_of_encode hfits hout, ?_⟩
  · have hbound := (mem_placeFrom hf).2
    omega
  · simpa using hle
  · rw [List.append_cancel_left_eq, hiff, isStretched, hread]

/-- A frame in the stretched form five bytes into the code, and a full one behind it. -/
def stretchedTable : Bytes := [0, 2, 251, 0, 5, 255, 0, 0, 0, 1, 6, 0, 1, 5]

def stretchedFrames : List Frame := [⟨5, .same⟩, ⟨6, .full [.uninitializedThis] [.null]⟩]

theorem decode_encode_frames_stretched :
    decode stretchedTable = .ok stretchedFrames ∧ (∀ f ∈ stretchedFrames, f.kind.Fits) ∧
      stretchedFrames.Pairwise (fun f g => f.offset < g.offset) ∧
      ∃ out, encode stretchedFrames = .ok out ∧ out ≠ stretchedTable ∧
        out.length ≤ stretchedTable.length ∧ decode out = .ok stretchedFrames := by
  have hread : decode stretchedTable = .ok stretchedFrames := by decide +kernel
  have hlong : isStretched stretchedTable = true := by decide +kernel
  have hfits : ∀ f ∈ stretchedFrames, f.kind.Fits := by simp [stretchedFrames, FrameKind.Fits]
  obtain ⟨hwritten, hback⟩ := decode_encode_frames stretchedFrames
  obtain ⟨_, hgrow, out, hout, hle, _, hiff⟩ := hwritten _ hread
  refine ⟨hread, hfits, hgrow, out, hout, fun hsame => ?_, hle, hback hfits out hout⟩
  rw [hiff.mp hsame] at hlong
  cases hlong

end Frame

end ThreadWatch
