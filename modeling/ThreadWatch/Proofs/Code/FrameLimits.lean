import Mathlib.Data.List.Chain
import ThreadWatch.Proofs.Code.Frame

/-!
# What a frame table can hold

A table has sixteen bits for the number of its frames, for the distance of each, and for the number
of locals and of stack items in a full frame. All but the last are looked at before they are written.
So a table is written for every list of frames that keeps to the others, and is read back only if
its full frames keep to the last as well.
-/

namespace ThreadWatch

namespace FrameKind

/-- A frame that drops or adds locals does so with one to three of them. -/
def IsCounted : FrameKind → Prop
  | chop count => 1 ≤ count ∧ count ≤ 3
  | append items => 1 ≤ items.length ∧ items.length ≤ 3
  | _ => True

theorem bytes_cases (kind : FrameKind) (delta : UInt16) :
    (kind.IsCounted ∧ ∃ bytes, kind.bytes delta = .ok bytes) ∨
      (¬ kind.IsCounted ∧ ∃ cause, kind.bytes delta = damaged cause) := by
  cases kind with
  | chop count =>
    by_cases h : 1 ≤ count ∧ count ≤ 3
    · exact .inl ⟨h, by simp [FrameKind.bytes, h]⟩
    · refine .inr ⟨h, .chopCount count, ?_⟩
      simp only [FrameKind.bytes, Bool.and_eq_true, decide_eq_true_eq, if_neg h]
  | append items =>
    by_cases h : 1 ≤ items.length ∧ items.length ≤ 3
    · exact .inl ⟨h, by simp [FrameKind.bytes, h]⟩
    · refine .inr ⟨h, .appendCount items.length, ?_⟩
      simp only [FrameKind.bytes, Bool.and_eq_true, decide_eq_true_eq, if_neg h]
  | same | sameOne | full => exact .inl ⟨trivial, _, rfl⟩

/-- The tag has no room for other counts. -/
theorem Stands.isCounted {tag : UInt8} {delta : UInt16} {kind : FrameKind} {part : Bytes}
    (h : Stands tag delta kind part) : kind.IsCounted := by
  cases h with
  | chop _ hlow hhigh =>
    unfold IsCounted
    grind
  | append _ items hlow hhigh hlength =>
    obtain ⟨hone, hthree, _⟩ := count_of_tag hlow hhigh
    exact ⟨hlength ▸ hone, hlength ▸ hthree⟩
  | same | sameOne | sameOneFar | sameFar | full => trivial

end FrameKind

namespace Frame

/-- The second frame stands 1 to 65536 behind the first. -/
def Precedes (f g : Frame) : Prop := f.offset + 1 ≤ g.offset ∧ g.offset ≤ f.offset + 65536

/-- Nothing is wrong with the frames but for the items of full ones. -/
structure Encodable (frames : List Frame) : Prop where
  count : frames.length ≤ 65535
  first : ∀ f ∈ frames.head?, f.offset ≤ 65535
  later : frames.IsChain Precedes
  counted : ∀ f ∈ frames, f.kind.IsCounted

theorem distance_cases (previous : Option Nat) (offset : Nat) :
    (behind previous ≤ offset ∧ offset ≤ behind previous + 65535 ∧
        ∃ delta, distance previous offset = some delta) ∨
      (¬ (behind previous ≤ offset ∧ offset ≤ behind previous + 65535) ∧
        distance previous offset = none) := by
  cases hdistance : distance previous offset with
  | some delta =>
    have hoffset := distance_eq_some.mp hdistance
    have hlt := delta.toNat_lt
    exact .inl ⟨by omega, by omega, delta, rfl⟩
  | none =>
    refine .inr ⟨fun h => ?_, rfl⟩
    have hsome : distance previous offset = some (UInt16.ofNat (offset - behind previous)) := by
      have hlt : offset - behind previous < 65536 := by omega
      rw [distance_eq_some, UInt16.toNat_ofNat_of_lt' hlt]
      omega
    rw [hdistance] at hsome
    cases hsome

/-- Frames that may follow, the first of them one at `previous`. -/
def Follow (previous : Option Nat) (frames : List Frame) : Prop :=
  (∀ f ∈ frames.head?, behind previous ≤ f.offset ∧ f.offset ≤ behind previous + 65535) ∧
    frames.IsChain Precedes ∧ ∀ f ∈ frames, f.kind.IsCounted

theorem follow_cons {previous : Option Nat} {f : Frame} {frames : List Frame} :
    Follow previous (f :: frames) ↔
      (behind previous ≤ f.offset ∧ f.offset ≤ behind previous + 65535) ∧ f.kind.IsCounted ∧
        Follow (some f.offset) frames := by
  have hnear : ∀ g : Frame, Precedes f g ↔
      behind (some f.offset) ≤ g.offset ∧ g.offset ≤ behind (some f.offset) + 65535 := by
    intro g
    simp only [Precedes, behind, Nat.add_assoc, Nat.reduceAdd]
  simp only [Follow, List.isChain_cons, List.forall_mem_cons, List.head?_cons,
    Option.mem_some_iff, forall_eq', hnear]
  tauto

theorem encodeFrom_cases (previous : Option Nat) (frames : List Frame) :
    (Follow previous frames ∧ ∃ bytes, encodeFrom previous frames = .ok bytes) ∨
      (¬ Follow previous frames ∧ ∃ cause, encodeFrom previous frames = damaged cause) := by
  induction frames generalizing previous with
  | nil => exact .inl ⟨by simp [Follow], [], rfl⟩
  | cons f frames ih =>
    rw [follow_cons]
    unfold encodeFrom
    obtain ⟨hlow, hhigh, delta, hdelta⟩ | ⟨hfar, hnone⟩ := distance_cases previous f.offset
    · rw [hdelta]
      dsimp only
      obtain ⟨hcounted, bytes, hbytes⟩ | ⟨hcounted, cause, hcause⟩ := f.kind.bytes_cases delta
      · rw [hbytes]
        obtain ⟨hrest, tail, htail⟩ | ⟨hrest, cause, hcause⟩ := ih (some f.offset)
        · exact .inl ⟨⟨⟨hlow, hhigh⟩, hcounted, hrest⟩, bytes ++ tail, by rw [htail]; rfl⟩
        · exact .inr ⟨fun h => hrest h.2.2, cause, by rw [hcause]; rfl⟩
      · exact .inr ⟨fun h => hcounted h.2.1, cause, by rw [hcause]; rfl⟩
    · rw [hnone]
      exact .inr ⟨fun h => hfar h.1, _, rfl⟩

theorem encodable_iff {frames : List Frame} :
    Encodable frames ↔ frames.length < 65536 ∧ Follow none frames := by
  constructor
  · intro h
    refine ⟨Nat.lt_succ_of_le h.count, fun f hf => ⟨Nat.zero_le _, ?_⟩, h.later, h.counted⟩
    simpa [behind] using h.first f hf
  · rintro ⟨hcount, hfirst, hlater, hcounted⟩
    refine ⟨Nat.le_of_lt_succ hcount, fun f hf => ?_, hlater, hcounted⟩
    simpa [behind] using (hfirst f hf).2

theorem isCounted_of_decode {info : Bytes} {frames : List Frame} (h : decode info = .ok frames) :
    ∀ f ∈ frames, f.kind.IsCounted := by
  intro f hf
  obtain ⟨_, _, _, hstands⟩ := stands_of_decode h hf
  exact hstands.isCounted

theorem encode_cases (frames : List Frame) :
    (Encodable frames ∧ ∃ out, encode frames = .ok out) ∨
      (¬ Encodable frames ∧ ∃ cause, encode frames = damaged cause) := by
  rw [encodable_iff]
  unfold encode encode.countBytes
  by_cases hcount : frames.length < 65536
  · rw [if_pos hcount]
    obtain ⟨hfollow, tail, htail⟩ | ⟨hfollow, cause, hcause⟩ := encodeFrom_cases none frames
    · exact .inl ⟨⟨hcount, hfollow⟩, _, by rw [htail]; rfl⟩
    · exact .inr ⟨fun h => hfollow h.2, cause, by rw [hcause]; rfl⟩
  · rw [if_neg hcount]
    exact .inr ⟨fun h => hcount h.1, _, rfl⟩

/-- A table is written for the frames that keep to the limits on their number, their distances and
the locals they drop or add, and for no others. The frames are read back from it just if the items of
the full ones can be counted, too. -/
theorem encode_admits (frames : List Frame) :
    ((∃ out, encode frames = .ok out) ↔ Encodable frames) ∧
      ((∃ cause, encode frames = .error (.malformed cause)) ↔ ¬ Encodable frames) ∧
      ∀ out, encode frames = .ok out →
        (decode out = .ok frames ↔ ∀ f ∈ frames, f.kind.Fits) := by
  have hread : ∀ out, encode frames = .ok out →
      (decode out = .ok frames ↔ ∀ f ∈ frames, f.kind.Fits) :=
    fun out hout => ⟨fits_of_decode, fun hfits => decode_of_encode hfits hout⟩
  obtain ⟨hencodable, out, hout⟩ | ⟨hencodable, cause, hcause⟩ := encode_cases frames
  · refine ⟨iff_of_true ⟨out, hout⟩ hencodable, iff_of_false ?_ (not_not_intro hencodable), hread⟩
    rintro ⟨cause, hcause⟩
    rw [hcause] at hout
    cases hout
  · refine ⟨iff_of_false ?_ hencodable, iff_of_true ⟨cause, hcause⟩ hencodable, hread⟩
    rintro ⟨out, hout⟩
    rw [hcause] at hout
    cases hout

/-- Two frames as far apart as a table allows, the first as far into the code. -/
def farthestFrames : List Frame := [⟨65535, .chop 3⟩, ⟨131071, .append [.int, .long, .null]⟩]

theorem encode_admits_farthest :
    Encodable farthestFrames ∧ (∀ f ∈ farthestFrames, f.kind.Fits) ∧
      ∃ out, encode farthestFrames = .ok out ∧ decode out = .ok farthestFrames := by
  have hfits : ∀ f ∈ farthestFrames, f.kind.Fits := by simp [farthestFrames, FrameKind.Fits]
  obtain ⟨haccepts, _, hread⟩ := encode_admits farthestFrames
  have hout : encode farthestFrames =
      .ok [0, 2, 248, 255, 255, 254, 255, 255, 1, 4, 5] := by decide +kernel
  exact ⟨haccepts.mp ⟨_, hout⟩, hfits, _, hout, (hread _ hout).mpr hfits⟩

/-! ### Items that are not counted -/

/-- Items that read as frames of their own behind a count of zero. -/
def smuggledItems (n : Nat) : List Verification :=
  [.top, .top, .object 0xFF00, .object (UInt16.ofNat (n + 2))] ++ List.replicate n .top

def smuggledFrames (n : Nat) : List Frame :=
  [⟨0, .full (smuggledItems n) []⟩, ⟨1, .same⟩, ⟨2, .same⟩]

/-- What is read in their place. -/
def foundFrames (n : Nat) : List Frame :=
  [⟨0, .full [] []⟩, ⟨8, .same⟩, ⟨16, .full (List.replicate (n + 2) .top) []⟩]

/-- The bytes of the table, as they are read. -/
def foundParts (n : Nat) : List Bytes :=
  [[255, 0, 0, 0, 0, 0, 0], [7],
    255 :: (be16 7 ++ (FrameKind.itemBytes (List.replicate (n + 2) .top) ++ FrameKind.itemBytes []))]

theorem length_smuggledItems (n : Nat) : (smuggledItems n).length = n + 4 := by
  simp [smuggledItems]

theorem flatMap_bytes_tops (n : Nat) :
    (List.replicate n Verification.top).flatMap Verification.bytes = List.replicate n 0 := by
  induction n with
  | zero => rfl
  | succ n ih => rw [List.replicate_succ, List.flatMap_cons, ih, List.replicate_succ]; rfl

section Smuggled

-- the number of items starts over at 65536
variable {n : Nat} (hn : n + 4 = 65536)

include hn

theorem itemBytes_smuggledItems : FrameKind.itemBytes (smuggledItems n) =
    [0, 0, 0, 0, 7, 255, 0, 7] ++ (beBytes 2 (n + 2) ++ List.replicate n 0) := by
  have hcount : beBytes 2 (smuggledItems n).length = [0, 0] := by
    rw [length_smuggledItems, hn]
    decide
  have hitem : be16 (UInt16.ofNat (n + 2)) = beBytes 2 (n + 2) := be16_ofNat (by omega)
  rw [FrameKind.itemBytes, hcount, smuggledItems, List.flatMap_append, flatMap_bytes_tops]
  simp only [List.flatMap_cons, List.flatMap_nil, Verification.bytes, hitem]
  rfl

theorem written_smuggledFrames :
    Written spell [(0, .full (smuggledItems n) []), (0, .same), (0, .same)]
      (foundParts n).flatten := by
  have hmore : List.replicate (n + 2) (0 : UInt8) = List.replicate n 0 ++ [0, 0] :=
    List.replicate_add ..
  refine written_cons_iff.mpr ⟨_, [0, 0], rfl, written_cons_iff.mpr ⟨[0], [0], rfl,
    written_cons_iff.mpr ⟨[0], [], rfl, written_nil_iff.mpr rfl, rfl⟩, rfl⟩, ?_⟩
  have hnone : FrameKind.itemBytes [] = [0, 0] := by decide
  have hzero : be16 0 = [0, 0] := by decide
  have hseven : be16 7 = [0, 7] := by decide
  rw [itemBytes_smuggledItems hn, foundParts, FrameKind.itemBytes, flatMap_bytes_tops,
    List.length_replicate, hmore, hnone, hzero, hseven]
  simp

theorem encode_smuggledFrames :
    encode (smuggledFrames n) = .ok (beBytes 2 3 ++ (foundParts n).flatten) :=
  encode_eq_ok.mpr ⟨_, rfl, by simp, _, written_smuggledFrames hn, rfl⟩

theorem decode_foundParts :
    decode (beBytes 2 3 ++ (foundParts n).flatten) = .ok (foundFrames n) := by
  have hlast : (List.replicate (n + 2) Verification.top).length < 65536 := by
    rw [List.length_replicate]
    omega
  have hlists : Lists [(0, .full [] []), (7, .same), (7, .full (List.replicate (n + 2) .top) [])]
      (foundParts n) :=
    .cons ⟨255, .full 0 [] [] (by decide) (by decide)⟩
      (.cons ⟨7, .same (by decide)⟩ (.cons ⟨255, .full 7 _ [] hlast (by decide)⟩ .nil))
  exact decode_eq_ok.mpr ⟨_, _, rfl, by simp, hlists, rfl⟩

end Smuggled

/-- A table is written for frames with more items than can be counted, and others are read back. -/
theorem smuggledFrames_misread :
    ¬ (∀ f ∈ smuggledFrames 65532, f.kind.Fits) ∧
      ∃ out, encode (smuggledFrames 65532) = .ok out ∧ decode out = .ok (foundFrames 65532) ∧
        foundFrames 65532 ≠ smuggledFrames 65532 := by
  refine ⟨fun hfits => ?_, _, encode_smuggledFrames rfl, decode_foundParts rfl, fun hsame => ?_⟩
  · obtain ⟨hlocals, _⟩ := hfits _ (List.mem_cons_self ..)
    rw [length_smuggledItems] at hlocals
    exact absurd hlocals (by decide)
  · have hoffset := congrArg (fun frames => frames.map Frame.offset) hsame
    exact absurd hoffset (by decide)

end Frame

end ThreadWatch
