import ThreadWatch.Pool.Intern
import ThreadWatch.Proofs.Text.ModifiedUtf8

/-!
# Growing pools

Adding constants puts them behind those that are there, so whatever was found at an index is found
there afterwards, and what was added is found at the index that came of it.
-/

namespace ThreadWatch

namespace Pool

/-- The slots that a constant takes. -/
def spread (c : Constant) : List (Option Constant) := if c.isWide then [some c, none] else [some c]

/-- Every index of the pool fits sixteen bits, as in the empty pool, in pools that were read and in
what these grow to. -/
def IsIndexed (p : Pool) : Prop := p.count ≤ capacity

instance (p : Pool) : Decidable p.IsIndexed := inferInstanceAs (Decidable (_ ≤ _))

/-- `q` is `p` with such constants behind it. -/
structure Grown (allowed : Constant → Prop) (p q : Pool) : Prop where
  indexed : q.IsIndexed
  slots : ∃ cs : List Constant, (∀ c ∈ cs, allowed c) ∧
    q.slots.toList = p.slots.toList ++ cs.flatMap spread

/-- `q` is `p` with any constants behind it. -/
abbrev GrowsTo (p q : Pool) : Prop := Grown (fun _ => True) p q

variable {allowed : Constant → Prop} {p q r : Pool}

theorem Grown.refl (h : p.IsIndexed) : Grown allowed p p := ⟨h, [], by simp, by simp⟩

theorem Grown.trans (h : Grown allowed p q) (h' : Grown allowed q r) : Grown allowed p r := by
  obtain ⟨cs, hcs, hslots⟩ := h.slots
  obtain ⟨cs', hcs', hslots'⟩ := h'.slots
  refine ⟨h'.indexed, cs ++ cs', ?_, ?_⟩
  · rw [List.forall_mem_append]
    exact ⟨hcs, hcs'⟩
  · rw [hslots', hslots, List.append_assoc, List.flatMap_append]

theorem Grown.mono {allowed' : Constant → Prop} (h : Grown allowed p q)
    (himp : ∀ c, allowed c → allowed' c) : Grown allowed' p q := by
  obtain ⟨cs, hcs, hslots⟩ := h.slots
  exact ⟨h.indexed, cs, fun c hc => himp c (hcs c hc), hslots⟩

theorem mem_spread_iff {c d : Constant} : some c ∈ spread d ↔ c = d := by
  unfold spread
  split <;> simp

/-! ### Looking up -/

theorem get_eq_ok {index : UInt16} {c : Constant} :
    p.get index = .ok c ↔ p.slots[index.toNat]? = some (some c) := by
  unfold get
  split
  · next found hfound => simp [hfound]
  · next hnone =>
    constructor
    · intro h
      cases h
    · intro h
      exact absurd h (hnone c)

theorem utf8Bytes_eq_ok {index : UInt16} {text : Bytes} :
    p.utf8Bytes index = .ok text ↔ p.get index = .ok (.utf8 text) := by
  unfold utf8Bytes
  rw [bind_eq_ok]
  constructor
  · rintro ⟨c, hc, h⟩
    cases c with
    | utf8 found =>
      cases pure_eq_ok.mp h
      exact hc
    | _ => cases h
  · intro h
    exact ⟨_, h, rfl⟩

theorem utf8_eq_ok {index : UInt16} {text : String} :
    p.utf8 index = .ok text ↔ ∃ bytes, p.utf8Bytes index = .ok bytes ∧
      ModifiedUtf8.decode bytes = .ok text :=
  bind_eq_ok

theorem typeName_eq_ok {index : UInt16} {name : String} :
    p.typeName index = .ok name ↔ ∃ text, p.get index = .ok (.type text) ∧ p.utf8 text = .ok name := by
  unfold typeName
  rw [bind_eq_ok]
  constructor
  · rintro ⟨c, hc, h⟩
    cases c with
    | type text => exact ⟨text, hc, h⟩
    | _ => cases h
  · rintro ⟨text, hc, h⟩
    exact ⟨_, hc, h⟩

theorem nameAndType_eq_ok {index : UInt16} {name descriptor : String} :
    p.nameAndType index = .ok (name, descriptor) ↔ ∃ first second,
      p.get index = .ok (.nameAndType first second) ∧ p.utf8 first = .ok name ∧
        p.utf8 second = .ok descriptor := by
  unfold nameAndType
  rw [bind_eq_ok]
  constructor
  · rintro ⟨c, hc, h⟩
    cases c with
    | nameAndType first second =>
      obtain ⟨_, hname, h⟩ := bind_eq_ok.mp h
      obtain ⟨_, hdescriptor, h⟩ := bind_eq_ok.mp h
      cases pure_eq_ok.mp h
      exact ⟨first, second, hc, hname, hdescriptor⟩
    | _ => cases h
  · rintro ⟨first, second, hc, hname, hdescriptor⟩
    exact ⟨_, hc, bind_eq_ok.mpr ⟨_, hname, bind_eq_ok.mpr ⟨_, hdescriptor, rfl⟩⟩⟩

theorem memberRef_eq_ok {index : UInt16} {ref : MemberRef} :
    p.memberRef index = .ok ref ↔ ∃ owner nameAndType,
      p.get index = .ok (.member ref.kind owner nameAndType) ∧
        p.nameAndType nameAndType = .ok (ref.name, ref.descriptor) ∧
        p.typeName owner = .ok ref.owner := by
  unfold memberRef
  rw [bind_eq_ok]
  constructor
  · rintro ⟨c, hc, h⟩
    cases c with
    | member kind owner nameAndType =>
      obtain ⟨⟨name, descriptor⟩, hname, h⟩ := bind_eq_ok.mp h
      obtain ⟨_, howner, h⟩ := bind_eq_ok.mp h
      cases pure_eq_ok.mp h
      exact ⟨owner, nameAndType, hc, hname, howner⟩
    | _ => cases h
  · rintro ⟨owner, nameAndType, hc, hname, howner⟩
    exact ⟨_, hc, bind_eq_ok.mpr ⟨_, hname, bind_eq_ok.mpr ⟨_, howner, rfl⟩⟩⟩

namespace Grown

variable {index : UInt16}

theorem get (h : Grown allowed p q) {c : Constant} (hc : p.get index = .ok c) :
    q.get index = .ok c := by
  obtain ⟨cs, _, hslots⟩ := h.slots
  rw [get_eq_ok, ← Array.getElem?_toList] at hc ⊢
  obtain ⟨hlt, _⟩ := List.getElem?_eq_some_iff.mp hc
  rw [hslots, List.getElem?_append_left hlt]
  exact hc

/-- What is not added is found only where it was. -/
theorem get_iff (h : Grown allowed p q) {c : Constant} (hc : ¬ allowed c) :
    q.get index = .ok c ↔ p.get index = .ok c := by
  constructor
  · intro hget
    obtain ⟨cs, hallowed, hslots⟩ := h.slots
    rw [get_eq_ok, ← Array.getElem?_toList, hslots] at hget
    rw [get_eq_ok, ← Array.getElem?_toList]
    by_cases hlt : index.toNat < p.slots.toList.length
    · rwa [List.getElem?_append_left hlt] at hget
    · rw [List.getElem?_append_right (Nat.not_lt.mp hlt)] at hget
      obtain ⟨d, hd, hmem⟩ := List.mem_flatMap.mp (List.mem_of_getElem? hget)
      obtain rfl := mem_spread_iff.mp hmem
      exact absurd (hallowed c hd) hc
  · exact h.get

theorem isPrefix (h : Grown allowed p q) : p.slots.toList <+: q.slots.toList := by
  obtain ⟨cs, _, hslots⟩ := h.slots
  exact ⟨_, hslots.symm⟩

theorem utf8Bytes (h : Grown allowed p q) {text : Bytes} (ht : p.utf8Bytes index = .ok text) :
    q.utf8Bytes index = .ok text :=
  utf8Bytes_eq_ok.mpr (h.get (utf8Bytes_eq_ok.mp ht))

theorem utf8 (h : Grown allowed p q) {text : String} (ht : p.utf8 index = .ok text) :
    q.utf8 index = .ok text := by
  obtain ⟨bytes, hbytes, hdecode⟩ := utf8_eq_ok.mp ht
  exact utf8_eq_ok.mpr ⟨bytes, h.utf8Bytes hbytes, hdecode⟩

theorem typeName (h : Grown allowed p q) {name : String} (hn : p.typeName index = .ok name) :
    q.typeName index = .ok name := by
  obtain ⟨text, hc, hname⟩ := typeName_eq_ok.mp hn
  exact typeName_eq_ok.mpr ⟨text, h.get hc, h.utf8 hname⟩

theorem nameAndType (h : Grown allowed p q) {name descriptor : String}
    (hn : p.nameAndType index = .ok (name, descriptor)) :
    q.nameAndType index = .ok (name, descriptor) := by
  obtain ⟨first, second, hc, hname, hdescriptor⟩ := nameAndType_eq_ok.mp hn
  exact nameAndType_eq_ok.mpr ⟨first, second, h.get hc, h.utf8 hname, h.utf8 hdescriptor⟩

theorem memberRef (h : Grown allowed p q) {ref : MemberRef} (hr : p.memberRef index = .ok ref) :
    q.memberRef index = .ok ref := by
  obtain ⟨owner, nameAndType, hc, hname, howner⟩ := memberRef_eq_ok.mp hr
  exact memberRef_eq_ok.mpr ⟨owner, nameAndType, h.get hc, h.nameAndType hname, h.typeName howner⟩

end Grown

/-! ### Adding -/

theorem toList_push (slots : Array (Option Constant)) (c : Constant) :
    (push slots c).toList = slots.toList ++ spread c := by
  unfold push spread
  split <;> simp

theorem size_push (slots : Array (Option Constant)) (c : Constant) :
    (push slots c).size = slots.size + c.width := by
  unfold push Constant.width
  split <;> simp

/-- A constant is found, or the pool is full, or the constant is put behind the others. -/
theorem add_cases (c : Constant) (hp : p.IsIndexed) :
    (∃ index, add c p = .ok index p ∧ p.get index = .ok c) ∨ add c p = .error .poolFull p ∨
      ∃ index q, add c p = .ok index q ∧ Grown (· = c) p q ∧ q.get index = .ok c := by
  have hcount : p.slots.size ≤ 65535 := hp
  unfold add
  split
  next index hindex =>
    obtain ⟨hlt, hfound, _⟩ := Array.findIdx?_eq_some_iff_getElem.mp hindex
    refine .inl ⟨_, rfl, get_eq_ok.mpr ?_⟩
    rw [UInt16.toNat_ofNat_of_lt' (by change _ < 65536; omega), Array.getElem?_eq_getElem hlt]
    simpa using hfound
  next =>
    split
    · exact .inr (.inl rfl)
    next hroom =>
      refine .inr (.inr ⟨_, _, rfl, ⟨?_, [c], by simp, ?_⟩, get_eq_ok.mpr ?_⟩)
      · rw [IsIndexed, count, size_push]
        exact Nat.not_lt.mp hroom
      · simp [toList_push]
      · have hlt : p.count < 65536 := by
          unfold capacity at hroom
          omega
        rw [UInt16.toNat_ofNat_of_lt' hlt, ← Array.getElem?_toList, toList_push,
          List.getElem?_append_right (by simp [count])]
        simp [spread, count]
        split <;> rfl

end Pool

namespace Interning

open Pool

variable {α β : Type} {allowed : Constant → Prop}

theorem ofExcept_eq_ok {x : Except Fault α} {p q : Pool} {a : α} :
    (MonadExcept.ofExcept x : Interning α) p = .ok a q ↔ x = .ok a ∧ q = p := by
  cases x with
  | ok found =>
    show EStateM.Result.ok found p = .ok a q ↔ _
    simp [eq_comm]
  | error fault =>
    show EStateM.Result.error fault p = .ok a q ↔ _
    simp

/-- The pool afterwards, whether it went well or not. -/
def after (x : Interning α) (p : Pool) : Pool :=
  match x p with
  | .ok _ q => q
  | .error _ q => q

/-- Whether it goes well. -/
def succeeds (x : Interning α) (p : Pool) : Bool :=
  match x p with
  | .ok _ _ => true
  | .error _ _ => false

theorem exists_of_succeeds {x : Interning α} {p : Pool} (h : x.succeeds p = true) :
    ∃ a q, x p = .ok a q := by
  unfold succeeds at h
  split at h
  next a q hx => exact ⟨a, q, hx⟩
  · cases h

/-- All that happens to a pool is that such constants are added, even if the whole fails. -/
def Grows (allowed : Constant → Prop) (x : Interning α) : Prop :=
  ∀ p, p.IsIndexed → Grown allowed p (x.after p)

theorem Grows.of_ok {x : Interning α} (h : x.Grows allowed) {p q : Pool} {a : α}
    (hp : p.IsIndexed) (hx : x p = .ok a q) : Grown allowed p q := by
  have hafter := h p hp
  rwa [after, hx] at hafter

theorem grows_pure (a : α) : (pure a : Interning α).Grows allowed := fun _ hp => .refl hp

theorem Grows.bind {x : Interning α} {f : α → Interning β} (h : x.Grows allowed)
    (hf : ∀ a, (f a).Grows allowed) : (x >>= f).Grows allowed := by
  intro p hp
  have hx := h p hp
  show Grown allowed p (after (EStateM.bind x f) p)
  unfold after EStateM.bind at *
  cases hresult : x p with
  | ok a q =>
    rw [hresult] at hx
    exact hx.trans (hf a q hx.indexed)
  | error fault q =>
    rw [hresult] at hx
    exact hx

theorem grows_add {c : Constant} (hc : allowed c) : (add c).Grows allowed := by
  intro p hp
  unfold after
  rcases add_cases c hp with ⟨index, h, _⟩ | h | ⟨index, q, h, hgrown, _⟩
  · rw [h]
    exact .refl hp
  · rw [h]
    exact .refl hp
  · rw [h]
    exact hgrown.mono fun _ hd => hd ▸ hc

end Interning

namespace Pool

variable {p q : Pool} {index : UInt16}

theorem get_of_add {c : Constant} (hp : p.IsIndexed) (h : add c p = .ok index q) :
    q.get index = .ok c := by
  rcases add_cases c hp with ⟨_, h', hget⟩ | h' | ⟨_, _, h', _, hget⟩
  · cases h.symm.trans h'
    exact hget
  · cases h.symm.trans h'
  · cases h.symm.trans h'
    exact hget

theorem grows_addUtf8 (text : String) : (addUtf8 text).Grows fun _ => True :=
  Interning.grows_add trivial

theorem grows_addType (name : String) : (addType name).Grows fun _ => True :=
  (grows_addUtf8 name).bind fun _ => Interning.grows_add trivial

theorem grows_addNameAndType (name descriptor : String) :
    (addNameAndType name descriptor).Grows fun _ => True :=
  (grows_addUtf8 name).bind fun _ => (grows_addUtf8 descriptor).bind fun _ =>
    Interning.grows_add trivial

/-! ### What is added is found -/

theorem utf8_of_addUtf8 {text : String} (hp : p.IsIndexed) (h : addUtf8 text p = .ok index q) :
    q.utf8 index = .ok text :=
  utf8_eq_ok.mpr ⟨_, utf8Bytes_eq_ok.mpr (get_of_add hp h), ModifiedUtf8.decode_encode text⟩

theorem typeName_of_addType {name : String} (hp : p.IsIndexed) (h : addType name p = .ok index q) :
    q.typeName index = .ok name := by
  obtain ⟨found, r, htext, hadd⟩ := Stateful.bind_eq_ok.mp h
  have hr := ((grows_addUtf8 name).of_ok hp htext).indexed
  have hgrown : r.GrowsTo q := (Interning.grows_add trivial).of_ok hr hadd
  exact typeName_eq_ok.mpr ⟨found, get_of_add hr hadd, hgrown.utf8 (utf8_of_addUtf8 hp htext)⟩

theorem nameAndType_of_addNameAndType {name descriptor : String} (hp : p.IsIndexed)
    (h : addNameAndType name descriptor p = .ok index q) :
    q.nameAndType index = .ok (name, descriptor) := by
  obtain ⟨first, r, hname, h⟩ := Stateful.bind_eq_ok.mp h
  obtain ⟨second, s, hdescriptor, hadd⟩ := Stateful.bind_eq_ok.mp h
  have hr := ((grows_addUtf8 name).of_ok hp hname).indexed
  have hgrown := (grows_addUtf8 descriptor).of_ok hr hdescriptor
  have hlast : s.GrowsTo q := (Interning.grows_add trivial).of_ok hgrown.indexed hadd
  refine nameAndType_eq_ok.mpr ⟨first, second, get_of_add hgrown.indexed hadd, ?_, ?_⟩
  · exact hlast.utf8 (hgrown.utf8 (utf8_of_addUtf8 hp hname))
  · exact hlast.utf8 (utf8_of_addUtf8 hr hdescriptor)

theorem memberRef_of_addMember {kind : MemberKind} {owner name descriptor : String}
    (hp : p.IsIndexed) (h : addMember kind owner name descriptor p = .ok index q) :
    q.memberRef index = .ok ⟨kind, owner, name, descriptor⟩ := by
  obtain ⟨first, r, howner, h⟩ := Stateful.bind_eq_ok.mp h
  obtain ⟨second, s, hnameAndType, hadd⟩ := Stateful.bind_eq_ok.mp h
  have hr := ((grows_addType owner).of_ok hp howner).indexed
  have hgrown := (grows_addNameAndType name descriptor).of_ok hr hnameAndType
  have hlast : s.GrowsTo q := (Interning.grows_add trivial).of_ok hgrown.indexed hadd
  refine memberRef_eq_ok.mpr ⟨first, second, get_of_add hgrown.indexed hadd, ?_, ?_⟩
  · exact hlast.nameAndType (nameAndType_of_addNameAndType hr hnameAndType)
  · exact hlast.typeName (hgrown.typeName (typeName_of_addType hp howner))

end Pool

end ThreadWatch
