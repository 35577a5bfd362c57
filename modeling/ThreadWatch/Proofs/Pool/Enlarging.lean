import ThreadWatch.Proofs.Pool.Format

/-!
# Runs of additions

Whatever is asked of a pool one after the other, what it has stays where it is, nothing is added
twice, and what was given once is given again. Nothing but a full pool refuses, and only what it
does not have.
-/

namespace ThreadWatch

namespace Pool

variable {p q r : Pool} {c : Constant} {index : UInt16}

/-! ### Finding -/

/-- Where a constant is found: in the first slot that holds it. -/
def find? (p : Pool) (c : Constant) : Option UInt16 :=
  (p.slots.findIdx? (· == some c)).map UInt16.ofNat

theorem find?_eq_none_iff : p.find? c = none ↔ ∀ i : Nat, p.slots[i]? ≠ some (some c) := by
  rw [find?, Option.map_eq_none_iff, Array.findIdx?_eq_none_iff]
  constructor
  · intro h i hi
    exact absurd (h _ (Array.mem_of_getElem? hi)) (by simp)
  · intro h slot hslot
    obtain ⟨i, hi⟩ := Array.mem_iff_getElem?.mp hslot
    rw [beq_eq_false_iff_ne]
    rintro rfl
    exact h i hi

/-- What is put behind the slots does not change what is found first. -/
theorem Grown.find? {allowed : Constant → Prop} (h : Grown allowed p q)
    (hc : p.find? c = some index) : q.find? c = some index := by
  obtain ⟨cs, _, hslots⟩ := h.slots
  obtain ⟨k, hk, rfl⟩ := Option.map_eq_some_iff.mp hc
  have hbehind : q.slots = p.slots ++ (cs.flatMap spread).toArray := by
    apply Array.toList_inj.mp
    rw [hslots, Array.toList_append]
  rw [Pool.find?, hbehind, Array.findIdx?_append, hk]
  rfl

theorem add_eq (c : Constant) (p : Pool) :
    add c p = match p.find? c with
      | some index => .ok index p
      | none => if p.count + c.width > capacity then .error .poolFull p
        else .ok (UInt16.ofNat p.count) ⟨push p.slots c⟩ := by
  unfold add find?
  cases p.slots.findIdx? (· == some c) <;> rfl

theorem add_of_find? (h : p.find? c = some index) : add c p = .ok index p := by
  rw [add_eq, h]

/-- An addition that is refused leaves a full pool without the constant. -/
theorem add_eq_error {fault : Fault} (h : add c p = .error fault q) :
    fault = .poolFull ∧ q = p ∧ p.count + c.width > capacity ∧ p.find? c = none := by
  rw [add_eq] at h
  split at h
  · cases h
  next hnone =>
    split at h
    next hfull =>
      cases h
      exact ⟨rfl, rfl, hfull, hnone⟩
    · cases h

/-- An addition that is made puts a constant behind the slots that none of them holds. -/
theorem add_eq_ok (h : add c p = .ok index q) :
    p.find? c = some index ∧ q = p ∨
      p.find? c = none ∧ p.count + c.width ≤ capacity ∧ index = UInt16.ofNat p.count ∧
        q = ⟨push p.slots c⟩ := by
  rw [add_eq] at h
  split at h
  next found hfound =>
    cases h
    exact .inl ⟨hfound, rfl⟩
  next hnone =>
    split at h
    · cases h
    next hroom =>
      cases h
      exact .inr ⟨hnone, Nat.not_lt.mp hroom, rfl, rfl⟩

/-- What was added is found where it was put. -/
theorem find?_of_add (h : add c p = .ok index q) : q.find? c = some index := by
  rcases add_eq_ok h with ⟨hfound, rfl⟩ | ⟨hnone, _, rfl, rfl⟩
  · exact hfound
  · have hput : push p.slots c = p.slots ++ (spread c).toArray := by
      apply Array.toList_inj.mp
      rw [toList_push, Array.toList_append]
    rw [find?, Option.map_eq_none_iff] at hnone
    rw [find?, hput, Array.findIdx?_append, hnone]
    unfold spread
    split <;> simp [count, List.findIdx?_cons]

/-! ### Enlarged pools -/

/-- The constants behind the slots of `p` are in no slot in front of their own. -/
def IsFresh (p q : Pool) : Prop :=
  ∀ i c, p.count ≤ i → q.slots[i]? = some (some c) → ∀ j < i, q.slots[j]? ≠ some (some c)

theorem IsFresh.refl (p : Pool) : IsFresh p p := by
  intro i c hi hc
  rw [Array.getElem?_eq_none (show p.slots.size ≤ i from hi)] at hc
  cases hc

theorem Grown.getElem?_eq {allowed : Constant → Prop} (h : Grown allowed p q) {i : Nat}
    (hi : i < p.count) : q.slots[i]? = p.slots[i]? := by
  obtain ⟨cs, _, hslots⟩ := h.slots
  rw [← Array.getElem?_toList, ← Array.getElem?_toList, hslots, List.getElem?_append_left hi]

theorem IsFresh.trans {allowed : Constant → Prop} (h : IsFresh p q) (hgrown : Grown allowed q r)
    (h' : IsFresh q r) : IsFresh p r := by
  intro i c hi hc j hj
  by_cases hold : i < q.count
  · rw [hgrown.getElem?_eq hold] at hc
    rw [hgrown.getElem?_eq (Nat.lt_trans hj hold)]
    exact h i c hi hc j hj
  · exact h' i c (Nat.not_lt.mp hold) hc j hj

/-- Of the slots that a constant takes only the first holds one. -/
theorem getElem?_spread {d : Constant} {k : Nat} (h : (spread c)[k]? = some (some d)) :
    k = 0 ∧ d = c := by
  unfold spread at h
  split at h <;> rcases k with _ | _ | k <;> simp at h
  all_goals exact ⟨rfl, h.symm⟩

theorem isFresh_push (hnone : p.find? c = none) : IsFresh p ⟨push p.slots c⟩ := by
  intro i d hi hd j hj
  have hslots : ∀ k : Nat, (push p.slots c)[k]? = (p.slots.toList ++ spread c)[k]? := by
    intro k
    rw [← Array.getElem?_toList, toList_push]
  dsimp only at hd ⊢
  have hcount : p.slots.toList.length = p.count := Array.length_toList
  rw [hslots, List.getElem?_append_right (by omega), hcount] at hd
  obtain ⟨hfirst, rfl⟩ := getElem?_spread hd
  rw [hslots, List.getElem?_append_left (by omega), Array.getElem?_toList]
  exact find?_eq_none_iff.mp hnone j

end Pool

namespace Interning

open Pool

variable {α β : Type}

/-- What additions have in common, alone and one behind the other. -/
structure IsAddition (x : Interning α) : Prop where
  grows : x.Grows fun _ => True
  /-- Nothing that is there is added, also where the whole fails. -/
  fresh : ∀ p, p.IsIndexed → IsFresh p (x.after p)
  /-- Asked again, it gives the same and adds nothing, whatever was added since. -/
  again : ∀ p q r a, p.IsIndexed → x p = .ok a q → q.GrowsTo r → x r = .ok a r
  full : ∀ p q fault, p.IsIndexed → x p = .error fault q → fault = .poolFull ∧ q.count = capacity

theorem IsAddition.bind {x : Interning α} {f : α → Interning β} (hx : x.IsAddition)
    (hf : ∀ a, (f a).IsAddition) : (x >>= f).IsAddition where
  grows := hx.grows.bind fun a => (hf a).grows
  fresh := by
    intro p hp
    have hfirst := hx.fresh p hp
    have hgrown := hx.grows p hp
    show IsFresh p (after (EStateM.bind x f) p)
    unfold after EStateM.bind at *
    cases hresult : x p with
    | ok a q =>
      rw [hresult] at hfirst hgrown
      exact hfirst.trans ((hf a).grows q hgrown.indexed) ((hf a).fresh q hgrown.indexed)
    | error fault q =>
      rw [hresult] at hfirst
      exact hfirst
  again := by
    intro p q r b hp h hqr
    obtain ⟨a, s, hs, h⟩ := Stateful.bind_eq_ok.mp h
    have hindexed := (hx.grows.of_ok hp hs).indexed
    have hsq := (hf a).grows.of_ok hindexed h
    exact Stateful.bind_eq_ok.mpr ⟨a, r, hx.again p s r a hp hs (hsq.trans hqr),
      (hf a).again s q r b hindexed h hqr⟩
  full := by
    intro p q fault hp h
    rcases Stateful.bind_eq_error.mp h with h | ⟨a, s, hs, h⟩
    · exact hx.full p q fault hp h
    · exact (hf a).full s q fault (hx.grows.of_ok hp hs).indexed h

theorem isAddition_pure (a : α) : (pure a : Interning α).IsAddition where
  grows := grows_pure a
  fresh := fun p _ => .refl p
  again := by
    intro p q r b _ h _
    cases h
    rfl
  full := by
    intro p q fault _ h
    cases h

theorem isAddition_add {c : Constant} (hc : c.isWide = false) : (add c).IsAddition where
  grows := grows_add trivial
  fresh := by
    intro p hp
    unfold after
    cases h : add c p with
    | ok index q =>
      rcases add_eq_ok h with ⟨_, rfl⟩ | ⟨hnone, _, _, rfl⟩
      · exact .refl _
      · exact isFresh_push hnone
    | error fault q =>
      obtain ⟨_, rfl, _⟩ := add_eq_error h
      exact .refl _
  again := fun p q r index hp h hqr => add_of_find? (hqr.find? (find?_of_add h))
  full := by
    intro p q fault hp h
    have hcount : p.count ≤ capacity := hp
    obtain ⟨rfl, rfl, hfull, _⟩ := add_eq_error h
    rw [Constant.width, if_neg (by simp [hc])] at hfull
    exact ⟨rfl, by omega⟩

end Interning

/-! ### What can be asked of a pool -/

/-- A constant by what it says, whatever the indices it is made of. -/
inductive Symbol where
  | utf8 (text : String)
  | type (name : String)
  | string (text : String)
  | nameAndType (name descriptor : String)
  | member (kind : MemberKind) (owner name descriptor : String)
  deriving DecidableEq, Repr

namespace Symbol

open Pool

def intern : Symbol → Interning UInt16
  | utf8 text => addUtf8 text
  | type name => addType name
  | string text => addString text
  | nameAndType name descriptor => addNameAndType name descriptor
  | member kind owner name descriptor => addMember kind owner name descriptor

/-- Looking the index up gives what the symbol says. -/
def Denoted (p : Pool) (index : UInt16) : Symbol → Prop
  | utf8 text => p.utf8 index = .ok text
  | type name => p.typeName index = .ok name
  | string text => ∃ found, p.get index = .ok (.string found) ∧ p.utf8 found = .ok text
  | nameAndType name descriptor => p.nameAndType index = .ok (name, descriptor)
  | member kind owner name descriptor => p.memberRef index = .ok ⟨kind, owner, name, descriptor⟩

/-- The symbol itself, behind those that its constant refers to. -/
def parts : Symbol → List Symbol
  | utf8 text => [utf8 text]
  | type name => [utf8 name, type name]
  | string text => [utf8 text, string text]
  | nameAndType name descriptor => [utf8 name, utf8 descriptor, nameAndType name descriptor]
  | member kind owner name descriptor =>
    [utf8 owner, type owner, utf8 name, utf8 descriptor, nameAndType name descriptor,
      member kind owner name descriptor]

def findUtf8? (p : Pool) (text : String) : Option UInt16 :=
  p.find? (.utf8 (ModifiedUtf8.encode text))

def findType? (p : Pool) (name : String) : Option UInt16 :=
  (findUtf8? p name).bind fun name => p.find? (.type name)

def findNameAndType? (p : Pool) (name descriptor : String) : Option UInt16 :=
  (findUtf8? p name).bind fun name => (findUtf8? p descriptor).bind fun descriptor =>
    p.find? (.nameAndType name descriptor)

/-- The constant that a symbol is in a pool, once those that it refers to are found there. -/
def constant? (p : Pool) : Symbol → Option Constant
  | utf8 text => some (.utf8 (ModifiedUtf8.encode text))
  | type name => (findUtf8? p name).map .type
  | string text => (findUtf8? p text).map .string
  | nameAndType name descriptor =>
    (findUtf8? p name).bind fun name => (findUtf8? p descriptor).map (.nameAndType name)
  | member kind owner name descriptor =>
    (findType? p owner).bind fun owner =>
      (findNameAndType? p name descriptor).map (.member kind owner)

/-- One of the constants of the symbol is in no slot. -/
def Lacks (p : Pool) (s : Symbol) : Prop :=
  ∃ part ∈ s.parts, ∃ c, part.constant? p = some c ∧ ∀ i : Nat, p.slots[i]? ≠ some (some c)

theorem isAddition_utf8 (text : String) : (addUtf8 text).IsAddition :=
  Interning.isAddition_add rfl

theorem isAddition_type (name : String) : (addType name).IsAddition :=
  (isAddition_utf8 name).bind fun _ => Interning.isAddition_add rfl

theorem isAddition_nameAndType (name descriptor : String) :
    (addNameAndType name descriptor).IsAddition :=
  (isAddition_utf8 name).bind fun _ => (isAddition_utf8 descriptor).bind fun _ =>
    Interning.isAddition_add rfl

theorem isAddition_intern (s : Symbol) : s.intern.IsAddition := by
  cases s with
  | utf8 text => exact isAddition_utf8 text
  | type name => exact isAddition_type name
  | string text => exact (isAddition_utf8 text).bind fun _ => Interning.isAddition_add rfl
  | nameAndType name descriptor => exact isAddition_nameAndType name descriptor
  | member kind owner name descriptor =>
    exact (isAddition_type owner).bind fun _ =>
      (isAddition_nameAndType name descriptor).bind fun _ => Interning.isAddition_add rfl

variable {p q : Pool} {index : UInt16}

theorem denoted_of_intern {s : Symbol} (hp : p.IsIndexed) (h : s.intern p = .ok index q) :
    s.Denoted q index := by
  cases s with
  | utf8 text => exact utf8_of_addUtf8 hp h
  | type name => exact typeName_of_addType hp h
  | string text =>
    obtain ⟨found, r, htext, hadd⟩ := Stateful.bind_eq_ok.mp h
    have hr := ((isAddition_utf8 text).grows.of_ok hp htext).indexed
    have hgrown : r.GrowsTo q := (Interning.grows_add trivial).of_ok hr hadd
    exact ⟨found, get_of_add hr hadd, hgrown.utf8 (utf8_of_addUtf8 hp htext)⟩
  | nameAndType name descriptor => exact nameAndType_of_addNameAndType hp h
  | member kind owner name descriptor => exact memberRef_of_addMember hp h

theorem Denoted.grow {s : Symbol} (hgrown : p.GrowsTo q) (h : s.Denoted p index) :
    s.Denoted q index := by
  cases s with
  | utf8 text => exact hgrown.utf8 h
  | type name => exact hgrown.typeName h
  | string text =>
    obtain ⟨found, hget, htext⟩ := h
    exact ⟨found, hgrown.get hget, hgrown.utf8 htext⟩
  | nameAndType name descriptor => exact hgrown.nameAndType h
  | member kind owner name descriptor => exact hgrown.memberRef h

theorem Denoted.lt_count {s : Symbol} (h : s.Denoted p index) : index.toNat < p.count := by
  have hget : ∃ c, p.get index = .ok c := by
    cases s with
    | utf8 text =>
      obtain ⟨bytes, hbytes, _⟩ := utf8_eq_ok.mp h
      exact ⟨_, utf8Bytes_eq_ok.mp hbytes⟩
    | type name =>
      obtain ⟨_, hget, _⟩ := typeName_eq_ok.mp h
      exact ⟨_, hget⟩
    | string text =>
      obtain ⟨_, hget, _⟩ := h
      exact ⟨_, hget⟩
    | nameAndType name descriptor =>
      obtain ⟨_, _, hget, _⟩ := nameAndType_eq_ok.mp h
      exact ⟨_, hget⟩
    | member kind owner name descriptor =>
      obtain ⟨_, _, hget, _⟩ := memberRef_eq_ok.mp h
      exact ⟨_, hget⟩
  obtain ⟨c, hc⟩ := hget
  exact (Array.getElem?_eq_some_iff.mp (get_eq_ok.mp hc)).1

/-! ### What a refusal lacks -/

theorem findType?_of_addType {name : String} (hp : p.IsIndexed)
    (h : addType name p = .ok index q) : findType? q name = some index := by
  obtain ⟨text, r, htext, hadd⟩ := Stateful.bind_eq_ok.mp h
  have hr := ((isAddition_utf8 name).grows.of_ok hp htext).indexed
  have hgrown : r.GrowsTo q := (Interning.grows_add trivial).of_ok hr hadd
  have hfound : findUtf8? q name = some text := hgrown.find? (find?_of_add htext)
  rw [findType?, hfound]
  exact find?_of_add hadd

theorem findType?_grown {name : String} (hgrown : p.GrowsTo q)
    (h : findType? p name = some index) : findType? q name = some index := by
  obtain ⟨text, htext, hfound⟩ := Option.bind_eq_some_iff.mp h
  exact Option.bind_eq_some_iff.mpr ⟨text, hgrown.find? htext, hgrown.find? hfound⟩

theorem findNameAndType?_of_add {name descriptor : String} (hp : p.IsIndexed)
    (h : addNameAndType name descriptor p = .ok index q) :
    findNameAndType? q name descriptor = some index := by
  obtain ⟨first, r, hname, h⟩ := Stateful.bind_eq_ok.mp h
  obtain ⟨second, s, hdescriptor, hadd⟩ := Stateful.bind_eq_ok.mp h
  have hrs := (isAddition_utf8 descriptor).grows.of_ok
    ((isAddition_utf8 name).grows.of_ok hp hname).indexed hdescriptor
  have hgrown : s.GrowsTo q := (Interning.grows_add trivial).of_ok hrs.indexed hadd
  have hfirst : findUtf8? q name = some first := (hrs.trans hgrown).find? (find?_of_add hname)
  have hsecond : findUtf8? q descriptor = some second := hgrown.find? (find?_of_add hdescriptor)
  rw [findNameAndType?, hfirst, hsecond]
  exact find?_of_add hadd

/-- A symbol lacks what one of its parts lacks. -/
theorem Lacks.of_parts {part s : Symbol} (h : part.Lacks q) (hparts : part.parts ⊆ s.parts) :
    s.Lacks q := by
  obtain ⟨found, hfound, hlacks⟩ := h
  exact ⟨found, hparts hfound, hlacks⟩

theorem mem_parts_self (s : Symbol) : s ∈ s.parts := by
  cases s <;> simp [parts]

/-- The last addition is refused for the constant of the symbol itself. -/
theorem lacks_of_add {s : Symbol} {c : Constant} {fault : Fault}
    (hc : s.constant? p = some c) (h : add c p = .error fault q) : s.Lacks q := by
  obtain ⟨_, rfl, _, hnone⟩ := add_eq_error h
  exact ⟨s, s.mem_parts_self, c, hc, find?_eq_none_iff.mp hnone⟩

theorem lacks_of_addUtf8 {text : String} {fault : Fault} (h : addUtf8 text p = .error fault q) :
    (utf8 text).Lacks q := lacks_of_add rfl h

theorem lacks_of_addType {name : String} {fault : Fault} (h : addType name p = .error fault q) :
    (type name).Lacks q := by
  rcases Stateful.bind_eq_error.mp h with h | ⟨text, r, htext, h⟩
  · exact (lacks_of_addUtf8 h).of_parts (by simp [parts])
  · refine lacks_of_add ?_ h
    rw [constant?, findUtf8?, find?_of_add htext]
    rfl

theorem lacks_of_addNameAndType {name descriptor : String} {fault : Fault} (hp : p.IsIndexed)
    (h : addNameAndType name descriptor p = .error fault q) :
    (nameAndType name descriptor).Lacks q := by
  rcases Stateful.bind_eq_error.mp h with h | ⟨first, r, hname, h⟩
  · exact (lacks_of_addUtf8 h).of_parts (by simp [parts])
  rcases Stateful.bind_eq_error.mp h with h | ⟨second, s, hdescriptor, h⟩
  · exact (lacks_of_addUtf8 h).of_parts (by simp [parts])
  · have hr := ((isAddition_utf8 name).grows.of_ok hp hname).indexed
    have hrs := (isAddition_utf8 descriptor).grows.of_ok hr hdescriptor
    refine lacks_of_add ?_ h
    rw [constant?, findUtf8?, hrs.find? (find?_of_add hname), findUtf8?, find?_of_add hdescriptor]
    rfl

/-- Whatever is refused lacks one of its constants in the pool that is left. -/
theorem lacks_of_intern {s : Symbol} {fault : Fault} (hp : p.IsIndexed)
    (h : s.intern p = .error fault q) : s.Lacks q := by
  cases s with
  | utf8 text => exact lacks_of_addUtf8 h
  | type name => exact lacks_of_addType h
  | string text =>
    rcases Stateful.bind_eq_error.mp h with h | ⟨found, r, htext, h⟩
    · exact (lacks_of_addUtf8 h).of_parts (by simp [parts])
    · refine lacks_of_add ?_ h
      rw [constant?, findUtf8?, find?_of_add htext]
      rfl
  | nameAndType name descriptor => exact lacks_of_addNameAndType hp h
  | member kind owner name descriptor =>
    rcases Stateful.bind_eq_error.mp h with h | ⟨first, r, howner, h⟩
    · exact (lacks_of_addType h).of_parts (by simp [parts])
    have hr := ((isAddition_type owner).grows.of_ok hp howner).indexed
    rcases Stateful.bind_eq_error.mp h with h | ⟨second, s, hlast, h⟩
    · exact (lacks_of_addNameAndType hr h).of_parts (by simp [parts])
    · have hrs := (isAddition_nameAndType name descriptor).grows.of_ok hr hlast
      have hfirst := findType?_grown hrs (findType?_of_addType hp howner)
      refine lacks_of_add ?_ h
      rw [constant?, hfirst, findNameAndType?_of_add hr hlast]
      rfl

/-! ### What is brought in -/

/-- Putting more constants behind does not change which constant a symbol is. -/
theorem constant?_grown {s : Symbol} {c : Constant} (hgrown : p.GrowsTo q)
    (h : s.constant? p = some c) : s.constant? q = some c := by
  cases s with
  | utf8 text => exact h
  | type name | string text =>
    obtain ⟨text, htext, hc⟩ := Option.map_eq_some_iff.mp h
    exact Option.map_eq_some_iff.mpr ⟨text, hgrown.find? htext, hc⟩
  | nameAndType name descriptor =>
    obtain ⟨first, hfirst, h⟩ := Option.bind_eq_some_iff.mp h
    obtain ⟨second, hsecond, hc⟩ := Option.map_eq_some_iff.mp h
    exact Option.bind_eq_some_iff.mpr ⟨first, hgrown.find? hfirst,
      Option.map_eq_some_iff.mpr ⟨second, hgrown.find? hsecond, hc⟩⟩
  | member kind owner name descriptor =>
    obtain ⟨first, hfirst, h⟩ := Option.bind_eq_some_iff.mp h
    obtain ⟨second, hsecond, hc⟩ := Option.map_eq_some_iff.mp h
    obtain ⟨name', hname, h⟩ := Option.bind_eq_some_iff.mp hsecond
    obtain ⟨descriptor', hdescriptor, hfound⟩ := Option.bind_eq_some_iff.mp h
    have hlast : findNameAndType? q name descriptor = some second :=
      Option.bind_eq_some_iff.mpr ⟨name', hgrown.find? hname,
        Option.bind_eq_some_iff.mpr ⟨descriptor', hgrown.find? hdescriptor, hgrown.find? hfound⟩⟩
    exact Option.bind_eq_some_iff.mpr ⟨first, findType?_grown hgrown hfirst,
      Option.map_eq_some_iff.mpr ⟨second, hlast, hc⟩⟩

/-- The constant is the one that a symbol of these is in the pool. -/
def OneOf (symbols : List Symbol) (p : Pool) (c : Constant) : Prop :=
  ∃ s ∈ symbols, s.constant? p = some c

/-- Only a text is a text in the pool. -/
theorem utf8_of_constant? {s : Symbol} {bytes : Bytes} (h : s.constant? p = some (.utf8 bytes)) :
    ∃ text, s = utf8 text ∧ ModifiedUtf8.encode text = bytes := by
  cases s with
  | utf8 text =>
    cases h
    exact ⟨text, rfl, rfl⟩
  | type name | string text =>
    obtain ⟨_, _, hc⟩ := Option.map_eq_some_iff.mp h
    cases hc
  | nameAndType name descriptor | member kind owner name descriptor =>
    obtain ⟨_, _, h⟩ := Option.bind_eq_some_iff.mp h
    obtain ⟨_, _, hc⟩ := Option.map_eq_some_iff.mp h
    cases hc

variable {symbols : List Symbol}

theorem OneOf.mono {more : List Symbol} {c : Constant} (h : OneOf symbols p c)
    (hsub : symbols ⊆ more) : OneOf more p c := by
  obtain ⟨s, hs, hc⟩ := h
  exact ⟨s, hsub hs, hc⟩

theorem OneOf.grow {c : Constant} (hgrown : p.GrowsTo q) (h : OneOf symbols p c) :
    OneOf symbols q c := by
  obtain ⟨s, hs, hc⟩ := h
  exact ⟨s, hs, constant?_grown hgrown hc⟩

end Symbol

namespace Interning

open Pool

variable {α β : Type} {symbols : List Symbol}

/-- However it ends, each constant that it brings into the pool is one of these. -/
def BringsTo (p : Pool) (symbols : List Symbol) (x : Interning α) : Prop :=
  Grown (Symbol.OneOf symbols (x.after p)) p (x.after p)

/-- Into any pool it brings these alone. -/
def Brings (symbols : List Symbol) (x : Interning α) : Prop :=
  ∀ p, p.IsIndexed → x.BringsTo p symbols

theorem BringsTo.bind {p : Pool} {x : Interning α} {f : α → Interning β}
    (hx : x.BringsTo p symbols) (hf : ∀ a q, x p = .ok a q → (f a).BringsTo q symbols) :
    (x >>= f).BringsTo p symbols := by
  unfold BringsTo at *
  cases hresult : x p with
  | ok a q =>
    have hrest := hf a q hresult
    have hafter : (x >>= f).after p = (f a).after q := by
      show after (EStateM.bind x f) p = _
      unfold after EStateM.bind
      rw [hresult]
    rw [after, hresult] at hx
    rw [hafter]
    exact (hx.mono fun c hc => hc.grow (hrest.mono fun _ _ => trivial)).trans hrest
  | error fault q =>
    have hafter : (x >>= f).after p = x.after p := by
      show after (EStateM.bind x f) p = _
      unfold after EStateM.bind
      rw [hresult]
    rw [hafter]
    exact hx

namespace Brings

theorem grows {x : Interning α} (h : x.Brings symbols) : x.Grows fun _ => True :=
  fun p hp => Grown.mono (h p hp) fun _ _ => trivial

theorem mono {x : Interning α} {more : List Symbol} (h : x.Brings symbols)
    (hsub : symbols ⊆ more) : x.Brings more :=
  fun p hp => Grown.mono (h p hp) fun _ hc => hc.mono hsub

/-- What leaves every pool as it was brings in nothing. -/
theorem of_after {x : Interning α} (h : ∀ p, x.after p = p) : x.Brings symbols := by
  intro p hp
  rw [BringsTo, h p]
  exact .refl hp

theorem bind {x : Interning α} {f : α → Interning β} (hx : x.Brings symbols)
    (hf : ∀ a, (f a).Brings symbols) : (x >>= f).Brings symbols :=
  fun p hp => (hx p hp).bind fun a q h => hf a q (hx.grows.of_ok hp h).indexed

end Brings

end Interning

namespace Symbol

open Pool

variable {p q : Pool} {symbols : List Symbol}

theorem bringsTo_add {s : Symbol} {c : Constant} (hp : p.IsIndexed) (hs : s ∈ symbols)
    (hc : s.constant? p = some c) : (add c).BringsTo p symbols := by
  have hgrown : Grown (c = ·) p ((add c).after p) := Interning.grows_add rfl p hp
  refine hgrown.mono ?_
  rintro _ rfl
  exact ⟨s, hs, constant?_grown (hgrown.mono fun _ _ => trivial) hc⟩

theorem brings_addUtf8 (text : String) : (addUtf8 text).Brings (utf8 text).parts :=
  fun _ hp => bringsTo_add hp (mem_parts_self _) rfl

theorem brings_addType (name : String) : (addType name).Brings (type name).parts := by
  intro p hp
  refine ((brings_addUtf8 name).mono (by simp [parts]) p hp).bind fun text q htext => ?_
  refine bringsTo_add ((grows_addUtf8 name).of_ok hp htext).indexed (mem_parts_self _) ?_
  rw [constant?, findUtf8?, find?_of_add htext]
  rfl

theorem brings_addNameAndType (name descriptor : String) :
    (addNameAndType name descriptor).Brings (nameAndType name descriptor).parts := by
  intro p hp
  refine ((brings_addUtf8 name).mono (by simp [parts]) p hp).bind fun first q hname => ?_
  have hq := ((grows_addUtf8 name).of_ok hp hname).indexed
  refine ((brings_addUtf8 descriptor).mono (by simp [parts]) q hq).bind fun second r hlast => ?_
  have hqr := (grows_addUtf8 descriptor).of_ok hq hlast
  refine bringsTo_add hqr.indexed (mem_parts_self _) ?_
  rw [constant?, findUtf8?, hqr.find? (find?_of_add hname), findUtf8?, find?_of_add hlast]
  rfl

/-- Adding a symbol brings in its parts alone. -/
theorem brings_intern (s : Symbol) : s.intern.Brings s.parts := by
  cases s with
  | utf8 text => exact brings_addUtf8 text
  | type name => exact brings_addType name
  | string text =>
    intro p hp
    refine ((brings_addUtf8 text).mono (by simp [parts]) p hp).bind fun found q htext => ?_
    refine bringsTo_add ((grows_addUtf8 text).of_ok hp htext).indexed (mem_parts_self _) ?_
    rw [constant?, findUtf8?, find?_of_add htext]
    rfl
  | nameAndType name descriptor => exact brings_addNameAndType name descriptor
  | member kind owner name descriptor =>
    intro p hp
    refine ((brings_addType owner).mono (by simp [parts]) p hp).bind fun first q howner => ?_
    have hq := ((grows_addType owner).of_ok hp howner).indexed
    refine ((brings_addNameAndType name descriptor).mono (by simp [parts]) q hq).bind
      fun second r hlast => ?_
    have hqr := (grows_addNameAndType name descriptor).of_ok hq hlast
    have hfirst := findType?_grown hqr (findType?_of_addType hp howner)
    refine bringsTo_add hqr.indexed (mem_parts_self _) ?_
    rw [constant?, hfirst, findNameAndType?_of_add hq hlast]
    rfl

end Symbol

/-! ### Runs -/

namespace Pool

/-- The pools that additions start from: the empty one, and those that are read. -/
inductive IsOriginal : Pool → Prop
  | empty : IsOriginal .empty
  | read {c c' : Cursor} {p : Pool} : Pool.read c = .ok p c' → IsOriginal p

/-- The pool after these were asked for, one after the other, whether they were refused or not. -/
def internAll : List Symbol → Pool → Pool
  | [], p => p
  | s :: rest, p => internAll rest (s.intern.after p)

/-- `q` is a well-formed pool that has the slots of `p`, and behind them constants that were not
there before. -/
structure Enlarges (p q : Pool) : Prop where
  count : q.count ≤ capacity
  wellFormed : q.IsWellFormed
  unchanged : ∀ i < p.count, q.slots[i]? = p.slots[i]?
  fresh : ∀ i c, p.count ≤ i → q.slots[i]? = some (some c) → ∀ j < i, q.slots[j]? ≠ some (some c)

variable {p q : Pool}

theorem IsOriginal.isIndexed (h : p.IsOriginal) : p.IsIndexed := by
  cases h with
  | empty => decide
  | read h => exact isIndexed_of_read h

theorem IsOriginal.isShaped (h : p.IsOriginal) : p.IsShaped := by
  cases h with
  | empty => exact ⟨[], rfl⟩
  | @read c c' _ h =>
    obtain ⟨_, ⟨hshaped, _⟩, _⟩ := (spells_read c p c').mp h
    exact hshaped

/-- A run keeps what each of its steps keeps. -/
theorem internAll_keeps (symbols : List Symbol) (hp : p.IsIndexed) :
    p.GrowsTo (internAll symbols p) ∧ IsFresh p (internAll symbols p) := by
  induction symbols generalizing p with
  | nil => exact ⟨.refl hp, .refl p⟩
  | cons s rest ih =>
    have hstep := s.isAddition_intern.grows p hp
    obtain ⟨hgrown, hfresh⟩ := ih hstep.indexed
    exact ⟨hstep.trans hgrown, (s.isAddition_intern.fresh p hp).trans hgrown hfresh⟩

theorem enlarges_internAll (symbols : List Symbol) (hp : p.IsIndexed) (hshaped : p.IsShaped) :
    p.Enlarges (internAll symbols p) := by
  obtain ⟨hgrown, hfresh⟩ := internAll_keeps symbols hp
  exact ⟨hgrown.indexed, isShaped_iff.mp (hgrown.isShaped hshaped), fun i hi => hgrown.getElem?_eq hi,
    hfresh⟩

/-- At any point of a run of additions, the rest of the run only puts new constants behind those
that are there. What is asked for next is found where the answer says, then and ever after, and
asking again changes nothing; it is refused only if the pool is full and lacks a part of it. -/
theorem internAll_enlarges (h : p.IsOriginal) (before : List Symbol) (s : Symbol)
    (later : List Symbol) :
    let here := internAll before p
    here.Enlarges (internAll later here) ∧
      (∀ index q, s.intern here = .ok index q →
        let there := internAll later q
        index.toNat < q.count ∧ s.Denoted there index ∧ s.intern there = .ok index there) ∧
      ∀ fault q, s.intern here = .error fault q →
        fault = .poolFull ∧ q.count = capacity ∧ s.Lacks q := by
  intro here
  obtain ⟨hgrown, _⟩ := internAll_keeps before h.isIndexed
  have hindexed : here.IsIndexed := hgrown.indexed
  refine ⟨enlarges_internAll later hindexed (hgrown.isShaped h.isShaped), ?_, ?_⟩
  · intro index q hq there
    have hdenoted := Symbol.denoted_of_intern hindexed hq
    have hthere := (internAll_keeps later (s.isAddition_intern.grows.of_ok hindexed hq).indexed).1
    exact ⟨hdenoted.lt_count, hdenoted.grow hthere,
      s.isAddition_intern.again here q there index hindexed hq hthere⟩
  · intro fault q hq
    obtain ⟨hfault, hfull⟩ := s.isAddition_intern.full here q fault hindexed hq
    exact ⟨hfault, hfull, Symbol.lacks_of_intern hindexed hq⟩

/-- A pool of a wide constant and the same text twice, as it is written. -/
def twins : Bytes := [0, 5, 5, 0, 0, 0, 0, 0, 0, 0, 42, 1, 0, 1, 0x61, 1, 0, 1, 0x61]

theorem internAll_enlarges_twins :
    ∃ c' p index q, Pool.read (.start twins) = .ok p c' ∧
      let here := internAll [.type "a"] p
      let run : Symbol := .member .method "a" "run" "()V"
      run.intern here = .ok index q ∧ here.Enlarges (internAll [.string "a", run] here) ∧
        run.Denoted (internAll [.string "a", run] q) index := by
  let run : Symbol := .member .method "a" "run" "()V"
  have hrun : (Pool.read.run' twins).map
      (fun p => run.intern.succeeds (internAll [.type "a"] p)) = .ok true := by
    decide +kernel
  obtain ⟨p, hp, hsucceeds⟩ := map_eq_ok.mp hrun
  obtain ⟨c', hread⟩ := Reader.run'_eq_ok.mp hp
  obtain ⟨index, q, hq⟩ := Interning.exists_of_succeeds hsucceeds
  obtain ⟨hkept, hfound, _⟩ := internAll_enlarges (.read hread) [.type "a"] run [.string "a", run]
  exact ⟨c', p, index, q, hread, hq, hkept, (hfound index q hq).2.1⟩

end Pool

end ThreadWatch
