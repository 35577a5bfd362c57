import ThreadWatch.Proofs.Types.Levels
import ThreadWatch.Proofs.Types.Supertypes

/-!
# Which declaration is found

A method is looked for in the classes from its owner on upwards, and if none of them declares it, in
their superinterfaces level by level. The first declaration in this order is found, as long as it
stands among the first `maxTypes` classes, or interfaces.
-/

namespace ThreadWatch

namespace Summaries

/-- Whether the type is found and declares the method. -/
def declares (k : Summaries) (name descriptor type : String) : Bool :=
  match k.find type with
  | none => false
  | some info => info.declares name descriptor

/-- The classes from a type on, each the superclass of the one before, and the superclass of the
last one, if it has any. -/
def Chain (k : Summaries) : String → List TypeInfo → Option String → Prop
  | type, [], next => next = some type
  | type, info :: above, next => k.find type = some info ∧
    match info.superName with
    | some super => k.Chain super above next
    | none => above = [] ∧ next = none

/-- The type is the first to declare the method among the first `limit` classes from `owner` on. -/
def IsFirstAbove (k : Summaries) (name descriptor : String) (limit : Nat) (owner type : String) :
    Prop :=
  ∃ below, k.Chain owner below (some type) ∧ below.length < limit ∧
    (∀ info ∈ below, info.declares name descriptor = false) ∧ k.declares name descriptor type = true

/-- The classes are all from `owner` on, no more than `limit`, and none declares the method. -/
def IsUndeclared (k : Summaries) (name descriptor : String) (limit : Nat) (owner : String)
    (classes : List TypeInfo) : Prop :=
  k.Chain owner classes none ∧ classes.length ≤ limit ∧
    ∀ info ∈ classes, info.declares name descriptor = false

/-- The type is the first to declare the method in the order of the levels, each type counted where
it is met first, and one of the first `maxTypes`. -/
def IsFirstMet (k : Summaries) (name descriptor : String) (roots : List String) (type : String) :
    Prop :=
  ∃ depth before after, (k.levels roots depth).eraseDups = before ++ type :: after ∧
    before.length < Hierarchy.maxTypes ∧
    (∀ other ∈ before, k.declares name descriptor other = false) ∧ k.declares name descriptor type = true

variable {k : Summaries} {name descriptor type : String} {roots : List String}

/-! ### The search among interfaces -/

theorem searchInterfaces_eq_ok_iff {left : Nat} {visited pending : List String}
    {missing : Option String} :
    k.searchInterfaces name descriptor left visited missing pending = .ok type ↔
      (k.visits left visited pending).find? (k.declares name descriptor) = some type := by
  induction left generalizing visited missing pending with
  | zero => simp [searchInterfaces, visits]
  | succ left ih =>
    rw [searchInterfaces, visits]
    cases pending.dropWhile visited.contains with
    | nil => simp
    | cons next rest =>
      dsimp only
      rw [List.find?_cons, declares, interfaces]
      cases hfind : k.find next with
      | none => simp [ih]
      | some info =>
        dsimp only
        cases hdeclares : info.declares name descriptor with
        | true => simp [k.name_of_find hfind]
        | false => simp [ih]

theorem isPrefix_levels (roots : List String) {depth depth' : Nat} (h : depth ≤ depth') :
    k.levels roots depth <+: k.levels roots depth' := by
  obtain ⟨more, rfl⟩ := Nat.exists_eq_add_of_le h
  rw [levels, levels, List.range_add, List.flatMap_append]
  exact List.prefix_append ..

theorem isPrefix_eraseDups {names names' : List String} (h : names <+: names') :
    names.eraseDups <+: names'.eraseDups := by
  obtain ⟨more, rfl⟩ := h
  rw [List.eraseDups_append]
  exact List.prefix_append ..

theorem isFirstMet_iff : k.IsFirstMet name descriptor roots type ↔
    (k.visits Hierarchy.maxTypes [] roots).find? (k.declares name descriptor) = some type := by
  rw [List.find?_eq_some_iff_append]
  simp only [Bool.not_eq_eq_eq_not, Bool.not_true]
  constructor
  · rintro ⟨depth, before, after, hlevels, hlength, hbefore, htype⟩
    have hdeep := k.isPrefix_levels roots (Nat.le_max_left depth Hierarchy.maxTypes)
    obtain ⟨more, hmore⟩ := isPrefix_eraseDups hdeep
    obtain ⟨left, hleft⟩ := Nat.exists_eq_add_of_lt hlength
    refine ⟨htype, before, (after ++ more).take left, ?_, hbefore⟩
    rw [visits_roots (Nat.le_max_right depth Hierarchy.maxTypes), ← hmore, hlevels,
      List.append_assoc, hleft, Nat.add_assoc, List.take_length_add_append]
    rfl
  · rintro ⟨htype, before, after, hvisits, hbefore⟩
    rw [visits_roots (Nat.le_refl _)] at hvisits
    have hall := List.take_append_drop Hierarchy.maxTypes
      (k.levels roots Hierarchy.maxTypes).eraseDups
    have hlength := congrArg List.length hvisits
    rw [hvisits, List.append_assoc] at hall
    rw [List.length_take, List.length_append, List.length_cons] at hlength
    exact ⟨Hierarchy.maxTypes, before, _, hall.symm, by omega, hbefore, htype⟩

theorem IsFirstMet.declares (h : k.IsFirstMet name descriptor roots type) :
    k.declares name descriptor type = true := by
  obtain ⟨_, _, _, _, _, _, htype⟩ := h
  exact htype

/-- What is named on a level in front of the first declaration declares nothing. -/
theorem IsFirstMet.declares_eq_false (h : k.IsFirstMet name descriptor roots type) {depth : Nat}
    {other : String} (hother : other ∈ k.level roots depth)
    (hlater : ∀ less ≤ depth, type ∉ k.level roots less) :
    k.declares name descriptor other = false := by
  obtain ⟨far, before, after, hlevels, _, hbefore, htype⟩ := h
  have hin : other ∈ (k.levels roots (depth + 1)).eraseDups := by
    rw [List.mem_eraseDups, levels, List.mem_flatMap]
    exact ⟨depth, List.mem_range.mpr (Nat.lt_succ_self depth), hother⟩
  have hnot : type ∉ (k.levels roots (depth + 1)).eraseDups := by
    rw [List.mem_eraseDups, levels, List.mem_flatMap]
    rintro ⟨less, hless, hmem⟩
    exact hlater less (Nat.le_of_lt_succ (List.mem_range.mp hless)) hmem
  have hfar : before ++ [type] <+: (k.levels roots far).eraseDups :=
    ⟨after, by rw [hlevels, List.append_assoc]; rfl⟩
  rcases Nat.le_total far (depth + 1) with hle | hle
  · have hmem := (hfar.trans (isPrefix_eraseDups (k.isPrefix_levels roots hle))).subset
    exact absurd (hmem (by simp)) hnot
  · have hnear := isPrefix_eraseDups (k.isPrefix_levels roots hle)
    rcases List.prefix_or_prefix_of_prefix hnear hfar with hfront | hfront
    · rcases List.mem_append.mp (hfront.subset hin) with hmem | hmem
      · exact hbefore other hmem
      · exact absurd (List.mem_singleton.mp hmem ▸ hin) hnot
    · exact absurd (hfront.subset (by simp)) hnot

/-! ### The search among classes -/

theorem resolutionOf_eq_declared_iff {owner : String} {found : Except (Option String) String} :
    resolutionOf owner found = .declared type ↔ found = .ok type := by
  cases found <;> simp [resolutionOf]

theorem declares_of_find {info : TypeInfo} (hfind : k.find type = some info) :
    k.declares name descriptor type = info.declares name descriptor := by
  rw [declares, hfind]

theorem chain_cons {info : TypeInfo} {above : List TypeInfo} {next : Option String} :
    k.Chain type (info :: above) next ↔ k.find type = some info ∧
      ((∃ super, info.superName = some super ∧ k.Chain super above next) ∨
        (info.superName = none ∧ above = [] ∧ next = none)) := by
  rw [Chain]
  cases info.superName with
  | none => simp
  | some super => simp

section OneClass

variable {current : String} {left : Nat} {classes : List TypeInfo}

theorem not_isFirstAbove_of_none (hfind : k.find current = none) :
    ¬ k.IsFirstAbove name descriptor left current type := by
  rintro ⟨_ | ⟨info, below⟩, hchain, _, _, htype⟩
  · cases hchain
    rw [declares, hfind] at htype
    cases htype
  · cases hfind.symm.trans hchain.1

theorem not_isUndeclared_of_none (hfind : k.find current = none) :
    ¬ k.IsUndeclared name descriptor left current classes := by
  rintro ⟨hchain, _⟩
  cases classes with
  | nil => cases hchain
  | cons info classes => cases hfind.symm.trans hchain.1

variable {info : TypeInfo} (hfind : k.find current = some info)

include hfind

/-- The first class declares the method, or the search goes on behind it. -/
theorem isFirstAbove_succ : k.IsFirstAbove name descriptor (left + 1) current type ↔
    (info.declares name descriptor = true ∧ type = current) ∨
      (info.declares name descriptor = false ∧ ∃ super, info.superName = some super ∧
        k.IsFirstAbove name descriptor left super type) := by
  constructor
  · rintro ⟨_ | ⟨first, below⟩, hchain, hlength, hbelow, htype⟩
    · cases hchain
      exact .inl ⟨declares_of_find hfind ▸ htype, rfl⟩
    · obtain ⟨hfirst, ⟨super, hsuper, habove⟩ | ⟨_, _, hnext⟩⟩ := chain_cons.mp hchain
      · cases hfind.symm.trans hfirst
        rw [List.forall_mem_cons] at hbelow
        exact .inr ⟨hbelow.1, super, hsuper, below, habove, Nat.lt_of_succ_lt_succ hlength,
          hbelow.2, htype⟩
      · cases hnext
  · rintro (⟨hdeclares, rfl⟩ | ⟨hnot, super, hsuper, below, hchain, hlength, hbelow, htype⟩)
    · exact ⟨[], rfl, Nat.succ_pos _, by simp, (declares_of_find hfind).trans hdeclares⟩
    · exact ⟨info :: below, chain_cons.mpr ⟨hfind, .inl ⟨super, hsuper, hchain⟩⟩,
        Nat.succ_lt_succ hlength, List.forall_mem_cons.mpr ⟨hnot, hbelow⟩, htype⟩

/-- The first class does not declare the method, nor does any behind it. -/
theorem isUndeclared_succ : k.IsUndeclared name descriptor (left + 1) current classes ↔
    info.declares name descriptor = false ∧
      ((info.superName = none ∧ classes = [info]) ∨ ∃ super above, info.superName = some super ∧
        classes = info :: above ∧ k.IsUndeclared name descriptor left super above) := by
  constructor
  · rintro ⟨hchain, hlength, hnone⟩
    cases classes with
    | nil => cases hchain
    | cons first above =>
      rw [List.forall_mem_cons] at hnone
      obtain ⟨hfirst, ⟨super, hsuper, habove⟩ | ⟨hsuper, rfl, _⟩⟩ := chain_cons.mp hchain
      · cases hfind.symm.trans hfirst
        exact ⟨hnone.1, .inr ⟨super, above, hsuper, rfl, habove, Nat.le_of_succ_le_succ hlength,
          hnone.2⟩⟩
      · cases hfind.symm.trans hfirst
        exact ⟨hnone.1, .inl ⟨hsuper, rfl⟩⟩
  · rintro ⟨hnot, ⟨hsuper, rfl⟩ | ⟨super, above, hsuper, rfl, hchain, hlength, hnone⟩⟩
    · exact ⟨chain_cons.mpr ⟨hfind, .inr ⟨hsuper, rfl, rfl⟩⟩, Nat.succ_le_succ (Nat.zero_le _),
        by simp [hnot]⟩
    · exact ⟨chain_cons.mpr ⟨hfind, .inl ⟨super, hsuper, hchain⟩⟩, Nat.succ_le_succ hlength,
        List.forall_mem_cons.mpr ⟨hnot, hnone⟩⟩

end OneClass

theorem searchChain_eq_declared_iff {owner current : String} {left : Nat}
    {interfaces : List String} :
    k.searchChain owner name descriptor left current interfaces = .declared type ↔
      k.IsFirstAbove name descriptor left current type ∨
      ∃ classes, k.IsUndeclared name descriptor left current classes ∧
        k.IsFirstMet name descriptor (interfaces ++ classes.flatMap TypeInfo.interfaces) type := by
  induction left generalizing current interfaces with
  | zero =>
    refine iff_of_false (by simp [searchChain]) ?_
    rintro (⟨below, _, hlength, _⟩ | ⟨classes, ⟨hchain, hlength, _⟩, _⟩)
    · exact absurd hlength (Nat.not_lt_zero _)
    · rw [List.length_eq_zero_iff.mp (Nat.le_zero.mp hlength)] at hchain
      cases hchain
  | succ left ih =>
    rw [searchChain]
    cases hfind : k.find current with
    | none => simp [not_isFirstAbove_of_none hfind, not_isUndeclared_of_none hfind]
    | some info =>
      dsimp only
      simp only [isFirstAbove_succ hfind, isUndeclared_succ hfind]
      cases hdeclares : info.declares name descriptor with
      | true => simp [k.name_of_find hfind, eq_comm]
      | false =>
        cases info.superName with
        | some super => simp [ih]
        | none => simp [resolutionOf_eq_declared_iff, searchInterfaces_eq_ok_iff, isFirstMet_iff]

/-! ### What is found is a supertype -/

variable {owner : String} {classes : List TypeInfo} {next : Option String}

theorem link_of_superName {info : TypeInfo} {super : String} (hfind : k.find type = some info)
    (hsuper : info.superName = some super) : k.Link type super :=
  ⟨info, hfind, by simp [TypeInfo.supertypes, hsuper]⟩

theorem Chain.reaches {info : TypeInfo} (h : k.Chain owner classes next) (hinfo : info ∈ classes) :
    k.find info.name = some info ∧ k.Reaches owner info.name := by
  induction classes generalizing owner with
  | nil => simp at hinfo
  | cons first above ih =>
    obtain ⟨hfirst, hrest⟩ := chain_cons.mp h
    rcases List.mem_cons.mp hinfo with rfl | hinfo
    · rw [k.name_of_find hfirst]
      exact ⟨hfirst, .refl⟩
    · obtain ⟨super, hsuper, hrest⟩ | ⟨_, rfl, _⟩ := hrest
      · obtain ⟨hfind, hreach⟩ := ih hrest hinfo
        exact ⟨hfind, hreach.head (link_of_superName hfirst hsuper)⟩
      · cases hinfo

theorem Chain.reaches_next (h : k.Chain owner classes (some type)) : k.Reaches owner type := by
  induction classes generalizing owner with
  | nil =>
    cases h
    exact .refl
  | cons first above ih =>
    obtain ⟨hfirst, ⟨super, hsuper, hrest⟩ | ⟨_, _, hnext⟩⟩ := chain_cons.mp h
    · exact (ih hrest).head (link_of_superName hfirst hsuper)
    · cases hnext

theorem link_of_mem_interfaces {super : String} (h : super ∈ k.interfaces type) :
    k.Link type super := by
  unfold interfaces at h
  split at h
  · simp at h
  next info hinfo => exact ⟨info, hinfo, List.mem_append_right _ h⟩

theorem reaches_of_mem_level {depth : Nat} (h : type ∈ k.level roots depth) :
    ∃ root ∈ roots, k.Reaches root type := by
  induction depth generalizing roots with
  | zero => exact ⟨type, h, .refl⟩
  | succ depth ih =>
    obtain ⟨super, hsuper, hreach⟩ := ih h
    obtain ⟨root, hroot, hmem⟩ := List.mem_flatMap.mp hsuper
    exact ⟨root, hroot, hreach.head (link_of_mem_interfaces hmem)⟩

theorem IsFirstMet.reaches (h : k.IsFirstMet name descriptor roots type) :
    ∃ root ∈ roots, k.Reaches root type := by
  obtain ⟨depth, before, after, hlevels, _⟩ := h
  have hmem : type ∈ (k.levels roots depth).eraseDups := by simp [hlevels]
  rw [List.mem_eraseDups, levels, List.mem_flatMap] at hmem
  obtain ⟨less, _, hless⟩ := hmem
  exact reaches_of_mem_level hless

theorem Chain.reaches_interface {root : String} (h : k.Chain owner classes next)
    (hroot : root ∈ classes.flatMap TypeInfo.interfaces) : k.Reaches owner root := by
  obtain ⟨info, hinfo, hmem⟩ := List.mem_flatMap.mp hroot
  obtain ⟨hfind, hreach⟩ := h.reaches hinfo
  exact hreach.tail ⟨info, hfind, List.mem_append_right _ hmem⟩

/-! ### Classes come first -/

theorem Chain.upTo {below above : List TypeInfo} {info : TypeInfo}
    (h : k.Chain owner (below ++ info :: above) next) : k.Chain owner below (some info.name) := by
  induction below generalizing owner with
  | nil => exact congrArg some (k.name_of_find h.1)
  | cons first below ih =>
    obtain ⟨hfirst, ⟨super, hsuper, hrest⟩ | ⟨_, hnil, _⟩⟩ := chain_cons.mp h
    · exact chain_cons.mpr ⟨hfirst, .inl ⟨super, hsuper, ih hrest⟩⟩
    · simp at hnil

/-- Of classes one after another that do not all leave the method undeclared, one is the first that
declares it. -/
theorem Chain.exists_isFirstAbove {limit : Nat} (h : k.Chain owner classes next)
    (hlimit : classes.length ≤ limit)
    (hsome : ∃ info ∈ classes, info.declares name descriptor = true) :
    ∃ info ∈ classes, k.IsFirstAbove name descriptor limit owner info.name := by
  have hfound : (classes.find? fun info => info.declares name descriptor).isSome :=
    List.find?_isSome.mpr hsome
  obtain ⟨info, hinfo⟩ := Option.isSome_iff_exists.mp hfound
  obtain ⟨hdeclares, below, above, rfl, hbelow⟩ := List.find?_eq_some_iff_append.mp hinfo
  have hmem : info ∈ below ++ info :: above := by simp
  refine ⟨info, hmem, below, h.upTo, ?_, by simpa using hbelow, ?_⟩
  · rw [List.length_append, List.length_cons] at hlimit
    omega
  · rw [declares_of_find (h.reaches hmem).1]
    exact hdeclares

/-- Classes from the owner on are the first of all there are. -/
theorem Chain.exists_above {below : List TypeInfo} (hbelow : k.Chain owner below next)
    (h : k.Chain owner classes none) :
    ∃ above, classes = below ++ above ∧ ∀ type, next = some type → k.Chain type above none := by
  induction below generalizing owner classes with
  | nil =>
    refine ⟨classes, rfl, fun type hnext => ?_⟩
    cases hbelow.symm.trans hnext
    exact h
  | cons first below ih =>
    cases classes with
    | nil => cases h
    | cons info classes =>
      obtain ⟨hfirst, hrest⟩ := chain_cons.mp hbelow
      obtain ⟨hinfo, hrest'⟩ := chain_cons.mp h
      cases hfirst.symm.trans hinfo
      obtain ⟨super, hsuper, hbelow⟩ | ⟨hnone, rfl, rfl⟩ := hrest
      · obtain ⟨super', hsuper', h⟩ | ⟨hnone, _⟩ := hrest'
        · cases hsuper.symm.trans hsuper'
          obtain ⟨above, rfl, habove⟩ := ih hbelow h
          exact ⟨above, rfl, habove⟩
        · cases hsuper.symm.trans hnone
      · exact ⟨classes, rfl, by simp⟩

theorem Chain.unique {classes' : List TypeInfo} (h : k.Chain owner classes none)
    (h' : k.Chain owner classes' none) : classes = classes' := by
  obtain ⟨above, hclasses, _⟩ := h'.exists_above h
  obtain ⟨above', hclasses', _⟩ := h.exists_above h'
  have hlength : above.length = 0 := by
    have heq := congrArg List.length hclasses
    have heq' := congrArg List.length hclasses'
    rw [List.length_append] at heq heq'
    omega
  rw [hclasses, List.length_eq_zero_iff.mp hlength, List.append_nil]

theorem IsUndeclared.not_isFirstAbove {limit : Nat}
    (h : k.IsUndeclared name descriptor limit owner classes) :
    ¬ k.IsFirstAbove name descriptor limit owner type := by
  rintro ⟨below, hbelow, _, _, htype⟩
  obtain ⟨hchain, _, hnone⟩ := h
  obtain ⟨above, rfl, hrest⟩ := hbelow.exists_above hchain
  have habove := hrest type rfl
  cases above with
  | nil => cases habove
  | cons info above =>
    rw [declares_of_find habove.1, hnone info (by simp)] at htype
    cases htype

theorem resolve_eq_declared_iff (howner : owner.toList.head? ≠ some '[') :
    k.resolve owner name descriptor = .declared type ↔
      k.IsFirstAbove name descriptor Hierarchy.maxTypes owner type ∨
      ∃ classes, k.IsUndeclared name descriptor Hierarchy.maxTypes owner classes ∧
        k.IsFirstMet name descriptor (classes.flatMap TypeInfo.interfaces) type := by
  rw [resolve, if_neg howner, searchChain_eq_declared_iff]
  rfl

end Summaries

namespace Hierarchy

open Summaries (Chain IsFirstAbove IsUndeclared IsFirstMet)

variable {σ : Type}

/-- The type found is the first class from the owner on that declares the method, or, where all
classes are there and none does, the first interface. It declares the method itself and is a
supertype of the owner; no class that declares it is passed over, nor an interface on an upper
level. The host is asked for a bounded number of names, whatever it answers. -/
theorem resolve_declared_iff {h : Host σ} {k : Summaries} {owner name descriptor : String}
    {found : Resolution} (hfound : k.Gives (resolve h owner name descriptor) found)
    (howner : owner.toList.head? ≠ some '[') :
    (∀ type, found = .declared type ↔
      k.IsFirstAbove name descriptor maxTypes owner type ∨
      ∃ classes, k.IsUndeclared name descriptor maxTypes owner classes ∧
        k.IsFirstMet name descriptor (classes.flatMap TypeInfo.interfaces) type) ∧
    (∀ type, found = .declared type →
      k.declares name descriptor type = true ∧ k.Reaches owner type) ∧
    (∀ classes next, k.Chain owner classes next → classes.length ≤ maxTypes →
      (∃ info ∈ classes, info.declares name descriptor = true) →
      ∃ info ∈ classes, found = .declared info.name) ∧
    (∀ type classes, found = .declared type →
      k.IsUndeclared name descriptor maxTypes owner classes →
      ∀ depth, (∀ less ≤ depth, type ∉ k.level (classes.flatMap TypeInfo.interfaces) less) →
        ∀ other ∈ k.level (classes.flatMap TypeInfo.interfaces) depth,
          k.declares name descriptor other = false) ∧
    Asking.AsksAtMost (maxTypes + maxTypes) (resolve h owner name descriptor) := by
  have hiff : ∀ type, found = .declared type ↔
      k.IsFirstAbove name descriptor maxTypes owner type ∨
      ∃ classes, k.IsUndeclared name descriptor maxTypes owner classes ∧
        k.IsFirstMet name descriptor (classes.flatMap TypeInfo.interfaces) type := by
    intro type
    rw [hfound.eq (reads_resolve h owner name descriptor), Summaries.resolve_eq_declared_iff howner]
  refine ⟨hiff, fun type htype => ?_, fun classes next hchain hlength hsome => ?_,
    fun type classes htype hclasses depth hlater other hother => ?_,
    (reads_resolve h owner name descriptor).asksAtMost⟩
  · rcases (hiff type).mp htype with ⟨below, hchain, _, _, hdeclares⟩ | ⟨classes, hclasses, hfirst⟩
    · exact ⟨hdeclares, hchain.reaches_next⟩
    · obtain ⟨root, hroot, hreach⟩ := hfirst.reaches
      exact ⟨hfirst.declares, (hclasses.1.reaches_interface hroot).trans hreach⟩
  · obtain ⟨info, hinfo, hfirst⟩ := hchain.exists_isFirstAbove hlength hsome
    exact ⟨info, hinfo, (hiff _).mpr (.inl hfirst)⟩
  · rcases (hiff type).mp htype with habove | ⟨classes', hclasses', hfirst⟩
    · exact absurd habove hclasses.not_isFirstAbove
    · cases hclasses.1.unique hclasses'.1
      exact hfirst.declares_eq_false hother hlater

/-- Neither A nor B declares `run`. Of their interfaces I is not there, J and K are in a cycle, and
L, named by K, declares it. -/
def lateMemo : Memo :=
  [⟨"A", some "B", ["I", "J"], false, []⟩, ⟨"B", none, ["J"], false, []⟩,
    ⟨"J", none, ["K", "I"], true, []⟩, ⟨"K", none, ["J", "L"], true, []⟩,
    ⟨"L", none, [], true, [⟨"run", "()V"⟩]⟩].foldl seed []

theorem isNamed_lateMemo : lateMemo.IsNamed :=
  ((((Memo.isNamed_nil.seed _).seed _).seed _).seed _).seed _

theorem resolve_declared_iff_late :
    let k := Summaries.seen bareHost .empty lateMemo isNamed_lateMemo
    k.Gives (resolve bareHost "A" "run" "()V") (.declared "L") ∧
      "A".toList.head? ≠ some '[' ∧ k.declares "run" "()V" "L" = true ∧ k.Reaches "A" "L" := by
  intro k
  have hgives := Summaries.seen_gives (Host.steady_recording fun _ => .ok none)
    (reads_resolve bareHost "A" "run" "()V").looksUp isNamed_lateMemo .empty
  rw [show ((resolve bareHost "A" "run" "()V").answer lateMemo .empty).1 = .declared "L" by
    decide +kernel] at hgives
  have howner : "A".toList.head? ≠ some '[' := by decide
  obtain ⟨_, hfound, _⟩ := resolve_declared_iff hgives howner
  exact ⟨hgives, howner, hfound "L" rfl⟩

end Hierarchy

end ThreadWatch
