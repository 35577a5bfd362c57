import Mathlib.Data.List.DropRight
import ThreadWatch.Proofs.Files.Path
import ThreadWatch.Settings

/-!
# Excluded leads

However an option string is spelled, with dots or slashes, white space around its pieces or pieces
with nothing in them, the leads that are read from it have one form. Each piece between commas gives
a lead or nothing, and a class is left alone if its name starts with one of the leads.
-/

namespace ThreadWatch

/-! ### White space at the ends -/

namespace Blank

/-- No white space at either end. -/
structure IsBare (s : List Char) : Prop where
  head : ∀ c ∈ s.head?, isBlank c = false
  last : ∀ c ∈ s.getLast?, isBlank c = false

variable {s front back : List Char}

theorem head?_trimLeft (s : List Char) : ∀ c ∈ (trimLeft s).head?, isBlank c = false := by
  intro c hc
  have hnot := List.head?_dropWhile_not isBlank s
  rw [← trimLeft, Option.mem_def.mp hc] at hnot
  exact hnot

theorem trimRight_isPrefix (s : List Char) : trimRight s <+: s := List.rdropWhile_prefix _ _

theorem trim_subset (s : List Char) : trim s ⊆ s :=
  fun _ hc => (List.dropWhile_suffix _).subset ((trimRight_isPrefix _).subset hc)

theorem isBare_trim (s : List Char) : IsBare (trim s) where
  head c hc := by
    obtain ⟨rest, hrest⟩ := List.head?_eq_some_iff.mp hc
    obtain ⟨behind, hbehind⟩ := trimRight_isPrefix (trimLeft s)
    refine head?_trimLeft s c ?_
    rw [trim] at hrest
    rw [← hbehind, hrest]
    rfl
  last c hc := by
    rw [trim, trimRight, List.getLast?_reverse] at hc
    exact head?_trimLeft _ c hc

theorem trimLeft_eq_nil (h : ∀ c ∈ s, isBlank c = true) : trimLeft s = [] :=
  List.dropWhile_eq_nil_iff.mpr h

theorem trim_eq_nil (h : ∀ c ∈ s, isBlank c = true) : trim s = [] := by
  rw [trim, trimLeft_eq_nil h]
  rfl

theorem trimLeft_padded (hfront : ∀ c ∈ front, isBlank c = true)
    (hs : ∀ c ∈ s.head?, isBlank c = false) : trimLeft (front ++ s) = s := by
  rw [trimLeft, List.dropWhile_append_of_pos hfront]
  cases s with
  | nil => rfl
  | cons c rest => exact List.dropWhile_cons_of_neg (by simpa using hs c rfl)

/-- White space around a bare text is trimmed. -/
theorem trim_padded (hs : IsBare s) (hne : s ≠ []) (hfront : ∀ c ∈ front, isBlank c = true)
    (hback : ∀ c ∈ back, isBlank c = true) : trim (front ++ s ++ back) = s := by
  have hleft : trimLeft (front ++ s ++ back) = s ++ back := by
    rw [List.append_assoc]
    refine trimLeft_padded hfront fun c hc => hs.head c ?_
    rwa [List.head?_append_of_ne_nil _ hne] at hc
  have hright : trimLeft (back.reverse ++ s.reverse) = s.reverse := by
    refine trimLeft_padded (fun c hc => hback c (List.mem_reverse.mp hc)) fun c hc => ?_
    rw [List.head?_reverse] at hc
    exact hs.last c hc
  rw [trim, hleft, trimRight, List.reverse_append, hright, List.reverse_reverse]

/-- Trimming does not look at letters that are no white space before and after. -/
theorem trim_map {f : Char → Char} (hf : ∀ c, isBlank (f c) = isBlank c) (s : List Char) :
    trim (s.map f) = (trim s).map f := by
  have hleft : ∀ s : List Char, trimLeft (s.map f) = (trimLeft s).map f := by
    intro s
    rw [trimLeft, List.dropWhile_map, show isBlank ∘ f = isBlank from funext hf]
    rfl
  rw [trim, trim, hleft, trimRight, ← List.map_reverse, hleft, ← List.map_reverse]
  rfl

end Blank

namespace Segments

theorem split_map {sep : Char} {f : Char → Char} (hf : ∀ c, f c = sep ↔ c = sep) (s : List Char) :
    split sep (s.map f) = (split sep s).map (List.map f) := by
  induction s with
  | nil => rfl
  | cons c s ih =>
    rw [List.map_cons, split, split, ih]
    simp only [hf]
    split
    · rfl
    · cases split sep s with
      | nil => rfl
      | cons first more => rfl

theorem subset_of_mem_split {sep : Char} {s piece : List Char} (h : piece ∈ split sep s) :
    piece ⊆ s := by
  induction s generalizing piece with
  | nil =>
    obtain rfl := List.mem_singleton.mp h
    exact List.Subset.refl _
  | cons c s ih =>
    rw [split] at h
    split at h
    · rcases List.mem_cons.mp h with rfl | h
      · exact List.nil_subset _
      · exact List.subset_cons_of_subset c (ih h)
    · cases hsplit : split sep s with
      | nil => exact absurd hsplit (split_ne_nil sep s)
      | cons first more =>
        rw [hsplit] at h ih
        rcases List.mem_cons.mp h with rfl | h
        · exact List.cons_subset_cons c (ih (List.mem_cons_self ..))
        · exact List.subset_cons_of_subset c (ih (List.mem_cons_of_mem _ h))

end Segments

/-! ### Leads -/

/-- A lead in the form that all leads are kept in. -/
structure IsLead (lead : String) : Prop where
  ne_empty : lead ≠ ""
  noDot : '.' ∉ lead.toList
  noComma : ',' ∉ lead.toList
  bare : Blank.IsBare lead.toList

/-- The text with some dots for slashes, or slashes for dots. -/
def Respells (s t : String) : Prop :=
  List.Forall₂ (fun c d => d = c ∨ c = '.' ∧ d = '/' ∨ c = '/' ∧ d = '.') s.toList t.toList

def slashed (c : Char) : Char := if c = '.' then '/' else c

theorem toInternal_ofList (s : List Char) :
    toInternal (String.ofList s) = String.ofList (s.map slashed) := by
  rw [← String.toList_inj, toInternal, String.toList_map, String.toList_ofList,
    String.toList_ofList]
  rfl

theorem slashed_eq_comma_iff (c : Char) : slashed c = ',' ↔ c = ',' := by
  unfold slashed
  grind

theorem isBlank_slashed (c : Char) : Blank.isBlank (slashed c) = Blank.isBlank c := by
  unfold slashed
  split
  next hdot =>
    subst hdot
    decide
  next => rfl

theorem slashed_ne_dot (c : Char) : slashed c ≠ '.' := by
  unfold slashed
  grind

theorem map_slashed_of_notMem {s : List Char} (h : '.' ∉ s) : s.map slashed = s := by
  refine (List.map_congr_left fun c hc => if_neg ?_).trans (List.map_id s)
  rintro rfl
  exact h hc

theorem Respells.map_slashed {s t : String} (h : Respells s t) :
    t.toList.map slashed = s.toList.map slashed := by
  unfold Respells at h
  generalize s.toList = s, t.toList = t at h ⊢
  induction h with
  | nil => rfl
  | cons hcd _ ih =>
    rw [List.map_cons, List.map_cons, ih]
    congr 1
    unfold slashed
    grind

/-- The leads between the commas of a text that is without dots. -/
def leadsOf (s : List Char) : List (List Char) :=
  ((Segments.split ',' s).map Blank.trim).filter (!·.isEmpty)

/-- The dots may as well be replaced before the text is cut. -/
theorem parseExclusions_eq (argument : String) :
    parseExclusions argument =
      (leadsOf (argument.toList.map slashed)).map String.ofList := by
  have htrim : Blank.trim ∘ List.map slashed = List.map slashed ∘ Blank.trim :=
    funext (Blank.trim_map isBlank_slashed)
  have hempty : (fun s : List Char => !s.isEmpty) ∘ List.map slashed =
      fun s => !s.isEmpty := by
    funext s
    simp
  unfold parseExclusions leadsOf
  rw [Segments.split_map slashed_eq_comma_iff, List.map_map, htrim, ← List.map_map,
    List.filter_map, hempty, List.map_map]
  exact List.map_congr_left fun piece _ => toInternal_ofList piece

theorem isLead_of_mem {argument lead : String} (h : lead ∈ parseExclusions argument) :
    IsLead lead := by
  rw [parseExclusions_eq] at h
  obtain ⟨letters, hletters, rfl⟩ := List.mem_map.mp h
  obtain ⟨hmem, hne⟩ := List.mem_filter.mp hletters
  obtain ⟨piece, hpiece, rfl⟩ := List.mem_map.mp hmem
  refine ⟨fun hempty => ?_, ?_, ?_, ?_⟩
  · rw [String.ofList_eq_empty_iff] at hempty
    simp [hempty] at hne
  · rw [String.toList_ofList]
    intro hdot
    have hslashed := Segments.subset_of_mem_split hpiece (Blank.trim_subset piece hdot)
    obtain ⟨c, _, hc⟩ := List.mem_map.mp hslashed
    exact slashed_ne_dot c hc
  · rw [String.toList_ofList]
    exact fun hcomma => Segments.notMem_of_mem_split hpiece (Blank.trim_subset piece hcomma)
  · rw [String.toList_ofList]
    exact Blank.isBare_trim piece

theorem parseExclusions_respelled {s t : String} (h : Respells s t) :
    parseExclusions t = parseExclusions s := by
  rw [parseExclusions_eq, parseExclusions_eq, h.map_slashed]

/-- The pieces in front of a comma do not matter to those behind it. -/
theorem parseExclusions_append (s t : String) :
    parseExclusions (s ++ "," ++ t) = parseExclusions s ++ parseExclusions t := by
  have hletters : (s ++ "," ++ t).toList.map slashed =
      s.toList.map slashed ++ ',' :: t.toList.map slashed := by
    rw [String.toList_append, String.toList_append, List.map_append, List.map_append,
      List.append_assoc]
    rfl
  rw [parseExclusions_eq, parseExclusions_eq, parseExclusions_eq, hletters, leadsOf,
    Segments.split_append_sep, List.map_append, List.filter_append, List.map_append]
  rfl

/-- A piece is read without the white space around it. -/
theorem parseExclusions_padded {lead front back : String} (h : IsLead lead)
    (hfront : ∀ c ∈ front.toList, Blank.isBlank c = true)
    (hback : ∀ c ∈ back.toList, Blank.isBlank c = true) :
    parseExclusions (front ++ lead ++ back) = [lead] := by
  have hblank : ∀ {s : List Char}, (∀ c ∈ s, Blank.isBlank c = true) → '.' ∉ s ∧ ',' ∉ s :=
    fun hs => ⟨fun hdot => absurd (hs _ hdot) (by decide),
      fun hcomma => absurd (hs _ hcomma) (by decide)⟩
  have hdot : '.' ∉ (front ++ lead ++ back).toList := by
    simp [(hblank hfront).1, (hblank hback).1, h.noDot]
  have hcomma : ',' ∉ (front ++ lead ++ back).toList := by
    simp [(hblank hfront).2, (hblank hback).2, h.noComma]
  have hne : lead.toList ≠ [] := fun hnil => h.ne_empty (String.toList_eq_nil_iff.mp hnil)
  have htrim : Blank.trim (front ++ lead ++ back).toList = lead.toList := by
    rw [String.toList_append, String.toList_append]
    exact Blank.trim_padded h.bare hne hfront hback
  rw [parseExclusions_eq, map_slashed_of_notMem hdot, leadsOf, Segments.split_of_notMem hcomma,
    List.map_singleton, htrim, List.filter_cons_of_pos (by simpa using h.ne_empty)]
  simp

theorem parseExclusions_intercalate {leads : List String} (h : ∀ lead ∈ leads, IsLead lead) :
    parseExclusions (String.intercalate "," leads) = leads := by
  have hlead : ∀ {lead : String}, IsLead lead → parseExclusions lead = [lead] := fun hlead => by
    have hpadded : parseExclusions ("" ++ _ ++ "") = _ :=
      parseExclusions_padded hlead (by simp) (by simp)
    rwa [String.empty_append, String.append_empty] at hpadded
  induction leads with
  | nil => rfl
  | cons lead leads ih =>
    rw [List.forall_mem_cons] at h
    cases leads with
    | nil => rw [String.intercalate_singleton, hlead h.1]
    | cons next leads =>
      rw [String.intercalate_cons_cons, parseExclusions_append, hlead h.1, ih h.2]
      rfl

/-- Where there is nothing but commas and white space, there are no leads. -/
theorem parseExclusions_eq_nil {argument : String}
    (h : ∀ c ∈ argument.toList, c = ',' ∨ Blank.isBlank c = true) :
    parseExclusions argument = [] := by
  have hpiece : ∀ piece ∈ Segments.split ',' argument.toList, Blank.trim piece = [] := by
    refine fun piece hpiece => Blank.trim_eq_nil fun c hc => ?_
    refine (h c (Segments.subset_of_mem_split hpiece hc)).resolve_left ?_
    rintro rfl
    exact Segments.notMem_of_mem_split hpiece hc
  unfold parseExclusions
  rw [List.map_eq_nil_iff, List.filter_eq_nil_iff, List.forall_mem_map]
  intro piece hmem
  simp [hpiece piece hmem]

/-! ### Excluded names -/

namespace Settings

theorem excludes_eq_some {s : Settings} {name lead : String} :
    s.excludes name = some lead ↔ ∃ before after, s.excluded = before ++ lead :: after ∧
      lead.toList <+: name.toList ∧ ∀ other ∈ before, ¬ other.toList <+: name.toList := by
  simp only [excludes, List.find?_eq_some_iff_append, List.isPrefixOf_iff_prefix, Bool.not_eq_true']
  simp only [← Bool.not_eq_true, List.isPrefixOf_iff_prefix]
  constructor
  · rintro ⟨hlead, before, after, hexcluded, hbefore⟩
    exact ⟨before, after, hexcluded, hlead, hbefore⟩
  · rintro ⟨before, after, hexcluded, hlead, hbefore⟩
    exact ⟨hlead, before, after, hexcluded, hbefore⟩

/-- An option string is a list of leads in one form, whether it is spelled with dots or slashes and
with or without white space. Each piece between its commas is read by itself, what is read is
written as it is read again, and a name is excluded by the first lead that it starts with. -/
theorem excludes_by_first_lead (argument : String) (flags : Flags) :
    (∀ lead ∈ parseExclusions argument, IsLead lead) ∧
    (∀ other, Respells argument other → parseExclusions other = parseExclusions argument) ∧
    (∀ rest, parseExclusions (argument ++ "," ++ rest) =
      parseExclusions argument ++ parseExclusions rest) ∧
    (∀ front lead back : String, IsLead lead → (∀ c ∈ front.toList, Blank.isBlank c = true) →
      (∀ c ∈ back.toList, Blank.isBlank c = true) →
      parseExclusions (front ++ lead ++ back) = [lead]) ∧
    parseExclusions (String.intercalate "," (parseExclusions argument)) =
      parseExclusions argument ∧
    (∀ name lead, (ofArgument (some argument) flags).excludes name = some lead ↔
      ∃ before after, parseExclusions argument = before ++ lead :: after ∧
        lead.toList <+: name.toList ∧ ∀ other ∈ before, ¬ other.toList <+: name.toList) ∧
    ((∀ c ∈ argument.toList, c = ',' ∨ Blank.isBlank c = true) →
      parseExclusions argument = [] ∧
        ∀ name, (ofArgument (some argument) flags).excludes name = none) := by
  refine ⟨fun lead => isLead_of_mem, fun other => parseExclusions_respelled,
    parseExclusions_append argument, fun front lead back => parseExclusions_padded,
    parseExclusions_intercalate fun lead => isLead_of_mem, fun name lead => excludes_eq_some,
    fun hblank => ?_⟩
  have hnil := parseExclusions_eq_nil hblank
  refine ⟨hnil, fun name => ?_⟩
  have hexcluded : (ofArgument (some argument) flags).excluded = [] := hnil
  rw [excludes, hexcluded]
  rfl

/-- Two leads, the first one with a dot, between white space and pieces with nothing in them. -/
def untidyArgument : String := " sun.awt ,,\u2003com/example\u00A0,\t"

theorem excludes_by_first_lead_untidy :
    parseExclusions untidyArgument = ["sun/awt", "com/example"] ∧
      IsLead "com/example" ∧
      Respells untidyArgument " sun/awt ,,\u2003com.example\u00A0,\t" ∧
      parseExclusions " sun/awt ,,\u2003com.example\u00A0,\t" = ["sun/awt", "com/example"] ∧
      parseExclusions ("\u2003" ++ "com/example" ++ "\u00A0") = ["com/example"] ∧
      parseExclusions "sun/awt,com/example" = ["sun/awt", "com/example"] ∧
      (ofArgument (some untidyArgument) .none).excludes "com/example/Worker" =
        some "com/example" ∧
      (ofArgument (some ",\u2003, ") .none).excludes "com/example/Worker" = none := by
  have hleads : parseExclusions untidyArgument = ["sun/awt", "com/example"] := by decide +kernel
  have hrespelled : Respells untidyArgument " sun/awt ,,\u2003com.example\u00A0,\t" := by
    unfold Respells
    decide +kernel
  obtain ⟨hform, hsame, _, hpadded, hagain, hfirst, _⟩ :=
    excludes_by_first_lead untidyArgument .none
  obtain ⟨_, _, _, _, _, _, hnone⟩ := excludes_by_first_lead ",\u2003, " .none
  have hlead : IsLead "com/example" := hform _ (by rw [hleads]; decide)
  have hblank : ∀ {text : String}, text.toList.all Blank.isBlank = true →
      ∀ c ∈ text.toList, Blank.isBlank c = true := List.all_eq_true.mp
  refine ⟨hleads, hlead, hrespelled, (hsame _ hrespelled).trans hleads,
    hpadded _ _ _ hlead (hblank (by decide)) (hblank (by decide)), ?_, ?_, (hnone ?_).2 _⟩
  · rw [hleads] at hagain
    exact hagain
  · exact (hfirst _ _).mpr ⟨["sun/awt"], [], hleads, by decide +kernel, by decide +kernel⟩
  · have hall : (",\u2003, ".toList.all fun c => c = ',' || Blank.isBlank c) = true := by decide
    intro c hc
    simpa using List.all_eq_true.mp hall c hc

end Settings

end ThreadWatch
