import Mathlib.Data.List.DropRight
import ThreadWatch.Files.Path

/-!
# Paths of names

A path below another one, taken apart into pieces: those of the path it is below, and the names
behind them. What is above a path, and a class file's path, have no other pieces.
-/

namespace ThreadWatch

/-! ### Pieces of text -/

namespace Segments

variable {sep : Char}

theorem split_append_sep (xs ys : List Char) :
    split sep (xs ++ sep :: ys) = split sep xs ++ split sep ys := by
  induction xs with
  | nil => simp [split]
  | cons c xs ih =>
    rw [List.cons_append, split, split, ih]
    split
    · rfl
    · cases hsplit : split sep xs with
      | nil => exact absurd hsplit (split_ne_nil sep xs)
      | cons first more => rfl

theorem split_of_notMem {xs : List Char} (h : sep ∉ xs) : split sep xs = [xs] := by
  induction xs with
  | nil => rfl
  | cons c xs ih =>
    rw [List.mem_cons, not_or] at h
    rw [split, if_neg (Ne.symm h.1), ih h.2]

theorem notMem_of_mem_split {xs piece : List Char} (h : piece ∈ split sep xs) : sep ∉ piece := by
  induction xs generalizing piece with
  | nil =>
    obtain rfl := List.mem_singleton.mp h
    simp
  | cons c xs ih =>
    rw [split] at h
    split at h
    · rcases List.mem_cons.mp h with rfl | h
      · simp
      · exact ih h
    next hc =>
      cases hsplit : split sep xs with
      | nil => exact absurd hsplit (split_ne_nil sep xs)
      | cons first more =>
        rw [hsplit] at h ih
        rcases List.mem_cons.mp h with rfl | h
        · rw [List.mem_cons, not_or]
          exact ⟨Ne.symm hc, ih (List.mem_cons_self ..)⟩
        · exact ih (List.mem_cons_of_mem _ h)

theorem split_join {pieces : List (List Char)} (hne : pieces ≠ []) (h : ∀ p ∈ pieces, sep ∉ p) :
    split sep (join sep pieces) = pieces := by
  induction pieces with
  | nil => exact absurd rfl hne
  | cons piece pieces ih =>
    rw [List.forall_mem_cons] at h
    cases pieces with
    | nil => exact split_of_notMem h.1
    | cons next pieces =>
      rw [join, split_append_sep, split_of_notMem h.1, ih (List.cons_ne_nil _ _) h.2]
      · rfl
      · exact List.cons_ne_nil _ _

theorem ofText_ne_nil (s : String) : ofText sep s ≠ [] :=
  fun h => split_ne_nil sep s.toList (List.map_eq_nil_iff.mp h)

/-- Pieces without the separator are found again in their text. -/
theorem ofText_toText {pieces : List String} (hne : pieces ≠ [])
    (h : ∀ p ∈ pieces, sep ∉ p.toList) : ofText sep (toText sep pieces) = pieces := by
  unfold ofText toText
  rw [String.toList_ofList, split_join (fun hnil => hne (List.map_eq_nil_iff.mp hnil))]
  · rw [List.map_map]
    exact List.map_congr_left (fun p _ => String.ofList_toList) |>.trans (List.map_id _)
  · rwa [List.forall_mem_map]

theorem toText_ofText (s : String) : toText sep (ofText sep s) = s := by
  unfold ofText toText
  have hpieces : ((split sep s.toList).map String.ofList).map String.toList =
      split sep s.toList := by
    rw [List.map_map]
    exact List.map_congr_left (fun p _ => String.toList_ofList) |>.trans (List.map_id _)
  rw [hpieces, join_split, String.ofList_toList]

theorem notMem_of_mem_ofText {s piece : String} (h : piece ∈ ofText sep s) :
    sep ∉ piece.toList := by
  obtain ⟨letters, hletters, rfl⟩ := List.mem_map.mp h
  rw [String.toList_ofList]
  exact notMem_of_mem_split hletters

theorem ofText_append_sep (s t : String) :
    ofText sep (s ++ sep.toString ++ t) = ofText sep s ++ ofText sep t := by
  unfold ofText
  rw [← List.map_append, ← split_append_sep]
  simp

theorem getLast?_split_eq_nil {xs : List Char} (h : (split sep xs).getLast? = some []) :
    xs = [] ∨ xs.getLast? = some sep := by
  induction xs with
  | nil => exact .inl rfl
  | cons c xs ih =>
    refine .inr ?_
    have hcons : xs.getLast? = some sep → (c :: xs).getLast? = some sep := fun hlast => by
      rw [List.getLast?_cons, hlast, Option.getD_some]
    rw [split] at h
    split at h
    next hc =>
      rw [List.getLast?_cons_of_ne_nil (split_ne_nil sep xs)] at h
      rcases ih h with rfl | hlast
      · rw [hc, List.getLast?_singleton]
      · exact hcons hlast
    next =>
      cases hsplit : split sep xs with
      | nil => exact absurd hsplit (split_ne_nil sep xs)
      | cons first more =>
        rw [hsplit] at h ih
        cases more with
        | nil => simp at h
        | cons next more =>
          rcases ih (by simpa using h) with rfl | hlast
          · simp [split] at hsplit
          · exact hcons hlast

theorem getLast?_ofText_eq_empty {s : String} (h : (ofText sep s).getLast? = some "") :
    s = "" ∨ s.toList.getLast? = some sep := by
  unfold ofText at h
  rw [List.getLast?_map, Option.map_eq_some_iff] at h
  obtain ⟨letters, hlast, hletters⟩ := h
  rw [String.ofList_eq_empty_iff] at hletters
  subst hletters
  rcases getLast?_split_eq_nil hlast with hnil | hlast
  · exact .inl (String.toList_eq_nil_iff.mp hnil)
  · exact .inr hlast

end Segments

/-! ### Pieces of paths -/

namespace Path

/-- A name that a file can have. -/
structure IsName (name : String) : Prop where
  ne_empty : name ≠ ""
  ne_dot : name ≠ "."
  ne_dots : name ≠ ".."
  notMem : '/' ∉ name.toList

instance (name : String) : Decidable (IsName name) :=
  decidable_of_iff (name ≠ "" ∧ name ≠ "." ∧ name ≠ ".." ∧ '/' ∉ name.toList)
    ⟨fun ⟨hempty, hdot, hdots, hslash⟩ => ⟨hempty, hdot, hdots, hslash⟩,
      fun h => ⟨h.ne_empty, h.ne_dot, h.ne_dots, h.notMem⟩⟩

variable {p above : Path} {xs names : List String} {a part name : String}

theorem pieces_ne_nil (p : Path) : p.pieces ≠ [] := Segments.ofText_ne_nil p

/-- The pieces that tell where a path leads: the empty one behind a trailing slash does not. -/
def lead (p : Path) : List String :=
  if p.pieces.getLast? = some "" then p.pieces.dropLast else p.pieces

theorem lead_eq_pieces (h : p.pieces.getLast? ≠ some "") : lead p = p.pieces := if_neg h

theorem lead_of_pieces (h : p.pieces = xs ++ [a]) : lead p = if a = "" then xs else xs ++ [a] := by
  unfold lead
  simp [h]

theorem pieces_eq (p : Path) : p.pieces = lead p ∨ p.pieces = lead p ++ [""] := by
  unfold lead
  split
  next h =>
    obtain ⟨xs, hxs⟩ := List.getLast?_eq_some_iff.mp h
    rw [hxs, List.dropLast_concat]
    exact .inr rfl
  next => exact .inl rfl

theorem lead_isPrefix (p : Path) : lead p <+: p.pieces := by
  rcases pieces_eq p with h | h
  · exact h.symm ▸ List.prefix_rfl
  · rw [h]
    exact List.prefix_append ..

theorem dropLast_pieces_isPrefix (p : Path) : p.pieces.dropLast <+: lead p := by
  unfold lead
  split
  · exact List.prefix_rfl
  · exact List.dropLast_prefix _

theorem prefix_lead (h : xs <+: p.pieces) (hlast : xs.getLast? ≠ some "") : xs <+: lead p := by
  rcases pieces_eq p with hpieces | hpieces
  · rwa [hpieces] at h
  · rw [hpieces, List.prefix_concat_iff] at h
    refine h.resolve_left fun heq => hlast ?_
    rw [heq, List.getLast?_concat]

theorem notMem_of_mem_lead (h : a ∈ lead p) : '/' ∉ a.toList :=
  Segments.notMem_of_mem_ofText ((lead_isPrefix p).mem h)

theorem head?_lead (h : p ≠ "") : (lead p).head? = p.pieces.head? := by
  have htext : Segments.toText '/' p.pieces = p := Segments.toText_ofText p
  unfold lead
  split
  next hlast =>
    match hpieces : p.pieces with
    | [] => rfl
    | [piece] =>
      rw [hpieces, List.getLast?_singleton, Option.some_inj] at hlast
      rw [hpieces, hlast] at htext
      exact absurd htext.symm h
    | piece :: next :: rest => rfl
  next => rfl

/-- Where a path starts shows in its first piece. -/
theorem isAbsolute_eq (p : Path) : p.isAbsolute = decide ((lead p).head? = some "") := by
  by_cases hp : p = ""
  · subst hp
    rfl
  rw [head?_lead hp]
  unfold isAbsolute pieces Segments.ofText
  rw [decide_eq_decide, List.head?_map]
  cases hletters : p.toList with
  | nil => exact absurd (String.toList_eq_nil_iff.mp hletters) hp
  | cons c cs =>
    rw [Segments.split]
    split
    next hc => simp [hc]
    next hc =>
      cases Segments.split '/' cs with
      | nil => simp [hc]
      | cons first more => simp [hc]

theorem isAbsolute_congr {q : Path} (h : (lead p).head? = (lead q).head?) :
    p.isAbsolute = q.isAbsolute := by
  rw [isAbsolute_eq, isAbsolute_eq, h]

/-! ### Paths below a path -/

theorem pieces_join (h : isAbsolute part = false) :
    pieces (join p part) = lead p ++ pieces part := by
  have hslash : ∀ p : Path, p ++ "/" ++ part = p ++ ('/').toString ++ part := fun _ => rfl
  unfold join
  rw [if_neg (by rw [h]; exact Bool.false_ne_true)]
  split
  next hp =>
    rcases hp with rfl | hp
    · rw [String.empty_append]
      rfl
    · obtain ⟨letters, hletters⟩ := List.getLast?_eq_some_iff.mp hp
      have hends : p = String.ofList letters ++ ('/').toString := by
        rw [← String.toList_inj, hletters]
        simp
      have hpieces : p.pieces = pieces (String.ofList letters) ++ [""] := by
        have hcut : Segments.ofText '/' (String.ofList letters ++ ('/').toString ++ "") =
            pieces (String.ofList letters) ++ [""] := Segments.ofText_append_sep _ _
        rwa [String.append_empty, ← hends] at hcut
      rw [lead_of_pieces hpieces, if_pos rfl, hends]
      exact Segments.ofText_append_sep _ _
  next hp =>
    have hlast : p.pieces.getLast? ≠ some "" := fun hlast =>
      hp (Segments.getLast?_ofText_eq_empty hlast)
    rw [lead_eq_pieces hlast]
    exact Segments.ofText_append_sep _ _

theorem lead_join (h : isAbsolute part = false) : lead (join p part) = lead p ++ lead part := by
  have hpieces := pieces_join (p := p) h
  rcases List.eq_nil_or_concat (pieces part) with hnil | ⟨xs, a, hpart⟩
  · exact absurd hnil (pieces_ne_nil part)
  · rw [List.concat_eq_append] at hpart
    rw [hpart, ← List.append_assoc] at hpieces
    rw [lead_of_pieces hpieces, lead_of_pieces hpart]
    split
    · rfl
    · exact List.append_assoc ..

namespace IsName

theorem pieces (h : IsName name) : pieces name = [name] := by
  unfold Path.pieces Segments.ofText
  rw [Segments.split_of_notMem h.notMem, List.map_singleton, String.ofList_toList]

theorem lead (h : IsName name) : lead name = [name] := by
  have hpieces : Path.pieces name = [] ++ [name] := h.pieces
  rw [lead_of_pieces hpieces, if_neg h.ne_empty]
  rfl

theorem not_isAbsolute (h : IsName name) : isAbsolute name = false := by
  rw [isAbsolute_eq, h.lead]
  simpa using h.ne_empty

theorem counts (h : IsName name) : counts name := by
  simp [Path.counts, h.ne_empty, h.ne_dot]

end IsName

theorem lead_of_pieces_names (hne : names ≠ []) (h : ∀ name ∈ names, IsName name)
    (hpieces : p.pieces = xs ++ names) : lead p = xs ++ names := by
  rw [lead_eq_pieces, hpieces]
  rw [hpieces]
  intro hlast
  rw [List.getLast?_append, List.getLast?_eq_some_getLast hne, Option.some_or, Option.some_inj]
    at hlast
  exact (h _ (List.getLast_mem hne)).ne_empty hlast

/-- A path that leads on by names starts where the path does that it is below. -/
theorem isAbsolute_of_lead {q : Path} (h : ∀ name ∈ names, IsName name)
    (hlead : lead p = lead q ++ names) : p.isAbsolute = q.isAbsolute := by
  rw [isAbsolute_eq, isAbsolute_eq, hlead, decide_eq_decide]
  cases lead q with
  | cons first rest => rfl
  | nil =>
    cases names with
    | nil => rfl
    | cons name names =>
      rw [List.forall_mem_cons] at h
      simpa using h.1.ne_empty

theorem lead_foldl_join (h : ∀ name ∈ names, IsName name) :
    lead (names.foldl join p) = lead p ++ names := by
  induction names generalizing p with
  | nil => exact (List.append_nil _).symm
  | cons name names ih =>
    rw [List.forall_mem_cons] at h
    rw [List.foldl_cons, ih h.2, lead_join h.1.not_isAbsolute, h.1.lead, List.append_assoc,
      List.singleton_append]

theorem pieces_foldl_join (hne : names ≠ []) (h : ∀ name ∈ names, IsName name) :
    pieces (names.foldl join p) = lead p ++ names := by
  rcases List.eq_nil_or_concat names with rfl | ⟨init, last, rfl⟩
  · exact absurd rfl hne
  · rw [List.concat_eq_append] at *
    rw [List.forall_mem_append, List.forall_mem_singleton] at h
    rw [List.foldl_append, List.foldl_cons, List.foldl_nil, pieces_join h.2.not_isAbsolute,
      lead_foldl_join h.1, h.2.pieces, List.append_assoc]

/-- A path of names has no other pieces. -/
theorem pieces_toText (hne : names ≠ []) (h : ∀ name ∈ names, IsName name) :
    pieces (Segments.toText '/' names) = names :=
  Segments.ofText_toText hne fun name hname => (h name hname).notMem

theorem lead_toText (hne : names ≠ []) (h : ∀ name ∈ names, IsName name) :
    lead (Segments.toText '/' names) = names :=
  have hpieces : pieces (Segments.toText '/' names) = [] ++ names := pieces_toText hne h
  lead_of_pieces_names hne h hpieces

theorem lead_join_toText (hne : names ≠ []) (h : ∀ name ∈ names, IsName name) :
    lead (join p (Segments.toText '/' names)) = lead p ++ names := by
  have hlead := lead_toText hne h
  rw [lead_join, hlead]
  rw [isAbsolute_eq, hlead, decide_eq_false_iff_not]
  intro hhead
  exact (h _ (List.mem_of_head? hhead)).ne_empty rfl

/-! ### What is above a path -/

theorem getLast?_rdropWhile_ne {f : String → Bool} (ha : f a) (xs : List String) :
    (xs.rdropWhile f).getLast? ≠ some a := by
  intro h
  rw [List.getLast?_eq_some_getLast fun hnil => by simp [hnil] at h, Option.some_inj] at h
  exact List.rdropWhile_last_not f xs _ (h ▸ ha)

theorem pieces_ofPieces (hne : xs ≠ []) (h : ∀ x ∈ xs, '/' ∉ x.toList) (hroot : xs ≠ [""]) :
    pieces (ofPieces xs) = xs := by
  rw [ofPieces]
  · exact Segments.ofText_toText hne h
  · exact hroot

theorem lead_ofPieces (hne : xs ≠ []) (h : ∀ x ∈ xs, '/' ∉ x.toList)
    (hlast : xs = [""] ∨ xs.getLast? ≠ some "") : lead (ofPieces xs) = xs := by
  by_cases hroot : xs = [""]
  · rw [hroot]
    rfl
  · have hpieces := pieces_ofPieces hne h hroot
    rw [lead_eq_pieces, hpieces]
    rw [hpieces]
    exact hlast.resolve_left hroot

theorem dropLast_isPrefix_dropLast {ys : List String} (h : xs <+: ys) :
    xs.dropLast <+: ys.dropLast := by
  obtain ⟨behind, rfl⟩ := h
  cases behind with
  | nil => simp
  | cons x behind =>
    rw [List.dropLast_append_of_ne_nil (List.cons_ne_nil _ _)]
    exact (List.dropLast_prefix _).trans (List.prefix_append ..)

/-- What is above a path has its first pieces. -/
theorem exists_of_parent? (h : p.parent? = some above) : above = "" ∨ ∃ first left,
    above = ofPieces (first :: left) ∧ first :: left <+: lead p ∧ left.getLast? ≠ some "" := by
  unfold parent? significant at h
  cases hpieces : p.pieces with
  | nil => exact absurd hpieces (pieces_ne_nil p)
  | cons first rest =>
    rw [hpieces] at h
    dsimp only at h
    have hrest : (rest.reverse.dropWhile (!counts ·)).reverse <+: rest :=
      List.rdropWhile_prefix _ _
    generalize (rest.reverse.dropWhile (!counts ·)).reverse = shown at h hrest
    match shown with
    | [] =>
      dsimp only at h
      split at h
      · cases h
      · cases h
        exact .inl rfl
    | second :: more =>
      cases h
      refine .inr ⟨first, _, rfl, ?_, getLast?_rdropWhile_ne rfl _⟩
      have hleft : ((second :: more).dropLast.reverse.dropWhile (!counts ·)).reverse <+:
          (second :: more).dropLast := List.rdropWhile_prefix _ _
      have hne : rest ≠ [] := by
        rintro rfl
        exact absurd (List.prefix_nil.mp hrest) (List.cons_ne_nil _ _)
      -- the last piece is dropped, so an empty one behind a slash is not among those above
      have hfront := dropLast_pieces_isPrefix p
      rw [hpieces, List.dropLast_cons_of_ne_nil hne] at hfront
      have hfirst := hleft.trans (dropLast_isPrefix_dropLast hrest)
      exact ((List.prefix_cons_inj first).mpr hfirst).trans hfront

/-- What is above a path leads a part of the way. -/
theorem lead_of_parent? (h : p.parent? = some above) :
    above = "" ∨ (lead above <+: lead p ∧ above.isAbsolute = p.isAbsolute) := by
  refine (exists_of_parent? h).imp_right ?_
  rintro ⟨first, left, rfl, hbegins, hlast⟩
  have hslash : ∀ x ∈ first :: left, '/' ∉ x.toList := fun x hx =>
    notMem_of_mem_lead (hbegins.mem hx)
  have hends : first :: left = [""] ∨ (first :: left).getLast? ≠ some "" := by
    cases left with
    | nil => grind
    | cons next left =>
      rw [List.getLast?_cons_cons]
      exact .inr hlast
  have hlead : lead (ofPieces (first :: left)) = first :: left :=
    lead_ofPieces (List.cons_ne_nil _ _) hslash hends
  refine ⟨hlead.symm ▸ hbegins, isAbsolute_congr ?_⟩
  obtain ⟨behind, hbehind⟩ := hbegins
  rw [hlead, ← hbehind]
  rfl

/-! ### The path of a class file -/

theorem significant_of_pieces (h : p.pieces = xs ++ [a]) (ha : counts a) :
    p.significant = xs ++ [a] := by
  unfold significant
  rw [h]
  cases xs with
  | nil => rfl
  | cons first rest =>
    rw [List.cons_append]
    dsimp only
    rw [List.reverse_append, List.reverse_singleton, List.singleton_append,
      List.dropWhile_cons_of_neg (by simp [ha]), List.reverse_cons, List.reverse_reverse]

theorem pieces_withFileName (h : p.pieces = xs ++ [a]) (ha : counts a) (hname : IsName name) :
    (p.withFileName name).pieces = xs ++ [name] := by
  unfold withFileName
  rw [significant_of_pieces h ha, List.dropLast_concat]
  refine pieces_ofPieces (by simp) (fun x hx => ?_) fun hroot => ?_
  · rcases List.mem_append.mp hx with hx | hx
    · have hmem : x ∈ p.pieces := by
        rw [h]
        exact List.mem_append_left _ hx
      exact Segments.notMem_of_mem_ofText hmem
    · obtain rfl := List.mem_singleton.mp hx
      exact hname.notMem
  · have hlast := congrArg List.getLast? hroot
    rw [List.getLast?_concat, List.getLast?_singleton, Option.some_inj] at hlast
    exact hname.ne_empty hlast

theorem mem_of_mem_splitName {c : Char} (h : c ∈ (splitName name).1.toList) : c ∈ name.toList := by
  unfold splitName at h
  dsimp only at h
  split at h
  · exact h
  · exact h
  next dot stem _ hdrop =>
    rw [String.toList_ofList, List.mem_reverse] at h
    have hsuffix := List.dropWhile_suffix (· ≠ '.') (l := name.toList.reverse)
    rw [hdrop] at hsuffix
    exact List.mem_reverse.mp (hsuffix.mem (List.mem_cons_of_mem _ h))

/-- A file name is a name with any extension, too. -/
theorem IsName.withExtension (h : IsName name) {extension : String} (he : 2 ≤ extension.length)
    (hslash : '/' ∉ extension.toList) : IsName ((splitName name).1 ++ "." ++ extension) := by
  have hlength : 3 ≤ ((splitName name).1 ++ "." ++ extension).length := by
    rw [String.length_append, String.length_append]
    have hdot : ".".length = 1 := rfl
    omega
  refine ⟨?_, ?_, ?_, ?_⟩
  · intro heq
    exact absurd (heq ▸ hlength) (by decide)
  · intro heq
    exact absurd (heq ▸ hlength) (by decide)
  · intro heq
    exact absurd (heq ▸ hlength) (by decide)
  · rw [String.toList_append, String.toList_append, List.mem_append, List.mem_append]
    rintro ((hmem | hmem) | hmem)
    · exact h.notMem (mem_of_mem_splitName hmem)
    · exact absurd hmem (by decide)
    · exact hslash hmem

theorem fileName?_of_pieces (h : p.pieces = xs ++ [name]) (hname : IsName name) :
    p.fileName? = some name := by
  unfold fileName?
  rw [significant_of_pieces h hname.counts, List.getLast?_concat]
  exact if_neg fun hbad => hbad.elim hname.ne_empty (·.elim hname.ne_dot hname.ne_dots)

theorem pieces_withExtension (extension : String) (h : p.pieces = xs ++ [name])
    (hname : IsName name) (he : 2 ≤ extension.length) (hslash : '/' ∉ extension.toList) :
    (p.withExtension extension).pieces = xs ++ [(splitName name).1 ++ "." ++ extension] := by
  unfold withExtension
  rw [fileName?_of_pieces h hname]
  exact pieces_withFileName h hname.counts (hname.withExtension he hslash)

end Path

end ThreadWatch
