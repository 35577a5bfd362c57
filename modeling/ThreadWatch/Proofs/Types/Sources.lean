import ThreadWatch.Proofs.Files.Tree
import ThreadWatch.Proofs.Types.Following
import ThreadWatch.Types.Source

/-!
# Sources that stay as they were

A class directory reads nothing but what is below its root. As long as what is there looks the same,
or is a class with the same summary, the directory answers alike, whatever else becomes of the tree.
-/

namespace ThreadWatch

open ThreadWatch.Path (IsName lead)
open ThreadWatch.Tree (Keeps)

/-- What may stand in the place of what was there. -/
inductive Entry.Alike : Option Entry → Option Entry → Prop
  | none : Alike none none
  | directory : Alike (some .directory) (some .directory)
  | file {b b' : Bytes} (h : b.StandsFor b') : Alike (some (.file b)) (some (.file b'))

theorem Entry.Alike.refl (e : Option Entry) : Alike e e :=
  match e with
  | .none => .none
  | .some .directory => .directory
  | .some (.file _) => .file (.inl rfl)

variable {t t' : Tree} {root here there names : List String} {name : String}

/-- All that is below a place looks alike. -/
def Tree.AlikeBelow (root : List String) (t t' : Tree) : Prop :=
  ∀ names, root <+: names → Entry.Alike (t.find? names) (t'.find? names)

/-- Names lead to the same place, or fail alike. -/
theorem Tree.AlikeBelow.walk (h : AlikeBelow root t t') (hhere : root <+: here)
    (hnames : ∀ name ∈ names, IsName name) : t'.walk here names = t.walk here names := by
  induction names generalizing here with
  | nil => rfl
  | cons name names ih =>
    rw [List.forall_mem_cons] at hnames
    have hnext := h (here ++ [name]) (hhere.trans (List.prefix_append ..))
    have hrest : t'.walk (here ++ [name]) names = t.walk (here ++ [name]) names :=
      ih (hhere.trans (List.prefix_append ..)) hnames.2
    have hdirectory : t'.find? here = some .directory ↔ t.find? here = some .directory := by
      have hhere := h here hhere
      generalize t.find? here = e at hhere ⊢
      generalize t'.find? here = e' at hhere ⊢
      cases hhere <;> simp
    rw [Tree.walk, Tree.walk, if_neg (not_or.mpr ⟨hnames.1.ne_empty, hnames.1.ne_dot⟩),
      if_neg hnames.1.ne_dots, if_neg (not_or.mpr ⟨hnames.1.ne_empty, hnames.1.ne_dot⟩),
      if_neg hnames.1.ne_dots, hrest]
    simp only [ne_eq, hdirectory]
    generalize t.find? (here ++ [name]) = e at hnext ⊢
    generalize t'.find? (here ++ [name]) = e' at hnext ⊢
    cases hnext <;> rfl

namespace ClassDirectory

/-- The path that is opened has the pieces of the root, and behind them the parts of the name, the
last of them with its extension replaced. -/
theorem exists_parts_of_opens? {d : ClassDirectory} {path : Path} (h : d.opens? name = some path) :
    ∃ front last, Segments.ofText '/' name = front ++ [last] ∧
      (∀ part ∈ front, IsName part) ∧ IsName last ∧
      path.pieces = lead d.root ++ (front ++ [(Path.splitName last).1 ++ "." ++ "class"]) := by
  unfold opens? at h
  split at h
  · cases h
  next hsafe =>
    cases h
    have hparts : ∀ part ∈ Segments.ofText '/' name, IsName part := by
      intro part hpart
      have hpartSafe : ¬isUnsafePart part := fun hbad =>
        hsafe (List.any_eq_true.mpr ⟨part, hpart, hbad⟩)
      simp only [isUnsafePart, Bool.or_eq_true, decide_eq_true_eq, not_or] at hpartSafe
      exact ⟨hpartSafe.1.1, hpartSafe.1.2, hpartSafe.2, Segments.notMem_of_mem_ofText hpart⟩
    have hjoined := Path.pieces_foldl_join (p := d.root) (Segments.ofText_ne_nil name) hparts
    unfold pathOf
    rcases List.eq_nil_or_concat (Segments.ofText '/' name) with hnil | ⟨init, last, hlast⟩
    · exact absurd hnil (Segments.ofText_ne_nil name)
    rw [List.concat_eq_append] at hlast
    rw [hlast] at hjoined hparts ⊢
    rw [List.forall_mem_append, List.forall_mem_singleton] at hparts
    rw [← List.append_assoc] at hjoined
    have hpieces := Path.pieces_withExtension "class" hjoined hparts.2 (by decide)
      (by decide)
    rw [List.append_assoc] at hpieces
    exact ⟨init, last, rfl, hparts.1, hparts.2, hpieces⟩

/-- The path that is opened leads on from the root by names. -/
theorem pieces_of_opens? {d : ClassDirectory} {path : Path} (h : d.opens? name = some path) :
    ∃ names, (∀ name ∈ names, IsName name) ∧ path.pieces = lead d.root ++ names ∧
      lead path = lead d.root ++ names := by
  obtain ⟨front, last, -, hfront, hlast, hpieces⟩ := exists_parts_of_opens? h
  have hnames : ∀ name ∈ front ++ [(Path.splitName last).1 ++ "." ++ "class"], IsName name := by
    rw [List.forall_mem_append, List.forall_mem_singleton]
    exact ⟨hfront, hlast.withExtension (by decide) (by decide)⟩
  exact ⟨_, hnames, hpieces, Path.lead_of_pieces_names (by simp) hnames hpieces⟩

theorem answerOf_alike {e e' : Entry} (h : Entry.Alike (some e) (some e')) :
    Answer.Alike (answerOf (.ok e)) (answerOf (.ok e')) := by
  cases h with
  | directory => exact .error _
  | @file b b' h =>
    cases b <;> cases b' <;> exact .found h

/-- What a class directory answers is a matter of what is below its root. -/
theorem load_alike {d : ClassDirectory} (hroot : t.resolve d.root = .ok root) (hkeeps : Keeps t t')
    (h : Tree.AlikeBelow root t t') : Answer.Alike (d.load t name) (d.load t' name) := by
  unfold load
  cases hopens : d.opens? name with
  | none => exact .none
  | some path =>
    -- the path is the root and names, and by names both trees come to the same place
    obtain ⟨names, hnames, hpieces, hlead⟩ := pieces_of_opens? hopens
    have hbelow := Tree.resolve_below hroot hnames hlead hpieces
    have hbelow' := Tree.resolve_below (hkeeps.resolve hroot) hnames hlead hpieces
    rw [h.walk List.prefix_rfl hnames, ← hbelow] at hbelow'
    dsimp only
    unfold Tree.openEntry
    rw [hbelow']
    cases hresolve : t.resolve path with
    | error trouble => exact .refl _
    | ok there =>
      have hthere : Entry.Alike (t.find? there) (t'.find? there) := by
        refine h there ⟨names, ?_⟩
        rw [(Tree.resolve_eq_ok hresolve).2, Tree.place_below hnames hlead,
          ← (Tree.resolve_eq_ok hroot).2]
      dsimp only [bind, Except.bind]
      generalize t.find? there = e at hthere ⊢
      generalize t'.find? there = e' at hthere ⊢
      cases hthere with
      | none => exact .none
      | directory => exact answerOf_alike .directory
      | file hbytes => exact answerOf_alike (.file hbytes)

end ClassDirectory

/-- All that the sources can read looks alike. -/
def Source.AlikeOn (sources : List Source) (t t' : Tree) : Prop :=
  ∀ d, .directory d ∈ sources → ∃ root, t.resolve d.root = .ok root ∧ Tree.AlikeBelow root t t'

/-- Sources that can read nothing new answer alike. -/
theorem Source.loadFirst_alike {sources : List Source} (hkeeps : Keeps t t')
    (h : AlikeOn sources t t') (name : String) :
    Answer.Alike (loadFirst t name sources) (loadFirst t' name sources) := by
  induction sources with
  | nil => exact .none
  | cons source rest ih =>
    have hrest := ih fun d hd => h d (List.mem_cons_of_mem _ hd)
    have hfirst : Answer.Alike (source.load t name) (source.load t' name) := by
      cases source with
      | shelf s => exact .refl _
      | directory d =>
        obtain ⟨root, hroot, halike⟩ := h d (List.mem_cons_self ..)
        exact d.load_alike hroot hkeeps halike
    unfold loadFirst
    generalize source.load t name = a at hfirst ⊢
    generalize source.load t' name = a' at hfirst ⊢
    cases hfirst with
    | none => exact hrest
    | error fault => exact .error fault
    | found hbytes => exact .found hbytes

end ThreadWatch
