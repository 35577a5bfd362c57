import ThreadWatch.Proofs.Types.Querying
import ThreadWatch.Proofs.Types.Sources

/-!
# Class directories keep to themselves

A class directory opens one path for a name, which is the root and the parts of the name behind it,
or nothing at all. Several names may share a path, as an extension is replaced; the class there is
found under its own name alone.
-/

namespace ThreadWatch

open ThreadWatch.Path (IsName lead)

namespace Path

variable {p q : Path} {names : List String}

/-- `stem` is the file name without its extension; a dot in front does not start one. -/
inductive IsStem : String → String → Prop
  | extended {stem extension : String} (ne_empty : stem ≠ "") (last : '.' ∉ extension.toList) :
    IsStem (stem ++ "." ++ extension) stem
  | plain {name : String} (none : '.' ∉ name.toList.drop 1) : IsStem name name

theorem isStem_splitName (name : String) : IsStem name (splitName name).1 := by
  unfold splitName
  dsimp only
  have hname : name.toList = name.toList.reverse.reverse := (List.reverse_reverse _).symm
  generalize name.toList.reverse = reversed at hname ⊢
  have happend : reversed.takeWhile (· ≠ '.') ++ reversed.dropWhile (· ≠ '.') = reversed :=
    List.takeWhile_append_dropWhile
  have htail : '.' ∉ reversed.takeWhile (· ≠ '.') := fun hmem =>
    absurd (List.mem_takeWhile_imp hmem) (by simp)
  have hhead := List.head?_dropWhile_not (· ≠ '.') reversed
  generalize reversed.takeWhile (· ≠ '.') = tail at happend htail ⊢
  generalize reversed.dropWhile (· ≠ '.') = rest at happend hhead ⊢
  rw [← happend, List.reverse_append] at hname
  split
  next =>
    refine .plain fun hmem => htail ?_
    rw [hname] at hmem
    simpa using List.mem_of_mem_drop hmem
  next =>
    refine .plain ?_
    rw [hname]
    simpa using htail
  next dot stem hlone =>
    obtain rfl : dot = '.' := by simpa using hhead
    have hspelled : name = String.ofList stem.reverse ++ "." ++ String.ofList tail.reverse := by
      rw [← String.toList_inj, hname]
      simp
    have hne : String.ofList stem.reverse ≠ "" := by
      rw [Ne, String.ofList_eq_empty_iff, List.reverse_eq_nil_iff]
      exact hlone rfl
    have hextended : IsStem (String.ofList stem.reverse ++ "." ++ String.ofList tail.reverse)
        (String.ofList stem.reverse) := .extended hne (by simpa using htail)
    rwa [← hspelled] at hextended

/-- The empty piece behind a trailing slash is none of the parts. -/
theorem parts_eq (p : Path) :
    p.parts = match lead p with
      | [] => []
      | first :: rest =>
        if p.isAbsolute then "/" :: rest.filter counts
        else if first = "" then rest.filter counts else first :: rest.filter counts := by
  rcases pieces_eq p with hpieces | hpieces
  · rewrite [parts, hpieces]
    rfl
  · rw [parts, hpieces, isAbsolute_eq]
    cases lead p with
    | nil => rfl
    | cons first rest => simp [List.filter_append, counts]

/-- A path that leads on by names has them behind the parts of the other. -/
theorem parts_below (h : ∀ name ∈ names, IsName name) (hlead : lead p = lead q ++ names) :
    p.parts = q.parts ++ names := by
  have hfilter : names.filter counts = names := List.filter_eq_self.mpr fun name hname =>
    (h name hname).counts
  rw [parts_eq, parts_eq q, isAbsolute_of_lead h hlead, hlead]
  cases hq : lead q with
  | nil =>
    have hrelative : q.isAbsolute = false := by
      rw [isAbsolute_eq, hq]
      rfl
    cases names with
    | nil => rfl
    | cons name names =>
      rw [List.forall_mem_cons] at h
      have hrest : names.filter counts = names := List.filter_eq_self.mpr fun name hname =>
        (h.2 name hname).counts
      dsimp only [List.nil_append]
      rw [hrelative, if_neg Bool.false_ne_true, if_neg h.1.ne_empty, hrest]
  | cons first rest =>
    dsimp only [List.cons_append]
    rw [List.filter_append, hfilter]
    split
    · rfl
    · split <;> rfl

theorem eq_of_pieces (h : p.pieces = q.pieces) : p = q :=
  calc p = Segments.toText '/' p.pieces := (Segments.toText_ofText p).symm
    _ = Segments.toText '/' q.pieces := congrArg _ h
    _ = q := Segments.toText_ofText q

end Path

namespace ClassDirectory

/-- `path` is the root with `names` behind it, which are the parts of `name` but for the extension
of the last one. They lead to places below the root alone. -/
structure Leads (d : ClassDirectory) (name : String) (names : List String) (path : Path) :
    Prop where
  spelled : ∃ front last stem, Segments.ofText '/' name = front ++ [last] ∧
    Path.IsStem last stem ∧ names = front ++ [stem ++ ".class"]
  isName : ∀ part ∈ names, IsName part
  path_eq : path = names.foldl Path.join d.root
  parts_eq : path.parts = d.root.parts ++ names
  below : ∀ (t : Tree) here there, t.resolve d.root = .ok here → t.resolve path = .ok there →
    there = here ++ names

variable {d : ClassDirectory} {name : String} {path : Path} {t t' : Tree}

theorem exists_leads (h : d.opens? name = some path) : ∃ names, d.Leads name names path := by
  obtain ⟨front, last, hspelled, hfront, hlast, hpieces⟩ := exists_parts_of_opens? h
  have hnames : ∀ part ∈ front ++ [(Path.splitName last).1 ++ "." ++ "class"], IsName part := by
    rw [List.forall_mem_append, List.forall_mem_singleton]
    exact ⟨hfront, hlast.withExtension (by decide) (by decide)⟩
  have hlead := Path.lead_of_pieces_names (by simp) hnames hpieces
  have hclass : (Path.splitName last).1 ++ "." ++ "class" = (Path.splitName last).1 ++ ".class" :=
    String.append_assoc
  rw [hclass] at hnames hlead hpieces
  refine ⟨_, ⟨front, last, _, hspelled, Path.isStem_splitName last, rfl⟩, hnames, ?_,
    Path.parts_below hnames hlead, fun t here there hroot hpath => ?_⟩
  · exact Path.eq_of_pieces (hpieces.trans (Path.pieces_foldl_join (by simp) hnames).symm)
  · rw [(Tree.resolve_eq_ok hpath).2, (Tree.resolve_eq_ok hroot).2, Tree.place_below hnames hlead]

theorem load_of_opens? (h : d.opens? name = some path) :
    d.load t name = answerOf (t.openEntry path) := by
  rw [load, h]

theorem opens?_eq_none : d.opens? name = none ↔
    ∃ part ∈ Segments.ofText '/' name, part = "" ∨ part = "." ∨ part = ".." := by
  simp only [opens?, ite_eq_left_iff, reduceCtorEq, imp_false, not_not, List.any_eq_true,
    isUnsafePart, Bool.or_eq_true, decide_eq_true_eq, or_assoc]

/-- What else there is in a tree does not show. -/
theorem load_congr {here : List String} (hroot : t.resolve d.root = .ok here)
    (hroot' : t'.resolve d.root = .ok here)
    (hsame : ∀ names, here <+: names → t'.find? names = t.find? names) :
    d.load t' name = d.load t name := by
  cases hopens : d.opens? name with
  | none => rw [load, load, hopens]
  | some path =>
    obtain ⟨names, hnames, hpieces, hlead⟩ := pieces_of_opens? hopens
    have halike : Tree.AlikeBelow here t t' := fun names hbelow =>
      (hsame names hbelow).symm ▸ Entry.Alike.refl _
    have hresolve : t'.resolve path = t.resolve path := by
      rw [Tree.resolve_below hroot hnames hlead hpieces,
        Tree.resolve_below hroot' hnames hlead hpieces, halike.walk List.prefix_rfl hnames]
    rw [load_of_opens? hopens, load_of_opens? hopens, Tree.openEntry, Tree.openEntry, hresolve]
    cases hplace : t.resolve path with
    | error trouble => rfl
    | ok there =>
      have hbelow : here <+: there := by
        rw [(Tree.resolve_eq_ok hplace).2, Tree.place_below hnames hlead,
          ← (Tree.resolve_eq_ok hroot).2]
        exact List.prefix_append ..
      simp only [bind, Except.bind, hsame there hbelow]

theorem answerOf_eq_found {opened : Except FileTrouble Entry} {bytes : Bytes} :
    (∃ storage, answerOf opened = .ok (some ⟨storage, bytes⟩)) ↔ opened = .ok (.file bytes) := by
  constructor
  · rintro ⟨storage, hanswer⟩
    unfold answerOf at hanswer
    split at hanswer <;> cases hanswer
    · rfl
    · rfl
  · rintro rfl
    cases bytes with
    | nil => exact ⟨.owned, rfl⟩
    | cons b bytes => exact ⟨.mapped, rfl⟩

/-- What a directory has to offer under a name is the class at its path, if that is its name. -/
theorem find_ofSource_load {info : TypeInfo} :
    (Summaries.ofSource (d.load t)).find name = some info ↔ info.name = name ∧
      ∃ path bytes, d.opens? name = some path ∧ t.openEntry path = .ok (.file bytes) ∧
        TypeInfo.parse bytes = .ok info := by
  unfold Summaries.ofSource
  dsimp only
  constructor
  · intro hfind
    split at hfind
    next found hload =>
      split at hfind
      next parsed hparse =>
        split at hfind
        next hname =>
          cases hfind
          cases hopens : d.opens? name with
          | none =>
            rw [load, hopens] at hload
            cases hload
          | some path =>
            rw [load_of_opens? hopens] at hload
            exact ⟨hname, path, found.bytes, rfl, answerOf_eq_found.mp ⟨_, hload⟩, hparse⟩
        next => cases hfind
      next => cases hfind
    next => cases hfind
  · rintro ⟨hname, path, bytes, hopens, hbytes, hparse⟩
    obtain ⟨storage, hanswer⟩ := answerOf_eq_found.mpr hbytes
    rw [load_of_opens? hopens, hanswer]
    dsimp only
    rw [hparse]
    exact if_pos hname

/-- One path, so one class, and that has one name. -/
theorem eq_of_find {other : String} {info info' : TypeInfo} (hopens : d.opens? name = some path)
    (hopens' : d.opens? other = some path)
    (h : (Summaries.ofSource (d.load t)).find name = some info)
    (h' : (Summaries.ofSource (d.load t)).find other = some info') : other = name := by
  obtain ⟨hname, _, bytes, hpath, hbytes, hparse⟩ := find_ofSource_load.mp h
  obtain ⟨hname', _, bytes', hpath', hbytes', hparse'⟩ := find_ofSource_load.mp h'
  cases hpath.symm.trans hopens
  cases hpath'.symm.trans hopens'
  cases hbytes.symm.trans hbytes'
  cases hparse.symm.trans hparse'
  exact hname'.symm.trans hname

end ClassDirectory

namespace Hierarchy

variable {σ : Type} (h : Host σ)

/-- Whatever is asked and made known, summaries stand under their names. -/
theorem isNamed_mapM (queries : List Query) {memo : Memo} (hmemo : memo.IsNamed) (s : σ) :
    ((queries.mapM (Query.ask h)).answer memo s).2.IsNamed := by
  induction queries generalizing memo s with
  | nil => exact hmemo
  | cons query queries ih =>
    have hquery : ((query.ask h).answer memo s).2.IsNamed := by
      cases query with
      | seed info => exact hmemo.seed info
      | lookup name => exact ((Asking.LooksUp.lookup name).bind fun _ => .pure _).isNamed hmemo s
      | resolve owner name descriptor =>
        exact ((together_resolve h h owner name descriptor).looksUp.bind fun _ => .pure _).isNamed
          hmemo s
      | isSubtype candidate target =>
        exact ((together_isSubtype h h candidate target).looksUp.bind fun _ => .pure _).isNamed
          hmemo s
    rw [List.mapM_cons, Asking.answer_bind_run, Asking.answer_bind_run]
    exact ih hquery _

/-- A host whose classes are in a directory finds what is there, if nothing is known yet. -/
theorem answer_lookup_of_load {h : Host σ} {source : Host.Fixed}
    (hload : ∀ name s, ((h.load name).run s).1 = source name) {memo : Memo} {name : String}
    (hunknown : memo.lookup name = none) (s : σ) :
    ((lookup h name).answer memo s).1 = (Summaries.ofSource source).find name := by
  rw [answer_lookup_fst, view, hunknown]
  exact (run_summary (P := fun _ => True) (hload name s) trivial fun _ _ _ _ => trivial).1

end Hierarchy

/-- Either a part of the name could lead out of the directory and nothing is opened, or the one path
that is opened is the root and the parts of the name behind it. Nothing else in a tree shows. A
class that is looked up has the name that it is looked up under, whatever was asked before; in a
directory it is the class at the path, so of two names for one path at most one is found. -/
theorem ClassDirectory.load_stays_below (d : ClassDirectory) (name : String) :
    (((∃ part ∈ Segments.ofText '/' name, part = "" ∨ part = "." ∨ part = "..") ∧
        ∀ t, d.load t name = .ok none) ∨
      ∃ names path, d.opens? name = some path ∧ d.Leads name names path ∧
        ∀ t, d.load t name = answerOf (t.openEntry path)) ∧
    (∀ (t t' : Tree) here, t.resolve d.root = .ok here → t'.resolve d.root = .ok here →
      (∀ names, here <+: names → t'.find? names = t.find? names) →
      d.load t' name = d.load t name) ∧
    ∀ (σ : Type) (h : Host σ) (queries : List Hierarchy.Query) (s s' : σ) replies memo,
      ((queries.mapM (Hierarchy.Query.ask h)).run []).run s = ((replies, memo), s') →
      (∀ info, ((Hierarchy.lookup h name).answer memo s').1 = some info → info.name = name) ∧
      ∀ t, (∀ name s, ((h.load name).run s).1 = d.load t name) → memo.lookup name = none →
        (∀ info, ((Hierarchy.lookup h name).answer memo s').1 = some info ↔ info.name = name ∧
          ∃ path bytes, d.opens? name = some path ∧ t.openEntry path = .ok (.file bytes) ∧
            TypeInfo.parse bytes = .ok info) ∧
        ∀ other path, other ≠ name → d.opens? name = some path → d.opens? other = some path →
          memo.lookup other = none → ((Hierarchy.lookup h name).answer memo s').1 = none ∨
            ((Hierarchy.lookup h other).answer memo s').1 = none := by
  refine ⟨?_, fun t t' here => load_congr, fun σ h queries s s' replies memo hrun => ?_⟩
  · cases hopens : d.opens? name with
    | none => exact .inl ⟨opens?_eq_none.mp hopens, fun t => by rw [load, hopens]⟩
    | some path =>
      obtain ⟨names, hleads⟩ := exists_leads hopens
      exact .inr ⟨names, path, rfl, hleads, fun t => load_of_opens? hopens⟩
  · have hnamed : memo.IsNamed := by
      have hmapped := Hierarchy.isNamed_mapM h queries Memo.isNamed_nil s
      rwa [Asking.answer, hrun] at hmapped
    refine ⟨fun info hinfo => ?_, fun t hload hunknown => ⟨fun info => ?_, ?_⟩⟩
    · rw [Hierarchy.answer_lookup_fst] at hinfo
      exact (Summaries.seen h s' memo hnamed).name_of_find hinfo
    · rw [Hierarchy.answer_lookup_of_load hload hunknown]
      exact find_ofSource_load
    · intro other path hne hopens hopens' hother
      rw [Hierarchy.answer_lookup_of_load hload hunknown,
        Hierarchy.answer_lookup_of_load hload hother]
      by_contra hboth
      obtain ⟨hsome, hsome'⟩ := not_or.mp hboth
      obtain ⟨info, hinfo⟩ := Option.ne_none_iff_exists'.mp hsome
      obtain ⟨info', hinfo'⟩ := Option.ne_none_iff_exists'.mp hsome'
      exact hne (eq_of_find hopens hopens' hinfo hinfo')

namespace ClassDirectory

/-- The class `a/B`, and nothing in it. -/
def plainClass : Bytes := [0xCA, 0xFE, 0xBA, 0xBE, 0, 0, 0, 52, 0, 3, 1, 0, 3, 97, 47, 66, 7, 0, 1,
  0, 0x21, 0, 2, 0, 0, 0, 0, 0, 0, 0, 0, 0, 0]

def packaged : Tree := ⟨[(["classes"], .directory), (["classes", "a"], .directory),
  (["classes", "a", "B.class"], .file plainClass)], []⟩

def packages : ClassDirectory := ⟨"classes"⟩

/-- The class is found, though not under another name for its path. -/
theorem load_stays_below_packaged :
    let h := Host.recording (packages.load packaged)
    packages.opens? "a/B" = some "classes/a/B.class" ∧
      packages.opens? "a/B.old" = some "classes/a/B.class" ∧
      packages.load (packaged.put ["B.class"] .directory) "a/B" = packages.load packaged "a/B" ∧
      (([Hierarchy.Query.lookup "a/B.old"].mapM (Hierarchy.Query.ask h)).run []).run .empty =
        (([.found none], [("a/B.old", none)]), ⟨#["a/B.old"], #[]⟩) ∧
      ((Hierarchy.lookup h "a/B").answer [("a/B.old", none)] ⟨#["a/B.old"], #[]⟩).1 =
        some ⟨"a/B", none, [], false, []⟩ := by
  intro h
  have hopens : packages.opens? "a/B" = some "classes/a/B.class" := by decide +kernel
  have hentry : packaged.openEntry "classes/a/B.class" = .ok (.file plainClass) := by
    decide +kernel
  have hparse : TypeInfo.parse plainClass = .ok ⟨"a/B", none, [], false, []⟩ := by decide +kernel
  have hrun :
      (([Hierarchy.Query.lookup "a/B.old"].mapM (Hierarchy.Query.ask h)).run []).run .empty =
        (([.found none], [("a/B.old", none)]), ⟨#["a/B.old"], #[]⟩) := by
    change @Eq ((List Hierarchy.Reply × Memo) × Host.Record) _ _
    decide +kernel
  obtain ⟨-, hbelow, hlookup⟩ := packages.load_stays_below "a/B"
  obtain ⟨-, hfound⟩ := hlookup _ h _ _ _ _ _ hrun
  obtain ⟨hclass, -⟩ := hfound packaged (fun _ _ => rfl) (by decide)
  have hsame : packages.load (packaged.put ["B.class"] .directory) "a/B" =
      packages.load packaged "a/B" := by
    refine hbelow packaged _ ["classes"] (by decide +kernel) (by decide +kernel)
      fun names hnames => Tree.find?_put_of_ne ?_
    rintro rfl
    exact absurd hnames (by decide)
  exact ⟨hopens, by decide +kernel, hsame, hrun,
    (hclass _).mpr ⟨rfl, _, _, hopens, hentry, hparse⟩⟩

end ClassDirectory

end ThreadWatch
