import ThreadWatch.Proofs.Types.Summaries

/-!
# Asking no more than once

One memo serves many questions, and a summary may be made known between two of them. Each question
is answered as from summaries at hand: those the host has to offer, and in their place those that
were made known last. The host is asked only for a name of which nothing is known.
-/

namespace ThreadWatch

variable {σ α : Type}

/-- The host has its classes from `source`, and `asked` keeps the names it was asked for. -/
structure Host.Recounts (h : Host σ) (source : Host.Fixed) (asked : σ → List String) : Prop where
  load : ∀ name s, ((h.load name).run s).1 = source name ∧
    asked ((h.load name).run s).2 = asked s ++ [name]
  note : ∀ level text s, asked ((h.note level text).run s).2 = asked s

theorem Host.recounts_recording (source : Host.Fixed) :
    (recording source).Recounts source fun r => r.asked.toList where
  load _ _ := ⟨rfl, Array.toList_push⟩
  note _ _ _ := rfl

namespace Summaries

/-- All that a source has to offer: nothing under the name of a class that is not there, cannot be
read or is another class. -/
def ofSource (source : Host.Fixed) : Summaries where
  find name :=
    match source name with
    | .ok (some found) =>
      match TypeInfo.parse found.bytes with
      | .ok info => if info.name = name then some info else none
      | .error _ => none
    | _ => none
  name_of_find := by
    intro name info hfind
    split at hfind
    · split at hfind
      · split at hfind
        next hname =>
          cases hfind
          exact hname
        · cases hfind
      · cases hfind
    · cases hfind

/-- A summary in place of what is found under its name. -/
def overlay (k : Summaries) (info : TypeInfo) : Summaries where
  find name := if name = info.name then some info else k.find name
  name_of_find := by
    intro name found hfind
    split at hfind
    next hname =>
      cases hfind
      exact hname.symm
    next => exact k.name_of_find hfind

/-- What is known, and under other names what `base` has. -/
def Completes (k base : Summaries) (memo : Memo) : Prop :=
  ∀ name, k.find name = (memo.lookup name).getD (base.find name)

variable {k base : Summaries} {memo : Memo}

theorem Completes.overlay (h : k.Completes base memo) (info : TypeInfo) :
    (k.overlay info).Completes base (Hierarchy.seed memo info) := by
  intro name
  rw [Hierarchy.seed, Memo.lookup_cons, Summaries.overlay]
  dsimp only
  split
  · rfl
  · exact h name

end Summaries

/-! ### What is learned -/

/-- The names that were asked for between two states of the memo. -/
structure Memo.Learns (memo : Memo) (names : List String) (memo' : Memo) : Prop where
  nodup : names.Nodup
  unknown : ∀ name ∈ names, memo.lookup name = none
  known : ∀ name, name ∈ names ∨ memo.lookup name ≠ none → memo'.lookup name ≠ none

namespace Memo.Learns

variable {memo memo' memo'' : Memo} {names names' : List String}

theorem refl (memo : Memo) : memo.Learns [] memo := ⟨.nil, by simp, by simp⟩

theorem cons {name : String} (hname : memo.lookup name = none) (found : Option TypeInfo) :
    memo.Learns [name] ((name, found) :: memo) := by
  refine ⟨by simp, by simpa using hname, fun other hother => ?_⟩
  rw [Memo.lookup_cons]
  split
  next => simp
  next hne => simpa [hne] using hother

theorem seed (memo : Memo) (info : TypeInfo) : memo.Learns [] (Hierarchy.seed memo info) := by
  refine ⟨.nil, by simp, fun name hname => ?_⟩
  rw [Hierarchy.seed, Memo.lookup_cons]
  split
  next => simp
  next => simpa using hname

/-- What is asked for later was not known, so it was not asked for before. -/
theorem append (h : memo.Learns names memo') (h' : memo'.Learns names' memo'') :
    memo.Learns (names ++ names') memo'' where
  nodup := by
    refine List.nodup_append.mpr ⟨h.nodup, h'.nodup, ?_⟩
    rintro name hname _ hname' rfl
    exact h.known name (.inl hname) (h'.unknown name hname')
  unknown := by
    intro name hname
    rcases List.mem_append.mp hname with hname | hname
    · exact h.unknown name hname
    · by_cases hknown : memo.lookup name = none
      · exact hknown
      · exact absurd (h'.unknown name hname) (h.known name (.inr hknown))
  known := by
    intro name hname
    refine h'.known name ?_
    rw [List.mem_append] at hname
    rcases hname with (hname | hname) | hknown
    · exact .inr (h.known name (.inl hname))
    · exact .inl hname
    · exact .inr (h.known name (.inr hknown))

end Memo.Learns

namespace Hierarchy

variable {h : Host σ} {source : Host.Fixed}

/-- A summary is one of those that the source has to offer; what holds once the class is loaded and
is not changed by notes holds then. -/
theorem run_summary {P : σ → Prop} {name : String} {s : σ}
    (hanswer : ((h.load name).run s).1 = source name) (hloaded : P ((h.load name).run s).2)
    (hnote : ∀ level text r, P r → P ((h.note level text).run r).2) :
    ((summary h name).run s).1 = (Summaries.ofSource source).find name ∧
      P ((summary h name).run s).2 := by
  unfold summary Summaries.ofSource
  dsimp only
  rw [StateT.run_bind, ← hanswer]
  generalize (h.load name).run s = loaded at hloaded
  obtain ⟨answer, s'⟩ := loaded
  dsimp only [Bind.bind, Id] at hloaded ⊢
  cases answer with
  | error fault => exact ⟨rfl, hnote _ _ s' hloaded⟩
  | ok found =>
    cases found with
    | none => exact ⟨rfl, hloaded⟩
    | some found =>
      dsimp only
      cases TypeInfo.parse found.bytes with
      | error fault => exact ⟨rfl, hnote _ _ s' hloaded⟩
      | ok info =>
        dsimp only
        split
        · exact ⟨rfl, hloaded⟩
        · exact ⟨rfl, hnote _ _ s' hloaded⟩

variable {asked : σ → List String} (hh : h.Recounts source asked)

include hh

theorem summary_recounts (name : String) (s : σ) :
    ((summary h name).run s).1 = (Summaries.ofSource source).find name ∧
      asked ((summary h name).run s).2 = asked s ++ [name] := by
  obtain ⟨hanswer, hasked⟩ := hh.load name s
  exact run_summary hanswer hasked fun level text r hr => (hh.note level text r).trans hr

theorem lookup_recounts (name : String) (memo : Memo) (s : σ) :
    ∃ names, asked (((lookup h name).run memo).run s).2 = asked s ++ names ∧
      memo.Learns names ((lookup h name).answer memo s).2 := by
  unfold lookup Asking.answer
  simp only [StateT.run_bind, StateT.run_get, pure_bind]
  cases hmemo : memo.lookup name with
  | some known => exact ⟨[], (List.append_nil _).symm, .refl memo⟩
  | none =>
    obtain ⟨_, hasked⟩ := summary_recounts hh name s
    exact ⟨[name], hasked, .cons hmemo _⟩

end Hierarchy

namespace Asking

variable {β : Type} {base k k' k'' : Summaries} {asked : σ → List String}

/-- Where `k` completes what is known, the answer is `a`, `k'` completes what is known then, and the
host is asked only for names of which nothing was known. -/
def Serves (base : Summaries) (asked : σ → List String) (x : Asking σ α) (k : Summaries) (a : α)
    (k' : Summaries) : Prop :=
  ∀ memo s, k.Completes base memo → (x.answer memo s).1 = a ∧
    k'.Completes base (x.answer memo s).2 ∧
    ∃ names, asked ((x.run memo).run s).2 = asked s ++ names ∧ memo.Learns names (x.answer memo s).2

namespace Serves

theorem pure (a : α) : Serves base asked (pure a : Asking σ α) k a k :=
  fun memo _ hk => ⟨rfl, hk, [], (List.append_nil _).symm, .refl memo⟩

theorem bind {x : Asking σ α} {f : α → Asking σ β} {a : α} {b : β}
    (hx : Serves base asked x k a k') (hf : Serves base asked (f a) k' b k'') :
    Serves base asked (x >>= f) k b k'' := by
  intro memo s hk
  obtain ⟨rfl, hk', names, hasked, hlearns⟩ := hx memo s hk
  obtain ⟨hb, hk'', names', hasked', hlearns'⟩ := hf _ ((x.run memo).run s).2 hk'
  rw [answer_bind_run]
  refine ⟨hb, hk'', names ++ names', ?_, hlearns.append hlearns'⟩
  rw [run_bind, ← List.append_assoc, ← hasked]
  exact hasked'

variable {h : Host σ} {source : Host.Fixed} (hh : h.Recounts source asked)

include hh

theorem lookup (name : String) : Serves (.ofSource source) asked (Hierarchy.lookup h name) k
    (k.find name) k := by
  intro memo s hk
  refine ⟨?_, ?_, Hierarchy.lookup_recounts hh name memo s⟩
  · rw [Hierarchy.answer_lookup_fst, hk name, Hierarchy.view]
    cases memo.lookup name with
    | some known => rfl
    | none => exact (Hierarchy.summary_recounts hh name s).1
  · intro other
    rw [hk other, Hierarchy.answer_lookup]
    cases hmemo : memo.lookup name with
    | some known => rfl
    | none =>
      dsimp only
      rw [Memo.lookup_cons]
      split
      next hsame =>
        rw [hsame, hmemo, (Hierarchy.summary_recounts hh name s).1]
        rfl
      next => rfl

/-- Every question is answered from what is at hand and leaves it as it is. -/
theorem reads {n : Nat} {x : Asking σ α} {r : Summaries → α} (hx : Reads h n x r) (k : Summaries) :
    Serves (.ofSource source) asked x k (r k) k := by
  induction hx with
  | pure a => exact .pure a
  | lookup name => exact .lookup hh name
  | bind _ _ ihx ihf => exact ihx.bind (ihf _)
  | mono _ _ ih => exact ih

end Serves

end Asking

/-! ### Many questions -/

namespace Hierarchy

inductive Query where
  | seed (info : TypeInfo)
  | lookup (name : String)
  | resolve (owner name descriptor : String)
  | isSubtype (candidate target : String)
  deriving DecidableEq, Repr

inductive Reply where
  | done
  | found (info : Option TypeInfo)
  | resolved (resolution : Resolution)
  | subtype (is : Bool)
  deriving DecidableEq, Repr

namespace Query

def ask (h : Host σ) : Query → Asking σ Reply
  | seed info => do
    modify (Hierarchy.seed · info)
    return .done
  | lookup name => return .found (← Hierarchy.lookup h name)
  | resolve owner name descriptor => return .resolved (← Hierarchy.resolve h owner name descriptor)
  | isSubtype candidate target => return .subtype (← Hierarchy.isSubtype h candidate target)

/-- The reply from summaries at hand. -/
def reply (k : Summaries) : Query → Reply
  | seed _ => .done
  | lookup name => .found (k.find name)
  | resolve owner name descriptor => .resolved (k.resolve owner name descriptor)
  | isSubtype candidate target => .subtype (k.isSubtype candidate target)

/-- What is at hand then. -/
def after (k : Summaries) : Query → Summaries
  | seed info => k.overlay info
  | _ => k

def replies : Summaries → List Query → List Reply
  | _, [] => []
  | k, query :: queries => query.reply k :: replies (query.after k) queries

theorem run_mapM_seed (h : Host σ) (before later : List Query) (info : TypeInfo) (memo : Memo)
    (s : σ) :
    (((before ++ .seed info :: later).mapM (ask h)).run memo |>.run s).2 =
      (((later.mapM (ask h)).run (Hierarchy.seed ((before.mapM (ask h)).answer memo s).2 info)).run
        (((before.mapM (ask h)).run memo).run s).2).2 := by
  rw [List.mapM_append, List.mapM_cons]
  rfl

section Run

variable {h : Host σ} {source : Host.Fixed} {asked : σ → List String}
  (hh : h.Recounts source asked)

include hh

theorem serves_ask (k : Summaries) (query : Query) :
    Asking.Serves (.ofSource source) asked (query.ask h) k (query.reply k) (query.after k) := by
  cases query with
  | seed info =>
    exact fun memo s hk => ⟨rfl, hk.overlay info, [], (List.append_nil _).symm, .seed memo info⟩
  | lookup name => exact (Asking.Serves.lookup hh name).bind (.pure _)
  | resolve owner name descriptor =>
    exact (Asking.Serves.reads hh (reads_resolve h owner name descriptor) k).bind (.pure _)
  | isSubtype candidate target =>
    exact (Asking.Serves.reads hh (reads_isSubtype h candidate target) k).bind (.pure _)

theorem serves_mapM (k : Summaries) (queries : List Query) :
    Asking.Serves (.ofSource source) asked (queries.mapM (ask h)) k (replies k queries)
      (queries.foldl after k) := by
  induction queries generalizing k with
  | nil => exact .pure []
  | cons query queries ih =>
    rw [List.mapM_cons]
    exact (serves_ask hh k query).bind ((ih _).bind (.pure _))

/-- That answers are remembered shows in no reply: each is the reply from what the source has to
offer, with the latest summary made known under a name in its place. The host is asked at most once
for a name, and not at all for one made known before. -/
theorem replies_eq (queries : List Query) (s : σ) :
    ((queries.mapM (ask h)).answer [] s).1 = replies (.ofSource source) queries ∧
    ∃ names, asked (((queries.mapM (ask h)).run []).run s).2 = asked s ++ names ∧ names.Nodup ∧
      ∀ before info later, queries = before ++ .seed info :: later →
        ∃ early late, names = early ++ late ∧
          asked (((before.mapM (ask h)).run []).run s).2 = asked s ++ early ∧ info.name ∉ late := by
  have hnil : (Summaries.ofSource source).Completes (.ofSource source) [] := fun _ => rfl
  obtain ⟨hreplies, _, names, hasked, hlearns⟩ := serves_mapM hh _ queries [] s hnil
  refine ⟨hreplies, names, hasked, hlearns.nodup, ?_⟩
  rintro before info later rfl
  obtain ⟨_, hk, early, hearly, _⟩ := serves_mapM hh _ before [] s hnil
  obtain ⟨_, _, late, hlate, hlearns'⟩ := serves_mapM hh _ later _
    (((before.mapM (ask h)).run []).run s).2 (hk.overlay info)
  refine ⟨early, late, ?_, hearly, fun hmem => ?_⟩
  · rw [run_mapM_seed, hlate, hearly, List.append_assoc] at hasked
    exact (List.append_cancel_left hasked).symm
  · have hunknown := hlearns'.unknown info.name hmem
    rw [Hierarchy.seed, Memo.lookup_cons, if_pos rfl] at hunknown
    cases hunknown

end Run

/-- Of E the reading fails, U is no class file, and nothing else is there. -/
def bleakSource : Host.Fixed
  | "E" => .error (.malformed (.magic 0))
  | "U" => .ok (some ⟨.owned, [1, 2]⟩)
  | _ => .ok none

/-- M is made known only after it was missed. -/
def lateSeed : List Query :=
  [.seed ⟨"A", some "M", ["E", "U"], false, []⟩, .resolve "A" "run" "()V", .isSubtype "A" "T",
    .lookup "U", .lookup "M", .seed ⟨"M", none, [], false, [⟨"run", "()V"⟩]⟩,
    .resolve "A" "run" "()V", .lookup "E"]

theorem replies_eq_lateSeed :
    let h := Host.recording bleakSource
    h.Recounts bleakSource (fun r => r.asked.toList) ∧
      ((lateSeed.mapM (ask h)).answer [] .empty).1 =
        [.done, .resolved (.unresolved (.noSuperclass "M" "A")), .subtype false, .found none,
          .found none, .done, .resolved (.declared "M"), .found none] ∧
      (((lateSeed.mapM (ask h)).run []).run .empty).2.asked.toList = ["M", "U", "E"] ∧
      ["M", "U", "E"].Nodup := by
  intro h
  have hh : h.Recounts bleakSource fun r => r.asked.toList := Host.recounts_recording bleakSource
  obtain ⟨hreplies, names, hasked, hnodup, _⟩ := replies_eq hh lateSeed .empty
  have hnames : (((lateSeed.mapM (ask h)).run []).run .empty).2.asked.toList = ["M", "U", "E"] := by
    decide +kernel
  refine ⟨hh, hreplies.trans (by decide +kernel), hnames, ?_⟩
  rw [hnames] at hasked
  exact hasked ▸ hnodup

end Query

end Hierarchy

end ThreadWatch
