import ThreadWatch.Proofs.Types.Settled

/-!
# Summaries at hand

Questions about types, answered without a host or a memo from summaries that are all at hand. A host
may answer what it likes, and another time something else: within one question no name is asked
twice, so there are summaries that explain all it said, and from these the question is answered
alike.
-/

namespace ThreadWatch

/-- What is found under each name: a class of that name, if anything. -/
structure Summaries where
  find : String → Option TypeInfo
  name_of_find : ∀ {name info}, find name = some info → info.name = name

namespace Summaries

variable (k : Summaries)

/-- All that is known is what is found here. -/
def Explains (memo : Memo) : Prop :=
  ∀ name found, memo.lookup name = some found → k.find name = found

/-! ### Answers without a memo -/

def searchInterfaces (name descriptor : String) :
    Nat → List String → Option String → List String → Except (Option String) String
  | 0, _, missing, _ => .error missing
  | left + 1, visited, missing, pending =>
    match pending.dropWhile visited.contains with
    | [] => .error missing
    | type :: rest =>
      match k.find type with
      | none => searchInterfaces name descriptor left (type :: visited) (missing <|> some type) rest
      | some info =>
        if info.declares name descriptor then .ok info.name
        else
          searchInterfaces name descriptor left (type :: visited) missing (rest ++ info.interfaces)

/-- What the search among the interfaces of `owner` comes to. -/
def resolutionOf (owner : String) : Except (Option String) String → Resolution
  | .ok type => .declared type
  | .error missing => .unresolved (.noDeclaration owner missing)

def searchChain (owner name descriptor : String) : Nat → String → List String → Resolution
  | 0, _, _ => .unresolved (.tooDeep owner)
  | left + 1, current, interfaces =>
    match k.find current with
    | none =>
      .unresolved (if current = owner then .noClass current else .noSuperclass current owner)
    | some info =>
      if info.declares name descriptor then .declared info.name
      else
        match info.superName with
        | some superName =>
          searchChain owner name descriptor left superName (interfaces ++ info.interfaces)
        | none =>
          resolutionOf owner (k.searchInterfaces name descriptor Hierarchy.maxTypes [] none
            (interfaces ++ info.interfaces))

def resolve (owner name descriptor : String) : Resolution :=
  if owner.toList.head? = some '[' then .unresolved (.arrayType owner)
  else k.searchChain owner name descriptor Hierarchy.maxTypes owner []

def searchSupertypes (target : String) : Nat → List String → List String → Bool
  | 0, _, _ => false
  | left + 1, visited, pending =>
    match pending.dropWhile visited.contains with
    | [] => false
    | type :: rest =>
      match k.find type with
      | none => searchSupertypes target left (type :: visited) rest
      | some info =>
        if info.supertypes.contains target then true
        else
          searchSupertypes target left (type :: visited) (info.supertypes.reverse ++ rest)

def isSubtype (candidate target : String) : Bool :=
  if candidate = target then true
  else k.searchSupertypes target Hierarchy.maxTypes [] [candidate]

end Summaries

/-! ### What is said and known -/

theorem Memo.lookup_cons (name other : String) (found : Option TypeInfo) (memo : Memo) :
    List.lookup name ((other, found) :: memo) =
      if name = other then some found else memo.lookup name := by
  rw [List.lookup_cons]
  by_cases h : name = other
  · rw [if_pos h, h, beq_self_eq_true]
  · rw [if_neg h, beq_false_of_ne h]

variable {σ α β : Type}

namespace Asking

/-- The question comes to what `r` makes of the summaries, at most `n` of which are looked up. -/
inductive Reads (h : Host σ) : {α : Type} → Nat → Asking σ α → (Summaries → α) → Prop
  | pure {α : Type} {n : Nat} (a : α) : Reads h n (pure a : Asking σ α) fun _ => a
  | lookup (name : String) : Reads h 1 (Hierarchy.lookup h name) fun k => k.find name
  | bind {α β : Type} {m n : Nat} {x : Asking σ α} {f : α → Asking σ β} {r : Summaries → α}
    {q : α → Summaries → β} (hx : Reads h m x r) (hf : ∀ a, Reads h n (f a) (q a)) :
    Reads h (m + n) (x >>= f) fun k => q (r k) k
  | mono {α : Type} {m n : Nat} {x : Asking σ α} {r : Summaries → α} (hx : Reads h m x r)
    (hle : m ≤ n) : Reads h n x r

variable {h : Host σ} {n : Nat}

theorem Reads.looksUp {x : Asking σ α} {r : Summaries → α} (hx : Reads h n x r) : LooksUp h x := by
  induction hx with
  | pure a => exact .pure a
  | lookup name => exact .lookup name
  | bind _ _ ihx ihf => exact ihx.bind ihf
  | mono _ _ ih => exact ih

/-- What follows a lookup follows what is found. -/
theorem Reads.lookup_bind {f : Option TypeInfo → Asking σ β} {r rnone : Summaries → β}
    {rsome : TypeInfo → Summaries → β} {name : String}
    (hr : ∀ k, r k = match k.find name with
      | none => rnone k
      | some info => rsome info k)
    (hnone : Reads h n (f none) rnone) (hsome : ∀ info, Reads h n (f (some info)) (rsome info)) :
    Reads h (n + 1) (Hierarchy.lookup h name >>= f) r := by
  let q : Option TypeInfo → Summaries → β := fun found k =>
    match found with
    | none => rnone k
    | some info => rsome info k
  have heq : r = fun k => q (k.find name) k := funext hr
  rw [heq, Nat.add_comm]
  refine (Reads.lookup name).bind fun found => ?_
  cases found with
  | none => exact hnone
  | some info => exact hsome info

/-- What was known before a question is still known behind it. -/
theorem LooksUp.explains {k : Summaries} {x : Asking σ α} (hx : LooksUp h x) {memo : Memo} {s : σ}
    (hk : k.Explains (x.answer memo s).2) : k.Explains memo := by
  induction hx generalizing memo s with
  | pure a => exact hk
  | lookup name =>
    rw [Hierarchy.answer_lookup] at hk
    cases hmemo : memo.lookup name with
    | some known =>
      rw [hmemo] at hk
      exact hk
    | none =>
      rw [hmemo] at hk
      intro other found hother
      refine hk other found ?_
      have hne : other ≠ name := by
        rintro rfl
        rw [hmemo] at hother
        cases hother
      rw [Memo.lookup_cons, if_neg hne]
      exact hother
  | bind _ _ ihx ihf => exact ihx (ihf _ hk)

/-- Whatever the host answers, the question is answered from what it said. -/
theorem Reads.answer_eq {k : Summaries} {x : Asking σ α} {r : Summaries → α} (hx : Reads h n x r)
    {memo : Memo} {s : σ} (hk : k.Explains (x.answer memo s).2) : (x.answer memo s).1 = r k := by
  induction hx generalizing memo s with
  | pure a => rfl
  | lookup name =>
    rw [Hierarchy.answer_lookup] at hk ⊢
    cases hmemo : memo.lookup name with
    | some known =>
      rw [hmemo] at hk
      exact (hk name known hmemo).symm
    | none =>
      rw [hmemo] at hk
      refine (hk name _ ?_).symm
      rw [Memo.lookup_cons, if_pos rfl]
  | bind hx hf ihx ihf =>
    rw [answer_bind_run] at hk ⊢
    rw [ihf _ hk, ihx ((hf _).looksUp.explains hk)]
  | mono _ _ ih => exact ih hk

/-- However much is known already, the host is asked for no more names than this. -/
def AsksAtMost (n : Nat) (x : Asking σ α) : Prop :=
  ∀ memo s, (x.answer memo s).2.length ≤ memo.length + n

theorem Reads.asksAtMost {x : Asking σ α} {r : Summaries → α} (hx : Reads h n x r) :
    AsksAtMost n x := by
  induction hx with
  | pure a => exact fun _ _ => Nat.le_add_right ..
  | lookup name =>
    intro memo s
    rw [Hierarchy.answer_lookup]
    cases memo.lookup name with
    | some known => exact Nat.le_add_right ..
    | none => exact Nat.le_refl _
  | @bind _ _ _ _ x f _ _ _ _ ihx ihf =>
    intro memo s
    have hfirst := ihx memo s
    have hthen := ihf (x.answer memo s).1 (x.answer memo s).2 ((x.run memo).run s).2
    rw [answer_bind_run]
    omega
  | mono _ hle ih => exact fun memo s => Nat.le_trans (ih memo s) (Nat.add_le_add_left hle _)

end Asking

namespace Summaries

variable {k : Summaries}

/-- The question is answered so where all that was known before, and all that the host said to it, is
what is found here. -/
def Gives (k : Summaries) (x : Asking σ α) (a : α) : Prop :=
  ∃ memo s, k.Explains (x.answer memo s).2 ∧ (x.answer memo s).1 = a

theorem Gives.eq {h : Host σ} {x : Asking σ α} {r : Summaries → α} {a : α} (hg : k.Gives x a)
    {n : Nat} (hx : Asking.Reads h n x r) : a = r k := by
  obtain ⟨memo, s, hk, rfl⟩ := hg
  exact hx.answer_eq hk

/-! ### Steady hosts -/

theorem name_of_summary {h : Host σ} {name : String} {info : TypeInfo} {s : σ}
    (hinfo : ((Hierarchy.summary h name).run s).1 = some info) : info.name = name := by
  unfold Hierarchy.summary at hinfo
  rw [StateT.run_bind] at hinfo
  generalize (h.load name).run s = loaded at hinfo
  obtain ⟨answer, s'⟩ := loaded
  dsimp only [Bind.bind, Id] at hinfo
  split at hinfo
  · cases hinfo
  · cases hinfo
  · split at hinfo
    · cases hinfo
    · split at hinfo
      next hname =>
        cases hinfo
        exact hname
      next => cases hinfo

end Summaries

/-- Every summary that is known is of the name it is known under. -/
def Memo.IsNamed (memo : Memo) : Prop :=
  ∀ name info, memo.lookup name = some (some info) → info.name = name

theorem Memo.isNamed_nil : Memo.IsNamed [] := by
  intro name info h
  cases h

theorem Memo.IsNamed.seed {memo : Memo} (hmemo : memo.IsNamed) (info : TypeInfo) :
    (Hierarchy.seed memo info).IsNamed := by
  intro name found h
  rw [Hierarchy.seed, Memo.lookup_cons] at h
  split at h
  next hname =>
    cases h
    exact hname.symm
  next => exact hmemo name found h

/-- Only summaries of their names are learned. -/
theorem Asking.LooksUp.isNamed {h : Host σ} {x : Asking σ α} (hx : LooksUp h x) {memo : Memo}
    (hmemo : memo.IsNamed) (s : σ) : (x.answer memo s).2.IsNamed := by
  induction hx generalizing memo s with
  | pure a => exact hmemo
  | lookup name =>
    rw [Hierarchy.answer_lookup]
    cases memo.lookup name with
    | some known => exact hmemo
    | none =>
      intro other info hother
      rw [Memo.lookup_cons] at hother
      split at hother
      next hsame => exact hsame ▸ Summaries.name_of_summary (Option.some.inj hother)
      next => exact hmemo other info hother
  | bind _ _ ihx ihf => exact ihf _ (ihx hmemo s) _

namespace Summaries

variable {h : Host σ}

/-- Whatever the host answers, some summaries explain it. -/
theorem exists_gives {x : Asking σ α} (hx : Asking.LooksUp h x) {memo : Memo}
    (hmemo : memo.IsNamed) (s : σ) : ∃ k : Summaries, k.Gives x (x.answer memo s).1 := by
  let learned := (x.answer memo s).2
  have hlearned : learned.IsNamed := hx.isNamed hmemo s
  refine ⟨⟨fun name => (learned.lookup name).getD none, fun {name info} hfind => ?_⟩, memo, s,
    fun name found hfound => ?_, rfl⟩
  · cases hfound : learned.lookup name with
    | none =>
      rw [hfound] at hfind
      cases hfind
    | some found =>
      rw [hfound] at hfind
      exact hlearned name info (hfound.trans (congrArg some hfind))
  · dsimp only
    rw [show learned.lookup name = some found from hfound, Option.getD_some]

/-- What is known, and for other names what the host would say. -/
def seen (h : Host σ) (s : σ) (memo : Memo) (hmemo : memo.IsNamed) : Summaries where
  find := Hierarchy.view h s memo
  name_of_find := by
    intro name info hfind
    unfold Hierarchy.view at hfind
    split at hfind
    next known hknown => exact hmemo name info (hknown.trans (congrArg some hfind))
    next => exact name_of_summary hfind

/-- A host that answers a name always the same way is explained by what it would say. -/
theorem seen_gives {source : Host.Fixed} {lines : σ → List String} (hh : h.Steady source lines)
    {x : Asking σ α} (hx : Asking.LooksUp h x) {memo : Memo} (hmemo : memo.IsNamed) (s : σ) :
    (seen h s memo hmemo).Gives x (x.answer memo s).1 := by
  refine ⟨memo, s, fun name found hfound => ?_, rfl⟩
  have hview := congrFun ((hx.settled hh s).view memo) name
  show Hierarchy.view h s memo name = found
  rw [← hview, Hierarchy.view, hfound]

end Summaries

namespace Hierarchy

open Asking (Reads)

variable (h : Host σ)

theorem reads_searchInterfaces (name descriptor : String) (left : Nat) (visited : List String)
    (missing : Option String) (pending : List String) :
    Reads h left (searchInterfaces h name descriptor left visited missing pending)
      fun k => k.searchInterfaces name descriptor left visited missing pending := by
  induction left generalizing visited missing pending with
  | zero => exact .pure _
  | succ left ih =>
    unfold searchInterfaces Summaries.searchInterfaces
    cases pending.dropWhile visited.contains with
    | nil => exact .pure _
    | cons type rest =>
      refine .lookup_bind (fun _ => rfl) (ih _ _ _) fun info => ?_
      dsimp only
      split
      · exact .pure _
      · exact ih _ _ _

theorem reads_searchChain (owner name descriptor : String) (left : Nat) (current : String)
    (interfaces : List String) :
    Reads h (maxTypes + left) (searchChain h owner name descriptor left current interfaces)
      fun k => k.searchChain owner name descriptor left current interfaces := by
  induction left generalizing current interfaces with
  | zero => exact .pure _
  | succ left ih =>
    unfold searchChain Summaries.searchChain
    refine .lookup_bind (fun _ => rfl) (.pure _) fun info => ?_
    dsimp only
    split
    · exact .pure _
    · cases info.superName with
      | some superName => exact ih _ _
      | none =>
        have hsearch := reads_searchInterfaces h name descriptor maxTypes [] none
          (interfaces ++ info.interfaces)
        refine (hsearch.bind (n := 0) (q := fun found _ => Summaries.resolutionOf owner found)
          fun found => ?_).mono (Nat.add_le_add_left (Nat.zero_le left) _)
        cases found with
        | ok type => exact .pure _
        | error missing => exact .pure _

theorem reads_resolve (owner name descriptor : String) :
    Reads h (maxTypes + maxTypes) (resolve h owner name descriptor)
      fun k => k.resolve owner name descriptor := by
  unfold resolve Summaries.resolve
  split
  · exact .pure _
  · exact reads_searchChain h owner name descriptor _ _ _

theorem reads_searchSupertypes (target : String) (left : Nat) (visited pending : List String) :
    Reads h left (searchSupertypes h target left visited pending)
      fun k => k.searchSupertypes target left visited pending := by
  induction left generalizing visited pending with
  | zero => exact .pure _
  | succ left ih =>
    unfold searchSupertypes Summaries.searchSupertypes
    cases pending.dropWhile visited.contains with
    | nil => exact .pure _
    | cons type rest =>
      refine .lookup_bind (fun _ => rfl) (ih _ _) fun info => ?_
      dsimp only
      split
      · exact .pure _
      · exact ih _ _

theorem reads_isSubtype (candidate target : String) :
    Reads h maxTypes (isSubtype h candidate target) fun k => k.isSubtype candidate target := by
  unfold isSubtype Summaries.isSubtype
  split
  · exact .pure _
  · exact reads_searchSupertypes h target _ _ _

end Hierarchy

end ThreadWatch
