import ThreadWatch.Proofs.Types.Lookups

/-!
# Hosts that follow one another

What becomes of a class is a matter of the summaries that its host comes to. Two hosts that come to
the same summaries instrument alike, whatever bytes they have them from.
-/

namespace ThreadWatch

variable {σ τ α β : Type} {R : σ → τ → Prop}

/-- From related states both steps give the same, and come to related states. -/
def Host.Same (R : σ → τ → Prop) (x : StateM σ α) (y : StateM τ α) : Prop :=
  ∀ s r, R s r → (x.run s).1 = (y.run r).1 ∧ R (x.run s).2 (y.run r).2

namespace Host.Same

theorem pure (a : α) : Same R (pure a) (pure a) := fun _ _ h => ⟨rfl, h⟩

theorem bind {x : StateM σ α} {y : StateM τ α} {f : α → StateM σ β} {g : α → StateM τ β}
    (hxy : Same R x y) (hf : ∀ a, Same R (f a) (g a)) : Same R (x >>= f) (y >>= g) := by
  intro s r h
  obtain ⟨hvalue, hstate⟩ := hxy s r h
  have hrest := hf (x.run s).1 (x.run s).2 (y.run r).2 hstate
  rw [StateT.run_bind, StateT.run_bind]
  dsimp only [Bind.bind, Id] at hrest ⊢
  rwa [← hvalue]

end Host.Same

namespace Asking

/-- Whatever is known already, the questions are answered alike. -/
def Same (R : σ → τ → Prop) (x : Asking σ α) (y : Asking τ α) : Prop :=
  ∀ memo, Host.Same R (x.run memo) (y.run memo)

namespace Same

theorem pure (a : α) : Same R (pure a) (pure a) := fun _ => .pure _

theorem bind {x : Asking σ α} {y : Asking τ α} {f : α → Asking σ β} {g : α → Asking τ β}
    (hxy : Same R x y) (hf : ∀ a, Same R (f a) (g a)) : Same R (x >>= f) (y >>= g) :=
  fun memo => (hxy memo).bind fun found => hf found.1 found.2

theorem lift {x : StateM σ α} {y : StateM τ α} (hxy : Host.Same R x y) :
    Same R (liftM x : Asking σ α) (liftM y : Asking τ α) :=
  fun memo => hxy.bind fun a => .pure (a, memo)

theorem get : Same R (get : Asking σ Memo) (get : Asking τ Memo) := fun _ => .pure _

theorem modify (f : Memo → Memo) :
    Same R (modify f : Asking σ Unit) (modify f : Asking τ Unit) := fun _ => .pure _

theorem run' {x : Asking σ α} {y : Asking τ α} (hxy : Same R x y) (memo : Memo) :
    Host.Same R (x.run' memo) (y.run' memo) := (hxy memo).bind fun found => .pure found.1

end Same

end Asking

/-- The hosts come to the same summaries, and go on being related whatever they are told. -/
structure Host.Follows (R : σ → τ → Prop) (h : Host σ) (k : Host τ) : Prop where
  summary : ∀ name, Same R (Hierarchy.summary h name) (Hierarchy.summary k name)
  print : ∀ line, Same R (h.print line) (k.print line)
  note : ∀ level text, Same R (h.note level text) (k.note level text)

/-- Bytes that may be had in place of others: they are those, or have the same summary. -/
def Bytes.StandsFor (b b' : Bytes) : Prop :=
  b = b' ∨ ∃ info, TypeInfo.parse b = .ok info ∧ TypeInfo.parse b' = .ok info

theorem Bytes.StandsFor.parse_eq {b b' : Bytes} (h : b.StandsFor b') :
    TypeInfo.parse b = TypeInfo.parse b' := by
  rcases h with rfl | ⟨info, hinfo, hinfo'⟩
  · rfl
  · rw [hinfo, hinfo']

/-- The same answer, but for bytes that stand for others. -/
inductive Answer.Alike : Answer → Answer → Prop
  | none : Alike (.ok none) (.ok none)
  | error (fault : Fault) : Alike (.error fault) (.error fault)
  | found {c c' : ClassBytes} (h : c.bytes.StandsFor c'.bytes) :
    Alike (.ok (some c)) (.ok (some c'))

theorem Answer.Alike.refl (a : Answer) : Alike a a :=
  match a with
  | .ok .none => .none
  | .ok (.some _) => .found (.inl rfl)
  | .error fault => .error fault

variable {h : Host σ} {k : Host τ}

/-- Hosts whose answers are alike follow one another. -/
theorem Host.follows_of_load (hload : ∀ name s r, R s r →
      Answer.Alike ((h.load name).run s).1 ((k.load name).run r).1 ∧
        R ((h.load name).run s).2 ((k.load name).run r).2)
    (hprint : ∀ line, Same R (h.print line) (k.print line))
    (hnote : ∀ level text, Same R (h.note level text) (k.note level text)) : h.Follows R k where
  print := hprint
  note := hnote
  summary name s r hR := by
    have hnone : ∀ text : String, Same R
        (do h.note .debug text; return (none : Option TypeInfo))
        (do k.note .debug text; return none) :=
      fun text => (hnote .debug text).bind fun _ => .pure none
    obtain ⟨halike, hR⟩ := hload name s r hR
    unfold Hierarchy.summary
    rw [StateT.run_bind, StateT.run_bind]
    generalize (h.load name).run s = x at halike hR ⊢
    generalize (k.load name).run r = y at halike hR ⊢
    obtain ⟨a, s⟩ := x
    obtain ⟨a', r⟩ := y
    dsimp only [Bind.bind, Id] at halike hR ⊢
    cases halike with
    | none => exact ⟨rfl, hR⟩
    | error fault => exact hnone _ s r hR
    | found hbytes =>
      -- of the bytes only the summary is looked at
      dsimp only
      rw [hbytes.parse_eq]
      split
      · exact hnone _ s r hR
      · split
        · exact ⟨rfl, hR⟩
        · exact hnone _ s r hR

variable (hk : h.Follows R k)

include hk

/-! ### Questions -/

theorem Hierarchy.same_lookup (name : String) : Asking.Same R (lookup h name) (lookup k name) := by
  unfold lookup
  refine Asking.Same.get.bind fun memo => ?_
  cases memo.lookup name with
  | some known => exact .pure _
  | none =>
    refine (Asking.Same.lift (hk.summary name)).bind fun info => ?_
    exact (Asking.Same.modify _).bind fun _ => .pure _

/-- One question on both hosts is answered alike. -/
theorem Asking.Together.same {x : Asking σ α} {y : Asking τ α} (hxy : Together h k x y) :
    Asking.Same R x y := by
  induction hxy with
  | pure a => exact .pure a
  | lookup name => exact Hierarchy.same_lookup hk name
  | bind _ _ ihx ihf => exact ihx.bind ihf

/-! ### Instrumenting -/

namespace Instrument

open Host (Same)

variable (t : Instrument)

theorem same_line (text : String) : Same R (h.line text) (k.line text) := hk.print _

theorem same_inspect (w : Workpiece) : Same R (t.inspect h w) (t.inspect k w) := by
  unfold inspect
  cases w.callSites with
  | error fault => exact .pure _
  | ok sites =>
    have hall : Asking.Together h k (sites.mapM (t.decide h)) (sites.mapM (t.decide k)) :=
      .mapM (t.together_decide h k) sites
    exact ((hall.same hk).run' _).bind fun _ => .pure _

theorem same_report (w : Workpiece) (d : Decision) : Same R (t.report h w d) (t.report k w d) := by
  unfold report
  split
  · split
    · exact same_line hk _
    · exact .pure _
  · exact .pure _

theorem same_editSites (sites : List CallSite) (w : Workpiece) (edited : Nat) :
    Asking.Same R (t.editSites h sites w edited) (t.editSites k sites w edited) := by
  induction sites generalizing w edited with
  | nil => exact .pure _
  | cons site rest ih =>
    unfold editSites
    refine ((t.together_decide h k site).same hk).bind fun d => ?_
    refine (Asking.Same.lift (same_report hk t w d)).bind fun _ => ?_
    cases d.probe with
    | none => exact ih _ _
    | some probe =>
      dsimp only
      cases w.replaceCallSite d.site probe with
      | error fault next => exact .pure _
      | ok _ next => exact ih _ _

theorem same_edit (w : Workpiece) : Same R (t.edit h w) (t.edit k w) := by
  unfold edit
  cases w.callSites with
  | error fault => exact .pure _
  | ok sites =>
    refine ((same_editSites hk t sites w 0).run' _).bind fun result => ?_
    split
    · exact .pure _
    · exact .pure _
    · exact .pure _

theorem same_transform (p : Presented) : Same R (t.transform h p) (t.transform k p) := by
  unfold transform
  dsimp only
  cases p.name with
  | none => exact (same_line hk _).bind fun _ => .pure _
  | some name =>
    dsimp only
    split
    · exact (same_line hk _).bind fun _ => .pure _
    · cases Workpiece.parse p.bytes with
      | error fault => exact (hk.note _ _).bind fun _ => .pure _
      | ok w =>
        refine (same_edit hk t w).bind fun result => ?_
        split
        · exact .pure _
        · exact (hk.note _ _).bind fun _ => .pure _
        · exact .pure _
        · exact (same_line hk _).bind fun _ => .pure _

end Instrument

end ThreadWatch
