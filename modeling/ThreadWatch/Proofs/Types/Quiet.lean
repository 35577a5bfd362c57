import ThreadWatch.Proofs.Types.Lookups

/-!
# Questions about types are quiet

On a host that answers a name always the same way, a question about types prints nothing, and its
answer is a matter of what is known already: not of when it is asked.
-/

namespace ThreadWatch

variable {σ α β : Type}

namespace Host

/-- The host has its classes from `source` and prints to `lines`, and neither asking nor noting
prints. -/
structure Steady (h : Host σ) (source : Fixed) (lines : σ → List String) : Prop where
  load : ∀ name s, ((h.load name).run s).1 = source name ∧ lines ((h.load name).run s).2 = lines s
  print : ∀ line s, lines ((h.print line).run s).2 = lines s ++ [line]
  note : ∀ level text s, lines ((h.note level text).run s).2 = lines s

theorem steady_recording (source : Fixed) :
    (recording source).Steady source fun r => r.lines.toList where
  load _ _ := ⟨rfl, rfl⟩
  print _ _ := Array.toList_push
  note _ _ _ := rfl

/-- The step prints nothing and gives the same from every state. -/
def Quiet (lines : σ → List String) (x : StateM σ α) : Prop :=
  ∀ s s', (x.run s).1 = (x.run s').1 ∧ lines (x.run s).2 = lines s

variable {lines : σ → List String}

theorem Quiet.pure (a : α) : Quiet lines (pure a) := fun _ _ => ⟨rfl, rfl⟩

theorem Quiet.bind {x : StateM σ α} {f : α → StateM σ β} (hx : Quiet lines x)
    (hf : ∀ a, Quiet lines (f a)) : Quiet lines (x >>= f) := by
  intro s s'
  obtain ⟨hvalue, hlines⟩ := hx s s'
  obtain ⟨hvalue', hlines'⟩ := hf (x.run s).1 (x.run s).2 (x.run s').2
  constructor
  · show ((f (x.run s).1).run (x.run s).2).1 = ((f (x.run s').1).run (x.run s').2).1
    rw [hvalue', hvalue]
  · exact hlines'.trans hlines

theorem Steady.quiet_load {h : Host σ} {source : Fixed} (hh : h.Steady source lines)
    (name : String) : Quiet lines (h.load name) :=
  fun s s' => ⟨(hh.load name s).1.trans (hh.load name s').1.symm, (hh.load name s).2⟩

theorem Steady.quiet_note {h : Host σ} {source : Fixed} (hh : h.Steady source lines)
    (level : Level) (text : String) : Quiet lines (h.note level text) :=
  fun s _ => ⟨rfl, hh.note level text s⟩

end Host

namespace Asking

/-- Whatever is known already, the question is quiet. -/
def Quiet (lines : σ → List String) (x : Asking σ α) : Prop := ∀ memo, Host.Quiet lines (x.run memo)

variable {lines : σ → List String}

theorem Quiet.pure (a : α) : Quiet lines (pure a) := fun _ => Host.Quiet.pure _

theorem Quiet.bind {x : Asking σ α} {f : α → Asking σ β} (hx : Quiet lines x)
    (hf : ∀ a, Quiet lines (f a)) : Quiet lines (x >>= f) :=
  fun memo => (hx memo).bind fun found => hf found.1 found.2

theorem Quiet.lift {x : StateM σ α} (hx : Host.Quiet lines x) :
    Quiet lines (liftM x : Asking σ α) :=
  fun memo => Host.Quiet.bind hx fun a => Host.Quiet.pure (a, memo)

theorem run_bind (x : Asking σ α) (f : α → Asking σ β) (memo : Memo) (s : σ) :
    ((x >>= f).run memo).run s =
      ((f ((x.run memo).run s).1.1).run ((x.run memo).run s).1.2).run ((x.run memo).run s).2 := rfl

theorem run_lift_bind (x : StateM σ α) (f : α → Asking σ β) (memo : Memo) (s : σ) :
    (((liftM x : Asking σ α) >>= f).run memo).run s =
      ((f (x.run s).1).run memo).run (x.run s).2 := rfl

theorem run_run'_bind (x : Asking σ α) (f : α → StateM σ β) (memo : Memo) (s : σ) :
    (x.run' memo >>= f).run s =
      (f ((x.run memo).run s).1.1).run ((x.run memo).run s).2 := rfl

/-- What a question is answered, and what is known then, if it is asked in state `s`. -/
def answer (x : Asking σ α) (memo : Memo) (s : σ) : α × Memo := ((x.run memo).run s).1

theorem answer_bind_run (x : Asking σ α) (f : α → Asking σ β) (memo : Memo) (s : σ) :
    (x >>= f).answer memo s =
      (f (x.answer memo s).1).answer (x.answer memo s).2 ((x.run memo).run s).2 := rfl

/-- The second of two quiet questions is answered as if it were asked first. -/
theorem answer_bind {x : Asking σ α} {f : α → Asking σ β} (hf : ∀ a, Quiet lines (f a))
    (memo : Memo) (s : σ) :
    (x >>= f).answer memo s = (f (x.answer memo s).1).answer (x.answer memo s).2 s :=
  (hf _ _ _ _).1

theorem answer_bind_pure (x : Asking σ α) (g : α → β) (memo : Memo) (s : σ) :
    (x >>= fun a => Pure.pure (g a)).answer memo s =
      (g (x.answer memo s).1, (x.answer memo s).2) := rfl

theorem quiet_get : Quiet lines (get : Asking σ Memo) := fun _ => Host.Quiet.pure _

theorem quiet_modify (f : Memo → Memo) : Quiet lines (modify f : Asking σ Unit) :=
  fun _ => Host.Quiet.pure _

end Asking

namespace Hierarchy

variable {h : Host σ} {source : Host.Fixed} {lines : σ → List String}
  (hh : h.Steady source lines)

include hh

theorem quiet_summary (name : String) : Host.Quiet lines (summary h name) := by
  have hnone : ∀ text : String, Host.Quiet lines (do
      h.note .debug text
      return (none : Option TypeInfo)) := fun text =>
    (hh.quiet_note _ _).bind fun _ => Host.Quiet.pure _
  unfold summary
  refine (hh.quiet_load name).bind fun answer => ?_
  cases answer with
  | error fault => exact hnone _
  | ok found =>
    cases found with
    | none => exact Host.Quiet.pure _
    | some found =>
      dsimp only
      cases TypeInfo.parse found.bytes with
      | error fault => exact hnone _
      | ok info =>
        dsimp only
        split
        · exact Host.Quiet.pure _
        · exact hnone _

theorem quiet_lookup (name : String) : Asking.Quiet lines (lookup h name) := by
  unfold lookup
  refine Asking.quiet_get.bind fun memo => ?_
  cases memo.lookup name with
  | some known => exact .pure _
  | none =>
    refine (Asking.Quiet.lift (quiet_summary hh name)).bind fun info => ?_
    exact (Asking.quiet_modify _).bind fun _ => .pure _

end Hierarchy

/-- Questions put together from lookups are quiet. -/
theorem Asking.LooksUp.quiet {h : Host σ} {source : Host.Fixed} {lines : σ → List String}
    (hh : h.Steady source lines) {x : Asking σ α} (hx : LooksUp h x) : Quiet lines x := by
  induction hx with
  | pure a => exact .pure a
  | lookup name => exact Hierarchy.quiet_lookup hh name
  | bind _ _ ihx ihf => exact ihx.bind ihf

end ThreadWatch
