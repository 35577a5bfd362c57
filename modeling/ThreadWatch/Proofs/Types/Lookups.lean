import ThreadWatch.Instrument

/-!
# Questions are lookups

Questions about types reach their host through lookups alone, and the same lookups follow the same
answers on any host. What holds of every lookup and of answers put together thus holds of every
question.
-/

namespace ThreadWatch

variable {σ τ : Type}

namespace Asking

/-- A question put together from lookups. -/
inductive LooksUp (h : Host σ) : {α : Type} → Asking σ α → Prop
  | pure {α : Type} (a : α) : LooksUp h (pure a : Asking σ α)
  | lookup (name : String) : LooksUp h (Hierarchy.lookup h name)
  | bind {α β : Type} {x : Asking σ α} {f : α → Asking σ β} (hx : LooksUp h x)
    (hf : ∀ a, LooksUp h (f a)) : LooksUp h (x >>= f)

theorem LooksUp.mapM {α β : Type} {h : Host σ} {f : α → Asking σ β} (hf : ∀ a, LooksUp h (f a))
    (xs : List α) : LooksUp h (xs.mapM f) := by
  induction xs with
  | nil => exact .pure _
  | cons x xs ih =>
    rw [List.mapM_cons]
    exact (hf x).bind fun _ => ih.bind fun _ => .pure _

/-- One question on two hosts: it is put together in the same way from lookups there and here. -/
inductive Together (h : Host σ) (k : Host τ) : {α : Type} → Asking σ α → Asking τ α → Prop
  | pure {α : Type} (a : α) : Together h k (pure a) (pure a)
  | lookup (name : String) : Together h k (Hierarchy.lookup h name) (Hierarchy.lookup k name)
  | bind {α β : Type} {x : Asking σ α} {y : Asking τ α} {f : α → Asking σ β} {g : α → Asking τ β}
    (hx : Together h k x y) (hf : ∀ a, Together h k (f a) (g a)) : Together h k (x >>= f) (y >>= g)

theorem Together.mapM {α β : Type} {h : Host σ} {k : Host τ} {f : α → Asking σ β}
    {g : α → Asking τ β} (hf : ∀ a, Together h k (f a) (g a)) (xs : List α) :
    Together h k (xs.mapM f) (xs.mapM g) := by
  induction xs with
  | nil => exact .pure _
  | cons x xs ih =>
    rw [List.mapM_cons, List.mapM_cons]
    exact (hf x).bind fun _ => ih.bind fun _ => .pure _

theorem Together.looksUp {α : Type} {h : Host σ} {k : Host τ} {x : Asking σ α} {y : Asking τ α}
    (hxy : Together h k x y) : LooksUp h x := by
  induction hxy with
  | pure a => exact .pure a
  | lookup name => exact .lookup name
  | bind _ _ ihx ihf => exact ihx.bind ihf

end Asking

namespace Hierarchy

open Asking (Together)

variable (h : Host σ) (k : Host τ)

theorem together_searchInterfaces (name descriptor : String) (left : Nat) (visited : List String)
    (missing : Option String) (pending : List String) :
    Together h k (searchInterfaces h name descriptor left visited missing pending)
      (searchInterfaces k name descriptor left visited missing pending) := by
  induction left generalizing visited missing pending with
  | zero => exact .pure _
  | succ left ih =>
    unfold searchInterfaces
    cases pending.dropWhile visited.contains with
    | nil => exact .pure _
    | cons type rest =>
      refine (Together.lookup type).bind fun found => ?_
      cases found with
      | none => exact ih _ _ _
      | some info =>
        dsimp only
        split
        · exact .pure _
        · exact ih _ _ _

theorem together_searchChain (owner name descriptor : String) (left : Nat) (current : String)
    (interfaces : List String) :
    Together h k (searchChain h owner name descriptor left current interfaces)
      (searchChain k owner name descriptor left current interfaces) := by
  induction left generalizing current interfaces with
  | zero => exact .pure _
  | succ left ih =>
    unfold searchChain
    refine (Together.lookup current).bind fun found => ?_
    cases found with
    | none => exact .pure _
    | some info =>
      dsimp only
      split
      · exact .pure _
      · cases info.superName with
        | some superName => exact ih _ _
        | none =>
          refine (together_searchInterfaces h k name descriptor _ _ _ _).bind fun found => ?_
          cases found with
          | ok type => exact .pure _
          | error missing => exact .pure _

theorem together_resolve (owner name descriptor : String) :
    Together h k (resolve h owner name descriptor) (resolve k owner name descriptor) := by
  unfold resolve
  split
  · exact .pure _
  · exact together_searchChain h k owner name descriptor _ _ _

theorem together_searchSupertypes (target : String) (left : Nat)
    (visited pending : List String) :
    Together h k (searchSupertypes h target left visited pending)
      (searchSupertypes k target left visited pending) := by
  induction left generalizing visited pending with
  | zero => exact .pure _
  | succ left ih =>
    unfold searchSupertypes
    cases pending.dropWhile visited.contains with
    | nil => exact .pure _
    | cons type rest =>
      refine (Together.lookup type).bind fun found => ?_
      cases found with
      | none => exact ih _ _
      | some info =>
        dsimp only
        split
        · exact .pure _
        · exact ih _ _

theorem together_isSubtype (candidate target : String) :
    Together h k (isSubtype h candidate target) (isSubtype k candidate target) := by
  unfold isSubtype
  split
  · exact .pure _
  · exact together_searchSupertypes h k target _ _ _

end Hierarchy

theorem Target.together_isDeclaredBy (h : Host σ) (k : Host τ) (t : Target) (declaring : String) :
    Asking.Together h k (t.isDeclaredBy h declaring) (t.isDeclaredBy k declaring) := by
  unfold isDeclaredBy
  split
  · exact .pure _
  · exact Hierarchy.together_isSubtype h k declaring _

namespace Instrument

open Asking (LooksUp Together)

variable (h : Host σ) (k : Host τ) (t : Instrument)

theorem together_isWatched (declaring : String) :
    Together h k (t.isWatched h declaring) (t.isWatched k declaring) := by
  unfold isWatched
  split
  next target _ => exact target.together_isDeclaredBy h k declaring
  next => exact .pure _

theorem together_probe? (operation : Option Operation) (resolution : Resolution) :
    Together h k (t.probe? h operation resolution) (t.probe? k operation resolution) := by
  unfold probe?
  split
  · refine (t.together_isWatched h k _).bind fun watched => ?_
    split
    · exact .pure _
    · exact .pure _
  · exact .pure _

/-- How a call is treated is a question about types, too. -/
theorem together_decide (site : CallSite) : Together h k (t.decide h site) (t.decide k site) := by
  unfold decide
  dsimp only
  split
  · exact .pure _
  · exact (Hierarchy.together_resolve h k _ _ _).bind fun resolution =>
      (t.together_probe? h k _ _).bind fun probe => .pure _

variable {h}

theorem looksUp_probe? (operation : Option Operation) (resolution : Resolution) :
    LooksUp h (t.probe? h operation resolution) :=
  (t.together_probe? h h operation resolution).looksUp

theorem looksUp_decide (site : CallSite) : LooksUp h (t.decide h site) :=
  (t.together_decide h h site).looksUp

end Instrument

end ThreadWatch
