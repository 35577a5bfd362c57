import ThreadWatch.Proofs.Types.Quiet

/-!
# Questions in any order

What earlier questions have made known is what would be found anyway. So on a steady host it does
not matter which questions were asked before, nor how often.
-/

namespace ThreadWatch

variable {σ α β : Type}

namespace Hierarchy

variable (h : Host σ) (s : σ) (memo : Memo)

/-- What is found under each name, be it known or be the host asked in state `s`. -/
def view (name : String) : Option TypeInfo :=
  match memo.lookup name with
  | some known => known
  | none => ((summary h name).run s).1

theorem answer_lookup (name : String) :
    (lookup h name).answer memo s =
      match memo.lookup name with
      | some known => (known, memo)
      | none => (((summary h name).run s).1, (name, ((summary h name).run s).1) :: memo) := by
  unfold lookup Asking.answer
  simp only [StateT.run_bind, StateT.run_get, pure_bind]
  cases memo.lookup name with
  | some known => rfl
  | none => rfl

theorem answer_lookup_fst (name : String) :
    ((lookup h name).answer memo s).1 = view h s memo name := by
  rw [answer_lookup, view]
  cases memo.lookup name with
  | some known => rfl
  | none => rfl

/-- A method that its owner declares, which is known, is found there. -/
theorem answer_resolve_of_known {owner name descriptor : String} {info : TypeInfo}
    (hknown : memo.lookup owner = some (some info)) (hclass : owner.toList.head? ≠ some '[')
    (hdeclares : info.declares name descriptor = true) :
    (resolve h owner name descriptor).answer memo s = (.declared info.name, memo) := by
  have hfirst : maxTypes = 99 + 1 := rfl
  rw [resolve, if_neg hclass, hfirst, searchChain, Asking.answer_bind_run, answer_lookup, hknown]
  dsimp only
  rw [if_pos hdeclares]
  rfl

/-- What a lookup makes known was there to be found. -/
theorem view_answer_lookup (name : String) :
    view h s ((lookup h name).answer memo s).2 = view h s memo := by
  rw [answer_lookup]
  cases hmemo : memo.lookup name with
  | some known => rfl
  | none =>
    funext other
    dsimp only
    unfold view
    rw [List.lookup_cons]
    by_cases hother : other = name
    · rw [hother, hmemo, beq_self_eq_true]
    · rw [beq_false_of_ne hother]

end Hierarchy

namespace Asking

open Hierarchy (view)

/-- The answer is a matter of what is found under each name, which the question leaves as it is. -/
structure Settled (h : Host σ) (s : σ) (x : Asking σ α) : Prop where
  view : ∀ memo, view h s (x.answer memo s).2 = view h s memo
  answer : ∀ memo memo', Hierarchy.view h s memo = Hierarchy.view h s memo' →
    (x.answer memo s).1 = (x.answer memo' s).1

variable {h : Host σ} {source : Host.Fixed} {lines : σ → List String}
  (hh : h.Steady source lines) (s : σ)

include hh

theorem LooksUp.settled {x : Asking σ α} (hx : LooksUp h x) : Settled h s x := by
  induction hx with
  | pure a => exact ⟨fun _ => rfl, fun _ _ _ => rfl⟩
  | lookup name =>
    constructor
    · intro memo
      exact Hierarchy.view_answer_lookup h s memo name
    · intro memo memo' hsame
      rw [Hierarchy.answer_lookup_fst, Hierarchy.answer_lookup_fst, hsame]
  | @bind _ _ x f _ hf ihx ihf =>
    have hbind := fun memo => answer_bind (fun a => (hf a).quiet hh) memo s (x := x)
    constructor
    · intro memo
      rw [hbind, (ihf _).view, ihx.view]
    · intro memo memo' hsame
      rw [hbind, hbind, ihx.answer memo memo' hsame]
      refine (ihf _).answer _ _ ?_
      rw [ihx.view, ihx.view, hsame]

/-- Of several questions each is answered as if it were the first. -/
theorem answer_mapM {f : α → Asking σ β} (hf : ∀ a, LooksUp h (f a)) (memo : Memo)
    (xs : List α) : ((xs.mapM f).answer memo s).1 = xs.map fun x => ((f x).answer memo s).1 := by
  induction xs with
  | nil => rfl
  | cons x xs ih =>
    have hrest : LooksUp h (xs.mapM f) := .mapM hf xs
    rw [List.mapM_cons, answer_bind fun a => (hrest.bind fun _ => .pure _).quiet hh,
      answer_bind_pure, List.map_cons, ← ih]
    have hsame := (hrest.settled hh s).answer _ memo (((hf x).settled hh s).view memo)
    rw [hsame]

end Asking

end ThreadWatch
