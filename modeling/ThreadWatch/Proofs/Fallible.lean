import Mathlib.Data.List.Forall2
import ThreadWatch.Fault

/-!
# Steps that may fail

When a step that may fail gives a result, taken apart at its binds and along lists.
-/

namespace ThreadWatch

variable {ε α β : Type}

theorem bind_eq_ok {x : Except ε α} {f : α → Except ε β} {b : β} :
    x >>= f = .ok b ↔ ∃ a, x = .ok a ∧ f a = .ok b := by
  cases x with
  | error e => simp [bind, Except.bind]
  | ok a => simp [bind, Except.bind]

/-- Either step may be the one that fails. -/
theorem bind_eq_error {x : Except ε α} {f : α → Except ε β} {e : ε} :
    x >>= f = .error e ↔ x = .error e ∨ ∃ a, x = .ok a ∧ f a = .error e := by
  cases x with
  | error e' => simp [bind, Except.bind]
  | ok a => simp [bind, Except.bind]

theorem map_eq_ok {x : Except ε α} {f : α → β} {b : β} :
    f <$> x = .ok b ↔ ∃ a, x = .ok a ∧ f a = b := by
  cases x with
  | error e => simp [Functor.map, Except.map]
  | ok a => simp [Functor.map, Except.map]

theorem pure_eq_ok {a b : α} : (pure a : Except ε α) = .ok b ↔ a = b := by
  simp [pure, Except.pure]

theorem toOption_eq_some {x : Except ε α} {a : α} : x.toOption = some a ↔ x = .ok a := by
  cases x <;> simp [Except.toOption]

/-- A list is worked through if every element is. -/
theorem mapM_eq_ok {f : α → Except ε β} {xs : List α} {ys : List β} :
    xs.mapM f = .ok ys ↔ List.Forall₂ (fun x y => f x = .ok y) xs ys := by
  induction xs generalizing ys with
  | nil =>
    rw [List.mapM_nil, pure_eq_ok, List.forall₂_nil_left_iff]
    exact eq_comm
  | cons x xs ih =>
    rw [List.mapM_cons, bind_eq_ok]
    constructor
    · rintro ⟨y, hy, h⟩
      obtain ⟨rest, hrest, h⟩ := bind_eq_ok.mp h
      cases pure_eq_ok.mp h
      exact .cons hy (ih.mp hrest)
    · intro h
      cases h with
      | @cons _ y _ rest hy hrest =>
        exact ⟨y, hy, bind_eq_ok.mpr ⟨rest, ih.mpr hrest, rfl⟩⟩

theorem mapM_of_forall_mem {f : α → Except ε β} {g : α → β} {xs : List α}
    (h : ∀ x ∈ xs, f x = .ok (g x)) : xs.mapM f = .ok (xs.map g) := by
  rw [mapM_eq_ok, List.forall₂_map_right_iff, List.forall₂_same]
  exact h

/-- A list is not worked through if an element fails behind others that do not. -/
theorem mapM_eq_error {f : α → Except ε β} {xs : List α} {e : ε} :
    xs.mapM f = .error e ↔ ∃ before x after, xs = before ++ x :: after ∧
      (∀ b ∈ before, ∃ y, f b = .ok y) ∧ f x = .error e := by
  constructor
  · intro h
    induction xs with
    | nil => cases h
    | cons x xs ih =>
      rw [List.mapM_cons] at h
      rcases bind_eq_error.mp h with hx | ⟨y, hy, h⟩
      · exact ⟨[], x, xs, rfl, by simp, hx⟩
      · rcases bind_eq_error.mp h with hrest | ⟨_, _, h⟩
        · obtain ⟨before, z, after, rfl, hbefore, hz⟩ := ih hrest
          exact ⟨x :: before, z, after, rfl, List.forall_mem_cons.mpr ⟨⟨y, hy⟩, hbefore⟩, hz⟩
        · cases h
  · rintro ⟨before, x, after, rfl, hbefore, hx⟩
    induction before with
    | nil =>
      rw [List.nil_append, List.mapM_cons, hx]
      rfl
    | cons b before ih =>
      rw [List.forall_mem_cons] at hbefore
      obtain ⟨y, hy⟩ := hbefore.1
      rw [List.cons_append, List.mapM_cons, hy, ih hbefore.2]
      rfl

theorem exists_of_mem_left {r : α → β → Prop} {xs : List α} {ys : List β}
    (h : List.Forall₂ r xs ys) {x : α} (hx : x ∈ xs) : ∃ y ∈ ys, r x y := by
  induction h with
  | nil => simp at hx
  | cons hxy _ ih =>
    rcases List.mem_cons.mp hx with rfl | hx
    · exact ⟨_, List.mem_cons_self .., hxy⟩
    · obtain ⟨y, hy, hxy⟩ := ih hx
      exact ⟨y, List.mem_cons_of_mem _ hy, hxy⟩

theorem exists_of_mem_right {r : α → β → Prop} {xs : List α} {ys : List β}
    (h : List.Forall₂ r xs ys) {y : β} (hy : y ∈ ys) : ∃ x ∈ xs, r x y :=
  exists_of_mem_left h.flip hy

theorem exists_of_getElem?_right {r : α → β → Prop} {xs : List α} {ys : List β}
    (h : List.Forall₂ r xs ys) {k : Nat} {y : β} (hy : ys[k]? = some y) :
    ∃ x, xs[k]? = some x ∧ r x y := by
  induction h generalizing k with
  | nil => simp at hy
  | @cons x _ _ _ hxy _ ih =>
    cases k with
    | zero =>
      cases hy
      exact ⟨x, rfl, hxy⟩
    | succ k => exact ih hy

theorem exists_of_getElem?_left {r : α → β → Prop} {xs : List α} {ys : List β}
    (h : List.Forall₂ r xs ys) {k : Nat} {x : α} (hx : xs[k]? = some x) :
    ∃ y, ys[k]? = some y ∧ r x y :=
  exists_of_getElem?_right h.flip hx

theorem forall₂_of_common {γ : Type} {r : α → β → Prop} {s : α → γ → Prop} {t : β → γ → Prop}
    {xs : List α} {ys : List β} {zs : List γ} (h : List.Forall₂ r xs ys)
    (h' : List.Forall₂ s xs zs) (himp : ∀ x y z, r x y → s x z → t y z) :
    List.Forall₂ t ys zs := by
  induction h generalizing zs with
  | nil =>
    cases h'
    exact .nil
  | cons hxy _ ih =>
    cases h' with
    | cons hxz hrest => exact .cons (himp _ _ _ hxy hxz) (ih hrest)

/-- Elements of the third list for what two lists make of a common one. -/
theorem exists_forall₂_of_common {γ δ : Type} {r : α → β → Prop} {s : α → γ → Prop}
    {t : β → δ → Prop} {u : γ → δ → Prop} {xs : List α} {ys : List β} {zs : List γ}
    (h : List.Forall₂ r xs ys) (h' : List.Forall₂ s xs zs)
    (himp : ∀ x y z, r x y → s x z → ∃ d, t y d ∧ u z d) :
    ∃ ds, List.Forall₂ t ys ds ∧ List.Forall₂ u zs ds := by
  induction h generalizing zs with
  | nil =>
    cases h'
    exact ⟨[], .nil, .nil⟩
  | cons hxy _ ih =>
    cases h' with
    | cons hxz hrest =>
      obtain ⟨d, hyd, hzd⟩ := himp _ _ _ hxy hxz
      obtain ⟨ds, hys, hzs⟩ := ih hrest
      exact ⟨d :: ds, .cons hyd hys, .cons hzd hzs⟩

theorem forall₂_of_getElem? {r : α → β → Prop} {xs : List α} {ys : List β}
    (hlength : ys.length = xs.length)
    (h : ∀ (k : Nat) x, xs[k]? = some x → ∃ y, ys[k]? = some y ∧ r x y) : List.Forall₂ r xs ys := by
  rw [List.forall₂_iff_get]
  refine ⟨hlength.symm, fun k hx hy => ?_⟩
  obtain ⟨y, hk, hr⟩ := h k xs[k] (List.getElem?_eq_getElem hx)
  rw [List.getElem?_eq_getElem hy] at hk
  cases hk
  exact hr

theorem forall₂_zipIdx {r : α → β → Prop} {xs : List α} {ys : List β} (h : List.Forall₂ r xs ys)
    (k : Nat) : List.Forall₂ (fun x y => r x.1 y.1 ∧ y.2 = x.2) (xs.zipIdx k) (ys.zipIdx k) := by
  induction h generalizing k with
  | nil => exact .nil
  | cons hxy _ ih => exact .cons ⟨hxy, rfl⟩ (ih (k + 1))

theorem pairwise_of_forall₂ {r : α → β → Prop} {s : α → α → Prop} {t : β → β → Prop} {xs : List α}
    {ys : List β} (h : List.Forall₂ r xs ys) (hs : xs.Pairwise s)
    (himp : ∀ x x' y y', r x y → r x' y' → s x x' → t y y') : ys.Pairwise t := by
  induction h with
  | nil => exact .nil
  | cons hxy hrest ih =>
    rw [List.pairwise_cons] at hs
    refine .cons (fun y' hy' => ?_) (ih hs.2)
    obtain ⟨x', hx', hxy'⟩ := exists_of_mem_right hrest hy'
    exact himp _ _ _ _ hxy hxy' (hs.1 x' hx')

/-- Another element that is related to what stands in its place. -/
theorem forall₂_set {r : α → β → Prop} {xs : List α} {ys : List β} (h : List.Forall₂ r xs ys)
    {k : Nat} {y : β} (hy : ∀ x, xs[k]? = some x → r x y) : List.Forall₂ r xs (ys.set k y) := by
  induction h generalizing k with
  | nil => exact .nil
  | @cons x _ _ _ hxy hrest ih =>
    cases k with
    | zero => exact .cons (hy x rfl) hrest
    | succ k => exact .cons hxy (ih hy)

theorem exists_forall₂ {r : α → β → Prop} {xs : List α} (h : ∀ x ∈ xs, ∃ y, r x y) :
    ∃ ys, List.Forall₂ r xs ys := by
  induction xs with
  | nil => exact ⟨[], .nil⟩
  | cons x xs ih =>
    rw [List.forall_mem_cons] at h
    obtain ⟨⟨y, hy⟩, hrest⟩ := h
    obtain ⟨ys, hys⟩ := ih hrest
    exact ⟨y :: ys, .cons hy hys⟩

/-- Witnesses of the elements make a list of their own. -/
theorem exists_map_of_forall₂ {γ : Type} {r : α → γ → Prop} {f : γ → β} {xs : List α} {ys : List β}
    (h : List.Forall₂ (fun x y => ∃ z, y = f z ∧ r x z) xs ys) :
    ∃ zs, ys = zs.map f ∧ List.Forall₂ r xs zs := by
  induction h with
  | nil => exact ⟨[], rfl, .nil⟩
  | cons hxy _ ih =>
    obtain ⟨z, rfl, hz⟩ := hxy
    obtain ⟨zs, rfl, hzs⟩ := ih
    exact ⟨z :: zs, rfl, .cons hz hzs⟩

/-- Two steps that fail alike, or give what is related. -/
inductive FailAlike (r : α → β → Prop) : Except ε α → Except ε β → Prop
  | error (e : ε) : FailAlike r (.error e) (.error e)
  | ok {a : α} {b : β} (h : r a b) : FailAlike r (.ok a) (.ok b)

theorem FailAlike.imp {r r' : α → β → Prop} {x : Except ε α} {y : Except ε β}
    (h : FailAlike r x y) (himp : ∀ a b, r a b → r' a b) : FailAlike r' x y := by
  cases h with
  | error e => exact .error e
  | ok h => exact .ok (himp _ _ h)

theorem FailAlike.map {γ : Type} {r : α → β → Prop} {f : γ → α} {g : γ → β}
    (h : ∀ c, r (f c) (g c)) (x : Except ε γ) : FailAlike r (f <$> x) (g <$> x) := by
  cases x with
  | error e => exact .error e
  | ok c => exact .ok (h c)

/-! ### Steps on a state -/

namespace Stateful

variable {σ : Type} {s s' : σ}

theorem bind_eq_ok {x : EStateM ε σ α} {f : α → EStateM ε σ β} {b : β} :
    (x >>= f) s = .ok b s' ↔ ∃ a r, x s = .ok a r ∧ f a r = .ok b s' := by
  show EStateM.bind x f s = _ ↔ _
  unfold EStateM.bind
  cases x s with
  | ok a r =>
    constructor
    · intro h
      exact ⟨a, r, rfl, h⟩
    · rintro ⟨_, _, heq, h⟩
      cases heq
      exact h
  | error e r => simp

theorem bind_eq_error {x : EStateM ε σ α} {f : α → EStateM ε σ β} {e : ε} :
    (x >>= f) s = .error e s' ↔ x s = .error e s' ∨ ∃ a r, x s = .ok a r ∧ f a r = .error e s' := by
  show EStateM.bind x f s = _ ↔ _
  unfold EStateM.bind
  cases x s with
  | ok a r => simp
  | error e' r => simp

theorem map_eq_ok {x : EStateM ε σ α} {f : α → β} {b : β} :
    (f <$> x) s = .ok b s' ↔ ∃ a, x s = .ok a s' ∧ f a = b := by
  show EStateM.map f x s = _ ↔ _
  unfold EStateM.map
  cases x s with
  | ok a r => simp; grind
  | error e r => simp

theorem map_eq_error {x : EStateM ε σ α} {f : α → β} {e : ε} :
    (f <$> x) s = .error e s' ↔ x s = .error e s' := by
  show EStateM.map f x s = _ ↔ _
  unfold EStateM.map
  cases x s <;> simp

theorem pure_eq_ok {a b : α} : (pure a : EStateM ε σ α) s = .ok b s' ↔ a = b ∧ s' = s := by
  show EStateM.pure a s = _ ↔ _
  unfold EStateM.pure
  simp [eq_comm]

end Stateful

end ThreadWatch
