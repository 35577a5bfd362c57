import Mathlib.Data.List.Forall2
import ThreadWatch.Attach

/-!
# The course of attaching

Attaching announces its settings, asks for the watched type, installs the hook, has the loaded
classes listed and passes each of them on, but the instrument's own. It goes up to the first of these
steps that fails; a class that cannot be passed on is counted and does not end it.
-/

namespace ThreadWatch.Attach

variable {σ κ : Type}

/-! ### Overseen runs -/

/-- What attaching does: lines that it prints, what it asks of its source and of its runtime, and
what it is answered. -/
inductive Event (κ : Type) where
  | printed (line : String)
  | asked (name : String) (answer : Answer)
  | installed (hook : Instrument) (answer : Except Fault Unit)
  | listed (answer : Except Fault (List (LoadedType κ)))
  | retransformed (handle : κ) (answer : Except Fault RetransformStatus)

/-- A state, and what was done so far. What a runtime or a source prints by itself is not in it. -/
structure Overseen (σ κ : Type) where
  state : σ
  events : List (Event κ)

/-- A step, and the event that its answer makes of it. -/
def oversee {α : Type} (step : StateM σ α) (event : α → List (Event κ)) :
    StateM (Overseen σ κ) α := fun o =>
  let (a, state) := step.run o.state
  (a, ⟨state, o.events ++ event a⟩)

def overseenRuntime (rt : Runtime σ κ) : Runtime (Overseen σ κ) κ where
  installHook hook := oversee (rt.installHook hook) fun answer => [.installed hook answer]
  loadedTypes := oversee rt.loadedTypes fun answer => [.listed answer]
  retransform handle :=
    oversee (rt.retransform handle) fun answer => [.retransformed handle answer]
  release handle := oversee (rt.release handle) fun _ => []

def overseenHost (h : Host σ) : Host (Overseen σ κ) where
  load name := oversee (h.load name) fun answer => [.asked name answer]
  print line := oversee (h.print line) fun _ => [.printed line]
  note level text := oversee (h.note level text) fun _ => []

/-- The overseen step gives what the step gives, and these are its events. -/
def Shows {α : Type} (overseen : StateM (Overseen σ κ) α) (step : StateM σ α)
    (P : α → List (Event κ) → Prop) : Prop :=
  ∀ o, ∃ events, P (step.run o.state).1 events ∧
    overseen.run o = ((step.run o.state).1, ⟨(step.run o.state).2, o.events ++ events⟩)

namespace Shows

variable {α β : Type} {P : α → List (Event κ) → Prop} {Q : β → List (Event κ) → Prop}

theorem step (x : StateM σ α) (event : α → List (Event κ)) :
    Shows (oversee x event) x fun a events => events = event a :=
  fun _ => ⟨_, rfl, rfl⟩

theorem pure {a : α} (h : P a []) : Shows (Pure.pure a) (Pure.pure a : StateM σ α) P := by
  intro o
  refine ⟨[], h, ?_⟩
  rw [List.append_nil]
  rfl

theorem mono {x : StateM (Overseen σ κ) α} {x' : StateM σ α} {P' : α → List (Event κ) → Prop}
    (h : Shows x x' P) (himp : ∀ a events, P a events → P' a events) : Shows x x' P' := by
  intro o
  obtain ⟨events, hevents, hrun⟩ := h o
  exact ⟨events, himp _ _ hevents, hrun⟩

/-- One step behind another; their events stand one behind the other. -/
theorem bind {x : StateM (Overseen σ κ) α} {x' : StateM σ α} {f : α → StateM (Overseen σ κ) β}
    {f' : α → StateM σ β} (hx : Shows x x' P)
    (hf : ∀ a events, P a events → Shows (f a) (f' a) fun b later => Q b (events ++ later)) :
    Shows (x >>= f) (x' >>= f') Q := by
  intro o
  obtain ⟨events, hevents, hrun⟩ := hx o
  obtain ⟨later, hall, hlater⟩ := hf _ events hevents ⟨(x'.run o.state).2, o.events ++ events⟩
  refine ⟨events ++ later, hall, ?_⟩
  rw [StateT.run_bind, hrun, ← List.append_assoc]
  exact hlater

end Shows

/-! ### The pass over the loaded classes -/

namespace Event

def isRetransformed : Event κ → Bool
  | retransformed _ _ => true
  | _ => false

/-- The runtime said that it has passed a class through the hook. -/
def isSuccess : Event κ → Bool
  | retransformed _ (.ok .retransformed) => true
  | _ => false

end Event

def ignoring (name : String) : String := marked ("Ignoring " ++ toDotted name)

def opening : String := marked "Trying to retransform loaded classes"

def closing (tally : Tally) : String :=
  marked s!"Retransform loaded classes; {tally.succeeded}x successful, {tally.refused}x failed"

/-- What is done about a loaded class: a line for one of the instrument's own, and for any other the
runtime is asked once, whatever it answers. -/
def Passed (type : LoadedType κ) (event : Event κ) : Prop :=
  if "threadscope/".toList <+: type.name.toList then event = .printed (ignoring type.name)
  else ∃ answer, event = .retransformed type.handle answer

theorem isOwn_iff (name : String) : isOwn name ↔ "threadscope/".toList <+: name.toList :=
  List.isPrefixOf_iff_prefix

variable (rt : Runtime σ κ) (h : Host σ)

theorem shows_installHook (hook : Instrument) :
    Shows ((overseenRuntime rt).installHook hook) (rt.installHook hook)
      fun answer events => events = [.installed hook answer] :=
  Shows.step _ fun answer => [.installed hook answer]

theorem shows_loadedTypes :
    Shows (overseenRuntime rt).loadedTypes rt.loadedTypes
      fun answer events => events = [.listed answer] :=
  Shows.step _ fun answer => [.listed answer]

theorem shows_retransform (handle : κ) :
    Shows ((overseenRuntime rt).retransform handle) (rt.retransform handle)
      fun answer events => events = [.retransformed handle answer] :=
  Shows.step _ fun answer => [.retransformed handle answer]

theorem shows_release (handle : κ) :
    Shows ((overseenRuntime rt).release handle) (rt.release handle) fun _ events => events = [] :=
  Shows.step _ fun _ => []

theorem shows_load (name : String) :
    Shows ((overseenHost h).load name) (h.load name)
      fun answer (events : List (Event κ)) => events = [.asked name answer] :=
  Shows.step _ fun answer => [.asked name answer]

theorem shows_line (text : String) :
    Shows ((overseenHost h).line text) (h.line text)
      fun _ (events : List (Event κ)) => events = [.printed (marked text)] :=
  Shows.step _ fun _ => [.printed (marked text)]

theorem shows_note (level : Level) (text : String) :
    Shows ((overseenHost h).note level text) (h.note level text)
      fun _ (events : List (Event κ)) => events = [] :=
  Shows.step _ fun _ => []

/-- The runtime is asked once, and the tally has one more. -/
theorem shows_retransformOne (type : LoadedType κ) (tally : Tally) :
    Shows (retransformOne (overseenRuntime rt) (overseenHost h) type tally)
      (retransformOne rt h type tally) fun tally' events =>
        (∃ answer, events = [.retransformed type.handle answer]) ∧
        tally'.succeeded = tally.succeeded + events.countP (·.isSuccess) ∧
        tally'.total = tally.total + events.countP (·.isRetransformed) := by
  unfold retransformOne
  refine (shows_retransform rt type.handle).bind fun answer events hevents => ?_
  subst hevents
  match answer with
  | .ok .retransformed => exact .pure ⟨⟨_, rfl⟩, rfl, Nat.add_right_comm _ _ _⟩
  | .ok .unmodifiable => exact .pure ⟨⟨_, rfl⟩, rfl, rfl⟩
  | .error fault =>
    refine (shows_note h _ _).bind fun _ events hevents => ?_
    subst hevents
    exact .pure ⟨⟨_, rfl⟩, rfl, rfl⟩

/-- The pass goes through the classes one by one, and counts. -/
theorem shows_retransformEach (types : List (LoadedType κ)) (tally : Tally) :
    Shows (retransformEach (overseenRuntime rt) (overseenHost h) types tally)
      (retransformEach rt h types tally) fun tally' events =>
        List.Forall₂ Passed types events ∧
        tally'.succeeded = tally.succeeded + events.countP (·.isSuccess) ∧
        tally'.total = tally.total + events.countP (·.isRetransformed) := by
  induction types generalizing tally with
  | nil => exact .pure ⟨.nil, rfl, rfl⟩
  | cons type rest ih =>
    unfold retransformEach
    split
    next hown =>
      refine (shows_line h _).bind fun _ events hevents => ?_
      subst hevents
      refine (shows_release rt _).bind fun _ events hevents => ?_
      subst hevents
      refine (ih tally).mono fun tally' later ⟨hpassed, hsucceeded, htotal⟩ => ?_
      refine ⟨.cons ?_ hpassed, hsucceeded, htotal⟩
      rw [Passed, if_pos ((isOwn_iff type.name).mp hown)]
      rfl
    next hother =>
      refine (shows_retransformOne rt h type tally).bind fun tally' events hevents => ?_
      obtain ⟨⟨answer, rfl⟩, hone, hmore⟩ := hevents
      refine (shows_release rt _).bind fun _ events hevents => ?_
      subst hevents
      refine (ih tally').mono fun last later ⟨hpassed, hsucceeded, htotal⟩ => ?_
      refine ⟨.cons ?_ hpassed, ?_, ?_⟩
      · rw [Passed, if_neg (mt (isOwn_iff type.name).mpr hother)]
        exact ⟨answer, rfl⟩
      · rw [hsucceeded, hone, Nat.add_assoc, ← List.countP_append]
        rfl
      · rw [htotal, hmore, Nat.add_assoc, ← List.countP_append]
        rfl

/-! ### The whole -/

def announced (settings : Settings) : List (Event κ) :=
  settings.summary.map fun text => .printed (marked text)

/-- What attaching comes to, and all that is done for it. -/
inductive Course (settings : Settings) : Except Fault AttachReport → List (Event κ) → Prop
  | unresolved {answer : Answer} {fault : Fault} : Target.ofAnswer answer = .error fault →
    Course settings (.error fault) (announced settings ++ [.asked watchedType answer])
  | uninstalled {answer : Answer} {target : Target} {fault : Fault} :
    Target.ofAnswer answer = .ok target →
    Course settings (.error fault) (announced settings ++ [.asked watchedType answer,
      .installed (.new settings (some target)) (.error fault)])
  | unlisted {answer : Answer} {target : Target} {fault : Fault} :
    Target.ofAnswer answer = .ok target →
    Course settings (.error fault) (announced settings ++ [.asked watchedType answer,
      .installed (.new settings (some target)) (.ok ()), .printed opening, .listed (.error fault)])
  | attached {answer : Answer} {target : Target} {types : List (LoadedType κ)}
      {passed : List (Event κ)} {tally : Tally} :
    Target.ofAnswer answer = .ok target → List.Forall₂ Passed types passed →
    tally.succeeded = passed.countP (·.isSuccess) →
    tally.succeeded + tally.refused = passed.countP (·.isRetransformed) →
    Course settings (.ok ⟨settings, tally⟩) (announced settings ++ [.asked watchedType answer,
      .installed (.new settings (some target)) (.ok ()), .printed opening, .listed (.ok types)] ++
      passed ++ [.printed (closing tally)])

theorem shows_announce (settings : Settings) :
    Shows (settings.announce (overseenHost h)) (settings.announce h)
      fun _ (events : List (Event κ)) => events = announced settings := by
  -- line by line, for any lines
  have hlines : ∀ texts : List String,
      Shows (texts.forM (overseenHost h).line) (texts.forM h.line)
        fun _ (events : List (Event κ)) => events = texts.map fun text => .printed (marked text) := by
    intro texts
    induction texts with
    | nil => exact .pure rfl
    | cons text rest ih =>
      refine (shows_line h text).bind fun _ events hevents => ?_
      subst hevents
      exact ih.mono fun _ later hlater => congrArg _ hlater
  exact hlines settings.summary

theorem shows_resolve :
    Shows (Target.resolve (overseenHost h)) (Target.resolve h)
      fun result (events : List (Event κ)) =>
        ∃ answer, result = Target.ofAnswer answer ∧ events = [.asked watchedType answer] := by
  unfold Target.resolve
  rw [map_eq_pure_bind, map_eq_pure_bind]
  refine (shows_load h watchedType).bind fun answer events hevents => ?_
  subst hevents
  exact .pure ⟨answer, rfl, rfl⟩

/-- Nothing is passed on where the classes are not listed; otherwise all of them are gone through,
between the two lines. -/
theorem shows_retransformAll :
    Shows (retransformAll (overseenRuntime rt) (overseenHost h)) (retransformAll rt h)
      fun result events =>
        (∃ fault, result = .error fault ∧ events = [.printed opening, .listed (.error fault)]) ∨
        ∃ types passed tally, result = .ok tally ∧ List.Forall₂ Passed types passed ∧
          tally.succeeded = passed.countP (·.isSuccess) ∧
          tally.succeeded + tally.refused = passed.countP (·.isRetransformed) ∧
          events = [.printed opening, .listed (.ok types)] ++ passed ++
            [.printed (closing tally)] := by
  unfold retransformAll
  refine (shows_line h _).bind fun _ events hevents => ?_
  subst hevents
  refine (shows_loadedTypes rt).bind fun answer events hevents => ?_
  subst hevents
  match answer with
  | .error fault => exact .pure (.inl ⟨fault, rfl, rfl⟩)
  | .ok types =>
    refine (shows_retransformEach rt h types ⟨0, 0⟩).bind fun tally passed hpassed => ?_
    obtain ⟨hall, hsucceeded, htotal⟩ := hpassed
    refine (shows_line h _).bind fun _ events hevents => ?_
    subst hevents
    refine .pure (.inr ⟨types, passed, tally, rfl, hall, ?_, ?_, rfl⟩)
    · rw [hsucceeded, Nat.zero_add]
    · exact htotal.trans (Nat.zero_add _)

end ThreadWatch.Attach
