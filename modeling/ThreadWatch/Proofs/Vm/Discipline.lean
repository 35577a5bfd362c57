import Mathlib.Algebra.GroupWithZero.Nat
import ThreadWatch.Proofs.Vm.Tracing
import ThreadWatch.Vm.Stage

/-!
# The discipline of native calls

Any call that a lookup makes may leave an exception pending, fail or give nothing. Whatever the
machine does, the lookup makes no call behind an exception that it has not cleared, pops the frame
that it pushed, lets go of every reference it was handed and closes the stream it opened. A ledger
follows the exchanges of a lookup one by one and accepts no other order.
-/

namespace ThreadWatch.Vm

namespace Call

/-- The calls that may be made while an exception is pending. -/
def isExempt : Call → Bool
  | exceptionCheck | exceptionDescribe | exceptionClear | deleteLocalRef _ | popLocalFrame => true
  | _ => false

/-- The calls about the exception itself. -/
def isAboutException : Call → Bool
  | exceptionCheck | exceptionDescribe | exceptionClear => true
  | _ => false

/-- The local references that a reply hands out. -/
def handsOut : (c : Call) → c.Reply → List Object
  | findClass _, reply | newString _, reply | callObject _ _ _, reply
  | callStaticObject _ _ _, reply => reply.toList
  | getLoadedClasses, (code, types) => if code = 0 then types.getD [] else []
  | _, _ => []

/-- The stream that a reply is, for a call with the name of a resource. -/
def opens : (c : Call) → c.Reply → List Object
  | callObject _ _ (some _), reply | callStaticObject _ _ _, reply => reply.toList
  | _, _ => []

def letsGo : Call → List Object
  | deleteLocalRef object => [object]
  | _ => []

/-- The stream that a call of the method `close` is made on. -/
def closes (close : Method) : Call → List Object
  | callVoid stream method => if method = close then [stream] else []
  | _ => []

/-- The frame that is there from this call on. -/
def pushes : (c : Call) → c.Reply → Nat
  | pushLocalFrame _, code => if code = 0 then 1 else 0
  | _, _ => 0

def pops : Call → Nat
  | popLocalFrame => 1
  | _ => 0

/-- There is no frame from this call on. -/
def isUnframed : (c : Call) → c.Reply → Bool
  | pushLocalFrame _, code => code ≠ 0
  | popLocalFrame, _ => true
  | _, _ => false

end Call

variable {σ α β : Type}

/-- Exceptions are pending where `isPending` says so. Asking about them, clearing them, letting go of
a reference and popping a frame raise none, nor does pushing a frame unless it fails. -/
structure Machine.Throws (m : Machine σ) (isPending : σ → Bool) : Prop where
  check : ∀ w, (m.exchange .exceptionCheck w).reply = isPending w.machine
  clear : ∀ w, isPending (m.exchange .exceptionClear w).after.machine = false
  exempt : ∀ (c : Call) w, c.isExempt = true → isPending w.machine = false →
    isPending (m.exchange c w).after.machine = false
  push : ∀ n w, ((m.call (.pushLocalFrame n)).run w).1 = 0 → isPending w.machine = false →
    isPending (m.exchange (.pushLocalFrame n) w).after.machine = false
  note : ∀ level text w, isPending w.machine = false →
    isPending ((m.note level text).run w).2.machine = false

/-- Whether the one frame of a lookup is still to be pushed, is there, or is gone. -/
inductive Phase where
  | fresh
  | framed
  | gone
  deriving DecidableEq, Repr

def Phase.frames : Phase → Nat
  | framed => 1
  | fresh | gone => 0

/-- What a lookup owes: the references to let go of and the streams to close. -/
structure Ledger where
  phase : Phase
  held : List Object
  unclosed : List Object
  deriving DecidableEq, Repr

namespace Ledger

def blank : Ledger := ⟨.fresh, [], []⟩

/-- Nothing is owed, and no frame is there. -/
def isSettled (l : Ledger) : Bool := l.phase ≠ .framed && l.held.isEmpty && l.unclosed.isEmpty

variable (isPending : σ → Bool) (close : Method)

/-- The ledger behind a call, if the call is in order; `raised` tells of an exception behind it. -/
def settle (l : Ledger) : (c : Call) → c.Reply → Bool → Option Ledger
  | .exceptionCheck, _, _ | .exceptionDescribe, _, _ | .exceptionClear, _, _ => some l
  | .pushLocalFrame _, code, _ =>
    if l = blank then some ⟨if code = 0 then .framed else .gone, [], []⟩ else none
  | .popLocalFrame, _, _ => if l = ⟨.framed, [], []⟩ then some ⟨.gone, [], []⟩ else none
  | .deleteLocalRef object, _, _ =>
    if l.phase = .framed ∧ object ∈ l.held then some { l with held := l.held.erase object } else none
  | .callVoid stream method, _, _ =>
    if l.phase = .framed ∧ method = close ∧ stream ∈ l.unclosed then
      some { l with unclosed := l.unclosed.erase stream }
    else none
  | c, reply, raised =>
    if l.phase = .framed then
      some (if raised then l
        else { l with held := c.handsOut reply ++ l.held, unclosed := c.opens reply ++ l.unclosed })
    else none

/-- The ledger behind an exchange; one behind an exception must be exempt. -/
def enter (l : Ledger) (e : Exchange σ) : Option Ledger :=
  if isPending e.before.machine && !e.call.isExempt then none
  else l.settle close e.call e.reply (isPending e.after.machine)

/-- The ledger behind a trace in which every exchange is in order. -/
def follow (l : Ledger) (trace : List (Exchange σ)) : Option Ledger :=
  trace.foldlM (enter isPending close) l

variable {isPending close}

theorem follow_cons {l l' : Ledger} {e : Exchange σ} {trace : List (Exchange σ)} :
    l.follow isPending close (e :: trace) = some l' ↔
      ∃ next, l.enter isPending close e = some next ∧ next.follow isPending close trace = some l' := by
  simp only [follow, List.foldlM_cons, Option.bind_eq_bind, Option.bind_eq_some_iff]

theorem follow_snoc {l l' : Ledger} {trace : List (Exchange σ)} (e : Exchange σ)
    (h : l.follow isPending close trace = some l') :
    l.follow isPending close (trace ++ [e]) = l'.enter isPending close e := by
  simp only [follow, List.foldlM_append, List.foldlM_cons, List.foldlM_nil] at h ⊢
  rw [h]
  simp

theorem enter_eq_some {l l' : Ledger} {e : Exchange σ} :
    l.enter isPending close e = some l' ↔
      (isPending e.before.machine = true → e.call.isExempt = true) ∧
        l.settle close e.call e.reply (isPending e.after.machine) = some l' := by
  unfold enter
  cases isPending e.before.machine <;> cases e.call.isExempt <;> simp

/-- What a call hands out is held behind it, save what it lets go of. -/
theorem settle_held {l l' : Ledger} {c : Call} {reply : c.Reply} {raised : Bool}
    (h : l.settle close c reply raised = some l') :
    ((if raised then [] else c.handsOut reply) ++ l.held).Perm (c.letsGo ++ l'.held) := by
  cases c
  case pushLocalFrame | popLocalFrame | exceptionCheck | exceptionDescribe | exceptionClear =>
    grind [settle, Call.handsOut, Call.letsGo, blank]
  case deleteLocalRef object =>
    simp only [settle, Option.ite_none_right_eq_some, Option.some.injEq] at h
    obtain ⟨⟨-, hheld⟩, rfl⟩ := h
    simpa [Call.handsOut, Call.letsGo] using List.perm_cons_erase hheld
  all_goals
    simp only [settle, Option.ite_none_right_eq_some, Option.some.injEq] at h
    obtain ⟨-, rfl⟩ := h
    cases raised <;> simp [Call.handsOut, Call.letsGo]

/-- A stream that a call opens is to be closed behind it, save the one that it closes. -/
theorem settle_unclosed {l l' : Ledger} {c : Call} {reply : c.Reply} {raised : Bool}
    (h : l.settle close c reply raised = some l') :
    ((if raised then [] else c.opens reply) ++ l.unclosed).Perm (c.closes close ++ l'.unclosed) := by
  cases c
  case pushLocalFrame | popLocalFrame | exceptionCheck | exceptionDescribe | exceptionClear
      | deleteLocalRef =>
    grind [settle, Call.opens, Call.closes, blank]
  case callVoid stream method =>
    simp only [settle, Option.ite_none_right_eq_some, Option.some.injEq] at h
    obtain ⟨⟨-, rfl, hunclosed⟩, rfl⟩ := h
    simpa [Call.opens, Call.closes] using List.perm_cons_erase hunclosed
  all_goals
    simp only [settle, Option.ite_none_right_eq_some, Option.some.injEq] at h
    obtain ⟨-, rfl⟩ := h
    cases raised <;> simp [Call.opens, Call.closes]

theorem settle_frames {l l' : Ledger} {c : Call} {reply : c.Reply} {raised : Bool}
    (h : l.settle close c reply raised = some l') :
    c.pushes reply + l.phase.frames = c.pops + l'.phase.frames := by
  cases c <;> grind [settle, Call.pushes, Call.pops, Phase.frames, blank]

theorem settle_unframed {l l' : Ledger} {c : Call} {reply : c.Reply} {raised : Bool}
    (h : l.settle close c reply raised = some l') (hc : c.isUnframed reply = true) :
    l'.phase = .gone := by
  cases c <;> grind [settle, Call.isUnframed, blank]

/-- Once the frame is gone, calls are about an exception only. -/
theorem settle_gone {l l' : Ledger} {c : Call} {reply : c.Reply} {raised : Bool}
    (h : l.settle close c reply raised = some l') (hl : l.phase = .gone) :
    c.isAboutException = true ∧ l'.phase = .gone := by
  cases c <;> grind [settle, Call.isAboutException, blank]

/-- What each exchange balances, a trace does. -/
theorem follow_balances (gain loss : Exchange σ → List Object) (owed : Ledger → List Object)
    (hstep : ∀ {l l' : Ledger} {e : Exchange σ}, l.enter isPending close e = some l' →
      (gain e ++ owed l).Perm (loss e ++ owed l'))
    {l l' : Ledger} {trace : List (Exchange σ)} (h : l.follow isPending close trace = some l') :
    (trace.flatMap gain ++ owed l).Perm (trace.flatMap loss ++ owed l') := by
  induction trace generalizing l with
  | nil =>
    cases h
    exact .refl _
  | cons e trace ih =>
    obtain ⟨next, hnext, hrest⟩ := follow_cons.mp h
    have hfirst := List.perm_iff_count.mp (hstep hnext)
    have hlater := List.perm_iff_count.mp (ih hrest)
    rw [List.perm_iff_count]
    intro object
    have hfirst := hfirst object
    have hlater := hlater object
    simp only [List.flatMap_cons, List.count_append] at hfirst hlater ⊢
    omega

theorem follow_frames {l l' : Ledger} {trace : List (Exchange σ)}
    (h : l.follow isPending close trace = some l') :
    (trace.map fun e => e.call.pushes e.reply).sum + l.phase.frames =
      (trace.map fun e => e.call.pops).sum + l'.phase.frames := by
  induction trace generalizing l with
  | nil =>
    cases h
    rfl
  | cons e trace ih =>
    obtain ⟨next, hnext, hrest⟩ := follow_cons.mp h
    have hfirst := settle_frames (enter_eq_some.mp hnext).2
    have hlater := ih hrest
    simp only [List.map_cons, List.sum_cons]
    omega

theorem follow_calm {l l' : Ledger} {trace : List (Exchange σ)}
    (h : l.follow isPending close trace = some l') {e : Exchange σ} (he : e ∈ trace)
    (hraised : isPending e.before.machine = true) : e.call.isExempt = true := by
  induction trace generalizing l with
  | nil => simp at he
  | cons first trace ih =>
    obtain ⟨next, hnext, hrest⟩ := follow_cons.mp h
    rcases List.mem_cons.mp he with rfl | he
    · exact (enter_eq_some.mp hnext).1 hraised
    · exact ih hrest he

theorem follow_gone {l l' : Ledger} {trace : List (Exchange σ)}
    (h : l.follow isPending close trace = some l') (hl : l.phase = .gone) {e : Exchange σ}
    (he : e ∈ trace) : e.call.isAboutException = true := by
  induction trace generalizing l with
  | nil => simp at he
  | cons first trace ih =>
    obtain ⟨next, hnext, hrest⟩ := follow_cons.mp h
    obtain ⟨hfirst, hgone⟩ := settle_gone (enter_eq_some.mp hnext).2 hl
    rcases List.mem_cons.mp he with rfl | he
    · exact hfirst
    · exact ih hrest hgone he

theorem follow_unframed {l l' : Ledger} {trace : List (Exchange σ)}
    (h : l.follow isPending close trace = some l') :
    trace.Pairwise fun e e' =>
      e.call.isUnframed e.reply = true → e'.call.isAboutException = true := by
  induction trace generalizing l with
  | nil => exact .nil
  | cons e trace ih =>
    obtain ⟨next, hnext, hrest⟩ := follow_cons.mp h
    refine .cons (fun e' he' hgone => ?_) (ih hrest)
    exact follow_gone hrest (settle_unframed (enter_eq_some.mp hnext).2 hgone) he'

end Ledger

/-- The references that an exchange hands out without an exception. -/
def Exchange.handed (isPending : σ → Bool) (e : Exchange σ) : List Object :=
  if isPending e.after.machine then [] else e.call.handsOut e.reply

/-- The stream that an exchange opens without an exception. -/
def Exchange.opened (isPending : σ → Bool) (e : Exchange σ) : List Object :=
  if isPending e.after.machine then [] else e.call.opens e.reply

/-- The discipline of a lookup's calls. -/
structure IsDisciplined (isPending : σ → Bool) (close : Method) (trace : List (Exchange σ)) :
    Prop where
  /-- While an exception is pending, only exempt calls are made. -/
  calm : ∀ e ∈ trace, isPending e.before.machine = true → e.call.isExempt = true
  /-- As many frames are popped as were pushed. -/
  balanced : (trace.map fun e => e.call.pushes e.reply).sum = (trace.map fun e => e.call.pops).sum
  /-- Behind a frame that could not be pushed, or was popped, no reference is used any more. -/
  unframed : trace.Pairwise fun e e' =>
    e.call.isUnframed e.reply = true → e'.call.isAboutException = true
  /-- Every reference handed out is let go of once, and no other. -/
  released : (trace.flatMap (·.handed isPending)).Perm (trace.flatMap fun e => e.call.letsGo)
  /-- Every stream opened is closed once, and no other. -/
  closed : (trace.flatMap (·.opened isPending)).Perm (trace.flatMap fun e => e.call.closes close)
  /-- All of it happens in order: nothing is let go of or closed that is not owed by then, and
  nothing is owed when the frame is popped. -/
  ordered : ∃ l, Ledger.blank.follow isPending close trace = some l ∧ l.isSettled = true

theorem Ledger.follow_disciplined {isPending : σ → Bool} {close : Method} {l : Ledger}
    {trace : List (Exchange σ)} (h : blank.follow isPending close trace = some l)
    (hsettled : l.isSettled = true) : IsDisciplined isPending close trace := by
  obtain ⟨phase, held, unclosed⟩ := l
  simp only [isSettled, Bool.and_eq_true, decide_eq_true_eq, List.isEmpty_iff] at hsettled
  obtain ⟨⟨hphase, rfl⟩, rfl⟩ := hsettled
  have hframes := follow_frames h
  have hheld := follow_balances (·.handed isPending) (·.call.letsGo) Ledger.held
    (fun h => settle_held (enter_eq_some.mp h).2) h
  have hunclosed := follow_balances (·.opened isPending) (·.call.closes close) Ledger.unclosed
    (fun h => settle_unclosed (enter_eq_some.mp h).2) h
  have hnone : phase.frames = 0 := by
    cases phase with
    | framed => simp at hphase
    | fresh | gone => rfl
  simp only [blank, List.append_nil] at hheld hunclosed
  simp only [blank, show Phase.fresh.frames = 0 from rfl, hnone, Nat.add_zero] at hframes
  exact ⟨fun e he => follow_calm h he, hframes, follow_unframed h, hheld, hunclosed,
    _, h, by simp [isSettled, hphase]⟩

section Books

variable (isPending : σ → Bool) (close : Method)

/-- The trace has led to this ledger, and an exception is pending or not. -/
def Stands (l : Ledger) (raised : Bool) (w : World (Traced σ)) : Prop :=
  Ledger.blank.follow isPending close w.machine.trace = some l ∧ isPending w.machine.machine = raised

/-- From this ledger a step goes on in order, and ends with a result, a ledger and an exception or
none as `Q` tells. -/
def Books (l : Ledger) (raised : Bool) (x : StateM (World (Traced σ)) α)
    (Q : α → Ledger → Bool → Prop) : Prop :=
  ∀ w, Stands isPending close l raised w →
    ∃ l' raised', Stands isPending close l' raised' (x.run w).2 ∧ Q (x.run w).1 l' raised'

/-- A step that ends without an exception, with a result and a ledger as `Q` tells. -/
abbrev Settles (l : Ledger) (x : StateM (World (Traced σ)) α) (Q : α → Ledger → Prop) : Prop :=
  Books isPending close l false x fun a l' raised => raised = false ∧ Q a l'

/-- A step that ends without an exception, with this ledger. -/
abbrev Reaches (l l' : Ledger) (x : StateM (World (Traced σ)) α) : Prop :=
  Settles isPending close l x fun _ l'' => l'' = l'

variable {isPending close} {l : Ledger} {raised : Bool}

namespace Books

theorem pure {a : α} {Q : α → Ledger → Bool → Prop} (h : Q a l raised) :
    Books isPending close l raised (Pure.pure a) Q :=
  fun _ hw => ⟨l, raised, hw, h⟩

theorem bind {x : StateM (World (Traced σ)) α} {f : α → StateM (World (Traced σ)) β}
    {R : α → Ledger → Bool → Prop} {Q : β → Ledger → Bool → Prop}
    (hx : Books isPending close l raised x R)
    (hf : ∀ a l' raised', R a l' raised' → Books isPending close l' raised' (f a) Q) :
    Books isPending close l raised (x >>= f) Q := by
  intro w hw
  obtain ⟨l', raised', hstands, hR⟩ := hx w hw
  exact hf _ _ _ hR _ hstands

theorem act_bind {x : Act (Traced σ) α} {f : α → Act (Traced σ) β}
    {R : Except Fault α → Ledger → Bool → Prop} {Q : Except Fault β → Ledger → Bool → Prop}
    (hx : Books isPending close l raised x.run R)
    (hok : ∀ a l' raised', R (.ok a) l' raised' → Books isPending close l' raised' (f a).run Q)
    (herror : ∀ fault l' raised', R (.error fault) l' raised' → Q (.error fault) l' raised') :
    Books isPending close l raised (x >>= f).run Q := by
  rw [ExceptT.run_bind]
  refine bind hx fun result l' raised' hR => ?_
  cases result with
  | ok a => exact hok a l' raised' hR
  | error fault => exact pure (herror fault l' raised' hR)

theorem lift_bind {x : StateM (World (Traced σ)) α} {f : α → Act (Traced σ) β}
    {R : α → Ledger → Bool → Prop} {Q : Except Fault β → Ledger → Bool → Prop}
    (hx : Books isPending close l raised x R)
    (hf : ∀ a l' raised', R a l' raised' → Books isPending close l' raised' (f a).run Q) :
    Books isPending close l raised ((liftM x : Act (Traced σ) α) >>= f).run Q :=
  bind hx hf

theorem act_throw {fault : Fault} {Q : Except Fault α → Ledger → Bool → Prop}
    (h : Q (.error fault) l raised) :
    Books isPending close l raised (throw fault : Act (Traced σ) α).run Q := pure h

theorem act_pure {a : α} {Q : Except Fault α → Ledger → Prop} (h : Q (.ok a) l) :
    Settles isPending close l (Pure.pure a : Act (Traced σ) α).run Q := pure ⟨rfl, h⟩

/-- A step behind one that ends without an exception. -/
theorem settles_bind {x : Act (Traced σ) α} {f : α → Act (Traced σ) β}
    {R : Except Fault α → Ledger → Prop} {Q : Except Fault β → Ledger → Prop}
    (hx : Settles isPending close l x.run R)
    (hok : ∀ a l', R (.ok a) l' → Settles isPending close l' (f a).run Q)
    (herror : ∀ fault l', R (.error fault) l' → Q (.error fault) l') :
    Settles isPending close l (x >>= f).run Q := by
  refine act_bind hx ?_ ?_
  · rintro a l' _ ⟨rfl, hR⟩
    exact hok a l' hR
  · rintro fault l' _ ⟨rfl, hR⟩
    exact ⟨rfl, herror fault l' hR⟩

theorem andThen {l₁ l₂ : Ledger} {body : Act (Traced σ) α} {after : StateM (World (Traced σ)) Unit}
    (hbody : Reaches isPending close l l₁ body.run) (hafter : Reaches isPending close l₁ l₂ after) :
    Reaches isPending close l l₂ (body.andThen after).run := by
  refine bind hbody ?_
  rintro result _ _ ⟨rfl, rfl⟩
  refine bind hafter ?_
  rintro _ _ _ ⟨rfl, rfl⟩
  exact pure ⟨rfl, rfl⟩

theorem checkText (text : String) :
    Reaches isPending close l l (Machine.checkText text : Act (Traced σ) Unit).run := by
  unfold Machine.checkText
  split
  · exact act_throw ⟨rfl, rfl⟩
  · exact pure ⟨rfl, rfl⟩

variable (m : Machine σ)

/-- A call that the ledger accepts. -/
theorem call (c : Call) {Q : c.Reply → Ledger → Bool → Prop}
    (hexempt : raised = true → c.isExempt = true)
    (h : ∀ w, isPending w.machine = raised → ∃ l',
      l.settle close c (m.exchange c w).reply (isPending (m.exchange c w).after.machine) = some l' ∧
        Q (m.exchange c w).reply l' (isPending (m.exchange c w).after.machine)) :
    Books isPending close l raised (m.traced.call c) Q := by
  rintro w ⟨hfollow, hraised⟩
  obtain ⟨l', hsettle, hQ⟩ := h w.untraced hraised
  rw [Machine.run_call_traced]
  refine ⟨l', _, ⟨?_, rfl⟩, hQ⟩
  rw [Ledger.follow_snoc _ hfollow, Ledger.enter_eq_some]
  exact ⟨fun h => hexempt (hraised.symm.trans h), hsettle⟩

/-- An exempt call without effect on the ledger. -/
theorem exempt {c : Call} (hc : c.isExempt = true)
    (hsettle : ∀ reply raised', l.settle close c reply raised' = some l) :
    Books isPending close l raised (m.traced.call c) fun _ l' _ => l' = l :=
  call m c (fun _ => hc) fun _ _ => ⟨l, hsettle _ _, rfl⟩

variable {m} (hm : m.Throws isPending)
include hm

/-- A check ends without an exception, and fails if there was one. -/
theorem checkException (what : String) :
    Books isPending close l raised (m.traced.checkException what).run fun result l' raised' =>
      raised' = false ∧ l' = l ∧
        result = if raised then .error (.jni (.raised what)) else .ok () := by
  have hcheck : Books isPending close l raised (m.traced.call .exceptionCheck)
      fun reply l' raised' => reply = raised ∧ l' = l ∧ (raised = false → raised' = false) := by
    refine call m _ (fun _ => rfl) fun w hw => ⟨l, rfl, (hm.check w).trans hw, rfl, fun hnone => ?_⟩
    exact hm.exempt _ w rfl (hw.trans hnone)
  refine lift_bind hcheck ?_
  rintro reply l' raised' ⟨rfl, rfl, hcalm⟩
  cases reply with
  | false => exact pure ⟨hcalm rfl, rfl, rfl⟩
  | true =>
    have hclear : ∀ raised', Books isPending close l' raised' (do
        m.traced.call .exceptionClear
        throw (.jni (.raised what)) : Act (Traced σ) Unit).run fun result l'' raised'' =>
          raised'' = false ∧ l'' = l' ∧ result = .error (.jni (.raised what)) := by
      intro raised'
      have hcleared : Books isPending close l' raised' (m.traced.call .exceptionClear)
          fun _ l'' raised'' => raised'' = false ∧ l'' = l' :=
        call m _ (fun _ => rfl) fun w _ => ⟨l', rfl, hm.clear w, rfl⟩
      refine lift_bind hcleared ?_
      rintro _ _ _ ⟨rfl, rfl⟩
      exact act_throw ⟨rfl, rfl, rfl⟩
    simp only [if_true]
    cases m.traced.isNoting with
    | false => exact hclear _
    | true =>
      refine lift_bind (exempt m rfl fun _ _ => rfl) ?_
      rintro _ _ raised'' rfl
      exact hclear raised''

theorem note (level : Level) (text : String) :
    Reaches isPending close l l (m.traced.note level text) :=
  fun w hw => ⟨l, false, ⟨hw.1, hm.note level text w.untraced hw.2⟩, rfl, rfl⟩

/-- A call and the check behind it. The ledger behind the call may depend on its reply, and on
whether it left an exception; if it did, the step is over. -/
theorem asks {c : Call} {what : String} {k : c.Reply → Act (Traced σ) α}
    {Q : Except Fault α → Ledger → Prop} (next : c.Reply → Bool → Ledger)
    (hsettle : ∀ reply raised, l.settle close c reply raised = some (next reply raised))
    (hk : ∀ reply, Settles isPending close (next reply false) (k reply).run Q)
    (herror : ∀ reply fault, Q (.error fault) (next reply true)) :
    Settles isPending close l (do
      let reply ← m.traced.call c
      m.traced.checkException what
      k reply : Act (Traced σ) α).run Q := by
  have hcall : Books isPending close l false (m.traced.call c)
      fun reply l' raised => l' = next reply raised :=
    call m c (by simp) fun w _ => ⟨_, hsettle _ _, rfl⟩
  refine lift_bind hcall ?_
  rintro reply _ raised rfl
  refine act_bind (checkException hm what) ?_ ?_
  · rintro _ _ _ ⟨rfl, rfl, hresult⟩
    cases raised with
    | false => exact hk reply
    | true => cases hresult
  · rintro fault _ _ ⟨rfl, rfl, hresult⟩
    cases raised with
    | false => cases hresult
    | true => exact ⟨rfl, herror reply fault⟩

/-- A reference that was handed out is let go of when what uses it is done. -/
theorem holding {held unclosed unclosed' : List Object} (object : Object) {body : Act (Traced σ) α}
    (hbody : Reaches isPending close ⟨.framed, object :: held, unclosed⟩
      ⟨.framed, object :: held, unclosed'⟩ body.run) :
    Reaches isPending close ⟨.framed, object :: held, unclosed⟩ ⟨.framed, held, unclosed'⟩
      (m.traced.holding object body).run := by
  refine andThen hbody (call m _ (by simp) fun w hw => ⟨_, ?_, hm.exempt _ w rfl hw, rfl⟩)
  simp [Ledger.settle]

variable {held unclosed : List Object}

theorem newString (text : String) :
    Settles isPending close ⟨.framed, held, unclosed⟩ (m.traced.newString text).run
      fun result l' => l' = ⟨.framed, result.toOption.toList ++ held, unclosed⟩ := by
  unfold Machine.newString
  refine settles_bind (checkText text) ?_ (by rintro _ _ rfl; rfl)
  rintro _ _ rfl
  simp only [Machine.checked, bind_assoc, pure_bind]
  refine asks hm (fun reply raised =>
    ⟨.framed, (if raised then [] else reply.toList) ++ held, unclosed⟩) ?_ ?_ fun _ _ => rfl
  · intro reply raised
    cases raised <;> simp [Ledger.settle, Call.handsOut, Call.opens]
  · intro reply
    cases reply with
    | some string => exact act_pure rfl
    | none => exact act_throw ⟨rfl, rfl⟩

/-- A method called without an argument gives a reference, but not a stream. -/
theorem callObject (receiver : Object) (method : Method) :
    Settles isPending close ⟨.framed, held, unclosed⟩ (m.traced.callObject receiver method none).run
      fun result l' => l' = ⟨.framed, result.toOption.join.toList ++ held, unclosed⟩ := by
  refine asks hm (fun reply raised =>
    ⟨.framed, (if raised then [] else reply.toList) ++ held, unclosed⟩) ?_ ?_ fun _ _ => rfl
  · intro reply raised
    cases raised <;> simp [Ledger.settle, Call.handsOut, Call.opens]
  · exact fun reply => act_pure rfl

theorem byteArray (array : Object) :
    Reaches isPending close ⟨.framed, held, unclosed⟩ ⟨.framed, held, unclosed⟩
      (m.traced.byteArray array).run := by
  refine asks hm (fun _ _ => ⟨.framed, held, unclosed⟩) ?_ ?_ fun _ _ => rfl
  · intro reply raised
    cases raised <;> simp [Ledger.settle, Call.handsOut, Call.opens]
  · intro length
    refine asks hm (fun _ _ => ⟨.framed, held, unclosed⟩) ?_ (fun _ => act_pure rfl) fun _ _ => rfl
    intro reply raised
    cases raised <;> simp [Ledger.settle, Call.handsOut, Call.opens]

/-- A stream counts as closed however its method ends. -/
theorem closing (stream : Object) :
    Reaches isPending close ⟨.framed, held, stream :: unclosed⟩ ⟨.framed, held, unclosed⟩
      (m.traced.callVoid stream close).run := by
  have hcheck : m.traced.checkException "CallVoidMethodA" =
      (do m.traced.checkException "CallVoidMethodA"; Pure.pure ()) := bind_pure_unit.symm
  unfold Machine.callVoid
  rw [hcheck]
  refine asks hm (fun _ _ => ⟨.framed, held, unclosed⟩) ?_ (fun _ => act_pure rfl) fun _ _ => rfl
  intro reply raised
  simp [Ledger.settle]

/-- What is done within the one frame owes nothing at its end. -/
theorem framed (capacity : Nat) {body : Act (Traced σ) α}
    (hbody : Reaches isPending close ⟨.framed, [], []⟩ ⟨.framed, [], []⟩ body.run) :
    Reaches isPending close .blank ⟨.gone, [], []⟩ (m.traced.framed capacity body).run := by
  have hpush : Books isPending close .blank false (m.traced.call (.pushLocalFrame capacity))
      fun code l' raised => l' = ⟨if code = 0 then .framed else .gone, [], []⟩ ∧
        (code = 0 → raised = false) :=
    call m _ (by simp) fun w hw => ⟨_, by simp [Ledger.settle], rfl, fun h => hm.push _ w h hw⟩
  have hpop : Reaches isPending close ⟨.framed, [], []⟩ ⟨.gone, [], []⟩
      (m.traced.call .popLocalFrame) :=
    call m _ (by simp) fun w hw => ⟨_, by simp [Ledger.settle], hm.exempt _ w rfl hw, rfl⟩
  have hpushed : Reaches isPending close ⟨.framed, [], []⟩ ⟨.gone, [], []⟩
      (body.andThen (m.traced.call .popLocalFrame)).run := andThen hbody hpop
  refine lift_bind hpush ?_
  rintro code _ raised ⟨rfl, hcalm⟩
  by_cases hcode : code = 0
  · simpa [hcode, hcalm hcode] using hpushed
  · simp only [hcode, ne_eq, not_false_eq_true, if_true, if_false]
    refine act_bind (checkException hm _) ?_ ?_
    · rintro _ _ _ ⟨rfl, rfl, -⟩
      exact act_throw ⟨rfl, rfl⟩
    · rintro fault _ _ ⟨rfl, rfl, -⟩
      exact ⟨rfl, rfl⟩

end Books

namespace Lookup

variable {m : Machine σ} (hm : m.Throws isPending) (methods : LookupMethods)
  {held unclosed : List Object}
include hm

theorem settles_openResource (loader : Option Object) (name : Object) :
    Settles isPending close ⟨.framed, held, unclosed⟩
      (openResource m.traced methods loader name).run fun result l' =>
        l' = ⟨.framed, result.toOption.join.toList ++ held,
          result.toOption.join.toList ++ unclosed⟩ := by
  cases loader with
  | none =>
    refine Books.asks hm (fun reply raised => ⟨.framed, (if raised then [] else reply.toList) ++ held,
      (if raised then [] else reply.toList) ++ unclosed⟩) ?_ (fun _ => Books.act_pure rfl)
      fun _ _ => rfl
    intro reply raised
    cases raised <;> simp [Ledger.settle, Call.handsOut, Call.opens]
  | some loader =>
    refine Books.asks hm (fun reply raised => ⟨.framed, (if raised then [] else reply.toList) ++ held,
      (if raised then [] else reply.toList) ++ unclosed⟩) ?_ (fun _ => Books.act_pure rfl)
      fun _ _ => rfl
    intro reply raised
    cases raised <;> simp [Ledger.settle, Call.handsOut, Call.opens]

theorem reaches_readStream (stream : Object) :
    Reaches isPending close ⟨.framed, held, unclosed⟩ ⟨.framed, held, unclosed⟩
      (readStream m.traced methods stream).run := by
  refine Books.settles_bind (Books.callObject hm stream methods.readAll) ?_
    (by rintro _ _ rfl; rfl)
  rintro array _ rfl
  cases array with
  | none => exact Books.act_pure rfl
  | some array =>
    refine Books.holding hm array ?_
    refine Books.settles_bind (Books.byteArray hm array) ?_ (by rintro _ _ rfl; rfl)
    rintro _ _ rfl
    exact Books.act_pure rfl

theorem reaches_closeStream (resource : String) (stream : Object) :
    Reaches isPending methods.close ⟨.framed, held, stream :: unclosed⟩ ⟨.framed, held, unclosed⟩
      (closeStream m.traced methods resource stream) := by
  refine Books.bind (Books.closing hm stream) ?_
  rintro result _ _ ⟨rfl, rfl⟩
  cases result with
  | ok _ => exact Books.pure ⟨rfl, rfl⟩
  | error fault => exact Books.note hm _ _

/-- A lookup under way begins with nothing and owes nothing at its end. -/
theorem reaches_readResource (loader : Option Object) (resource : String) :
    Reaches isPending methods.close .blank ⟨.gone, [], []⟩
      (readResource m.traced methods loader resource).run := by
  refine Books.framed hm 8 ?_
  refine Books.settles_bind (Books.newString hm resource) ?_ (by rintro _ _ rfl; rfl)
  rintro name _ rfl
  refine Books.holding hm name ?_
  refine Books.settles_bind (settles_openResource hm methods loader name) ?_ (by rintro _ _ rfl; rfl)
  rintro stream _ rfl
  cases stream with
  | none => exact Books.act_pure rfl
  | some stream =>
    exact Books.holding hm stream (Books.andThen (reaches_readStream hm methods stream)
      (reaches_closeStream hm methods resource stream))

theorem settles_load (loader : Option Object) (name : String) :
    Settles isPending methods.close .blank (load m.traced methods loader name) fun _ l' =>
      l'.isSettled = true := by
  intro w hw
  cases hmark : w.agent.lookingUp with
  | true =>
    have hskip : Reaches isPending methods.close .blank .blank (skip m.traced name) := by
      refine Books.bind (Books.note hm _ _) ?_
      rintro _ _ _ ⟨rfl, rfl⟩
      exact Books.pure ⟨rfl, rfl⟩
    obtain ⟨l', raised, hstands, rfl, rfl⟩ := hskip (marked false w) hw
    rw [load, run_guarded_set _ _ hmark]
    exact ⟨_, _, hstands, rfl, rfl⟩
  | false =>
    obtain ⟨l', raised, hstands, rfl, rfl⟩ :=
      reaches_readResource hm methods loader (name ++ ".class") (marked true w) hw
    rw [load, run_guarded_clear _ _ hmark]
    exact ⟨_, _, hstands, rfl, rfl⟩

end Lookup

end Books

namespace Lookup

/-- Whatever a machine replies and whichever of its calls leave an exception, a lookup keeps to the
discipline, and leaves no exception behind. The lookup is the one of the machine without a trace. -/
theorem load_disciplined (m : Machine σ) (isPending : σ → Bool) (hm : m.Throws isPending)
    (methods : LookupMethods) (loader : Option Object) (name : String) (w : World σ)
    (hcalm : isPending w.machine = false) :
    let (answer, after) := (load m.traced methods loader name).run w.traced
    (load m methods loader name).run w = (answer, after.untraced) ∧
      isPending after.machine.machine = false ∧
      IsDisciplined isPending methods.close after.machine.trace := by
  obtain ⟨l, raised, ⟨hfollow, hcalm'⟩, rfl, hsettled⟩ :=
    settles_load hm methods loader name w.traced ⟨rfl, hcalm⟩
  exact ⟨mirrors_load m methods loader name w.traced, hcalm',
    Ledger.follow_disciplined hfollow hsettled⟩

end Lookup

namespace Stage

/-- A staged machine raises exceptions only where the discipline expects them. -/
theorem machineWith_throws (isNoting : Bool)
    (hook : Agent.Definition → Staging Agent.Outputs) :
    (machineWith isNoting hook).Throws (·.isPending) where
  check _ := rfl
  clear _ := rfl
  exempt c w hc hcalm := by
    cases c with
    | exceptionCheck | exceptionDescribe | deleteLocalRef _ | popLocalFrame => exact hcalm
    | exceptionClear => rfl
    | _ => simp [Call.isExempt] at hc
  push n w h hcalm := by
    have hrun : ((machineWith isNoting hook).call (.pushLocalFrame n)).run w =
        (reply hook (.pushLocalFrame n)).run ((record (.called (.pushLocalFrame n))).run w).2 := rfl
    simp only [Machine.exchange, hrun, reply, StateT.run_bind, StateT.run_get, pure_bind] at h ⊢
    have hscript : ((record (.called (.pushLocalFrame n))).run w).2.machine.script =
      w.machine.script := rfl
    rw [hscript] at h ⊢
    cases hreaction : w.machine.script.reaction (.pushLocalFrame n) with
    | none => exact hcalm
    | some reaction =>
      rw [hreaction] at h
      cases reaction with
      | code k =>
        simp only [] at h ⊢
        by_cases hk : k = 0
        · simp only [hk, if_true]
          exact hcalm
        · simp only [hk, if_false]
          exact hcalm
      | null | throws => exact absurd (show (-1 : Int32) = 0 from h) (by decide)
  note level text w hcalm := by
    cases isNoting <;> exact hcalm

end Stage

namespace Lookup

def stagedMethods : LookupMethods :=
  ⟨.lasting (.type "java/lang/ClassLoader"), ⟨"getResourceAsStream"⟩, ⟨"getSystemResourceAsStream"⟩,
    ⟨"readAllBytes"⟩, ⟨"close"⟩⟩

/-- A world with one resource that can be opened, but neither read nor closed. -/
def unreadable : World Stage where
  agent := Memory.fresh
  machine := Stage.opening [("CallObjectMethodA", .throws), ("CallVoidMethodA", .throws)]
    [("system", [⟨"x/A.class", [1], []⟩])] []

/-- Neither reading nor closing works, and everything is let go of all the same. -/
theorem load_disciplined_unreadable :
    let m := Stage.machineWith false fun _ => pure .unwritten
    let (answer, after) := (load m.traced stagedMethods none "x/A").run unreadable.traced
    ((load m stagedMethods none "x/A").run unreadable = (answer, after.untraced) ∧
      after.machine.machine.isPending = false ∧
      IsDisciplined (·.isPending) stagedMethods.close after.machine.trace) ∧
    after.machine.trace.map (·.call) =
      [.pushLocalFrame 8, .newString "x/A.class", .exceptionCheck,
        .callStaticObject stagedMethods.loaderType stagedMethods.getSystemResource
          (.string "x/A.class"), .exceptionCheck,
        .callObject (.stream "system" "x/A.class") stagedMethods.readAll none, .exceptionCheck,
        .exceptionClear,
        .callVoid (.stream "system" "x/A.class") stagedMethods.close, .exceptionCheck,
        .exceptionClear,
        .deleteLocalRef (.stream "system" "x/A.class"), .deleteLocalRef (.string "x/A.class"),
        .popLocalFrame] :=
  ⟨load_disciplined _ _ (Stage.machineWith_throws _ _) _ _ _ unreadable rfl, by decide +kernel⟩

end Lookup

end ThreadWatch.Vm
