import ThreadWatch.Proofs.Vm.Nesting

/-!
# Traced machines

A machine that keeps what is asked of it and what it answers. Only the calls of the steps that are
given the traced machine are kept: what loads within a call ask, they ask of the machine below.
-/

namespace ThreadWatch.Vm

variable {σ α β : Type}

/-- A call with its reply, and the world before and behind it. -/
structure Exchange (σ : Type) where
  call : Call
  reply : call.Reply
  before : World σ
  after : World σ

structure Traced (σ : Type) where
  machine : σ
  trace : List (Exchange σ)

/-- The world without the trace. -/
def World.untraced (w : World (Traced σ)) : World σ := ⟨w.agent, w.machine.machine⟩

/-- The world with a trace to be begun. -/
def World.traced (w : World σ) : World (Traced σ) := ⟨w.agent, w.machine, []⟩

/-- What a step of the machine below makes of a traced world. -/
def Traced.below (x : StateM (World σ) α) : StateM (World (Traced σ)) α := do
  let (a, after) := x.run (← get).untraced
  modify fun w => ⟨after.agent, { w.machine with machine := after.machine }⟩
  return a

/-- The machine with a trace of its exchanges. -/
def Machine.traced (m : Machine σ) : Machine (Traced σ) where
  call c := do
    let before := (← get).untraced
    let reply ← Traced.below (m.call c)
    modify fun w => { w with machine := { w.machine with
      trace := w.machine.trace ++ [⟨c, reply, before, w.untraced⟩] } }
    return reply
  print line := Traced.below (m.print line)
  note level text := Traced.below (m.note level text)
  isNoting := m.isNoting

/-- What a call does, with its exchange. -/
def Machine.exchange (m : Machine σ) (c : Call) (w : World σ) : Exchange σ :=
  ⟨c, ((m.call c).run w).1, w, ((m.call c).run w).2⟩

theorem Machine.run_call_traced (m : Machine σ) (c : Call) (w : World (Traced σ)) :
    (m.traced.call c).run w = ((m.exchange c w.untraced).reply,
      ⟨(m.exchange c w.untraced).after.agent, (m.exchange c w.untraced).after.machine,
        w.machine.trace ++ [m.exchange c w.untraced]⟩) :=
  rfl

/-- A step does to a traced world what another does to the world below. -/
def Mirrors (x : StateM (World (Traced σ)) α) (y : StateM (World σ) α) : Prop :=
  ∀ w, y.run w.untraced = ((x.run w).1, (x.run w).2.untraced)

namespace Mirrors

theorem pure (a : α) :
    Mirrors (Pure.pure a : StateM (World (Traced σ)) α) (Pure.pure a) := fun _ => rfl

theorem bind {x : StateM (World (Traced σ)) α} {y : StateM (World σ) α}
    {f : α → StateM (World (Traced σ)) β} {g : α → StateM (World σ) β} (h : Mirrors x y)
    (hf : ∀ a, Mirrors (f a) (g a)) : Mirrors (x >>= f) (y >>= g) := by
  intro w
  rw [StateT.run_bind, StateT.run_bind, h w]
  exact hf _ _

theorem act_bind {x : Act (Traced σ) α} {y : Act σ α} {f : α → Act (Traced σ) β} {g : α → Act σ β}
    (h : Mirrors x.run y.run) (hf : ∀ a, Mirrors (f a).run (g a).run) :
    Mirrors (x >>= f).run (y >>= g).run := by
  rw [ExceptT.run_bind, ExceptT.run_bind]
  refine bind h fun result => ?_
  cases result with
  | ok a => exact hf a
  | error fault => exact pure _

theorem lift {x : StateM (World (Traced σ)) α} {y : StateM (World σ) α} (h : Mirrors x y) :
    Mirrors (liftM x : Act (Traced σ) α).run (liftM y : Act σ α).run :=
  bind h fun a => pure (Except.ok a)

theorem act_pure (a : α) :
    Mirrors (Pure.pure a : Act (Traced σ) α).run (Pure.pure a : Act σ α).run := fun _ => rfl

theorem act_throw (fault : Fault) :
    Mirrors (throw fault : Act (Traced σ) α).run (throw fault : Act σ α).run := fun _ => rfl

theorem andThen {body : Act (Traced σ) α} {body' : Act σ α}
    {after : StateM (World (Traced σ)) Unit} {after' : StateM (World σ) Unit}
    (hbody : Mirrors body.run body'.run) (hafter : Mirrors after after') :
    Mirrors (body.andThen after).run (body'.andThen after').run :=
  bind hbody fun _ => bind hafter fun _ => pure _

variable (m : Machine σ)

theorem call (c : Call) : Mirrors (m.traced.call c) (m.call c) := fun _ => rfl

theorem act_call (c : Call) : Mirrors (liftM (m.traced.call c) : Act (Traced σ) c.Reply).run
    (liftM (m.call c) : Act σ c.Reply).run := (call m c).lift

theorem note (level : Level) (text : String) : Mirrors (m.traced.note level text) (m.note level text) :=
  fun _ => rfl

theorem checkException (what : String) :
    Mirrors (m.traced.checkException what).run (m.checkException what).run := by
  refine act_bind (act_call m _) fun raised => ?_
  cases raised with
  | false => exact act_pure _
  | true =>
    have hclear : Mirrors (do
          m.traced.call .exceptionClear
          throw (.jni (.raised what)) : Act (Traced σ) Unit).run
        (do
          m.call .exceptionClear
          throw (.jni (.raised what)) : Act σ Unit).run :=
      act_bind (act_call m _) fun _ => act_throw _
    simp only [if_true]
    have hnoting : m.traced.isNoting = m.isNoting := rfl
    rw [hnoting]
    cases m.isNoting with
    | false => exact hclear
    | true => exact act_bind (act_call m _) fun _ => hclear

theorem checked (what : String) (reply : Option α) :
    Mirrors (m.traced.checked what reply).run (m.checked what reply).run :=
  act_bind (checkException m what) fun _ => act_pure _

theorem checkText (text : String) :
    Mirrors (Machine.checkText text : Act (Traced σ) Unit).run
      (Machine.checkText text : Act σ Unit).run := by
  unfold Machine.checkText
  split
  · exact act_throw _
  · exact act_pure _

theorem holding (object : Object) {body : Act (Traced σ) α} {body' : Act σ α}
    (hbody : Mirrors body.run body'.run) :
    Mirrors (m.traced.holding object body).run (m.holding object body').run :=
  andThen hbody (call m _)

theorem newString (text : String) :
    Mirrors (m.traced.newString text).run (m.newString text).run := by
  unfold Machine.newString
  refine act_bind (checkText text) fun _ => ?_
  refine act_bind (act_call m _) fun reply => ?_
  refine act_bind (checked m _ reply) fun found => ?_
  cases found with
  | some string => exact act_pure _
  | none => exact act_throw _

theorem callObject (receiver : Object) (method : Method) (argument : Option Object) :
    Mirrors (m.traced.callObject receiver method argument).run
      (m.callObject receiver method argument).run :=
  act_bind (act_call m _) fun reply => checked m _ reply

theorem callStaticObject (type : Object) (method : Method) (argument : Object) :
    Mirrors (m.traced.callStaticObject type method argument).run
      (m.callStaticObject type method argument).run :=
  act_bind (act_call m _) fun reply => checked m _ reply

theorem callVoid (receiver : Object) (method : Method) :
    Mirrors (m.traced.callVoid receiver method).run (m.callVoid receiver method).run :=
  act_bind (act_call m _) fun _ => checkException m _

theorem byteArray (array : Object) :
    Mirrors (m.traced.byteArray array).run (m.byteArray array).run := by
  refine act_bind (act_call m _) fun length => ?_
  refine act_bind (checkException m _) fun _ => ?_
  refine act_bind (act_call m _) fun filled => ?_
  exact act_bind (checkException m _) fun _ => act_pure _

theorem framed (capacity : Nat) {body : Act (Traced σ) α} {body' : Act σ α}
    (hbody : Mirrors body.run body'.run) :
    Mirrors (m.traced.framed capacity body).run (m.framed capacity body').run := by
  refine act_bind (act_call m _) fun code => ?_
  have hpushed : Mirrors (body.andThen (m.traced.call .popLocalFrame)).run
      (body'.andThen (m.call .popLocalFrame)).run := andThen hbody (call m _)
  split
  · refine act_bind (checkException m _) fun _ => ?_
    exact act_bind (act_throw _) fun _ => hpushed
  · exact hpushed

end Mirrors

namespace Lookup

variable (m : Machine σ) (methods : LookupMethods)

theorem mirrors_readStream (stream : Object) :
    Mirrors (readStream m.traced methods stream).run (readStream m methods stream).run := by
  refine Mirrors.act_bind (Mirrors.callObject m _ _ _) fun array => ?_
  cases array with
  | none => exact Mirrors.act_pure _
  | some array =>
    exact Mirrors.holding m array
      (Mirrors.act_bind (Mirrors.byteArray m array) fun _ => Mirrors.act_pure _)

theorem mirrors_closeStream (resource : String) (stream : Object) :
    Mirrors (closeStream m.traced methods resource stream)
      (closeStream m methods resource stream) := by
  refine Mirrors.bind (Mirrors.callVoid m _ _) fun result => ?_
  cases result with
  | ok _ => exact Mirrors.pure _
  | error fault => exact Mirrors.note m _ _

theorem mirrors_readResource (loader : Option Object) (resource : String) :
    Mirrors (readResource m.traced methods loader resource).run
      (readResource m methods loader resource).run := by
  refine Mirrors.framed m 8 (Mirrors.act_bind (Mirrors.newString m resource) fun name => ?_)
  refine Mirrors.holding m name (Mirrors.act_bind ?_ fun stream => ?_)
  · cases loader with
    | none => exact Mirrors.callStaticObject m _ _ _
    | some loader => exact Mirrors.callObject m _ _ _
  · cases stream with
    | none => exact Mirrors.act_pure _
    | some stream =>
      exact Mirrors.holding m stream
        (Mirrors.andThen (mirrors_readStream m methods stream) (mirrors_closeStream m methods _ _))

theorem mirrors_guarded {refuse body : StateM (World (Traced σ)) α}
    {refuse' body' : StateM (World σ) α} (hrefuse : Mirrors refuse refuse')
    (hbody : Mirrors body body') : Mirrors (guarded refuse body) (guarded refuse' body') := by
  intro w
  cases hmark : w.agent.lookingUp with
  | true =>
    rw [run_guarded_set refuse body hmark, run_guarded_set refuse' body' (w := w.untraced) hmark]
    exact hrefuse (marked false w)
  | false =>
    have h := hbody (marked true w)
    rw [run_guarded_clear refuse body hmark, run_guarded_clear refuse' body' (w := w.untraced) hmark,
      show marked true w.untraced = (marked true w).untraced from rfl, h]
    rfl

/-- A load is the same whether its calls are traced or not. -/
theorem mirrors_load (loader : Option Object) (name : String) :
    Mirrors (load m.traced methods loader name) (load m methods loader name) := by
  refine mirrors_guarded ?_ ?_
  · exact Mirrors.bind (Mirrors.note m _ _) fun _ => Mirrors.pure _
  · exact Mirrors.bind (mirrors_readResource m methods loader _) fun _ => Mirrors.pure _

end Lookup

end ThreadWatch.Vm
