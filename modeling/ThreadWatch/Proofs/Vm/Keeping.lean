import ThreadWatch.Vm.Lookup

/-!
# What a lookup keeps

A lookup touches the world only through calls and notes of its machine. So whatever every call and
every note keep, the lookup keeps, however its calls are answered.
-/

namespace ThreadWatch.Vm

variable {σ α β : Type}

/-- From every world in `P` the step ends in a world in `Q`, whatever comes of it. -/
def Leads (P Q : World σ → Prop) (x : StateM (World σ) α) : Prop := ∀ w, P w → Q (x.run w).2

abbrev Keeps (P : World σ → Prop) (x : StateM (World σ) α) : Prop := Leads P P x

variable {P Q R : World σ → Prop}

theorem Leads.bind {x : StateM (World σ) α} {f : α → StateM (World σ) β} (hx : Leads P Q x)
    (hf : ∀ a, Leads Q R (f a)) : Leads P R (x >>= f) :=
  fun w hw => hf _ _ (hx w hw)

theorem Keeps.pure (a : α) : Keeps P (pure a : StateM (World σ) α) := fun _ hw => hw

theorem Leads.act_bind {x : Act σ α} {f : α → Act σ β} (hx : Leads P Q x.run)
    (hf : ∀ a, Keeps Q (f a).run) : Leads P Q (x >>= f).run := by
  rw [ExceptT.run_bind]
  refine Leads.bind hx fun result => ?_
  cases result with
  | ok a => exact hf a
  | error fault => exact Keeps.pure _

theorem Leads.lift {x : StateM (World σ) α} (hx : Leads P Q x) :
    Leads P Q (liftM x : Act σ α).run := fun w hw => hx w hw

theorem Keeps.act_pure (a : α) : Keeps P (Pure.pure a : Act σ α).run := fun _ hw => hw

theorem Keeps.act_throw (fault : Fault) : Keeps P (throw fault : Act σ α).run := fun _ hw => hw

theorem Leads.andThen {body : Act σ α} {after : StateM (World σ) Unit}
    (hbody : Leads P Q body.run) (hafter : Keeps Q after) : Leads P Q (body.andThen after).run :=
  Leads.bind hbody fun _ => Leads.bind hafter fun _ => Keeps.pure _

theorem Keeps.checkText (text : String) :
    Keeps P (Machine.checkText text : Act σ Unit).run := by
  unfold Machine.checkText
  split
  · exact Keeps.act_throw _
  · exact Keeps.act_pure _

/-- The calls that set the agent up, or give it up. -/
def Call.isSetup : Call → Bool
  | getEnv _ | addCapabilities _ | setEventCallbacks _ | enableEvent _ | getLoadedClasses
  | retransformClass _ | fatalError _ => true
  | _ => false

/-- Every note of the machine keeps `P`, and so does every call but those of a setup, which no lookup
makes. -/
structure Machine.Within (m : Machine σ) (P : World σ → Prop) : Prop where
  call : ∀ c : Call, c.isSetup = false → Keeps P (m.call c)
  note : ∀ level text, Keeps P (m.note level text)

namespace Machine.Within

variable {m : Machine σ} (h : m.Within P)
include h

theorem act_call (c : Call) (hc : c.isSetup = false) :
    Keeps P (liftM (m.call c) : Act σ c.Reply).run := (h.call c hc).lift

theorem checkException (what : String) : Keeps P (m.checkException what).run := by
  refine Leads.act_bind (h.act_call _ rfl) fun raised => ?_
  cases raised with
  | false => exact Keeps.act_pure _
  | true =>
    have hclear : Keeps P (do
        m.call .exceptionClear
        throw (.jni (.raised what)) : Act σ Unit).run :=
      Leads.act_bind (h.act_call _ rfl) fun _ => Keeps.act_throw _
    simp only [if_true]
    cases m.isNoting with
    | false => exact hclear
    | true => exact Leads.act_bind (h.act_call _ rfl) fun _ => hclear

theorem checked (what : String) (reply : Option α) : Keeps P (m.checked what reply).run :=
  Leads.act_bind (h.checkException what) fun _ => Keeps.act_pure _

theorem holding (object : Object) {body : Act σ α} (hbody : Keeps P body.run) :
    Keeps P (m.holding object body).run :=
  Leads.andThen hbody (h.call _ rfl)

theorem newString (text : String) : Keeps P (m.newString text).run := by
  unfold Machine.newString
  refine Leads.act_bind (Keeps.checkText text) fun _ => ?_
  refine Leads.act_bind (h.act_call _ rfl) fun reply => ?_
  refine Leads.act_bind (h.checked _ reply) fun found => ?_
  cases found with
  | some string => exact Keeps.act_pure _
  | none => exact Keeps.act_throw _

theorem callObject (receiver : Object) (method : Method) (argument : Option Object) :
    Keeps P (m.callObject receiver method argument).run :=
  Leads.act_bind (h.act_call _ rfl) fun reply => h.checked _ reply

theorem callStaticObject (type : Object) (method : Method) (argument : Object) :
    Keeps P (m.callStaticObject type method argument).run :=
  Leads.act_bind (h.act_call _ rfl) fun reply => h.checked _ reply

theorem callVoid (receiver : Object) (method : Method) :
    Keeps P (m.callVoid receiver method).run :=
  Leads.act_bind (h.act_call _ rfl) fun _ => h.checkException _

theorem byteArray (array : Object) : Keeps P (m.byteArray array).run := by
  refine Leads.act_bind (h.act_call _ rfl) fun length => ?_
  refine Leads.act_bind (h.checkException _) fun _ => ?_
  refine Leads.act_bind (h.act_call _ rfl) fun filled => ?_
  exact Leads.act_bind (h.checkException _) fun _ => Keeps.act_pure _

/-- A frame leads where pushing it leads, if the machine stays there. -/
theorem framed {O : World σ → Prop} (capacity : Nat) {body : Act σ α}
    (hpush : Leads O P (m.call (.pushLocalFrame capacity))) (hbody : Keeps P body.run) :
    Leads O P (m.framed capacity body).run := by
  apply Leads.act_bind hpush.lift
  intro code
  have hpushed : Keeps P (body.andThen (m.call .popLocalFrame)).run :=
    Leads.andThen hbody (h.call _ rfl)
  split
  · apply Leads.act_bind (h.checkException _)
    intro _
    exact Leads.act_bind (Keeps.act_throw _) fun _ => hpushed
  · exact hpushed

end Machine.Within

namespace Lookup

variable {m : Machine σ} (h : m.Within P) (methods : LookupMethods)
include h

theorem keeps_openResource (loader : Option Object) (name : Object) :
    Keeps P (openResource m methods loader name).run := by
  cases loader with
  | none => exact h.callStaticObject _ _ _
  | some loader => exact h.callObject _ _ _

theorem keeps_readStream (stream : Object) : Keeps P (readStream m methods stream).run := by
  refine Leads.act_bind (h.callObject _ _ _) fun array => ?_
  cases array with
  | none => exact Keeps.act_pure _
  | some array =>
    exact h.holding array (Leads.act_bind (h.byteArray array) fun _ => Keeps.act_pure _)

theorem keeps_closeStream (resource : String) (stream : Object) :
    Keeps P (closeStream m methods resource stream) := by
  unfold closeStream
  refine Leads.bind (h.callVoid _ _) fun result => ?_
  cases result with
  | ok _ => exact Keeps.pure _
  | error fault => exact h.note _ _

/-- Reading a resource leads where pushing its frame leads, if the machine stays there. -/
theorem leads_readResource {O : World σ → Prop} (loader : Option Object) (resource : String)
    (hpush : Leads O P (m.call (.pushLocalFrame 8))) :
    Leads O P (readResource m methods loader resource).run := by
  apply h.framed 8 hpush
  refine Leads.act_bind (h.newString resource) fun name => ?_
  apply h.holding name
  refine Leads.act_bind (keeps_openResource h methods loader name) fun stream => ?_
  cases stream with
  | none => exact Keeps.act_pure _
  | some stream =>
    exact h.holding stream
      (Leads.andThen (keeps_readStream h methods stream) (keeps_closeStream h methods _ stream))

end Lookup

end ThreadWatch.Vm
