import ThreadWatch.Proofs.Vm.Remembering
import ThreadWatch.Vm.Stage

/-!
# The staged machine is faithful

A staged machine touches what the agent remembers only by presenting classes to it, whatever its
script says.
-/

namespace ThreadWatch.Vm.Stage

variable {α : Type} {P : World Stage → Prop} (hchange : ∀ f, Keeps P (change f))

section Replies

variable {hook : Agent.Definition → Staging Agent.Outputs} (hhook : ∀ d, Keeps P (hook d))
include hchange

theorem keeps_refuse (reaction : Reaction) : Keeps P (refuse reaction) := by
  unfold refuse
  split
  · exact hchange _
  · exact Keeps.pure _

theorem keeps_handOut (object : Option Object) : Keeps P (handOut object) :=
  Leads.bind (hchange _) fun _ => Keeps.pure _

theorem keeps_reference (c : Call) {usual : Staging (Option α)} (husual : Keeps P usual) :
    Keeps P (reference c usual) := by
  refine Leads.bind Keeps.get fun w => ?_
  split
  · exact husual
  · exact husual
  · exact Leads.bind (keeps_refuse hchange _) fun _ => Keeps.pure _

theorem keeps_scriptedCode (c : Call) : Keeps P (scriptedCode c) := by
  refine Leads.bind Keeps.get fun w => ?_
  split
  · exact Keeps.pure _
  · exact Keeps.pure _
  · exact Leads.bind (keeps_refuse hchange _) fun _ => Keeps.pure _

theorem keeps_coded (c : Call) {effect : Staging Unit} (heffect : Keeps P effect) :
    Keeps P (coded c effect) := by
  refine Leads.bind (keeps_scriptedCode hchange c) fun code => ?_
  dsimp only
  split
  · exact Leads.bind heffect fun _ => Keeps.pure _
  · exact Keeps.pure _

theorem keeps_unscripted (c : Call) {effect : Staging Unit} (heffect : Keeps P effect) :
    Keeps P (unscripted c effect) := by
  refine Leads.bind (keeps_scriptedCode hchange c) fun code => ?_
  split
  · exact Keeps.pure _
  · exact Leads.bind heffect fun _ => Keeps.pure _

theorem keeps_allocated (c : Call) {usual : Staging α} (husual : Keeps P usual) :
    Keeps P (allocated c usual) := by
  refine Leads.bind (keeps_scriptedCode hchange c) fun code => ?_
  split
  · exact Keeps.pure _
  · exact Leads.bind (hchange _) fun _ => Leads.bind husual fun _ => Keeps.pure _

include hhook

theorem keeps_define (d : Agent.Definition) : Keeps P (define hook d) :=
  Leads.bind (hhook d) fun _ => Leads.bind (hchange _) fun _ => Keeps.pure _

theorem keeps_represent (type : Object) : Keeps P (represent hook type) := by
  unfold represent
  split
  · refine Leads.bind Keeps.get fun w => ?_
    split
    · exact Keeps.pure _
    · refine Leads.bind (keeps_define hchange hhook _) fun bytes => ?_
      exact Leads.bind (hchange _) fun _ => hchange _
  · exact Keeps.pure _

theorem keeps_openResource (loader name : String) : Keeps P (openResource hook loader name) := by
  refine Leads.bind Keeps.get fun w => ?_
  split
  · exact Keeps.pure _
  · refine Leads.bind (Keeps.forM (fun p => ?_) _) fun _ => keeps_handOut hchange _
    refine Leads.bind (hchange _) fun _ => ?_
    exact Leads.bind (keeps_define hchange hhook _) fun _ => hchange _

theorem keeps_invoke (receiver : Object) (argument : Option Object) :
    Keeps P (invoke hook receiver argument) := by
  unfold invoke
  split
  · exact keeps_openResource hchange hhook _ _
  · exact keeps_handOut hchange _
  · exact keeps_openResource hchange hhook _ _
  · exact Keeps.pure _

/-- Whatever changes of the stage and the hook keep, every reply keeps. -/
theorem keeps_reply (c : Call) : Keeps P (reply hook c) := by
  cases c with
  | getEnv version =>
    refine Leads.bind Keeps.get fun w => ?_
    split
    · exact Keeps.pure _
    · exact Leads.bind (keeps_refuse hchange _) fun _ => Keeps.pure _
    · exact Keeps.pure _
  | addCapabilities bits => exact keeps_unscripted hchange _ (Keeps.pure _)
  | setEventCallbacks given => exact keeps_unscripted hchange _ (hchange _)
  | enableEvent event =>
    refine keeps_coded hchange _ ?_
    split
    · exact hchange _
    · exact Keeps.pure _
  | getLoadedClasses =>
    refine keeps_allocated hchange _ (Leads.bind Keeps.get fun w => ?_)
    exact Leads.bind (hchange _) fun _ => Keeps.pure _
  | getClassSignature type => exact keeps_allocated hchange _ (Keeps.pure _)
  | retransformClass type =>
    refine keeps_coded hchange _ (Leads.bind Keeps.get fun w => ?_)
    split
    · exact keeps_represent hchange hhook _
    · exact Keeps.pure _
  | allocate size => exact keeps_unscripted hchange _ (hchange _)
  | deallocate => exact Leads.bind (hchange _) fun _ => keeps_unscripted hchange _ (Keeps.pure _)
  | getErrorName code => exact keeps_allocated hchange _ (Keeps.pure _)
  | findClass name => exact keeps_reference hchange _ (keeps_handOut hchange _)
  | getMethod type name descriptor | getStaticMethod type name descriptor =>
    exact keeps_reference hchange _ (Keeps.pure _)
  | newGlobalRef object => exact keeps_reference hchange _ (Keeps.pure _)
  | deleteLocalRef object => exact hchange _
  | pushLocalFrame capacity =>
    refine Leads.bind Keeps.get fun w => ?_
    split
    · dsimp only
      split
      · exact Leads.bind (hchange _) fun _ => Keeps.pure _
      · exact Keeps.pure _
    · exact Leads.bind (keeps_refuse hchange _) fun _ => Keeps.pure _
    · exact Leads.bind (hchange _) fun _ => Keeps.pure _
  | popLocalFrame => exact hchange _
  | newString text => exact keeps_reference hchange _ (keeps_handOut hchange _)
  | callObject receiver method argument =>
    exact keeps_reference hchange _ (keeps_invoke hchange hhook _ _)
  | callStaticObject type method argument =>
    exact keeps_reference hchange _ (keeps_invoke hchange hhook _ _)
  | callVoid receiver method =>
    exact Leads.bind (keeps_reference hchange _ (Keeps.pure (some ()))) fun _ => Keeps.pure _
  | getArrayLength array =>
    refine Leads.bind Keeps.get fun w => ?_
    split
    · exact Keeps.pure _
    · exact Leads.bind (keeps_refuse hchange _) fun _ => Keeps.pure _
    · exact Leads.bind Keeps.get fun _ => Keeps.pure _
  | getByteArrayRegion array length =>
    have hbytes := keeps_reference hchange (.getByteArrayRegion array length)
      (Leads.bind Keeps.get fun w =>
        Keeps.pure (some ((w.machine.content array).take length.toInt.toNat)))
    exact Leads.bind hbytes fun _ => Keeps.pure _
  | exceptionCheck => exact fun _ hw => hw
  | exceptionDescribe => exact Keeps.pure _
  | exceptionClear => exact hchange _
  | fatalError text => exact hchange _

end Replies

theorem faithful_machineWith (isNoting : Bool) {hook : Agent.Definition → Staging Agent.Outputs}
    (hhook : ∀ (v : World Stage) d, Keeps (fun w => Reenters v w.agent) (hook d)) :
    Faithful (machineWith isNoting hook) := by
  refine .mk (fun c w => ?_) (fun _ _ => rfl) fun _ _ _ => ?_
  · have hchange : ∀ f, Keeps (fun v : World Stage => Reenters w v.agent) (change f) :=
      fun _ _ hw => hw
    exact Leads.bind (hchange _) (fun _ => keeps_reply hchange (hhook w) c) w (.refl w)
  · cases isNoting with
    | true => rfl
    | false => rfl

/-- A staged machine is faithful, however deep it presents classes. -/
theorem faithful_machine (isNoting : Bool) (depth : Nat) : Faithful (machine isNoting depth) := by
  induction depth with
  | zero => exact faithful_machineWith isNoting fun _ _ => Keeps.pure _
  | succ depth ih =>
    exact faithful_machineWith isNoting fun _ d _ hw => .entered _ (.define d) hw ih

end ThreadWatch.Vm.Stage
