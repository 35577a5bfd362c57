import ThreadWatch.Editing.Probe
import ThreadWatch.Host

/-!
# Output lines

Everything reported is one line behind the marker. A process has one outlet for its lines, which
can be chosen once and not after it was used.
-/

namespace ThreadWatch

def marked (message : String) : String := marker ++ message

def Host.line {σ : Type} (h : Host σ) (message : String) : StateM σ Unit := h.print (marked message)

/-- Where lines go. -/
inductive Sink where
  | standard
  | memory
  deriving DecidableEq, Repr

structure Outlet where
  /-- Nothing until a sink is chosen or the outlet is used. -/
  chosen : Option Sink
  deriving DecidableEq, Repr

namespace Outlet

def fresh : Outlet := ⟨none⟩

def install (o : Outlet) (sink : Sink) : Except Fault Outlet :=
  match o.chosen with
  | none => .ok ⟨some sink⟩
  | some _ => .error .loggerInstalled

/-- The sink to use now and from now on; standard output unless another was chosen. -/
def sink (o : Outlet) : Sink := o.chosen.getD .standard

def use (o : Outlet) : Outlet := ⟨some o.sink⟩

end Outlet

/-- What a process has written, and the outlet it has. -/
structure Writing where
  outlet : Outlet
  standard : Array String
  memory : Array String
  deriving DecidableEq, Repr

namespace Writing

def fresh : Writing := ⟨.fresh, #[], #[]⟩

def install (w : Writing) (sink : Sink) : Except Fault Writing :=
  return { w with outlet := ← w.outlet.install sink }

/-- One line into a sink. -/
def line (w : Writing) (sink : Sink) (message : String) : Writing :=
  match sink with
  | .standard => { w with standard := w.standard.push (marked message) }
  | .memory => { w with memory := w.memory.push (marked message) }

/-- One line through the outlet. -/
def globalLine (w : Writing) (message : String) : Writing :=
  { w.line w.outlet.sink message with outlet := w.outlet.use }

end Writing

end ThreadWatch
