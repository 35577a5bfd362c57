import ThreadWatch.Instrument
import ThreadWatch.Vm.Call

/-!
# Machines

A virtual machine with the process around it, as the agent meets them: anything that answers calls,
prints lines and takes notes. A call may come back to the agent before it is answered, so it acts
on what the agent remembers too.
-/

namespace ThreadWatch.Vm

/-- What looking up classes through a loader needs. -/
structure LookupMethods where
  loaderType : Object
  getResource : Method
  getSystemResource : Method
  readAll : Method
  close : Method
  deriving DecidableEq, Repr

/-- What the agent remembers from callback to callback. -/
structure Memory where
  outlet : Outlet
  /-- The option string, once the agent is loaded. -/
  loaded : Option (Option String)
  /-- What every class definition passes through. -/
  instrument : Option Instrument
  methods : Option LookupMethods
  /-- Whether the mark of a lookup under way is set. -/
  lookingUp : Bool

def Memory.fresh : Memory := ⟨.fresh, none, none, none, false⟩

structure World (σ : Type) where
  agent : Memory
  machine : σ

structure Machine (σ : Type) where
  call : (c : Call) → StateM (World σ) c.Reply
  print : String → StateM (World σ) Unit
  note : Level → String → StateM (World σ) Unit
  /-- Whether anybody takes notes. -/
  isNoting : Bool

/-- A step of the agent, which may fail. -/
abbrev Act (σ : Type) := ExceptT Fault (StateM (World σ))

namespace Act

variable {σ α : Type}

/-- Do something after a step, whether it failed or not. -/
def andThen (body : Act σ α) (after : StateM (World σ) Unit) : Act σ α :=
  ExceptT.mk do
    let result ← body.run
    after
    return result

end Act

end ThreadWatch.Vm
