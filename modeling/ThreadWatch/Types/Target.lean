import ThreadWatch.Types.Hierarchy

/-!
# The watched type

The type whose calls are watched, resolved once before anything is instrumented.
-/

namespace ThreadWatch

structure Target where
  info : TypeInfo
  deriving DecidableEq, Repr

namespace Target

variable {σ : Type}

/-- The watched type made of what a source answered for its name. -/
def ofAnswer : Answer → Except Fault Target
  | .ok none => .error .targetNotFound
  | .error fault => .error (.targetNotLoaded fault)
  | .ok (some found) =>
    match TypeInfo.parse found.bytes with
    | .error fault => .error (.targetNotParsed fault)
    | .ok info =>
      if info.name = watchedType then .ok ⟨info⟩ else .error (.targetMisnamed info.name)

def resolve (h : Host σ) : StateM σ (Except Fault Target) := ofAnswer <$> h.load watchedType

/-- Whether a method that `declaring` declares is one of the watched type. -/
def isDeclaredBy (t : Target) (h : Host σ) (declaring : String) : Asking σ Bool :=
  if declaring = t.info.name then return true
  else Hierarchy.isSubtype h declaring t.info.name

end Target

end ThreadWatch
