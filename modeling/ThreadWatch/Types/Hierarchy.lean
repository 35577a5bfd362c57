import ThreadWatch.Host
import ThreadWatch.Types.Info

/-!
# Supertypes

Which type declares a method, and whether one type is a subtype of another, answered from
summaries that are asked of a host once per name. A search visits at most `maxTypes` types.
-/

namespace ThreadWatch

/-- Why no declaration was found. -/
inductive Unresolved where
  | arrayType (owner : String)
  | noClass (name : String)
  | noSuperclass (name owner : String)
  | noDeclaration (owner : String) (missing : Option String)
  | tooDeep (owner : String)
  deriving DecidableEq, Repr

def Unresolved.message : Unresolved → String
  | arrayType owner => s!"{owner} is an array type"
  | noClass name => s!"class {name} not found"
  | noSuperclass name owner => s!"superclass {name} of {owner} not found"
  | noDeclaration owner none => s!"no declaration in {owner} or its supertypes"
  | noDeclaration owner (some missing) =>
    s!"no declaration in {owner} or its supertypes, interface {missing} not found"
  | tooDeep owner => s!"hierarchy of {owner} is too deep"

inductive Resolution where
  | declared (type : String)
  | unresolved (cause : Unresolved)
  deriving DecidableEq, Repr

/-- The summaries known so far, that a class is unavailable being one of them. -/
abbrev Memo := List (String × Option TypeInfo)

/-- A question that may be passed on to a host. -/
abbrev Asking (σ : Type) := StateT Memo (StateM σ)

namespace Hierarchy

variable {σ : Type}

/-- The most types that one search visits. -/
def maxTypes : Nat := 100

/-- Make a summary known, in place of what was known of its name. -/
def seed (memo : Memo) (info : TypeInfo) : Memo := (info.name, some info) :: memo

/-- What the host has under `name`; a class that cannot be read, or is another class, is none. -/
def summary (h : Host σ) (name : String) : StateM σ (Option TypeInfo) := do
  match ← h.load name with
  | .ok none => return none
  | .error fault =>
    h.note .debug ("Could not load " ++ name ++ ": " ++ fault.message)
    return none
  | .ok (some found) =>
    match TypeInfo.parse found.bytes with
    | .error fault =>
      h.note .debug ("Could not parse " ++ name ++ ": " ++ fault.message)
      return none
    | .ok info =>
      if info.name = name then return some info
      h.note .debug ("Lookup of " ++ name ++ " produced class " ++ info.name)
      return none

def lookup (h : Host σ) (name : String) : Asking σ (Option TypeInfo) := do
  match (← get).lookup name with
  | some known => return known
  | none =>
    let info ← summary h name
    modify ((name, info) :: ·)
    return info

/-- The first declaration among interfaces, breadth first, or the first interface not found. -/
def searchInterfaces (h : Host σ) (name descriptor : String) :
    Nat → List String → Option String → List String → Asking σ (Except (Option String) String)
  | 0, _, missing, _ => return .error missing
  | left + 1, visited, missing, pending => do
    match pending.dropWhile visited.contains with
    | [] => return .error missing
    | type :: rest =>
      match ← lookup h type with
      | none =>
        searchInterfaces h name descriptor left (type :: visited) (missing <|> some type) rest
      | some info =>
        if info.declares name descriptor then return .ok info.name
        searchInterfaces h name descriptor left (type :: visited) missing (rest ++ info.interfaces)

/-- The first declaration on the superclass chain from `current` on, else among the interfaces of
the classes on it. -/
def searchChain (h : Host σ) (owner name descriptor : String) :
    Nat → String → List String → Asking σ Resolution
  | 0, _, _ => return .unresolved (.tooDeep owner)
  | left + 1, current, interfaces => do
    match ← lookup h current with
    | none =>
      return .unresolved (if current = owner then .noClass current else .noSuperclass current owner)
    | some info =>
      if info.declares name descriptor then return .declared info.name
      let interfaces := interfaces ++ info.interfaces
      match info.superName with
      | some superName => searchChain h owner name descriptor left superName interfaces
      | none =>
        match ← searchInterfaces h name descriptor maxTypes [] none interfaces with
        | .ok type => return .declared type
        | .error missing => return .unresolved (.noDeclaration owner missing)

/-- The type that declares the method as seen from `owner`. -/
def resolve (h : Host σ) (owner name descriptor : String) : Asking σ Resolution :=
  if owner.toList.head? = some '[' then return .unresolved (.arrayType owner)
  else searchChain h owner name descriptor maxTypes owner []

/-- Whether `target` is a supertype of what is pending; the last supertype found is followed
first. -/
def searchSupertypes (h : Host σ) (target : String) :
    Nat → List String → List String → Asking σ Bool
  | 0, _, _ => return false
  | left + 1, visited, pending => do
    match pending.dropWhile visited.contains with
    | [] => return false
    | type :: rest =>
      match ← lookup h type with
      | none => searchSupertypes h target left (type :: visited) rest
      | some info =>
        if info.supertypes.contains target then return true
        searchSupertypes h target left (type :: visited) (info.supertypes.reverse ++ rest)

/-- Whether `candidate` is `target` or one of its subtypes, as far as types can be looked up. -/
def isSubtype (h : Host σ) (candidate target : String) : Asking σ Bool :=
  if candidate = target then return true
  else searchSupertypes h target maxTypes [] [candidate]

end Hierarchy

end ThreadWatch
