import ThreadWatch.Fault
import ThreadWatch.Text.Segments

/-!
# Failures

Why a command gave up: what it was about to do, and under it the causes, the last being the first
that happened.
-/

namespace ThreadWatch.Command

structure Failure where
  message : String
  causes : List String
  deriving DecidableEq, Repr

namespace Failure

/-- What the file system says has the same words once more as its cause. -/
def ofFault (f : Fault) : Failure :=
  match f with
  | .file cause => ⟨f.message, [cause.message]⟩
  | _ => ⟨f.message, []⟩

def ofTrouble (t : FileTrouble) : Failure := ⟨t.message, []⟩

/-- The failure as the cause of another. -/
def under (f : Failure) (message : String) : Failure := ⟨message, f.message :: f.causes⟩

/-- What a failure is reported as when something was about to be done. -/
def within {α : Type} (message : String) (result : Except Failure α) : Except Failure α :=
  result.mapError (·.under message)

/-- Text whose first line is behind `first` and whose others are behind `others`. -/
def hang (first others text : String) : List String :=
  match Segments.ofText '\n' text with
  | [] => []
  | line :: rest => (first ++ line) :: rest.map (others ++ ·)

def blanks (count : Nat) : String := String.ofList (List.replicate count ' ')

/-- A lone cause needs no number. -/
def causeLines : List String → List String
  | [] => []
  | [cause] => "" :: "Caused by:" :: hang (blanks 4) (blanks 4) cause
  | causes => "" :: "Caused by:" :: causes.zipIdx.flatMap fun (cause, index) =>
      let number := toString index
      hang (blanks (5 - number.length) ++ number ++ ": ") (blanks 7) cause

def lines (f : Failure) : List String := hang "Error: " "" f.message ++ causeLines f.causes

end Failure

end ThreadWatch.Command
