import ThreadWatch.Files.Path
import ThreadWatch.Settings

/-!
# Requests

What the words of a command line ask for. They are read from left to right: the first word that
cannot stand where it does, or that asks for help or the version, decides.
-/

namespace ThreadWatch.Command

/-- How the calls to watch are chosen, and what their probes tell. -/
structure Options where
  classpath : List Path
  exclude : Option String
  flags : Flags
  /-- Go by the name of the watched type alone, without loading it. -/
  exactMatch : Bool
  deriving DecidableEq, Repr

inductive Task where
  | scan
  | instrument (output : Option Path) (quiet : Bool)
  deriving DecidableEq, Repr

structure Request where
  task : Task
  /-- A class file, or a directory of them. -/
  input : Path
  options : Options
  json : Bool
  verbose : Bool
  deriving DecidableEq, Repr

/-- What is answered instead of a request. -/
inductive Aside where
  | help
  | version
  | misuse
  deriving DecidableEq, Repr

inductive Switch where
  | json
  | verbose
  | traceJoin
  | traceCaller
  | reportUnresolved
  | exactMatch
  | quiet
  deriving DecidableEq, Repr

/-- What takes a value. -/
inductive Setting where
  | classpath
  | exclude
  | output
  deriving DecidableEq, Repr

/-- Whether the value is a path, which is never empty. -/
def Setting.isPath : Setting → Bool
  | exclude => false
  | classpath | output => true

/-- What a word behind dashes stands for. -/
inductive Flagged where
  | switch (switch : Switch)
  | setting (setting : Setting)
  | help
  | version
  deriving DecidableEq, Repr

namespace Flagged

def ofLong? : String → Option Flagged
  | "json" => some (.switch .json)
  | "verbose" => some (.switch .verbose)
  | "trace-join" => some (.switch .traceJoin)
  | "trace-caller" => some (.switch .traceCaller)
  | "report-unresolved" => some (.switch .reportUnresolved)
  | "exact-match" => some (.switch .exactMatch)
  | "quiet" => some (.switch .quiet)
  | "classpath" => some (.setting .classpath)
  | "exclude" => some (.setting .exclude)
  | "output" => some (.setting .output)
  | "help" => some .help
  | "version" => some .version
  | _ => none

def ofShort? : Char → Option Flagged
  | 'v' => some (.switch .verbose)
  | 'q' => some (.switch .quiet)
  | 'o' => some (.setting .output)
  | 'h' => some .help
  | 'V' => some .version
  | _ => none

end Flagged

/-- What has been named so far. -/
inductive Place where
  | outside
  | scan
  | instrument
  | help
  | helpTopic
  deriving DecidableEq, Repr

/-- Whether a task has been named. -/
def Place.isTask : Place → Bool
  | scan | instrument => true
  | outside | help | helpTopic => false

/-- What may be said behind dashes at a place. -/
def Place.allows : Place → Flagged → Bool
  | outside, .switch .json | outside, .switch .verbose => true
  | outside, .help | outside, .version => true
  | scan, .switch .quiet | scan, .setting .output | scan, .version => false
  | scan, _ => true
  | instrument, .version => false
  | instrument, _ => true
  | _, _ => false

/-- What the words read so far say. -/
structure Reading where
  place : Place
  /-- The switches given before the task was named. -/
  above : List Switch
  switches : List Switch
  values : List (Setting × String)
  input : Option Path
  /-- The setting whose value comes next. -/
  pending : Option Setting
  /-- Whether dashes mean nothing any more. -/
  isPlain : Bool
  deriving DecidableEq, Repr

namespace Reading

def fresh : Reading := ⟨.outside, [], [], [], none, none, false⟩

/-- Turn a switch on, once at most. -/
def turn (r : Reading) (s : Switch) : Except Aside Reading :=
  if r.switches.contains s then .error .misuse else .ok { r with switches := s :: r.switches }

/-- Only the class path may be given in several parts. -/
def give (r : Reading) (s : Setting) (value : String) : Except Aside Reading :=
  if s.isPath && value.isEmpty then .error .misuse
  else if s ≠ .classpath ∧ (r.values.lookup s).isSome then .error .misuse
  else .ok { r with values := r.values ++ [(s, value)], pending := none }

/-- Take what stands behind dashes, with the value attached to it. -/
def take (r : Reading) (f : Flagged) (attached : Option String) : Except Aside Reading :=
  if !r.place.allows f then .error .misuse
  else
    match f, attached with
    | .help, none => .error .help
    | .version, none => .error .version
    | .switch s, none => r.turn s
    | .setting s, none => .ok { r with pending := some s }
    | .setting s, some value => r.give s value
    | _, some _ => .error .misuse

/-- Letters behind one dash; what is behind the letter of a setting is its value. -/
def letters (r : Reading) : List Char → Except Aside Reading
  | [] => .ok r
  | c :: rest =>
    match Flagged.ofShort? c with
    | none => .error .misuse
    | some (.setting s) =>
      match rest with
      | [] => r.take (.setting s) none
      | '=' :: value => r.take (.setting s) (some (String.ofList value))
      | value => r.take (.setting s) (some (String.ofList value))
    | some f => do letters (← r.take f none) rest

/-- A name behind two dashes, and the value behind its equals sign. -/
def name (r : Reading) (text : List Char) : Except Aside Reading :=
  match Flagged.ofLong? (String.ofList (text.takeWhile (· ≠ '='))) with
  | none => .error .misuse
  | some f =>
    match text.dropWhile (· ≠ '=') with
    | [] => r.take f none
    | _ :: value => r.take f (some (String.ofList value))

/-- A word without dashes: the task, or its input. -/
def word (r : Reading) (text : String) : Except Aside Reading :=
  match r.place, text with
  | .outside, "scan" => .ok { r with place := .scan, above := r.switches, switches := [] }
  | .outside, "instrument" =>
    .ok { r with place := .instrument, above := r.switches, switches := [] }
  | .outside, "help" => .ok { r with place := .help }
  | .help, "scan" | .help, "instrument" | .help, "help" => .ok { r with place := .helpTopic }
  | .scan, _ | .instrument, _ =>
    if r.input.isSome || text.isEmpty then .error .misuse else .ok { r with input := some text }
  | _, _ => .error .misuse

/-- From here on words are words. -/
def plain (r : Reading) : Except Aside Reading :=
  if r.place.isTask then .ok { r with isPlain := true } else .error .misuse

/-- Nothing behind dashes can be the value of a setting. -/
def dashed (r : Reading) (take : Except Aside Reading) : Except Aside Reading :=
  if r.pending.isSome then .error .misuse else take

/-- Read one more word. -/
def step (r : Reading) (text : String) : Except Aside Reading :=
  if r.isPlain then r.word text
  else
    match text.toList with
    | ['-', '-'] => r.dashed r.plain
    | '-' :: '-' :: name => r.dashed (r.name name)
    | '-' :: c :: rest => r.dashed (r.letters (c :: rest))
    | _ =>
      match r.pending with
      | some s => r.give s text
      | none => r.word text

def has (r : Reading) (s : Switch) : Bool := r.switches.contains s || r.above.contains s

def options (r : Reading) : Options where
  classpath := (r.values.filter (·.1 = .classpath)).map Prod.snd
  exclude := r.values.lookup .exclude
  flags := ⟨r.has .reportUnresolved, r.has .traceJoin, r.has .traceCaller⟩
  exactMatch := r.has .exactMatch

/-- What has been asked for once all is read. -/
def finish (r : Reading) : Except Aside Request :=
  let request (task : Task) : Except Aside Request :=
    match r.pending, r.input with
    | none, some input => .ok ⟨task, input, r.options, r.has .json, r.has .verbose⟩
    | _, _ => .error .misuse
  match r.place with
  | .outside => .error .misuse
  | .help | .helpTopic => .error .help
  | .scan => request .scan
  | .instrument => request (.instrument (r.values.lookup .output) (r.has .quiet))

end Reading

def Request.ofArguments (arguments : List String) : Except Aside Request := do
  (← arguments.foldlM Reading.step .fresh).finish

end ThreadWatch.Command
