import ThreadWatch.Command.Instrumenting
import ThreadWatch.Command.Scan

/-!
# Completions

What a command line comes to: an exit code, the lines on both outputs, and the files afterwards.
-/

namespace ThreadWatch.Command

structure Completion where
  exit : Nat
  output : List String
  /-- What is told to developers. -/
  notes : List String
  errors : List String
  session : Session

namespace Completion

def versionLine : String := "threadscope 0.1.0"

def helpLines : List String := [
  "threadscope - trace who starts and joins threads by rewriting class files",
  "",
  "Usage: threadscope [--json] [--verbose] scan [OPTIONS] INPUT",
  "       threadscope [--json] [--verbose] instrument [OPTIONS] INPUT",
  "",
  "INPUT is a class file, or a directory that is searched for class files.",
  "",
  "  --classpath DIR       look supertypes up in DIR too (repeatable)",
  "  --exclude LIST        leave classes alone whose names start like one in the list",
  "  --trace-join          instrument joins too",
  "  --trace-caller        print the calling thread too",
  "  --report-unresolved   report calls whose target cannot be resolved",
  "  --exact-match         go by the name java.lang.Thread, without loading it",
  "  -o, --output PATH     write the classes to PATH (instrument)",
  "  -q, --quiet           print no diagnostics (instrument)",
  "  --json                print JSON",
  "  -v, --verbose         print developer notes",
  "  -h, --help            print this",
  "  -V, --version         print the version"]

/-- The answer to words that are no request. -/
def ofAside (session : Session) : Aside → Completion
  | .help => ⟨0, helpLines, [], [], session⟩
  | .version => ⟨0, [versionLine], [], [], session⟩
  | .misuse => ⟨2, [], [], helpLines, session⟩

end Completion

namespace Request

/-- Do what is asked for; gives the lines of the report. -/
def run (r : Request) : Work (List String) := do
  match r.task with
  | .scan =>
    let report ← Scan.run r.input r.options
    return if r.json then report.json.lines else report.lines
  | .instrument output quiet =>
    let report ← Instrumenting.run r.input output r.options
    return if r.json then report.json.lines else report.lines quiet output.isSome

/-- Whether notes of a level are shown. -/
def shows (r : Request) : Level → Bool
  | .error | .warn | .info => !r.json
  | .debug => !r.json && r.verbose
  | .trace => false

def noteLines (r : Request) (s : Session) : List String :=
  (s.notes.toList.filter fun (level, _) => r.shows level).map fun (level, text) =>
    "[" ++ level.name ++ "] " ++ text

def complete (r : Request) (session : Session) : Completion :=
  match r.run session with
  | .ok lines session => ⟨0, lines, r.noteLines session, [], session⟩
  | .error (.failed failure) session => ⟨1, [], r.noteLines session, failure.lines, session⟩
  | .error .panicked session => ⟨101, [], r.noteLines session, [], session⟩

end Request

/-- Answer a command line given some files. -/
def complete (tree : Tree) (arguments : List String) : Completion :=
  match Request.ofArguments arguments with
  | .ok request => request.complete (.opening tree)
  | .error aside => .ofAside (.opening tree) aside

end ThreadWatch.Command
