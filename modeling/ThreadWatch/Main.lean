import ThreadWatch.Command.Completion

/-!
# The command line program

Shows the command a copy of the files it may need, then does to the real ones what was done to the
copy. A class that was looked for and is not in the copy is fetched, and the command runs again.
-/

namespace ThreadWatch.Main

open Command

/-- A copy of some of the files, and the places that it knows about. -/
structure Copy where
  tree : Tree
  known : List (List String)

/-- The path of a place, from the root. -/
def pathOf (place : List String) : String := "/" ++ String.intercalate "/" place

def Copy.put (c : Copy) (place : List String) (entry : Entry) : Copy :=
  ⟨c.tree.put place entry, place :: c.known⟩

/-- Copy what is at a place, unless that is known already. -/
def look (c : Copy) (place : List String) : IO Copy := do
  if c.known.contains place then return c
  try
    match (← ((← IO.currentDir) / pathOf place).metadata).type with
    | .dir => return c.put place .directory
    | _ => return c.put place (.file (← IO.FS.readBinFile (pathOf place)).toList)
  catch _ => return { c with known := place :: c.known }

/-- Copy what a path leads over. -/
def follow (c : Copy) (p : Path) : IO Copy := do
  let mut copy := c
  let mut place := c.tree.start p
  for piece in p.pieces do
    if piece = ".." then place := place.dropLast
    else if Path.counts piece then
      place := place ++ [piece]
      copy ← look copy place
  return copy

/-- Copy everything below a directory; only the bytes of class files matter. -/
partial def copyBelow (c : Copy) (place : List String) : IO Copy := do
  let mut copy := c
  for entry in (← ((← IO.currentDir) / pathOf place).readDir) do
    let inner := place ++ [entry.fileName]
    if ← entry.path.isDir then copy ← copyBelow (copy.put inner .directory) inner
    else if InputClass.isClassFile inner then copy ← look copy inner
    else copy := copy.put inner (.file [])
  return copy

/-- The files that a request names, and those in the way of what it writes. -/
def gather (r : Request) (current : List String) : IO Copy := do
  let mut copy ← follow ⟨{ Tree.empty with current }, []⟩ (pathOf current)
  copy ← follow copy r.input
  if copy.tree.isDirectory r.input then
    if let .ok place := copy.tree.resolve r.input then copy ← copyBelow copy place
  for root in r.options.classpath do
    copy ← follow copy root
  if let .instrument (some output) _ := r.task then
    let isDirectory := copy.tree.isDirectory r.input
    if let .ok classes := InputClass.load copy.tree r.input then
      for c in classes do
        copy ← follow copy (Instrumenting.destination isDirectory output c)
  return copy

/-- Answer a request, with every class in the copy that it looks for and that is there. -/
partial def settle (r : Request) (c : Copy) : IO (Copy × Completion) := do
  let completion := r.complete (.opening c.tree)
  let mut copy := c
  for name in completion.session.asked do
    for root in r.options.classpath do
      copy ← follow copy ((ClassDirectory.mk root).pathOf name)
  if copy.known.length = c.known.length then return (c, completion) else settle r copy

/-- Do what was done to the copy. -/
def apply (before after : Tree) : IO Unit := do
  for (place, entry) in after.changesSince before do
    match entry with
    | .directory => IO.FS.createDir (pathOf place)
    | .file bytes => IO.FS.writeBinFile (pathOf place) ⟨bytes.toArray⟩

def finish (a : Completion) : IO UInt32 := do
  for line in a.notes do IO.eprintln line
  for line in a.output do IO.println line
  for line in a.errors do IO.eprintln line
  return UInt32.ofNat a.exit

def run (arguments : List String) : IO UInt32 := do
  match Request.ofArguments arguments with
  | .error aside => finish (.ofAside (.opening .empty) aside)
  | .ok request => do
    let current := ((← IO.currentDir).toString.splitOn "/").filter (!·.isEmpty)
    let (copy, completion) ← settle request (← gather request current)
    apply copy.tree completion.session.tree
    finish completion

end ThreadWatch.Main

def main (arguments : List String) : IO UInt32 := ThreadWatch.Main.run arguments
