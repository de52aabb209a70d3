import Think.Shell

/-! # The command line

Reads the files below the current directory, runs the shell on them, puts out what it printed, and
writes back the files that it changed. Commands of the system are not run.
-/

namespace Think.CommandLine

/-- How deep directories are read. -/
def maxLevels : Nat := 6

/-- Puts what was printed since the machine `before` on the screen. -/
def putOut (before after : Machine) : IO Unit := do
  IO.print (String.ofList (after.world.output.toList.drop before.world.output.length))
  let count := after.world.events.length - before.world.events.length
  for e in (after.world.events.take count).reverse do
    match e with
    | .print text _ => IO.println text
    | .clear => IO.print "\x1b[H\x1b[2J"
    | _ => pure ()
  (← IO.getStdout).flush

/-- Writes back the files that are new or changed. -/
def writeBack (before after : Machine) : IO Unit := do
  for (path, entry) in after.world.files.entries do
    match entry with
    | .file text =>
      if before.world.files.entries.lookup path ≠ some entry then
        IO.FS.writeFile (after.world.files.textOf path) text
    | .directory => pure ()

def exitCode : Fault → UInt32
  | .exit code => code.toUInt32
  | _ => 1

/-- Reads and runs lines until there are none left or one ends the shell. -/
partial def interact (m : Machine) : IO (Fault × Machine) := do
  IO.print "ThinkLang >> "
  (← IO.getStdout).flush
  let text ← (← IO.getStdin).getLine
  if text.isEmpty then return (.endOfInput, m)
  let typed := String.ofList (text.toList.filter (· ≠ '\n'))
  let (fault, after) := Shell.line m typed
  putOut m after
  match fault with
  | some f => return (f, after)
  | none => interact after

end Think.CommandLine

open Think in
/-- Runs the shell in the current directory. -/
def main (args : List String) : IO UInt32 := do
  let here ← IO.currentDir
  let rec below (levels : Nat) (name : String) (tree : FileTree) : IO FileTree := do
    match levels with
    | 0 => return tree
    | levels + 1 =>
      let mut tree := tree
      for e in ← (here / name).readDir do
        let path := if name.isEmpty then e.fileName else name ++ "/" ++ e.fileName
        if e.fileName.startsWith "." then continue
        if ← e.path.isDir then
          tree ← below levels path (tree.place tree.homePath (path ++ "/") "")
        else
          match ← (IO.FS.readFile e.path).toBaseIO with
          | .ok text => tree := tree.place tree.homePath path text
          | .error _ => pure ()
      return tree
  let tree ← below CommandLine.maxLevels "" (Library.install ⟨here.toString, []⟩)
  let start := Machine.start (World.start tree)
  let (fault, after) ←
    if args.isEmpty then do
      let greeted := Shell.greet start
      CommandLine.putOut start greeted
      CommandLine.interact greeted
    else do
      let (fault, after) := Shell.command "think" args [] start
      CommandLine.putOut start after
      pure (fault, after)
  CommandLine.writeBack start after
  return CommandLine.exitCode fault
