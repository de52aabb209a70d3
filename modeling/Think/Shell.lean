import Think.Session
import Think.Text.Blank

/-! # The shell

The shell runs a script line by line or, without one, the lines that are typed in. It ends with a
fault: the exit code that was asked for, or what kept it from going on.
-/

namespace Think.Shell

def bannerLines : List String := [
    "",
    "████████╗██╗  ██╗██╗███╗   ██╗██╗  ██╗██╗      █████╗ ███╗   ██╗ ██████╗ ",
    "╚══██╔══╝██║  ██║██║████╗  ██║██║ ██╔╝██║     ██╔══██╗████╗  ██║██╔════╝ ",
    "   ██║   ███████║██║██╔██╗ ██║█████╔╝ ██║     ███████║██╔██╗ ██║██║  ███╗",
    "   ██║   ██╔══██║██║██║╚██╗██║██╔═██╗ ██║     ██╔══██║██║╚██╗██║██║   ██║",
    "   ██║   ██║  ██║██║██║ ╚████║██║  ██╗███████╗██║  ██║██║ ╚████║╚██████╔╝",
    "   ╚═╝   ╚═╝  ╚═╝╚═╝╚═╝  ╚═══╝╚═╝  ╚═╝╚══════╝╚═╝  ╚═╝╚═╝  ╚═══╝ ╚═════╝ ",
    "                                                                        ",
    "         >> Shoving AI where it absolutely doesn't belong <<",
    ""]

def rule : String := String.ofList (List.replicate 35 '-')

def print (m : Machine) (text : String) (style : Option String) : Machine :=
  { m with world := m.world.record (.print text style) }

def greet (m : Machine) : Machine :=
  let m := { m with world := m.world.record .clear }
  let m := print m ("\n".intercalate bannerLines) (some "blue")
  let m := print m rule (some "bold blue")
  let m := print m s!"ThinkLang Shell {languageVersion}" none
  let m := print m rule (some "bold blue")
  print m "Type 'help()' for a list of commands" (some "white")

/-- Prints an error, if it can be shown. -/
def report (m : Machine) (d : Diagnostic) : Except Fault Machine :=
  match d.message? with
  | some text => .ok (print m text (some "bold red"))
  | none => .error .noSuchPart

/-- What stands for the value of a line: the value of its only statement, or all of them. -/
def shownValue (m : Machine) (v : Value) : Value :=
  match v with
  | .object r =>
    match (m.store.object r).payload with
    | .list cells =>
      match (m.store.elements cells).toList with
      | [x] => x
      | _ => v
    | _ => v
  | _ => v

def printValue (m : Machine) (v : Value) : Except Fault Machine :=
  if m.store.isSomething v then do
    let x := shownValue m v
    let text ← (m.store.snapshot x).written
    return print m text (match x with
      | .bare _ => some "green"
      | _ => none)
  else .ok m

/-- Runs a line that was typed in, and prints what came of it. -/
def line (m : Machine) (text : String) : Option Fault × Machine :=
  let (ending, m) := m.run ⟨"<stdin>", text⟩
  let next : Except Fault Machine := match ending with
    | .fault f => .error f
    | .error d => if (Text.strip text).isEmpty then .ok m else report m d
    | .value v => if (Text.strip text).isEmpty then .ok m else printValue m v
  match next with
  | .ok m => (none, m)
  | .error f => (some f, m)

/-- Runs lines until there are none left or one ends the shell. -/
def interact (m : Machine) : List String → Fault × Machine
  | [] => (.endOfInput, m)
  | text :: rest =>
    match line m text with
    | (some f, m) => (f, m)
    | (none, m) => interact m rest

/-- Runs the lines of a script, each as a program of its own. -/
def runLines (name : String) (m : Machine) : List String → Fault × Machine
  | [] => (.exit 0, m)
  | text :: rest =>
    match m.run ⟨name, text⟩ with
    | (.fault f, m) => (f, m)
    | (.value _, m) => runLines name m rest
    | (.error d, m) =>
      match report m d with
      | .ok m => runLines name m rest
      | .error f => (f, m)

/-- The part of a path before its last name. -/
def folder (path : String) : String :=
  let head := (path.toList.reverse.dropWhile (· ≠ '/')).reverse
  if head.all (· = '/') then String.ofList head
  else String.ofList (head.reverse.dropWhile (· = '/')).reverse

/-- Runs the script at a path. -/
def script (m : Machine) (written : String) : Fault × Machine :=
  let path := String.ofList (written.toList.map fun c => if c = '\\' then '/' else c)
  let name := folder path
  if m.world.files.exists? m.world.cwd path then
    match m.world.readText path with
    | .error e => (Prompt.faultOf e, m)
    | .ok text =>
      let lines := (Text.linesOf text.toList).map String.ofList
      runLines name m (lines.filter fun l => !(Text.strip l).isEmpty)
  else (.exit 1, print m s!"File '{name}' does not exist" (some "bold red"))

def usage (program : String) (m : Machine) : Machine :=
  let m := print m s!"Usage: {program} [file]" none
  print m "If no file is specified, the interpreter will run in interactive mode." none

/-- The whole program: its name, its arguments, and the lines that are typed in. -/
def command (program : String) (args lines : List String) (m : Machine) : Fault × Machine :=
  match args with
  | [] => interact (greet m) lines
  | a :: _ =>
    if a = "-h" || a = "--help" then (.exit 0, usage program m) else script m a

end Think.Shell
