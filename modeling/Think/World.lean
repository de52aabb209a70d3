import Think.Text.Lines
import Think.World.Path
import Think.World.Random

/-! # The world outside

Everything that a program can see or change besides its own values: files, the environment, what
is typed in, what the language model answers, the clock, and what the program has put out.
-/

namespace Think

/-- What a program does to the world, in the order in which it does it. -/
inductive Event
  | system (command : String)
  | sleep (seconds : String)
  | status (text : String)
  | model (prompt : String)
  | print (text : String) (style : Option String)
  | clear
  deriving DecidableEq, Repr

structure World where
  files : FileTree
  cwd : Path
  environment : List (String × String)
  /-- What is left to be typed in. -/
  input : List Char
  /-- The answers that the language model has still to give. -/
  replies : List String
  /-- The state of the random numbers. -/
  random : Nat
  /-- The random number that a state gives, and the state behind it. -/
  draw : Nat → Float × Nat
  /-- The integer that a state gives from a range without its upper end, and the state behind it. -/
  range : (low high : Int) → Nat → Int × Nat
  /-- The state that a number sets. -/
  seed : Number → Nat
  now : Float
  /-- Nanoseconds on the clock by which waits are measured. -/
  uptime : Nat
  /-- What was written to standard output, in full. -/
  output : String
  /-- The events so far, last first. -/
  events : List Event

namespace World

/-- A world at home, with the given files and nothing done yet. -/
def start (files : FileTree) : World where
  files := files
  cwd := files.homePath
  environment := []
  input := []
  replies := []
  random := 1
  draw := Random.unit
  range := Random.range
  seed := Random.seed
  now := 1700000000.25
  uptime := 0
  output := ""
  events := []

def write (w : World) (text : String) : World := { w with output := w.output ++ text }

def record (w : World) (e : Event) : World := { w with events := e :: w.events }

/-- An integer from `low` up to but not including `high`, and the new state of the generator. -/
def drawFrom (w : World) (low high : Int) : Except Fault (Int × Nat) :=
  if high ≤ low then .error .badValue else .ok (w.range low high w.random)

/-- An end of a range: an integer, or a float without a fraction. -/
def rangeEnd : Number → Except Fault Int
  | .int n => .ok n
  | .float x => do
    let n ← (Number.float x).toInt
    if (Number.int n).isEq (.float x) then .ok n else .error .badValue
  | .text _ => .error .badValue
  | .complex _ _ => .error .wrongKind

/-- The range of the integers between two numbers, both included. -/
def rangeBetween (a b : Number) : Except Fault (Int × Int) := do
  let above ← b.add (.int 1)
  return (← rangeEnd a, ← rangeEnd above)

/-- An integer between two numbers, both included, and the new state of the generator. -/
def drawBetween (w : World) (a b : Number) : Except Fault (Int × Nat) := do
  let (low, high) ← rangeBetween a b
  w.drawFrom low high

/-- The state that a number sets. A complex number sets none. -/
def stateFrom (w : World) : Number → Except Fault Nat
  | .complex _ _ => .error .wrongKind
  | n => .ok (w.seed n)

/-- A time in seconds as whole nanoseconds, any part of one counting as one. They are counted in a
word of 64 bits. -/
def nanoseconds (seconds : Number) : Except Fault Int :=
  let counted (n : Int) : Except Fault Int :=
    if -Number.sizeLimit ≤ n && n < Number.sizeLimit then .ok n else .error .tooLarge
  match seconds with
  | .int n => counted (n * 1000000000)
  | .float x => do
    let ns := x * 1000000000.0
    let n ← (Number.float ns).toInt
    counted (match Number.orderIntFloat? n ns with
      | some .lt => n + 1
      | some .gt => n - 1
      | _ => n)
  | _ => .error .wrongKind

/-- Waits for some seconds. The end of the wait has to be on the clock. -/
def wait (w : World) (seconds : Number) : Except Fault Unit := do
  let ns ← nanoseconds seconds
  if ns < 0 then throw .badValue
  if Number.sizeLimit ≤ w.uptime + ns then throw (.stated "[Errno 22] Invalid argument")

/-- The text of a file, all line breaks alike. -/
def readText (w : World) (path : String) : Except PathError String :=
  Text.unified <$> w.files.read w.cwd path

/-- The directory that programs of the standard library are kept in. -/
def libraryPath (w : World) : String := w.files.home ++ "/src/std"

/-- The directory of the programs that the language model is shown. -/
def samplesPath (w : World) : String := w.files.home ++ "/examples"

end World

end Think
