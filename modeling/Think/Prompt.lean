import Think.Text.Fence
import Think.World

/-! # Prompts

What the language model is asked, and the code in its answer. The prompt shows all sample programs
and the mathematics library of the current directory.
-/

namespace Think.Prompt

def faultOf : PathError → Fault
  | .missing => .fileNotFound
  | .notDirectory => .notDirectory
  | .isDirectory => .isDirectory
  | .nullByte => .badValue

def lift {α : Type} : Except PathError α → Except Fault α
  | .ok a => .ok a
  | .error e => .error (faultOf e)

/-- The texts of some files, each followed by a line break. -/
def texts (w : World) : List String → Except Fault String
  | [] => .ok ""
  | path :: rest => do
    let t ← lift (w.readText path)
    return t ++ "\n" ++ (← texts w rest)

/-- The full prompt for a request. -/
def full (w : World) (request : String) : Except Fault String := do
  let samples ← lift (w.files.list w.cwd w.samplesPath)
  let library := w.files.textOf w.cwd ++ "/src/std/math.think"
  let shown ← texts w (samples.map (w.samplesPath ++ "/" ++ ·) ++ [library])
  return "You are a software developer writing code in a new language. The language syntax is " ++
    "shown below:\n        " ++
    shown ++ "\n\n        You are to code in this langauge using this syntax. Write just the " ++
      "source code without any explanation. Keep all the source code inside triple backticks " ++
      "(`).\n        \n        Prompt: " ++
    request

/-- What is shown while the model is at work. -/
def status (request : String) : String :=
  "Generating spagetti code that is guaranteed to fail lol...\nYour prompt: [blue underline]" ++
    request

end Think.Prompt
