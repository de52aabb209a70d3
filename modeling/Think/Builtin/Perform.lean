import Think.Builtin
import Think.Builtin.Help
import Think.Text.Split
import Think.Value.Operator

/-! # What the functions do

Each function gets its arguments as objects, checks their kinds from the first to the last, and
reports the first that does not fit. Running another program is left to the evaluator.
-/

namespace Think

/-- The version of the language. -/
def languageVersion : String := "0.0.89"

/-- A call of a function of the language. -/
structure BuiltinCall where
  /-- The function object, which knows the place of the call. -/
  callee : Object
  context : Context

namespace BuiltinCall

open Eval

variable {α : Type}

/-- An error at the place of the call. -/
def fail (c : BuiltinCall) (details : String) : Eval α :=
  Eval.error c.callee.start c.callee.stop details (some c.context)

/-- The one null that all programs share. -/
def nullValue : Value := .object ⟨0⟩

/-- The zero, false and true that all programs share. -/
def zeroValue : Value := .object ⟨1⟩

def truthValue (b : Bool) : Value := .object (if b then ⟨3⟩ else ⟨2⟩)

def number (n : Number) : Eval Value := make (.number n)

def text (s : String) : Eval Value := make (.text s)

def textArg (c : BuiltinCall) (r : ObjectRef) (otherwise : String) : Eval String := do
  match (← object r).payload with
  | .text s => return s
  | _ => c.fail otherwise

def numberArg (c : BuiltinCall) (r : ObjectRef) (otherwise : String) : Eval Number := do
  match (← object r).payload with
  | .number n => return n
  | _ => c.fail otherwise

def listArg (c : BuiltinCall) (r : ObjectRef) (otherwise : String) : Eval ListRef := do
  match (← object r).payload with
  | .list cells => return cells
  | _ => c.fail otherwise

def fileArg (c : BuiltinCall) (r : ObjectRef) (otherwise : String) : Eval String := do
  match (← object r).payload with
  | .file _ path => return path
  | _ => c.fail otherwise

/-- The plain value behind an object: a text, a number or the word for null. -/
def plainNumber (v : Value) : Eval Number := do
  let (_, o) ← objectOf v
  match o.payload with
  | .number n => return n
  | .text s => return .text s
  | .null => return .text "null"
  | _ => fault .noSuchPart

def print (r : ObjectRef) : Eval Value := do
  let line ← match (← object r).payload with
    | .text s => pure s
    | _ => shown (.object r)
  modifyWorld (·.write (line ++ "\n"))
  return nullValue

/-- The characters up to the first line break, which is dropped. -/
def firstLine (cs : List Char) : List Char × List Char :=
  (cs.takeWhile (· ≠ '\n'), (cs.dropWhile (· ≠ '\n')).drop 1)

/-- Reads a line. A line that starts with an interrupt character is an interrupt. -/
def gets (r : ObjectRef) : Eval Value := do
  let prompt ← written (.object r)
  modifyWorld (·.write prompt)
  let w ← world
  if w.input.isEmpty then fault .endOfInput
  let (line, rest) := firstLine w.input
  modifyWorld ({ · with input := rest })
  if line.head? = some (Char.ofNat 3) then fault .interrupted
  text (String.ofList line)

def append (c : BuiltinCall) (target value : ObjectRef) : Eval Value := do
  match (← object target).payload with
  | .list cells =>
    modifyStore (·.updateList cells (·.push (.object value)))
    return .object value
  | .text s =>
    match ← plainNumber (.object value) with
    | .text t => text (s ++ t)
    | _ => fault .wrongKind
  | _ => c.fail "Invalid argument for 'append'"

def pop (c : BuiltinCall) (list index : ObjectRef) : Eval Value := do
  let cells ← c.listArg list "First argument of 'pop' must be list"
  let n ← c.numberArg index "Second argument of 'pop' must be number"
  match ← Operator.takeElement cells n with
  | some v => return v
  | none =>
    c.fail "Element at this index could not be removed from list because index is out of bounds"

def extend (c : BuiltinCall) (a b : ObjectRef) : Eval Value := do
  let target ← c.listArg a "First argument of 'extend' must be list"
  let source ← c.listArg b "Second argument of 'extend' must be list"
  let added ← elements source
  modifyStore (·.updateList target (· ++ added))
  return nullValue

def replace (c : BuiltinCall) (s old new : ObjectRef) : Eval Value := do
  let s ← c.textArg s "First argument of 'replace' must be string"
  let old ← c.textArg old "Second argument of 'replace' must be string"
  let new ← c.textArg new "Third argument of 'replace' must be string"
  text (Text.replace s old new)

def len (c : BuiltinCall) (r : ObjectRef) : Eval Value := do
  match (← object r).payload with
  | .list cells => number (.int (← elements cells).size)
  | .text s => number (.int s.length)
  | _ => c.fail "Argument for 'len' must be list or string"

def sleep (c : BuiltinCall) (r : ObjectRef) : Eval Value := do
  let seconds ← c.numberArg r "First argument for 'sleep' must be a number"
  lift ((← world).wait seconds)
  let amount ← lift seconds.written
  modifyWorld (·.record (.sleep amount))
  return nullValue

/-- The path without its extension. A name that starts with its only dots has none. -/
def stem (path : String) : String :=
  let cs := path.toList
  let name := (cs.reverse.takeWhile (· ≠ '/')).reverse
  let extension := (name.reverse.takeWhile (· ≠ '.')).length + 1
  let base := name.take (name.length - extension)
  if extension ≤ name.length && base.any (· ≠ '.') then
    String.ofList (cs.take (cs.length - extension))
  else path

def openFile (c : BuiltinCall) (r : ObjectRef) : Eval Value := do
  let path ← c.textArg r "First argument for 'open_stream' must be a string"
  make (.file (stem path) path)

def readStream (c : BuiltinCall) (r : ObjectRef) : Eval Value := do
  let path ← c.fileArg r "First argument for 'read_stream' must be a file"
  match (← world).readText path with
  | .ok s => text s
  | .error e => c.fail (s!"Failed to read file \"{path}\"\n" ++ e.message path)

def writeStream (c : BuiltinCall) (file added : ObjectRef) : Eval Value := do
  let path ← c.fileArg file "First argument for 'write_stream' must be a file"
  let added ← c.textArg added "Second argument for 'write_stream' must be a string"
  let w ← world
  match w.files.append w.cwd path added with
  | .ok files =>
    modifyWorld ({ · with files })
    return zeroValue
  | .error e => c.fail (s!"Failed to write to file \"{path}\"\n" ++ e.message path)

def fileExists (c : BuiltinCall) (r : ObjectRef) : Eval Value := do
  let path ← match (← object r).payload with
    | .text s => pure s
    | .file _ p => pure p
    | _ => c.fail "First argument for 'file_exists' must be a string or file"
  let w ← world
  return truthValue (w.files.exists? w.cwd path)

def getEnv (c : BuiltinCall) (r : ObjectRef) : Eval Value := do
  let name ← c.textArg r "First argument for 'get_env' must be a string"
  match (← world).environment.lookup name with
  | some s => text s
  | none => c.fail s!"Environment variable '{name}' not found"

/-- What is wrong with an environment variable, if anything. -/
def environmentProblem? (name value : String) : Option String :=
  let zero := Char.ofNat 0
  if name.toList.contains zero || value.toList.contains zero then some "embedded null byte"
  else if name.toList.contains '=' then some "illegal environment variable name"
  else if name.isEmpty then some "[Errno 22] Invalid argument"
  else none

def setEnv (c : BuiltinCall) (name value : ObjectRef) : Eval Value := do
  let name ← c.textArg name "First argument for 'set_env' must be a string"
  let value ← c.textArg value "Second argument for 'set_env' must be a string"
  match environmentProblem? name value with
  | some problem => c.fail (s!"Failed to set environment variable '{name}'\n" ++ problem)
  | none =>
    modifyWorld fun w => { w with environment := (name, value) :: w.environment }
    return nullValue

def getDir : Eval Value := do
  let w ← world
  text (w.files.textOf w.cwd)

def setDir (c : BuiltinCall) (r : ObjectRef) : Eval Value := do
  let name ← c.textArg r "First argument for 'set_dir' must be a string"
  let w ← world
  let problem (e : PathError) : Eval Value :=
    c.fail (s!"Failed to set current directory to '{name}'\n" ++ e.message name)
  match w.files.find w.cwd name with
  | .ok (p, .directory) =>
    modifyWorld ({ · with cwd := p })
    return nullValue
  | .ok (_, .file _) => problem .notDirectory
  | .error e => problem e

def random : Eval Value := do
  let w ← world
  let (x, state) := w.draw w.random
  modifyWorld ({ · with random := state })
  number (.float x)

def randInt (c : BuiltinCall) (low high : ObjectRef) : Eval Value := do
  let a ← c.numberArg low "First argument for 'rand_int' must be a number"
  let b ← c.numberArg high "Second argument for 'rand_int' must be a number"
  let (n, state) ← lift ((← world).drawBetween a b)
  modifyWorld ({ · with random := state })
  number (.int n)

def randSeed (c : BuiltinCall) (r : ObjectRef) : Eval Value := do
  let n ← c.numberArg r "First argument for 'rand_seed' must be a number"
  let state ← lift ((← world).stateFrom n)
  modifyWorld ({ · with random := state })
  return nullValue

def randPick (c : BuiltinCall) (r : ObjectRef) : Eval Value := do
  let cells ← c.listArg r "First argument for 'rand_pick' must be an List"
  let vs ← elements cells
  if vs.isEmpty then c.fail "Array passed to 'rand_pick' is empty"
  let (i, state) ← lift ((← world).drawFrom 0 ((vs.size : Int) - 1))
  modifyWorld ({ · with random := state })
  return vs[i.toNat]?.getD .absent

/-- Reads the second argument of a conversion: whether a text that is no number is let pass. -/
def lenience (c : BuiltinCall) (r : ObjectRef) (name : String) : Eval Bool := do
  let n ← c.numberArg r s!"Second argument for '{name}' must be a number"
  if n.isEq (.int 1) then return true
  else if n.isEq (.int 0) then return false
  else c.fail s!"Second argument for '{name}' must be a boolean"

/-- A conversion of numbers and texts to one kind of number. -/
def convert (c : BuiltinCall) (name target : String) (ofNumber : Number → Except Fault Number)
    (ofText : String → Except Fault Number) (value lenient : ObjectRef) : Eval Value := do
  let lenient ← c.lenience lenient name
  match (← object value).payload with
  | .number n => number (← lift (ofNumber n))
  | .text s =>
    match ofText s with
    | .ok n => number n
    | .error _ =>
      if lenient then return zeroValue
      else c.fail s!"Failed to convert '{s}' of type '<string>' to {target}"
  | _ =>
    if lenient then return zeroValue
    else
      let kind ← kindName (.object value)
      c.fail s!"Failed to convert value of type '{kind}' to {target}"

def toint (c : BuiltinCall) : ObjectRef → ObjectRef → Eval Value :=
  c.convert "toint" "integer" (fun n => .int <$> n.toInt) (fun s => .int <$> Number.readInt s)

def tofloat (c : BuiltinCall) : ObjectRef → ObjectRef → Eval Value :=
  c.convert "tofloat" "float" (fun n => .float <$> n.toFloat) fun s =>
    .float <$> Number.readFloat s

/-- The plain values of all elements, written out. -/
def plainTexts : List Value → Eval (List String)
  | [] => return []
  | v :: rest => do
    let t ← lift (← plainNumber v).written
    return t :: (← plainTexts rest)

def join (c : BuiltinCall) (sep parts : ObjectRef) : Eval Value := do
  let sep ← c.textArg sep "First argument for 'join' must be a string"
  match (← object parts).payload with
  | .list cells => text (Text.join sep (← plainTexts (← elements cells).toList))
  | .text s => text (Text.join sep (s.toList.map (·.toString)))
  | _ => c.fail "Second argument for 'join' must be a list or a string"

def helpFor (c : BuiltinCall) (r : ObjectRef) : Eval Value := do
  let name ← c.textArg r "First argument for 'help' must be a string"
  if name == "" then text Help.overview
  else if name == Help.kindsTopic then fault .noSuchKey
  else match Help.topics.lookup name with
    | some topic => text topic.page
    | none => fault .noSuchPart

def sys (c : BuiltinCall) (r : ObjectRef) : Eval Value := do
  let command ← c.textArg r "First argument for 'sys' must be a string"
  if command.toList.contains (Char.ofNat 0) then
    c.fail (s!"Failed to execute '{command}'\n" ++ "embedded null byte")
  modifyWorld (·.record (.system command))
  return nullValue

def split (c : BuiltinCall) (s sep : ObjectRef) : Eval Value := do
  let s ← c.textArg s "First argument for 'split' must be a string"
  let sep ← c.textArg sep "Second argument for 'split' must be a string"
  let pieces ← (Text.split s (if sep.isEmpty then " " else sep)).mapM text
  make (.list (← allocateList pieces.toArray))

def isKind (r : ObjectRef) (p : Payload → Bool) : Eval Value := do
  return truthValue (p (← object r).payload)

/-- Performs a function other than `run` on as many arguments as it has parameters. -/
def perform (c : BuiltinCall) : Builtin → List ObjectRef → Eval Value
  | .print, [a] => print a
  | .gets, [a] => gets a
  | .clear, [] => do
    modifyWorld (·.record (.system "clear"))
    return nullValue
  | .typeOf, [a] => do text (← kindName (.object a))
  | .isNumber, [a] => isKind a (· matches .number _)
  | .isString, [a] => isKind a (· matches .text _)
  | .isList, [a] => isKind a (· matches .list _)
  | .isFunction, [a] => isKind a (· matches .function _ _ _ _ | .builtin _)
  | .tostr, [a] => do text (← written (.object a))
  | .append, [a, b] => c.append a b
  | .pop, [a, b] => c.pop a b
  | .extend, [a, b] => c.extend a b
  | .replace, [a, b, d] => c.replace a b d
  | .len, [a] => c.len a
  | .sleep, [a] => c.sleep a
  | .exit, [] => fault (.exit 0)
  | .openFile, [a] => c.openFile a
  | .readStream, [a] => c.readStream a
  | .writeStream, [a, b] => c.writeStream a b
  | .fileExists, [a] => c.fileExists a
  | .getNow, [] => do number (.float (← world).now)
  | .getEnv, [a] => c.getEnv a
  | .setEnv, [a, b] => c.setEnv a b
  | .getDir, [] => getDir
  | .setDir, [a] => c.setDir a
  | .random, [] => random
  | .randInt, [a, b] => c.randInt a b
  | .randSeed, [a] => c.randSeed a
  | .randPick, [a] => c.randPick a
  | .toint, [a, b] => c.toint a b
  | .tofloat, [a, b] => c.tofloat a b
  | .join, [a, b] => c.join a b
  | .helpFor, [a] => c.helpFor a
  | .help, [] => text Help.overview
  | .sys, [a] => c.sys a
  | .version, [] => text languageVersion
  | .error, [a] => do
    let message ← c.textArg a "First argument for 'split' must be a string"
    c.fail message
  | .split, [a, b] => c.split a b
  | _, _ => fault .noSuchPart

end BuiltinCall

end Think
