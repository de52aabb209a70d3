import Think.Builtin.Perform
import Think.Node.Parser
import Think.Prompt
import Think.Token.Lexer

/-! # Evaluation

Evaluation walks the tree of a program in a context. `fuel` bounds the steps in depth and in
length, and running out of it says nothing about the program. `depth` bounds how many calls,
imports and runs may be under way at once; going beyond it is the fault of the program.
-/

namespace Think

namespace Eval

open BuiltinCall (nullValue plainNumber)

/-- Activations that may be under way at once. -/
def maxDepth : Nat := 250

/-- Steps that a program may take. -/
def maxFuel : Nat := Nat.pow 10 12

def globals : TableRef := ⟨0⟩

/-- The names that whole programs keep to themselves. -/
def programNames : TableRef := ⟨1⟩

def allocateAt (p : Payload) (span : Span) (context : Context) : Eval Value := do
  return .object (← allocate (((Object.fresh p).within (some context)).placed span))

def listAt (vs : List Value) (span : Span) (context : Context) : Eval Value := do
  allocateAt (.list (← allocateList vs.toArray)) span context

/-- The value of a name, read at a place. -/
def access (context : Context) (span : Span) (name : String) : Eval Value := do
  let found ← lookup context.symbols name
  let v ← if found = .absent then lookup context.hidden name else pure found
  match v with
  | .absent => error (some span.start) (some span.stop) s!"'{name}' is not defined" (some context)
  | .bare _ => fault .noSuchPart
  | .object r => return .object (← copyTo r span context)

/-- Puts an operator's answer at its place. -/
def placed (span : Span) : Answer → Eval Value
  | .truth _ => fault .noSuchPart
  | .value v => do
    let (r, _) ← objectOf v
    place r span
    return v

def binary (op : BinaryOp) (span : Span) (left right : Value) : Eval Value := do
  let (l, _) ← objectOf left
  placed span (← Operator.binary op l right)

def unary (op : UnaryOp) (span : Span) (arg : Value) : Eval Value := do
  let (r, _) ← objectOf arg
  match op with
  | .plus => placed span (.value arg)
  | .minus => placed span (← Operator.binary .mul r (← make (.number (.int (-1)))))
  | .not => placed span (← Operator.negate r)

/-- The context of a call, entered from the function's own. -/
def callContext (callee : Object) (name : String) : Eval Context := do
  match callee.context with
  | none => fault .noSuchPart
  | some outer =>
    let symbols ← childTable outer.symbols
    let hidden ← childTable outer.hidden
    return ⟨name, some outer, callee.start, symbols, hidden⟩

/-- Compares the number of arguments with the number of parameters. -/
def checkCount (ref : ObjectRef) (callee : Object) (params : List String) (args : List Value) :
    Eval Unit := do
  let report (count : Nat) (which : String) : Eval Unit := do
    let whole ← written (.object ref)
    error callee.start callee.stop s!"{count} too {which} args passed into {whole}" callee.context
  if params.length < args.length then report (args.length - params.length) "many"
  if args.length < params.length then report (params.length - args.length) "few"

/-- Binds arguments to parameters and moves them into the context of the call. -/
def bindArgs (context : Context) : List String → List Value → Eval (List ObjectRef)
  | p :: params, v :: args => do
    let (r, _) ← objectOf v
    enter r (some context)
    bind context.symbols p v
    return r :: (← bindArgs context params args)
  | _, _ => return []

/-- Enters a function with arguments, and gives the context of the call. -/
def enterFunction (ref : ObjectRef) (callee : Object) (name : String) (params : List String)
    (args : List Value) : Eval Context := do
  let context ← callContext callee name
  checkCount ref callee params args
  let _ ← bindArgs context params args
  return context

/-- The function that a value is, as it is called at a place. -/
def calleeAt (span : Span) (v : Value) : Eval ObjectRef := do
  let (r, _) ← objectOf v
  let f ← copy r
  place f span
  return f

/-- What a call gave, as it arises at the place of the call. -/
def resultAt (span : Span) (context : Context) (v : Value) : Eval Value := do
  let (r, _) ← objectOf v
  return .object (← copyTo r span context)

/-- Where a counted loop starts, what each round adds, and whether it counts up. -/
def loopStart (first step : Value) : Eval (Number × Number × Bool) := do
  let i ← plainNumber first
  let by_ ← plainNumber step
  return (i, by_, ← lift (by_.ge (.int 0)))

/-- Starts a round of a counted loop and gives the number of the next, or none if there is no
round left. -/
def startRound (context : Context) (name : String) (i by_ : Number) (up : Bool) (last : Value) :
    Eval (Option Number) := do
  let bound ← plainNumber last
  if ← lift (if up then i.lt bound else i.gt bound) then
    bind context.symbols name (← make (.number i))
    return some (← lift (i.add by_))
  else return none

/-- What a function gives whose body gave `v`: an expression's value if there is any. -/
def functionResult (isExpression : Bool) (v : Value) : Eval Value := do
  if isExpression && (← store).isSomething v then return v else return nullValue

/-- Leaves the function with a value. A value that counts as nothing does not leave it. -/
def returnValue (v : Value) : Eval Value := do
  if (← store).isSomething v then throw (.returned v) else return .absent

/-- What a program shows for its value: nothing if it would be written `null`. -/
def programValue (v : Value) : Eval Value := do
  return if (← written v) == "null" then .bare "" else v

def interruptReport : Diagnostic :=
  ⟨.keyboardInterrupt, "Execution interrupted", none, none, none⟩

/-- How a whole program ends: with a value or an error. Signals that no loop or function took end
it without a value, and an interrupt is an error. -/
def settle (x : Eval Value) : Eval (Except Diagnostic Value) := do
  let shownValue : Eval Value := do programValue (← x)
  match ← outcome shownValue with
  | .ok v => return .ok v
  | .error (.error d) => return .error d
  | .error (.fault .interrupted) => return .error interruptReport
  | .error (.fault f) => fault f
  | .error _ => return .ok .absent

/-- The tree of a program, or what is wrong with its text. -/
def treeOf (source : Source) : Eval (Except Diagnostic Node) :=
  match source.tokens with
  | .error (.reported d) => return .error d
  | .error (.fault f) => fault f
  | .ok tokens =>
    match Node.ofTokens tokens with
    | .ok n => return .ok n
    | .error (.invalid d) => return .error d
    | .error .exhausted => fault .outOfFuel

def readFile (path : String) : Eval String := do
  match (← world).readText path with
  | .ok t => return t
  | .error e => fault (Prompt.faultOf e)

/-- The last name in a path, without its extension. -/
def moduleName (path : String) : String :=
  let name := ((FileTree.ofText path).filter (· ≠ ".")).getLast?.getD ""
  let cs := name.toList
  let extension := (cs.reverse.takeWhile (· ≠ '.')).length + 1
  if 1 < extension && extension < cs.length then String.ofList (cs.take (cs.length - extension))
  else name

/-- The file that an import means: the one named or the library's. -/
def importFile (context : Context) (span : Span) (path : String) : Eval String := do
  let w ← world
  if w.files.isFile w.cwd path then return path
  let shared := if w.files.isAbsolute path then path else w.libraryPath ++ "/" ++ path
  if w.files.isFile w.cwd shared then return shared
  error (some span.start) (some span.stop) s!"No module named {shared}" (some context)

/-- Asks the language model, and gives the code in its answer. -/
def askModel (request : Value) : Eval String := do
  let request ← written request
  modifyWorld (·.record (.status (Prompt.status request)))
  let prompt ← lift (Prompt.full (← world) request)
  modifyWorld (·.record (.model prompt))
  let replies := (← world).replies
  modifyWorld ({ · with replies := replies.tail })
  return Text.code (replies.headD "")

mutual

def eval : (fuel depth : Nat) → Context → Node → Eval Value
  | 0, _, _, _ => fault .outOfFuel
  | fuel + 1, depth, context, node =>
    match node with
    | .number span (.int n) => allocateAt (.number (.int n)) span context
    | .number span (.float x) => allocateAt (.number (.float x)) span context
    | .text span s => allocateAt (.text s) span context
    | .list span items => do
      let vs ← evalAll fuel depth context items
      listAt vs span context
    | .access span name => access context span name
    | .assign _ name value => do
      let v ← eval fuel depth context value
      bind context.symbols name v
      bind context.hidden name v
      return v
    | .binary span op left right => do
      let l ← eval fuel depth context left
      let r ← eval fuel depth context right
      binary op span l r
    | .unary span op arg => do
      let v ← eval fuel depth context arg
      unary op span v
    | .branch _ cases fallback => evalCases fuel depth context cases fallback
    | .forLoop span name first last step body block => do
      let first ← eval fuel depth context first
      let last ← eval fuel depth context last
      let step ← match step with
        | some s => eval fuel depth context s
        | none => make (.number (.int 1))
      let (i, by_, up) ← loopStart first step
      let vs ← repeatFor fuel depth context name i by_ up last body []
      if block then return nullValue else listAt vs span context
    | .whileLoop span condition body block => do
      let vs ← repeatWhile fuel depth context condition body []
      if block then return nullValue else listAt vs span context
    | .function span name params body isExpression => do
      let f ← allocateAt (.function (name.getD "<anonymous>") params body isExpression) span context
      if let some n := name then bind context.symbols n f
      return f
    | .call span callee args => do
      let f ← calleeAt span (← eval fuel depth context callee)
      let vs ← evalAll fuel depth context args
      resultAt span context (← call fuel depth f vs)
    | .ret _ value => do
      let v ← match value with
        | some e => eval fuel depth context e
        | none => pure nullValue
      returnValue v
    | .think _ value => do
      let v ← match value with
        | some e => eval fuel depth context e
        | none => pure nullValue
      let code ← askModel v
      let _ ← runText fuel depth ⟨"<stdin>", code⟩
      return .bare code
    | .importFile span path => do
      let file ← importFile context span path
      match ← importText fuel depth file with
      | .ok v => return v
      | .error d => throw (.error d)
    | .continueLoop _ => throw .continued
    | .breakLoop _ => throw .broke

def evalAll : (fuel depth : Nat) → Context → List Node → Eval (List Value)
  | 0, _, _, _ => fault .outOfFuel
  | _ + 1, _, _, [] => return []
  | fuel + 1, depth, context, n :: rest => do
    let v ← eval fuel depth context n
    return v :: (← evalAll fuel depth context rest)

/-- The first case whose condition holds, or the fallback. A block gives null. -/
def evalCases : (fuel depth : Nat) → Context → List (Node × Node × Bool) →
    Option (Node × Bool) → Eval Value
  | 0, _, _, _, _ => fault .outOfFuel
  | _ + 1, _, _, [], none => return nullValue
  | fuel + 1, depth, context, [], some (body, block) => do
    let v ← eval fuel depth context body
    return if block then nullValue else v
  | fuel + 1, depth, context, (condition, body, block) :: rest, fallback => do
    if ← isTrue (← eval fuel depth context condition) then
      let v ← eval fuel depth context body
      return if block then nullValue else v
    else evalCases fuel depth context rest fallback

/-- The values of a counted loop's body, for those rounds that gave one. Those of the rounds
before are held last first. -/
def repeatFor : (fuel depth : Nat) → Context → (name : String) → (i by_ : Number) → (up : Bool) →
    (last : Value) → (body : Node) → (done : List Value) → Eval (List Value)
  | 0, _, _, _, _, _, _, _, _, _ => fault .outOfFuel
  | fuel + 1, depth, context, name, i, by_, up, last, body, done => do
    match ← startRound context name i by_ up last with
    | none => return done.reverse
    | some next =>
      match ← outcome (eval fuel depth context body) with
      | .ok v => repeatFor fuel depth context name next by_ up last body (v :: done)
      | .error .continued => repeatFor fuel depth context name next by_ up last body done
      | .error .broke => return done.reverse
      | .error stop => throw stop

def repeatWhile : (fuel depth : Nat) → Context → (condition body : Node) → (done : List Value) →
    Eval (List Value)
  | 0, _, _, _, _, _ => fault .outOfFuel
  | fuel + 1, depth, context, condition, body, done => do
    if ← isTrue (← eval fuel depth context condition) then
      match ← outcome (eval fuel depth context body) with
      | .ok v => repeatWhile fuel depth context condition body (v :: done)
      | .error .continued => repeatWhile fuel depth context condition body done
      | .error .broke => return done.reverse
      | .error stop => throw stop
    else return done.reverse

/-- Calls an object with arguments. -/
def call : (fuel depth : Nat) → (callee : ObjectRef) → (args : List Value) → Eval Value
  | 0, _, _, _ => fault .outOfFuel
  | _, 0, _, _ => fault .endlessNesting
  | fuel + 1, depth + 1, ref, args => do
    let callee ← object ref
    match callee.payload with
    | .function name params body isExpression =>
      let context ← enterFunction ref callee name params args
      match ← outcome (eval fuel depth context body) with
      | .ok v => functionResult isExpression v
      | .error (.returned v) => return v
      | .error stop => throw stop
    | .builtin name =>
      let context ← callContext callee name
      match Builtin.ofName? name with
      | none => fault .noSuchPart
      | some b =>
        checkCount ref callee b.params args
        let refs ← bindArgs context b.params args
        match b, refs with
        | .run, [file] => runFile fuel depth ⟨callee, context⟩ file
        | _, _ => (⟨callee, context⟩ : BuiltinCall).perform b refs
    | _ => Operator.unknown ref .absent

/-- Runs the program in a file. -/
def runFile : (fuel depth : Nat) → BuiltinCall → (file : ObjectRef) → Eval Value
  | 0, _, _, _ => fault .outOfFuel
  | fuel + 1, depth, c, file => do
    let path ← c.textArg file "Second argument must be string"
    match (← world).readText path with
    | .error e => c.fail (s!"Failed to load script \"{path}\"\n" ++ e.message path)
    | .ok text =>
      match ← runText fuel depth ⟨path, text⟩ with
      | .ok _ => return nullValue
      | .error d =>
        match d.message? with
        | some m => c.fail (s!"Failed to finish executing script \"{path}\"\n" ++ m)
        | none => fault .noSuchPart

/-- Runs a text as a program of its own. -/
def runText : (fuel depth : Nat) → Source → Eval (Except Diagnostic Value)
  | 0, _, _ => fault .outOfFuel
  | _, 0, _ => fault .endlessNesting
  | fuel + 1, depth + 1, source => do
    match ← treeOf source with
    | .error d => return .error d
    | .ok tree =>
      bind programNames "is_main" (← make (.number (.int 1)))
      let context : Context := ⟨s!"<{source.name}>", none, none, globals, programNames⟩
      settle (eval fuel depth context tree)

/-- Evaluates the text of a file as a module, with a table of hidden names of its own. -/
def importText : (fuel depth : Nat) → (path : String) → Eval (Except Diagnostic Value)
  | 0, _, _ => fault .outOfFuel
  | _, 0, _ => fault .endlessNesting
  | fuel + 1, depth + 1, path => do
    let text ← readFile path
    match ← treeOf ⟨path, text⟩ with
    | .error d => return .error d
    | .ok tree =>
      let hidden ← newTable
      bind hidden "is_main" (← make (.number (.int 0)))
      let context : Context := ⟨s!"<{moduleName path}>", none, none, globals, hidden⟩
      settle (eval fuel depth context tree)

end

end Eval

end Think
