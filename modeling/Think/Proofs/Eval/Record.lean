import Think.Eval

/-! # Evaluation that keeps a record

Another evaluator for the same language, in which nothing but a fault is thrown. Each part registers
in a record how its own parts ended, and stops early if this interrupts it. A record is not cleared
between two parts, nor between the rounds of a loop.
-/

namespace Think

structure Record where
  value : Value
  error : Option Diagnostic
  returned : Value
  continued : Bool
  broke : Bool

namespace Record

def blank : Record := ⟨.absent, none, .absent, false, false⟩

def success (v : Value) : Record := { blank with value := v }

def failure (d : Diagnostic) : Record := { blank with error := some d }

def leaving (v : Value) : Record := { blank with returned := v }

def continuing : Record := { blank with continued := true }

def breaking : Record := { blank with broke := true }

def register (r other : Record) : Record := { other with value := r.value }

/-- Whether a part with this record is to stop. A value to return that counts as nothing does not
stop it. -/
def interrupts (r : Record) (s : Store) : Bool :=
  r.error.isSome || s.isSomething r.returned || r.continued || r.broke

def answer (r : Record) : Eval Value := do
  match r.error with
  | some d => throw (.error d)
  | none =>
    if (← Eval.store).isSomething r.returned then throw (.returned r.returned)
    else if r.continued then throw .continued
    else if r.broke then throw .broke
    else return r.value

def marks (r : Record) : List Bool := [r.error.isSome, r.returned ≠ .absent, r.continued, r.broke]

/-- At most one thing is set besides the value, and if one is, there is no value. -/
structure Exclusive (r : Record) : Prop where
  count_le : r.marks.count true ≤ 1
  value : true ∈ r.marks → r.value = .absent

end Record

namespace Eval

open BuiltinCall (nullValue)

/-- Goes on with what a step gives. Its error is the failure of the whole. -/
def settling {α : Type} (x : Eval α) (k : α → Eval Record) : Eval Record := do
  match ← outcome x with
  | .ok a => k a
  | .error (.error d) => return .failure d
  | .error stop => throw stop

def conclude (x : Eval Value) : Eval Record := settling x fun v => return .success v

/-- Registers how a part ended, and goes on with its value unless that interrupts the whole. -/
def registering (r : Record) (x : Eval Record) (k : Record → Value → Eval Record) :
    Eval Record := do
  let other ← x
  let r := r.register other
  if r.interrupts (← store) then return r else k r other.value

/-- The same for a part that may be left out, with a value instead of it. -/
def registeringOr (r : Record) (x? : Option (Eval Record)) (instead : Eval Value)
    (k : Record → Value → Eval Record) : Eval Record :=
  match x? with
  | some x => registering r x k
  | none => do k r (← instead)

/-- Registers how a round of a loop ended. The loop goes on, with the value of the round if there is
one, or is left, unless the round interrupts it. -/
def registeringRound (r : Record) (x : Eval Record) (again : Record → Option Value → Eval Record)
    (leave : Eval Record) : Eval Record := do
  let other ← x
  let r := r.register other
  if r.interrupts (← store) && !r.continued && !r.broke then return r
  else if r.continued then again r none
  else if r.broke then leave
  else again r (some other.value)

/-- What a call comes to whose body is `x`. An error or a signal for a loop is passed on. -/
def concludeBody (isExpression : Bool) (x : Eval Record) : Eval Record := do
  let other ← x
  let r := Record.blank.register other
  let s ← store
  if r.interrupts s && r.returned = .absent then return r
  else if isExpression && s.isSomething other.value then return .success other.value
  else if s.isSomething r.returned then return .success r.returned
  else return .success nullValue

/-- How a whole program ends whose record this is. -/
def settleRecord (x : Eval Record) : Eval (Except Diagnostic Value) := do
  let shown : Eval (Except Diagnostic Value) := do
    let r ← x
    let v ← programValue r.value
    match r.error with
    | some d => return .error d
    | none => return .ok v
  match ← outcome shown with
  | .ok answer => return answer
  | .error (.fault .interrupted) => return .error interruptReport
  | .error stop => throw stop

mutual

def visit : (fuel depth : Nat) → Context → Node → Eval Record
  | 0, _, _, _ => fault .outOfFuel
  | fuel + 1, depth, context, node =>
    match node with
    | .number span (.int n) => conclude (allocateAt (.number (.int n)) span context)
    | .number span (.float x) => conclude (allocateAt (.number (.float x)) span context)
    | .text span s => conclude (allocateAt (.text s) span context)
    | .list span items =>
      visitAll fuel depth context .blank items fun _ vs => conclude (listAt vs span context)
    | .access span name => conclude (access context span name)
    | .assign _ name value =>
      registering .blank (visit fuel depth context value) fun _ v => do
        bind context.symbols name v
        bind context.hidden name v
        return .success v
    | .binary span op left right =>
      registering .blank (visit fuel depth context left) fun r l =>
        registering r (visit fuel depth context right) fun _ v => conclude (binary op span l v)
    | .unary span op arg =>
      registering .blank (visit fuel depth context arg) fun _ v => conclude (unary op span v)
    | .branch _ cases fallback => visitCases fuel depth context .blank cases fallback
    | .forLoop span name first last step body block =>
      registering .blank (visit fuel depth context first) fun r first =>
        registering r (visit fuel depth context last) fun r last =>
          registeringOr r (step.map (visit fuel depth context)) (make (.number (.int 1)))
            fun r step => do
              let (i, by_, up) ← loopStart first step
              visitFor fuel depth context r name i by_ up last body [] fun vs =>
                conclude (if block then return nullValue else listAt vs span context)
    | .whileLoop span condition body block =>
      visitWhile fuel depth context .blank condition body [] fun vs =>
        conclude (if block then return nullValue else listAt vs span context)
    | .function span name params body isExpression => do
      let f ← allocateAt (.function (name.getD "<anonymous>") params body isExpression) span context
      if let some n := name then bind context.symbols n f
      return .success f
    | .call span callee args =>
      registering .blank (visit fuel depth context callee) fun r f => do
        let f ← calleeAt span f
        visitAll fuel depth context r args fun r vs =>
          registering r (execute fuel depth f vs) fun _ v => conclude (resultAt span context v)
    | .ret _ value =>
      registeringOr .blank (value.map (visit fuel depth context)) (return nullValue) fun _ v =>
        return .leaving v
    | .think _ value =>
      registeringOr .blank (value.map (visit fuel depth context)) (return nullValue) fun _ v => do
        let code ← askModel v
        let _ ← runRecord fuel depth ⟨"<stdin>", code⟩
        return .success (.bare code)
    | .importFile span path =>
      settling (importFile context span path) fun file => do
        match ← importRecord fuel depth file with
        | .ok v => return .success v
        | .error d => return .failure d
    | .continueLoop _ => return .continuing
    | .breakLoop _ => return .breaking

def visitAll : (fuel depth : Nat) → Context → Record → List Node →
    (Record → List Value → Eval Record) → Eval Record
  | 0, _, _, _, _, _ => fault .outOfFuel
  | _ + 1, _, _, r, [], k => k r []
  | fuel + 1, depth, context, r, n :: rest, k =>
    registering r (visit fuel depth context n) fun r v =>
      visitAll fuel depth context r rest fun r vs => k r (v :: vs)

def visitCases : (fuel depth : Nat) → Context → Record → List (Node × Node × Bool) →
    Option (Node × Bool) → Eval Record
  | 0, _, _, _, _, _ => fault .outOfFuel
  | _ + 1, _, _, _, [], none => return .success nullValue
  | fuel + 1, depth, context, r, [], some (body, block) =>
    registering r (visit fuel depth context body) fun _ v =>
      return .success (if block then nullValue else v)
  | fuel + 1, depth, context, r, (condition, body, block) :: rest, fallback =>
    registering r (visit fuel depth context condition) fun r c => do
      if ← isTrue c then
        registering r (visit fuel depth context body) fun _ v =>
          return .success (if block then nullValue else v)
      else visitCases fuel depth context r rest fallback

def visitFor : (fuel depth : Nat) → Context → Record → (name : String) → (i by_ : Number) →
    (up : Bool) → (last : Value) → (body : Node) → (done : List Value) →
    (List Value → Eval Record) → Eval Record
  | 0, _, _, _, _, _, _, _, _, _, _, _ => fault .outOfFuel
  | fuel + 1, depth, context, r, name, i, by_, up, last, body, done, k => do
    match ← startRound context name i by_ up last with
    | none => k done.reverse
    | some next =>
      registeringRound r (visit fuel depth context body)
        (fun r v? => visitFor fuel depth context r name next by_ up last body (v?.toList ++ done) k)
        (k done.reverse)

def visitWhile : (fuel depth : Nat) → Context → Record → (condition body : Node) →
    (done : List Value) → (List Value → Eval Record) → Eval Record
  | 0, _, _, _, _, _, _, _ => fault .outOfFuel
  | fuel + 1, depth, context, r, condition, body, done, k =>
    registering r (visit fuel depth context condition) fun r c => do
      if ← isTrue c then
        registeringRound r (visit fuel depth context body)
          (fun r v? => visitWhile fuel depth context r condition body (v?.toList ++ done) k)
          (k done.reverse)
      else k done.reverse

def execute : (fuel depth : Nat) → (callee : ObjectRef) → (args : List Value) → Eval Record
  | 0, _, _, _ => fault .outOfFuel
  | _, 0, _, _ => fault .endlessNesting
  | fuel + 1, depth + 1, ref, args => do
    let callee ← object ref
    match callee.payload with
    | .function name params body isExpression =>
      settling (enterFunction ref callee name params args) fun context =>
        concludeBody isExpression (visit fuel depth context body)
    | .builtin name =>
      let context ← callContext callee name
      match Builtin.ofName? name with
      | none => fault .noSuchPart
      | some b =>
        let enter : Eval (List ObjectRef) := do
          checkCount ref callee b.params args
          bindArgs context b.params args
        settling enter fun refs =>
          let result := match b, refs with
            | .run, [file] => executeFile fuel depth ⟨callee, context⟩ file
            | _, _ => conclude ((⟨callee, context⟩ : BuiltinCall).perform b refs)
          registering .blank result fun _ v => return .success v
    | _ => conclude (Operator.unknown ref .absent)

def executeFile : (fuel depth : Nat) → BuiltinCall → (file : ObjectRef) → Eval Record
  | 0, _, _, _ => fault .outOfFuel
  | fuel + 1, depth, c, file =>
    settling (c.textArg file "Second argument must be string") fun path => do
      match (← world).readText path with
      | .error e => conclude (c.fail (s!"Failed to load script \"{path}\"\n" ++ e.message path))
      | .ok text =>
        match ← runRecord fuel depth ⟨path, text⟩ with
        | .ok _ => return .success nullValue
        | .error d =>
          match d.message? with
          | some m => conclude (c.fail (s!"Failed to finish executing script \"{path}\"\n" ++ m))
          | none => fault .noSuchPart

def runRecord : (fuel depth : Nat) → Source → Eval (Except Diagnostic Value)
  | 0, _, _ => fault .outOfFuel
  | _, 0, _ => fault .endlessNesting
  | fuel + 1, depth + 1, source => do
    match ← treeOf source with
    | .error d => return .error d
    | .ok tree =>
      bind programNames "is_main" (← make (.number (.int 1)))
      let context : Context := ⟨s!"<{source.name}>", none, none, globals, programNames⟩
      settleRecord (visit fuel depth context tree)

def importRecord : (fuel depth : Nat) → (path : String) → Eval (Except Diagnostic Value)
  | 0, _, _ => fault .outOfFuel
  | _, 0, _ => fault .endlessNesting
  | fuel + 1, depth + 1, path => do
    let text ← readFile path
    match ← treeOf ⟨path, text⟩ with
    | .error d => return .error d
    | .ok tree =>
      let hidden ← newTable
      bind hidden "is_main" (← make (.number (.int 0)))
      let context : Context := ⟨s!"<{moduleName path}>", none, none, globals, hidden⟩
      settleRecord (visit fuel depth context tree)

end

end Eval

end Think
