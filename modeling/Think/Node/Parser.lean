import Think.Node.Progress

/-! # From tokens to trees

One production per form of the language. Operators bind in five levels, and all of them associate
to the left except for powers, whose exponent may carry a sign. `fuel` bounds how deeply
productions nest; `Node.ofTokens` starts with enough for any list of tokens.
-/

namespace Think

/-- The levels of binary operators, from the loosest to the tightest. -/
inductive Level
  | logic | comparison | sum | product | power
  deriving DecidableEq, Repr

/-- The operator that a lexeme stands for on a level. -/
def Level.op? : Level → Lexeme → Option BinaryOp
  | logic, .keyword .andKw => some .and
  | logic, .keyword .orKw => some .or
  | comparison, .equal => some .eq
  | comparison, .unequal => some .ne
  | comparison, .less => some .lt
  | comparison, .greater => some .gt
  | comparison, .lessEqual => some .le
  | comparison, .greaterEqual => some .ge
  | sum, .plus => some .add
  | sum, .minus => some .sub
  | product, .times => some .mul
  | product, .divide => some .div
  | product, .modulo => some .mod
  | product, .dot => some .dot
  | power, .power => some .pow
  | _, _ => none

/-- The file an import names: a slash at the end is dropped and the extension is added. -/
def importPath (written : String) : String :=
  let cs := written.toList
  let path := match cs.getLast? with
    | some '/' | some '\\' => String.ofList cs.dropLast
    | _ => written
  if ".think".toList.isSuffixOf path.toList then path else path ++ ".think"

namespace Parse

def expressionStarts : String :=
  "'var', 'if', 'for', 'while', 'func', int, float, identifier, '+', '-', '(', '[' or 'not'"

def statementDetails : String :=
  "Expected 'return', 'continue', 'break', " ++ expressionStarts

def expressionDetails : String :=
  "Expected " ++ expressionStarts

def comparisonDetails : String :=
  "Expected int, float, identifier, '+', '-', '(', '[', 'if', 'for', 'while', 'func' or 'not'"

def atomDetails : String :=
  "Expected int, float, identifier, '+', '-', '(', '[', IF', 'for', 'while', 'func'"

/-- Passes a keyword, which has to be there. -/
def keyword (k : Keyword) : Parse Unit := do
  match ← lexeme with
  | .keyword w => if w = k then advance else reject s!"Expected '{k.text}'"
  | _ => reject s!"Expected '{k.text}'"

/-- Whether the current token is the given keyword. -/
def atKeyword (k : Keyword) : Parse Bool := do
  match ← lexeme with
  | .keyword w => return w = k
  | _ => return false

/-- Passes a `var`, if there is one, be it a keyword or a quoted text. -/
def optionalVar : Parse Unit := do
  if (← lexeme).isVarText then advance

/-- Passes a name, which has to be there. -/
def identifier (details : String) : Parse (String × Span) := do
  let t ← current
  match t.lexeme with
  | .name s => advance; return (s, t.span)
  | _ => reject details

/-- Passes the sign of an assignment, which has to be there. -/
def assignSign : Parse Unit := do
  match ← lexeme with
  | .assign => advance
  | _ => reject "Expected '='"

/-- The name of a function, if it has one. -/
def functionName : Parse (Option (String × Span)) := do
  match ← lexeme with
  | .name _ => some <$> identifier ""
  | _ => return none

/-- Passes the bracket in front of parameters, which has to be there. -/
def openParams (named : Bool) : Parse Unit := do
  match ← lexeme with
  | .openParen => advance
  | _ => reject (if named then "Expected '('" else "Expected identifier or '('")

/-- Further parameters, each behind a comma. -/
def moreParams : (fuel : Nat) → Parse (List (String × Span))
  | 0 => exhausted
  | fuel + 1 => do
    match ← lexeme with
    | .comma =>
      advance
      let p ← identifier "Expected identifier"
      return p :: (← moreParams fuel)
    | _ => return []

/-- Parameters up to the closing bracket. -/
def params (fuel : Nat) : Parse (List (String × Span)) := do
  match ← lexeme with
  | .name _ =>
    let p ← identifier ""
    let others ← moreParams fuel
    match ← lexeme with
    | .closeParen => advance; return p :: others
    | _ => reject "Expected ',' or ')'"
  | .closeParen => advance; return []
  | _ => reject "Expected identifier or ')'"

/-- The step of a loop, if it has one, read by `x`. -/
def loopStep (x : Parse Node) : Parse (Option Node) := do
  if ← atKeyword .stepKw then
    advance
    return some (← part x)
  else return none

/-- A node reported from the start of `left` to the end of `right`. -/
def joined (op : BinaryOp) (left right : Node) : Node :=
  .binary ⟨left.start, right.stop⟩ op left right

def branchNode : Cases → Node
  | (cases, fallback) =>
    let start := match cases with
      | (condition, _, _) :: _ => condition.start
      | [] => default
    let stop := match fallback, cases.getLast? with
      | some (body, _), _ => body.stop
      | none, some (condition, _, _) => condition.stop
      | none, none => default
    .branch ⟨start, stop⟩ cases fallback

def callNode (callee : Node) (args : List Node) : Node :=
  .call ⟨callee.start, (args.getLast?.getD callee).stop⟩ callee args

def functionNode (name? : Option (String × Span)) (params : List (String × Span)) (body : Node)
    (isExpression : Bool) : Node :=
  let start := match name?, params with
    | some (_, s), _ => s.start
    | none, (_, s) :: _ => s.start
    | none, [] => body.start
  .function ⟨start, body.stop⟩ (name?.map (·.1)) (params.map (·.1)) body isExpression

mutual

/-- Statements divided by line breaks. A statement after the first that cannot be read ends the
list before it. -/
def statements : (fuel : Nat) → Parse Node
  | 0 => exhausted
  | fuel + 1 => do
    let start := (← current).start
    let _ ← newlines
    let first ← part (statement fuel)
    let others ← moreStatements fuel
    return .list ⟨start, (← current).stop⟩ (first :: others)

def moreStatements : (fuel : Nat) → Parse (List Node)
  | 0 => exhausted
  | fuel + 1 => do
    if (← newlines) = 0 then return []
    match ← attempt (statement fuel) with
    | none => return []
    | some s => return s :: (← moreStatements fuel)

def statement : (fuel : Nat) → Parse Node
  | 0 => exhausted
  | fuel + 1 => do
    let start := (← current).start
    match ← lexeme with
    | .keyword .returnKw =>
      advance
      let value ← attempt (expression fuel)
      return .ret ⟨start, (← current).start⟩ value
    | .keyword .thinkKw =>
      advance
      let value ← attempt (expression fuel)
      return .think ⟨start, (← current).start⟩ value
    | .keyword .continueKw =>
      advance
      return .continueLoop ⟨start, (← current).start⟩
    | .keyword .breakKw =>
      advance
      return .breakLoop ⟨start, (← current).start⟩
    | _ => partOr statementDetails (expression fuel)

def expression : (fuel : Nat) → Parse Node
  | 0 => exhausted
  | fuel + 1 => do
    match ← lexeme with
    | .keyword .varKw =>
      advance
      let (name, at_) ← identifier "Expected identifier"
      assignSign
      let value ← part (expression fuel)
      return .assign ⟨at_.start, value.stop⟩ name value
    | .keyword .importKw =>
      advance
      let t ← current
      match t.lexeme with
      | .text written => advance; return .importFile t.span (importPath written)
      | _ => reject "Expected string"
    | _ => partOr expressionDetails (chain fuel .logic)

def negation : (fuel : Nat) → Parse Node
  | 0 => exhausted
  | fuel + 1 => do
    let t ← current
    match t.lexeme with
    | .keyword .notKw =>
      advance
      let arg ← part (negation fuel)
      return .unary ⟨t.start, arg.stop⟩ .not arg
    | _ => partOr comparisonDetails (chain fuel .comparison)

/-- Operands of a level joined by its operators. -/
def chain : (fuel : Nat) → Level → Parse Node
  | 0, _ => exhausted
  | fuel + 1, level => do
    let first ← part (operand fuel level)
    moreOperands fuel level first

def moreOperands : (fuel : Nat) → Level → Node → Parse Node
  | 0, _, _ => exhausted
  | fuel + 1, level, left => do
    match level.op? (← lexeme) with
    | none => return left
    | some op =>
      advance
      let right ← part (match level with
        | .power => factor fuel
        | _ => operand fuel level)
      moreOperands fuel level (joined op left right)

def operand : (fuel : Nat) → Level → Parse Node
  | 0, _ => exhausted
  | fuel + 1, .logic => negation fuel
  | fuel + 1, .comparison => chain fuel .sum
  | fuel + 1, .sum => chain fuel .product
  | fuel + 1, .product => factor fuel
  | fuel + 1, .power => call fuel

def factor : (fuel : Nat) → Parse Node
  | 0 => exhausted
  | fuel + 1 => do
    let t ← current
    match t.lexeme with
    | .plus =>
      advance
      let arg ← part (factor fuel)
      return .unary ⟨t.start, arg.stop⟩ .plus arg
    | .minus =>
      advance
      let arg ← part (factor fuel)
      return .unary ⟨t.start, arg.stop⟩ .minus arg
    | _ => chain fuel .power

def call : (fuel : Nat) → Parse Node
  | 0 => exhausted
  | fuel + 1 => do
    let callee ← part (atom fuel)
    match ← lexeme with
    | .openParen =>
      advance
      match ← lexeme with
      | .closeParen => advance; return callNode callee []
      | _ =>
        let first ← partOr ("Expected ')', " ++ expressionStarts) (expression fuel)
        let others ← moreItems fuel
        match ← lexeme with
        | .closeParen => advance; return callNode callee (first :: others)
        | _ => reject "Expected ',' or ')'"
    | _ => return callee

/-- Further expressions, each behind a comma. -/
def moreItems : (fuel : Nat) → Parse (List Node)
  | 0 => exhausted
  | fuel + 1 => do
    match ← lexeme with
    | .comma =>
      advance
      let item ← part (expression fuel)
      return item :: (← moreItems fuel)
    | _ => return []

def atom : (fuel : Nat) → Parse Node
  | 0 => exhausted
  | fuel + 1 => do
    let t ← current
    match t.lexeme with
    | .int n => advance; return .number t.span (.int n)
    | .float x => advance; return .number t.span (.float x)
    | .text s => advance; return .text t.span s
    | .name s => advance; return .access t.span s
    | .openParen =>
      advance
      let inner ← part (expression fuel)
      match ← lexeme with
      | .closeParen => advance; return inner
      | _ => reject "Expected ')'"
    | .openSquare => part (listLiteral fuel)
    | .keyword .ifKw => part (branch fuel)
    | .keyword .forKw => part (forLoop fuel)
    | .keyword .whileKw => part (whileLoop fuel)
    | .keyword .funcKw => part (function fuel)
    | _ => reject atomDetails

def listLiteral : (fuel : Nat) → Parse Node
  | 0 => exhausted
  | fuel + 1 => do
    let start := (← current).start
    match ← lexeme with
    | .openSquare => advance
    | _ => reject "Expected '['"
    match ← lexeme with
    | .closeSquare =>
      advance
      return .list ⟨start, (← current).stop⟩ []
    | _ =>
      let first ← partOr ("Expected ']', " ++ expressionStarts) (expression fuel)
      let others ← moreItems fuel
      match ← lexeme with
      | .closeSquare =>
        advance
        return .list ⟨start, (← current).stop⟩ (first :: others)
      | _ => reject "Expected ',' or ']'"

def branch : (fuel : Nat) → Parse Node
  | 0 => exhausted
  | fuel + 1 => do return branchNode (← part (cases fuel .ifKw))

/-- A case behind the keyword `lead`, and the cases after it. -/
def cases : (fuel : Nat) → Keyword → Parse Cases
  | 0, _ => exhausted
  | fuel + 1, lead => do
    optionalVar
    keyword lead
    let condition ← part (expression fuel)
    keyword .thenKw
    match ← lexeme with
    | .newline =>
      advance
      let body ← part (statements fuel)
      if ← atKeyword .endKw then
        advance
        return ([(condition, body, true)], none)
      else
        let (others, fallback) ← part (moreCases fuel)
        return ((condition, body, true) :: others, fallback)
    | _ =>
      let body ← part (statement fuel)
      let (others, fallback) ← part (moreCases fuel)
      return ((condition, body, false) :: others, fallback)

def moreCases : (fuel : Nat) → Parse Cases
  | 0 => exhausted
  | fuel + 1 => do
    if ← atKeyword .elifKw then part (cases fuel .elifKw)
    else return ([], ← part (fallback fuel))

def fallback : (fuel : Nat) → Parse (Option (Node × Bool))
  | 0 => exhausted
  | fuel + 1 => do
    if ← atKeyword .elseKw then
      advance
      match ← lexeme with
      | .newline =>
        advance
        let body ← part (statements fuel)
        keyword .endKw
        return some (body, true)
      | _ => return some (← part (statement fuel), false)
    else return none

/-- The body of a loop: a block up to `end`, or one statement. -/
def loopBody : (fuel : Nat) → Parse (Node × Bool)
  | 0 => exhausted
  | fuel + 1 => do
    keyword .doKw
    match ← lexeme with
    | .newline =>
      advance
      let body ← part (statements fuel)
      keyword .endKw
      return (body, true)
    | _ => return (← part (statement fuel), false)

def forLoop : (fuel : Nat) → Parse Node
  | 0 => exhausted
  | fuel + 1 => do
    keyword .forKw
    optionalVar
    let (name, at_) ← identifier "Expected identifier"
    assignSign
    let first ← part (expression fuel)
    keyword .toKw
    let last ← part (expression fuel)
    let step ← loopStep (expression fuel)
    let (body, block) ← loopBody fuel
    return .forLoop ⟨at_.start, body.stop⟩ name first last step body block

def whileLoop : (fuel : Nat) → Parse Node
  | 0 => exhausted
  | fuel + 1 => do
    keyword .whileKw
    let condition ← part (expression fuel)
    let (body, block) ← loopBody fuel
    return .whileLoop ⟨condition.start, body.stop⟩ condition body block

def function : (fuel : Nat) → Parse Node
  | 0 => exhausted
  | fuel + 1 => do
    keyword .funcKw
    let name? ← functionName
    openParams name?.isSome
    let params ← params fuel
    match ← lexeme with
    | .arrow =>
      advance
      let body ← part (expression fuel)
      return functionNode name? params body true
    | .newline =>
      advance
      let body ← part (statements fuel)
      keyword .endKw
      return functionNode name? params body false
    | _ => reject "Expected '->' or NEWLINE"

end

/-- A whole program: statements up to the end of the text. -/
def program (fuel : Nat) : Parse Node := do
  let body ← statements fuel
  match ← lexeme with
  | .endOfText => return body
  | _ => reject "Token cannot appear after previous tokens"

/-- Enough nesting for a feed of this many tokens. -/
def fuelFor (count : Nat) : Nat := 24 * (count + 2)

/-- Runs a production on a feed, with enough nesting for it. -/
def runOn {α : Type} (production : Nat → Parse α) (feed : Feed) : Except Rejection α × Progress :=
  production (fuelFor feed.tokens.length) (.start feed)

end Parse

/-- The tree of a list of tokens. -/
def Node.ofTokens : List Token → Except Rejection Node
  | [] => .error .exhausted
  | t :: rest => (Parse.runOn Parse.program ⟨t, rest⟩).1

end Think
