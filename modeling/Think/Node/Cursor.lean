import Think.Fault
import Think.Node.Parser

/-! # Reading step by step

A cursor stands in a list of tokens and runs single productions from there. It may be moved off
either end, where it keeps showing the last token it stood on.
-/

namespace Think

/-- The productions that a cursor can run. -/
inductive Production
  | program | statements | statement | expression | negation | sum | product | factor | power
  | call | atom | listLiteral | branch | moreCases | fallback | forLoop | whileLoop | function
  | cases (lead : String)

/-- What a production reads. -/
inductive Reading
  | node (value : Node)
  | cases (value : Cases)
  | fallback (value : Option (Node × Bool))

namespace Production

open Parse

/-- A case behind a word that is no keyword can never be read. -/
def leadMissing (lead : String) : Parse Cases := do
  optionalVar
  reject s!"Expected '{lead}'"

def run : Production → (fuel : Nat) → Parse Reading
  | program, n => .node <$> Parse.program n
  | statements, n => .node <$> Parse.statements n
  | statement, n => .node <$> Parse.statement n
  | expression, n => .node <$> Parse.expression n
  | negation, n => .node <$> Parse.negation n
  | sum, n => .node <$> chain n .sum
  | product, n => .node <$> chain n .product
  | factor, n => .node <$> Parse.factor n
  | power, n => .node <$> chain n .power
  | call, n => .node <$> Parse.call n
  | atom, n => .node <$> Parse.atom n
  | listLiteral, n => .node <$> Parse.listLiteral n
  | branch, n => .node <$> Parse.branch n
  | moreCases, n => .cases <$> Parse.moreCases n
  | fallback, n => .fallback <$> Parse.fallback n
  | forLoop, n => .node <$> Parse.forLoop n
  | whileLoop, n => .node <$> Parse.whileLoop n
  | function, n => .node <$> Parse.function n
  | cases lead, n =>
    .cases <$> match Keyword.ofText? lead with
      | some k => Parse.cases n k
      | none => leadMissing lead

end Production

structure Cursor where
  tokens : List Token
  idx : Int
  current : Token

namespace Cursor

def ofTokens? : List Token → Option Cursor
  | [] => none
  | t :: rest => some ⟨t :: rest, 0, t⟩

def inRange (c : Cursor) (i : Int) : Bool := 0 ≤ i && i < c.tokens.length

/-- Moves by a signed number of tokens. -/
def move (c : Cursor) (amount : Int) : Cursor :=
  let idx := c.idx + amount
  let current := if c.inRange idx then c.tokens[idx.toNat]?.getD c.current else c.current
  { c with idx, current }

def ahead? (c : Cursor) : Option Token :=
  let i := c.idx + 1
  if c.tokens.length ≤ i then none
  else c.tokens[(if i < 0 then i + c.tokens.length else i).toNat]?

def behind (c : Cursor) : Except Fault (Option Token) :=
  let i := c.idx - 1
  if i < 0 then .ok none
  else match c.tokens[i.toNat]? with
    | some t => .ok (some t)
    | none => .error .noSuchIndex

/-- The tokens from the cursor on. -/
def feed (c : Cursor) : Feed :=
  if 0 ≤ c.idx then ⟨c.current, c.tokens.drop (c.idx.toNat + 1)⟩
  else ⟨c.current, List.replicate (-c.idx - 1).toNat c.current ++ c.tokens⟩

/-- Spells out the files of the imports that were passed between two indices. -/
def spellImports (start stop : Int) : (i : Int) → List Token → List Token
  | i, t :: u :: rest =>
    let u' := match t.lexeme, u.lexeme with
      | .keyword .importKw, .text written =>
        if start ≤ i && i + 1 < stop then { u with lexeme := .text (importPath written) } else u
      | _, _ => u
    t :: spellImports start stop (i + 1) (u' :: rest)
  | _, ts => ts
  termination_by _ ts => ts.length

/-- The first place where a production may read an import. The word in front of a case is none. -/
def importsFrom (c : Cursor) : Production → Int
  | .cases lead =>
    if lead = Keyword.importKw.text then c.idx + (if c.current.lexeme.isVarText then 2 else 1)
    else c.idx
  | _ => c.idx

structure Outcome where
  reading : Except Rejection Reading
  progress : Progress

/-- The index of the token where a production has stopped. Beyond the list the feed stays on one
token, and only the count tells how far the production went. -/
def indexAfter (c : Cursor) (p : Progress) : Int :=
  if c.idx < c.tokens.length then c.tokens.length - p.feed.tokens.length
  else c.idx + p.advances

/-- Runs a production, and leaves the cursor where it ended. -/
def run (c : Cursor) (p : Production) : Outcome × Cursor :=
  let (reading, progress) := Parse.runOn p.run c.feed
  let tokens := spellImports (c.importsFrom p) (c.idx + progress.reach) 0 c.tokens
  (⟨reading, progress⟩, ⟨tokens, c.indexAfter progress, progress.feed.current⟩)

end Cursor

end Think
