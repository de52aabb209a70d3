import Think.Diagnostic
import Think.Node

/-! # Progress through tokens

A production reads from a feed of tokens and keeps count of the tokens it has passed. A production
that fails may be given up, and the feed is then put back by the number of tokens it had passed.
The counts also decide which of two errors is kept: a wider error replaces a narrower one only if
the narrower production had passed nothing.
-/

namespace Think

/-- The token that is read next and those behind it. Stepping past the last one stays on it. -/
structure Feed where
  current : Token
  rest : List Token
  deriving Inhabited

namespace Feed

def advance (f : Feed) : Feed :=
  match f.rest with
  | [] => f
  | t :: rest => ⟨t, rest⟩

/-- The feed as a list. -/
def tokens (f : Feed) : List Token := f.current :: f.rest

end Feed

structure Progress where
  feed : Feed
  /-- Tokens passed. -/
  advances : Nat
  /-- Tokens passed by the latest part that was kept. -/
  last : Nat
  /-- Tokens put back when a part was given up. -/
  back : Nat
  /-- Tokens passed at the furthest point, by parts given up as well. -/
  reach : Nat

namespace Progress

def start (feed : Feed) : Progress := ⟨feed, 0, 0, 0, 0⟩

end Progress

/-- Why a production yields no node. -/
inductive Rejection
  | invalid (error : Diagnostic)
  /-- The bound on nesting was too small; says nothing about the tokens. -/
  | exhausted

/-- A production that yields an `α`. -/
abbrev Parse (α : Type) := ExceptT Rejection (StateM Progress) α

namespace Parse

variable {α : Type}

def current : Parse Token := do return (← get).feed.current

def lexeme : Parse Lexeme := do return (← get).feed.current.lexeme

/-- Passes one token. -/
def advance : Parse Unit :=
  modify fun p =>
    { p with feed := p.feed.advance, advances := p.advances + 1, last := 1
             reach := max p.reach (p.advances + 1) }

def errorAt (t : Token) (details : String) : Rejection :=
  .invalid (.static .invalidSyntax t.span details)

/-- Fails at the current token. -/
def reject (details : String) : Parse α := do throw (errorAt (← current) details)

def exhausted : Parse α := throw .exhausted

/-- The progress `p` after a part of it came as far as `q`. -/
def Progress.keep (p q : Progress) : Progress :=
  { feed := q.feed, advances := p.advances + q.advances, last := q.advances, back := p.back
    reach := max p.reach (p.advances + q.reach) }

/-- The progress `p` after a part that came as far as `q` is given up. -/
def Progress.giveUp (p q : Progress) : Progress :=
  { p with back := q.advances, reach := max p.reach (p.advances + q.reach) }

/-- Runs a production as a part of this one. -/
def part (x : Parse α) : Parse α := fun p =>
  let (r, q) := x (.start p.feed)
  (r, Progress.keep p q)

/-- Runs a production as a part. If it fails without having passed a token, the failure is
reported as `details` instead. -/
def partOr (details : String) (x : Parse α) : Parse α := fun p =>
  match x (.start p.feed) with
  | (.error (.invalid e), q) =>
    if q.advances = 0 then (.error (errorAt q.feed.current details), Progress.keep p q)
    else (.error (.invalid e), Progress.keep p q)
  | (r, q) => (r, Progress.keep p q)

/-- Runs a production as a part, and goes back to where it started if it fails. -/
def attempt (x : Parse α) : Parse (Option α) := fun p =>
  match x (.start p.feed) with
  | (.ok a, q) => (.ok (some a), Progress.keep p q)
  | (.error (.invalid _), q) => (.ok none, Progress.giveUp p q)
  | (.error .exhausted, q) => (.error .exhausted, Progress.keep p q)

/-- Passes all line breaks from here on, and tells how many there were. -/
def newlines : Parse Nat := fun p =>
  let count := (p.feed.tokens.takeWhile fun t => t.lexeme matches .newline).length
  let feed := Nat.repeat Feed.advance count p.feed
  let advances := p.advances + count
  (.ok count, { p with feed, advances, last := if count = 0 then p.last else 1
                       reach := max p.reach advances })

end Parse

end Think
