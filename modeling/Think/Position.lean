/-! # Positions

A position is a place in a named text: an index, a line and a column, all counted from zero.
-/

namespace Think

structure Source where
  name : String
  text : String
  deriving DecidableEq, Repr, Inhabited

structure Position where
  source : Source
  idx : Nat
  ln : Nat
  col : Nat
  deriving DecidableEq, Repr, Inhabited

structure Span where
  start : Position
  stop : Position
  deriving DecidableEq, Repr, Inhabited

namespace Position

def origin (source : Source) : Position := ⟨source, 0, 0, 0⟩

/-- One place further on the same line. -/
def next (p : Position) : Position := { p with idx := p.idx + 1, col := p.col + 1 }

/-- The place after the character `c`, which starts a new line if it is a line break. -/
def step (p : Position) (c : Char) : Position :=
  if c = '\n' then { p with idx := p.idx + 1, ln := p.ln + 1, col := 0 } else p.next

end Position

end Think
