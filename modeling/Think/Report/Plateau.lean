/-! # When to stop

A series of rounds is over once nothing is below the mark, or once three rounds in a row have not
lowered the number that is. Reaching the lowest number again does not lower it.
-/

namespace Think.Report

/-- The lowest number so far, and how many rounds came after the first that had it. -/
structure Plateau where
  best : Int
  since : Nat
  deriving DecidableEq, Repr

namespace Plateau

def step (p : Plateau) (n : Int) : Plateau :=
  if n < p.best then ⟨n, 0⟩ else ⟨p.best, p.since + 1⟩

/-- The plateau of a series, the first round apart. -/
def ofSeries (first : Int) (rest : List Int) : Plateau := rest.foldl step ⟨first, 0⟩

end Plateau

inductive Stop
  /-- Nothing is below the mark. -/
  | reached
  /-- The number has not been lowered for so many rounds. -/
  | settled (p : Plateau)
  deriving DecidableEq, Repr

namespace Stop

/-- Rounds without an improvement after which a series is over. -/
def patience : Nat := 3

/-- Whether to stop after a round with `n` below the mark, given the numbers of those before. -/
def after? (history : List Int) (n : Int) : Option Stop :=
  if n = 0 then some .reached
  else
    let p := match history ++ [n] with
      | [] => ⟨n, 0⟩
      | first :: rest => Plateau.ofSeries first rest
    if patience ≤ p.since then some (.settled p) else none

def message : Stop → String
  | .reached => ">>> STOP: repo_time converged (0 below). Finalize microbench.py now. <<<"
  | .settled p => s!">>> STOP: repo_time converged (no improvement in {p.since} rounds; " ++
      s!"best {p.best} below). Finalize microbench.py now. <<<"

end Stop

end Think.Report
