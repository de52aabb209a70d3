import Think.Position

/-! # Excerpts

The lines of a text between two positions, each followed by a row of carets under the part that is
meant. Tabs are left out of the result, so that carets and text keep their places.
-/

namespace Think.Excerpt

/-- The index of the last line break before `stop`, or 0. -/
def lastBreak (cs : List Char) (stop : Nat) : Nat :=
  let rec go : List Char → Nat → Nat → Nat
    | [], _, found => found
    | c :: rest, i, found => go rest (i + 1) (if c = '\n' then i else found)
  go (cs.take stop) 0 0

/-- The index of the first line break at `start` or later, or the length of the text. -/
def nextBreak (cs : List Char) (start : Nat) : Nat :=
  match (cs.drop start).findIdx? (· = '\n') with
  | some i => start + i
  | none => cs.length

def row (from_ upTo : Nat) : List Char :=
  List.replicate from_ ' ' ++ List.replicate (upTo - from_) '^'

/-- The last `count` lines of the excerpt, the first of them at `idx`, underlined from `from_`. -/
def lines (cs : List Char) (stopCol : Nat) : (count idx from_ : Nat) → List Char
  | 0, _, _ => []
  | n + 1, idx, from_ =>
    let stop := nextBreak cs (idx + 1)
    let line := (cs.drop idx).take (stop - idx)
    let upTo := if n = 0 then stopCol else line.length - 1
    line ++ '\n' :: row from_ upTo ++ lines cs stopCol n stop 0

/-- The excerpt from `start` to `stop`. -/
def render (text : String) (start stop : Position) : String :=
  let cs := text.toList
  let all := lines cs stop.col (stop.ln + 1 - start.ln) (lastBreak cs start.idx) start.col
  String.ofList (all.filter (· ≠ '\t'))

end Think.Excerpt
