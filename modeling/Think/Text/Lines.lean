/-! # Lines

Line breaks of every kind are read as one character. -/

namespace Think.Text

/-- A carriage return, with the line feed behind it if there is one, becomes a line feed. -/
def unifyBreaks : List Char → List Char
  | [] => []
  | '\r' :: '\n' :: rest => '\n' :: unifyBreaks rest
  | c :: rest => (if c = '\r' then '\n' else c) :: unifyBreaks rest

def unified (s : String) : String := String.ofList (unifyBreaks s.toList)

/-- Splits behind every line feed; the pieces keep theirs. -/
def linesOf : List Char → List (List Char)
  | [] => []
  | c :: rest =>
    if c = '\n' then [c] :: linesOf rest
    else match linesOf rest with
      | [] => [[c]]
      | line :: lines => (c :: line) :: lines

end Think.Text
