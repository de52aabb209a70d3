import Think.Text.Blank

/-! # Fenced code

The code in an answer stands between two fences of three backticks. Behind the first there may be
a word, and then the line ends.
-/

namespace Think.Text

def fence : List Char := ['\x60', '\x60', '\x60']

/-- What stands before the first fence. -/
def beforeFence? : List Char → Option (List Char)
  | [] => none
  | c :: rest =>
    if fence.isPrefixOf (c :: rest) then some [] else (beforeFence? rest).map (c :: ·)

/-- The code behind an opening fence, whose word is as long as can be. -/
def fencedHere? (cs : List Char) : Option (List Char) :=
  if fence.isPrefixOf cs then
    match (cs.drop fence.length).dropWhile (!isBlank ·) with
    | '\n' :: body => beforeFence? body
    | _ => none
  else none

/-- The code of the first place where there is any. -/
def fenced? : List Char → Option (List Char)
  | [] => none
  | c :: rest =>
    match fencedHere? (c :: rest) with
    | some body => some body
    | none => fenced? rest

/-- The code in a text, empty if there is none. -/
def code (s : String) : String := String.ofList ((fenced? s.toList).getD [])

end Think.Text
