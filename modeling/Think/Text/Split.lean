/-! # Pieces of a text

Splitting a text at the occurrences of another and replacing them. Occurrences are taken from left
to right and do not overlap.
-/

namespace Think.Text

/-- The pieces between occurrences of `sep`. The piece being read is held last first, and `skip`
characters still belong to the latest occurrence. -/
def piecesFrom (sep : List Char) : (piece : List Char) → (skip : Nat) → List Char → List (List Char)
  | piece, _, [] => [piece.reverse]
  | piece, k + 1, _ :: rest => piecesFrom sep piece k rest
  | piece, 0, c :: rest =>
    if sep.isPrefixOf (c :: rest) then piece.reverse :: piecesFrom sep [] (sep.length - 1) rest
    else piecesFrom sep (c :: piece) 0 rest

/-- The pieces of a text at a separator that is not empty. -/
def split (s sep : String) : List String :=
  (piecesFrom sep.toList [] 0 s.toList).map String.ofList

def replaceFrom (old new : List Char) : (skip : Nat) → List Char → List Char
  | _, [] => []
  | k + 1, _ :: rest => replaceFrom old new k rest
  | 0, c :: rest =>
    if old.isPrefixOf (c :: rest) then new ++ replaceFrom old new (old.length - 1) rest
    else c :: replaceFrom old new 0 rest

/-- The text with each occurrence of `old` replaced. An empty `old` occurs before every character
and at the end. -/
def replace (s old new : String) : String :=
  if old.isEmpty then
    String.ofList (new.toList ++ s.toList.flatMap fun c => c :: new.toList)
  else String.ofList (replaceFrom old.toList new.toList 0 s.toList)

def join (sep : String) (parts : List String) : String := sep.intercalate parts

end Think.Text
