/-! # Columns

Texts filled up with blanks to the width of a column. A text that is wider stays as it is.
-/

namespace Think.Text

def blanksFor (width : Nat) (s : String) : String :=
  String.ofList (List.replicate (width - s.length) ' ')

def padRight (width : Nat) (s : String) : String := s ++ blanksFor width s

def padLeft (width : Nat) (s : String) : String := blanksFor width s ++ s

end Think.Text
