import Think.Datum
import Think.Text.Quoted

/-! # Writing structured data

Data on one line of plain characters: everything else in a text is written by number.
-/

namespace Think.Datum

def unitText (n : Nat) : List Char := '\\' :: 'u' :: Text.hexDigits 4 n

/-- A character inside quotes. One that needs more than four digits becomes a surrogate pair. -/
def characterText (c : Char) : List Char :=
  if c = '"' then ['\\', '"']
  else if c = '\\' then ['\\', '\\']
  else if c = '\n' then ['\\', 'n']
  else if c = '\r' then ['\\', 'r']
  else if c = '\t' then ['\\', 't']
  else if c.toNat = 8 then ['\\', 'b']
  else if c.toNat = 12 then ['\\', 'f']
  else if 0x20 ≤ c.toNat && c.toNat < 0x7f then [c]
  else if c.toNat < 0x10000 then unitText c.toNat
  else
    let n := c.toNat - 0x10000
    unitText (0xd800 + n / 0x400) ++ unitText (0xdc00 + n % 0x400)

def textText (s : String) : String :=
  String.ofList ('"' :: s.toList.flatMap characterText ++ ['"'])

def floatText (x : Float) : String :=
  if x.isNaN then "NaN"
  else if x.isInf then (if Binary64.isNegative x then "-Infinity" else "Infinity")
  else Binary64.text Binary64.plain x

def numberText : Number → String
  | .int n => toString n
  | .float x => floatText x
  | .complex re _ => floatText re
  | .text s => textText s

mutual

def written : Datum → String
  | null => "null"
  | flag b => if b then "true" else "false"
  | number n => numberText n
  | text s => textText s
  | list xs => "[" ++ ", ".intercalate (writtenAll xs) ++ "]"
  | fields es => "\x7b" ++ ", ".intercalate (writtenFields es) ++ "\x7d"

def writtenAll : List Datum → List String
  | [] => []
  | d :: rest => written d :: writtenAll rest

def writtenFields : List (String × Datum) → List String
  | [] => []
  | (name, d) :: rest => (textText name ++ ": " ++ written d) :: writtenFields rest

end

end Think.Datum
