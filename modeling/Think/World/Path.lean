import Think.Text.Quoted

/-! # Paths and files

A path is a list of names from the root. A text names a path relative to a directory unless it
starts at the root or at the home directory; every name on the way has to be a directory.
-/

namespace Think

abbrev Path := List String

inductive Entry
  | directory
  | file (text : String)
  deriving DecidableEq, Repr

inductive PathError
  | missing | notDirectory | isDirectory | nullByte
  deriving DecidableEq, Repr

def PathError.message (written : String) : PathError → String
  | missing => "[Errno 2] No such file or directory: " ++ Text.quoted written
  | notDirectory => "[Errno 20] Not a directory: " ++ Text.quoted written
  | isDirectory => "[Errno 21] Is a directory: " ++ Text.quoted written
  | nullByte => "embedded null byte"

/-- Splits a text at every slash. -/
def splitSlashes : List Char → List (List Char)
  | [] => [[]]
  | c :: rest =>
    match splitSlashes rest with
    | [] => [[c]]
    | part :: parts => if c = '/' then [] :: part :: parts else (c :: part) :: parts

/-- All that is known of the directories and files. -/
structure FileTree where
  /-- The text of the home directory's path. -/
  home : String
  entries : List (Path × Entry)

namespace FileTree

def names (written : String) : List String := (splitSlashes written.toList).map String.ofList

/-- The names in a path, blanks between slashes left out. -/
def ofText (written : String) : Path := (names written).filter (!·.isEmpty)

def homePath (t : FileTree) : Path := ofText t.home

/-- Whether a text names a path from the root, be it through the home directory. -/
def isAbsolute (t : FileTree) (written : String) : Bool :=
  written.startsWith "/" || written == t.home || written.startsWith (t.home ++ "/")

/-- The text of a path. -/
def textOf (t : FileTree) (p : Path) : String :=
  let home := t.homePath
  if home.isPrefixOf p then "/".intercalate (t.home :: p.drop home.length)
  else "/" ++ "/".intercalate p

def entry? (t : FileTree) (p : Path) : Option Entry :=
  if p.isPrefixOf t.homePath then some .directory else t.entries.lookup p

def setIn (p : Path) (e : Entry) : List (Path × Entry) → List (Path × Entry)
  | [] => [(p, e)]
  | (q, d) :: rest => if q = p then (q, e) :: rest else (q, d) :: setIn p e rest

def set (t : FileTree) (p : Path) (e : Entry) : FileTree :=
  { t with entries := setIn p e t.entries }

/-- Follows names from a directory. The last name need not exist. -/
def walk (t : FileTree) : (here : Path) → (rest : List String) → Except PathError Path
  | here, [] => .ok here
  | here, name :: rest =>
    match t.entry? here with
    | none => .error .missing
    | some (.file _) => .error .notDirectory
    | some .directory =>
      if name = "" || name = "." then walk t here rest
      else if name = ".." then walk t here.dropLast rest
      else walk t (here ++ [name]) rest

/-- The path that a text names from the directory `cwd`. -/
def locate (t : FileTree) (cwd : Path) (written : String) : Except PathError Path :=
  if written.toList.contains (Char.ofNat 0) then .error .nullByte
  else if written.isEmpty then .error .missing
  else if t.isAbsolute written then walk t [] (names written)
  else walk t cwd (names written)

def find (t : FileTree) (cwd : Path) (written : String) : Except PathError (Path × Entry) := do
  let p ← t.locate cwd written
  match t.entry? p with
  | some e => return (p, e)
  | none => throw .missing

def exists? (t : FileTree) (cwd : Path) (written : String) : Bool := (t.find cwd written).isOk

def isFile (t : FileTree) (cwd : Path) (written : String) : Bool :=
  match t.find cwd written with
  | .ok (_, .file _) => true
  | _ => false

/-- The text of a file as it stands. -/
def read (t : FileTree) (cwd : Path) (written : String) : Except PathError String := do
  match ← t.find cwd written with
  | (_, .file text) => return text
  | (_, .directory) => throw .isDirectory

/-- Adds to the end of a file, which is made if it is missing. -/
def append (t : FileTree) (cwd : Path) (written added : String) : Except PathError FileTree := do
  match t.locate cwd written with
  | .error e =>
    throw (if e = .missing && written.endsWith "/" && parentIsThere then .isDirectory else e)
  | .ok p =>
    match t.entry? p with
    | some .directory => throw .isDirectory
    | some (.file text) => return t.set p (.file (text ++ added))
    | none => return t.set p (.file added)
where
  parentIsThere : Bool :=
    (t.locate cwd (String.ofList (written.toList.reverse.dropWhile (· = '/')).reverse)).isOk

/-- The names in a directory, in the order of their characters. -/
def list (t : FileTree) (cwd : Path) (written : String) : Except PathError (List String) := do
  match ← t.find cwd written with
  | (_, .file _) => throw .notDirectory
  | (p, .directory) =>
    let inside := t.entries.filterMap fun (q, _) =>
      if q.dropLast = p && q ≠ p then q.getLast? else none
    return inside.mergeSort (· ≤ ·)

/-- Makes a directory and those above it. -/
def makeDirectories (t : FileTree) : (here rest : Path) → FileTree
  | _, [] => t
  | here, name :: rest =>
    let p := here ++ [name]
    let t' := if (t.entry? p).isNone then t.set p .directory else t
    makeDirectories t' p rest

/-- Puts a file into place, with the directories above it. A text that ends in a slash makes a
directory only. -/
def place (t : FileTree) (cwd : Path) (written text : String) : FileTree :=
  let p := cwd ++ (ofText written).filter (· ≠ ".")
  if written.endsWith "/" then makeDirectories t [] p
  else (makeDirectories t [] p.dropLast).set p (.file text)

end FileTree

end Think
