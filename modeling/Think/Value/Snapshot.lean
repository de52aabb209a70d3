import Think.Store
import Think.Text.Quoted

/-! # Snapshots

A snapshot is the tree of what a value holds at one moment. Where a list is met again inside
itself the tree ends, and such a tree cannot be written out.
-/

namespace Think

inductive Snapshot
  | absent
  | bare (text : String)
  | number (value : Number)
  | text (value : String)
  | list (items : List Snapshot)
  /-- A list inside itself. -/
  | cycle
  | null
  | function (name : String) (params : List String) (isExpression : Bool)
  | builtin (name : String)
  | file (name path : String)
  | plain
  deriving Inhabited

namespace Store

/-- The tree of a value below the list storages in `path`. No path is longer than the number of
storages, so `depth` need not be larger than that. -/
def snapshotBelow (s : Store) : (depth : Nat) → (path : List ListRef) → Value → Snapshot
  | _, _, .absent => .absent
  | _, _, .bare t => .bare t
  | depth, path, .object r =>
    match (s.object r).payload with
    | .number n => .number n
    | .text t => .text t
    | .null => .null
    | .function name params _ e => .function name params e
    | .builtin name => .builtin name
    | .file name p => .file name p
    | .plain => .plain
    | .list cells =>
      if path.contains cells then .cycle
      else match depth with
        | 0 => .cycle
        | d + 1 => .list ((s.elements cells).toList.map (snapshotBelow s d (cells :: path)))

def snapshot (s : Store) (v : Value) : Snapshot := s.snapshotBelow s.lists.size [] v

mutual

/-- A new value that holds what a snapshot shows. -/
def realise (s : Store) : Snapshot → Value × Store
  | .absent => (.absent, s)
  | .bare t => (.bare t, s)
  | .number n => new s (.number n)
  | .text t => new s (.text t)
  | .list items =>
    let (vs, s) := realiseAll s items
    let (cells, s) := s.allocateList vs.toArray
    new s (.list cells)
  | .cycle => (.absent, s)
  | .null => new s .null
  | .function name params e => new s (.function name params default e)
  | .builtin name => new s (.builtin name)
  | .file name path => new s (.file name path)
  | .plain => new s .plain
where
  new (s : Store) (p : Payload) : Value × Store :=
    let (r, s) := s.allocate (.fresh p)
    (.object r, s)

def realiseAll (s : Store) : List Snapshot → List Value × Store
  | [] => ([], s)
  | x :: rest =>
    let (v, s) := realise s x
    let (vs, s) := realiseAll s rest
    (v :: vs, s)

end

end Store

namespace Snapshot

/-- A text as shown inside a list: in quotes, except that of a quote at the end one is missing
and a single quote at the end is cut off with the closing quote. -/
def quotedText (t : String) : String :=
  let whole := '"' :: t.toList ++ ['"']
  match whole.reverse with
  | '"' :: '"' :: rest => String.ofList ('"' :: rest).reverse
  | '"' :: '\'' :: rest => String.ofList rest.reverse
  | _ => String.ofList whole

mutual

/-- The value written for a reader of values. -/
def shown : Snapshot → Except Fault String
  | .absent => .ok "None"
  | .bare t => .ok (Text.quoted t)
  | .number n => n.written
  | .text t => .ok (quotedText t)
  | .list items => do return "[" ++ ", ".intercalate (← shownAll items) ++ "]"
  | .cycle => .error .endlessNesting
  | .null => .ok "null"
  | .function name _ _ => .ok s!"<function {name}>"
  | .builtin name => .ok s!"<built-in function {name}>"
  | .file name _ => .ok s!"<File {name}>"
  | .plain => .ok "<object>"

def shownAll : List Snapshot → Except Fault (List String)
  | [] => .ok []
  | x :: rest => do
    let t ← shown x
    return t :: (← shownAll rest)

end

mutual

/-- The value written for a reader of text: texts without quotes, lists without brackets. -/
def written : Snapshot → Except Fault String
  | .bare t => .ok t
  | .text t => .ok t
  | .list items => do return ", ".intercalate (← writtenAll items)
  | v => v.shown

def writtenAll : List Snapshot → Except Fault (List String)
  | [] => .ok []
  | x :: rest => do
    let t ← written x
    return t :: (← writtenAll rest)

end

end Snapshot

end Think
