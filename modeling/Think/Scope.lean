import Think.Position

/-! # Contexts

A context is one activation: its name, the activation it was entered from and where, and the two
tables in which its names are looked up.
-/

namespace Think

/-- Names a table of the store. -/
structure TableRef where
  index : Nat
  deriving DecidableEq, Repr, Inhabited

structure Context where
  name : String
  parent : Option Context
  /-- Where the parent entered this activation. -/
  entry : Option Position
  symbols : TableRef
  /-- Names that are not shared between programs. -/
  hidden : TableRef
  deriving Inhabited

end Think
