/-! # Faults

A program ends in one of three ways: with a value, with a diagnostic that names a place in its
text, or with a fault. A fault is not tied to the text and ends the whole run, so what was done
before it stays done.
-/

namespace Think

inductive Fault
  /-- An operation was applied to operands of kinds that it does not accept. -/
  | wrongKind
  /-- A part was asked of a value that has no such part. -/
  | noSuchPart
  | divisionByZero
  /-- A number is too large for its new form. -/
  | tooLarge
  /-- An operand of the right kind has an unusable value. -/
  | badValue
  | noSuchKey
  | noSuchIndex
  | endOfInput
  | fileNotFound
  | isDirectory
  | notDirectory
  | outOfMemory
  /-- A call or a rendering would nest without end. -/
  | endlessNesting
  /-- A text that was to hold structured data does not. -/
  | malformedData
  /-- A failure that carries its own wording. -/
  | stated (message : String)
  /-- A program could not be started. -/
  | notStarted
  | interrupted
  | exit (code : Nat)
  /-- The step budget is spent; says nothing about the program. -/
  | outOfFuel
  deriving DecidableEq, Repr, Inhabited

end Think
