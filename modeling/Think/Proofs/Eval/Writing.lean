import Think.Proofs.Eval.Operators

/-! # Writing values out

Which values cannot be written out: a list inside itself, and an integer with too many digits. It
makes no difference whether they are written for a reader of values or of text, and the first that
is met is the fault of the whole.
-/

namespace Think

namespace Fault

variable {α β : Type} {x : Except Fault α}

theorem of?_map (f : α → β) : of? (f <$> x) = of? x := by
  cases x <;> rfl

theorem of?_bind {k : α → Except Fault β} {f? : Option Fault} (hk : ∀ a, of? (k a) = f?) :
    of? (x >>= k) = (of? x <|> f?) := by
  cases x with
  | ok a => exact hk a
  | error f => rfl

end Fault

/-- The fault of writing a number out, if it has one: an integer may have too many digits. -/
def Number.writtenFault? : Number → Option Fault
  | .int n => if digitLimit ≤ n.natAbs then some .badValue else none
  | _ => none

theorem Number.of?_written (n : Number) : Fault.of? n.written = n.writtenFault? := by
  cases n with
  | int n =>
    rw [written, writtenFault?]
    split <;> rfl
  | _ => rfl

theorem Number.writtenFault?_eq_some {f : Fault} (n : Number) (h : n.writtenFault? = some f) :
    f = .badValue := by
  cases n with
  | int n =>
    rw [writtenFault?] at h
    split at h
    · exact (Option.some.inj h).symm
    · cases h
  | _ => cases h

namespace Snapshot

mutual

/-- The fault of writing out what a snapshot shows, if it has one: the first list that is met inside
itself, or number that has too many digits. -/
def fault? : Snapshot → Option Fault
  | .cycle => some .endlessNesting
  | .number n => n.writtenFault?
  | .list items => firstFault? items
  | _ => none

def firstFault? : List Snapshot → Option Fault
  | [] => none
  | x :: rest => fault? x <|> firstFault? rest

end

mutual

theorem of?_shown : (x : Snapshot) → Fault.of? x.shown = x.fault?
  | .number n => by
    rw [shown, fault?]
    exact n.of?_written
  | .list items => by
    rw [shown, fault?, bind_pure_comp, Fault.of?_map]
    exact of?_shownAll items
  | .absent | .bare _ | .text _ | .cycle | .null | .function _ _ _ | .builtin _ | .file _ _
  | .plain => by
    simp [shown, fault?, Fault.of?]

theorem of?_shownAll : (xs : List Snapshot) → Fault.of? (shownAll xs) = firstFault? xs
  | [] => by
    rw [shownAll, firstFault?]
    rfl
  | x :: rest => by
    rw [shownAll, firstFault?, ← of?_shown x, ← of?_shownAll rest]
    exact Fault.of?_bind fun _ => Fault.of?_map _

end

mutual

theorem of?_written : (x : Snapshot) → Fault.of? x.written = x.fault?
  | .list items => by
    rw [written, fault?, bind_pure_comp, Fault.of?_map]
    exact of?_writtenAll items
  | .bare _ | .text _ => by
    simp [written, fault?, Fault.of?]
  | .absent | .number _ | .cycle | .null | .function _ _ _ | .builtin _ | .file _ _ | .plain => by
    simp [written, of?_shown]

theorem of?_writtenAll : (xs : List Snapshot) → Fault.of? (writtenAll xs) = firstFault? xs
  | [] => by
    rw [writtenAll, firstFault?]
    rfl
  | x :: rest => by
    rw [writtenAll, firstFault?, ← of?_written x, ← of?_writtenAll rest]
    exact Fault.of?_bind fun _ => Fault.of?_map _

end

mutual

theorem fault?_eq_some {f : Fault} :
    (x : Snapshot) → x.fault? = some f → f = .endlessNesting ∨ f = .badValue
  | .cycle, h => by
    rw [fault?] at h
    exact .inl (Option.some.inj h).symm
  | .number n, h => by
    rw [fault?] at h
    exact .inr (n.writtenFault?_eq_some h)
  | .list items, h => by
    rw [fault?] at h
    exact firstFault?_eq_some items h
  | .absent, h | .bare _, h | .text _, h | .null, h | .function _ _ _, h | .builtin _, h
  | .file _ _, h | .plain, h => by
    simp [fault?] at h

theorem firstFault?_eq_some {f : Fault} :
    (xs : List Snapshot) → firstFault? xs = some f → f = .endlessNesting ∨ f = .badValue
  | [], h => by
    simp [firstFault?] at h
  | x :: rest, h => by
    rw [firstFault?] at h
    cases hx : x.fault? with
    | none =>
      rw [hx] at h
      exact firstFault?_eq_some rest h
    | some g =>
      rw [hx] at h
      exact fault?_eq_some x (hx.trans h)

end

/-- Only a list inside itself or a number that is too long keeps a value from being written. -/
theorem fault_written {f : Fault} (x : Snapshot) (h : x.written = .error f) :
    f = .endlessNesting ∨ f = .badValue := by
  apply fault?_eq_some x
  rw [← of?_written, h]
  rfl

end Snapshot

end Think
