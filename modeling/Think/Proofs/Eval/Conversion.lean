import Think.Proofs.Eval.Return
import Think.Proofs.Number.Decimal
import Think.Proofs.Number.Finite

/-! # Conversions that suppress errors

A conversion that is told to suppress errors gives zero for whatever is no number and does not read
as one. Numbers are not covered by this: one that cannot be converted breaks the program.
-/

namespace Think

open Eval Binary64

variable {m : Machine} {flag : ObjectRef}

theorem Machine.freshStore_zero :
    ((Machine.freshStore.object ⟨1⟩).payload matches .number (.int 0)) = true := by
  decide +kernel

theorem Machine.InSession.zero (h : m.InSession) :
    (m.store.object ⟨1⟩).payload = .number (.int 0) := by
  rw [Store.payload_of_changes h (by decide +kernel)]
  have hzero := Machine.freshStore_zero
  split at hzero
  · assumption
  · cases hzero

section

variable (c : BuiltinCall) (name target : String) (ofNumber : Number → Except Fault Number)
  (ofText : String → Except Fault Number) (value : ObjectRef) {n : Number}
  (hflag : (m.store.object flag).payload = .number (.int 1))

include hflag

theorem BuiltinCall.convert_number (hn : (m.store.object value).payload = .number n) :
    c.convert name target ofNumber ofText value flag m =
      (do number (← lift (ofNumber n)) : Eval Value) m := by
  rw [convert, bind_ok (c.lenience_int hflag (.inr rfl) name), bind_ok (object_apply value m), hn]

/-- What is no number is converted to one, even if it has to be zero. -/
theorem BuiltinCall.convert_other (hzero : (m.store.object ⟨1⟩).payload = .number (.int 0))
    (hn : (m.store.object value).payload.number? = none) :
    ∃ r m' n, c.convert name target ofNumber ofText value flag m = (.ok (.object r), m') ∧
      (m'.store.object r).payload = .number n := by
  rw [convert, bind_ok (c.lenience_int hflag (.inr rfl) name), bind_ok (object_apply value m)]
  cases hp : (m.store.object value).payload with
  | number n =>
    rw [hp] at hn
    cases hn
  | text s =>
    dsimp only
    cases ofText s with
    | ok n => exact ⟨_, _, n, rfl, congrArg Object.payload (Store.object_push ..)⟩
    | error => exact ⟨_, _, _, rfl, hzero⟩
  | _ => exact ⟨_, _, _, rfl, hzero⟩

theorem BuiltinCall.convert_suppressed (hzero : (m.store.object ⟨1⟩).payload = .number (.int 0)) :
    ((m.store.object value).payload.number?.bind (fun n => Fault.of? (ofNumber n)) = none →
      ∃ r m' n, c.convert name target ofNumber ofText value flag m = (.ok (.object r), m') ∧
        (m'.store.object r).payload = .number n) ∧
    ∀ g, (m.store.object value).payload.number?.bind (fun n => Fault.of? (ofNumber n)) = some g →
      (c.convert name target ofNumber ofText value flag m).1 = .error (.fault g) := by
  cases hp : (m.store.object value).payload with
  | number n =>
    rw [c.convert_number name target ofNumber ofText value hflag hp]
    change (Fault.of? (ofNumber n) = none → _) ∧ ∀ g, Fault.of? (ofNumber n) = some g → _
    cases ofNumber n with
    | ok k =>
      refine ⟨fun _ => ?_, fun g hg => absurd hg (Option.some_ne_none g).symm⟩
      exact ⟨_, _, k, rfl, congrArg Object.payload (Store.object_push ..)⟩
    | error g =>
      refine ⟨fun hg => absurd hg (Option.some_ne_none g), fun g' hg => ?_⟩
      cases hg
      rfl
  | _ =>
    refine ⟨fun _ => ?_, fun g hg => absurd hg (Option.some_ne_none g).symm⟩
    exact c.convert_other name target ofNumber ofText value hflag hzero (by rw [hp]; rfl)

end

namespace Builtin

/-- Why a conversion cannot be made, though errors are suppressed. -/
def unconvertible? : Builtin → Payload → Option Fault
  | .toint, .number (.float x) =>
    if x.isNaN then some .badValue else if x.isInf then some .tooLarge else none
  | .tofloat, .number (.int n) => if overflow ≤ n.natAbs then some .tooLarge else none
  | .toint, .number (.text s) => Fault.of? (Number.readInt s)
  | .tofloat, .number (.text s) => Fault.of? (Number.readFloat s)
  | _, .number (.complex _ _) => some .wrongKind
  | _, _ => none

theorem unconvertible?_toint (p : Payload) :
    toint.unconvertible? p = p.number?.bind fun n => Fault.of? n.toInt := by
  cases p with
  | number n =>
    cases n with
    | float x =>
      change (if x.isNaN then _ else _) = Fault.of? (Number.toInt (.float x))
      rw [Number.toInt]
      cases ht : truncate? x with
      | none =>
        by_cases hnan : x.isNaN = true
        · rw [if_pos hnan, if_pos hnan]
          rfl
        · have hinf := (truncate?_eq_none.mp ht).resolve_left hnan
          rw [if_neg hnan, if_neg hnan, if_pos hinf]
          rfl
      | some n =>
        have hnone : ¬ (x.isNaN = true ∨ x.isInf = true) := by
          rw [← truncate?_eq_none, ht]
          exact Option.some_ne_none n
        rw [not_or] at hnone
        rw [if_neg hnone.1, if_neg hnone.2]
        rfl
    | _ => rfl
  | _ => rfl

theorem unconvertible?_tofloat (p : Payload) :
    tofloat.unconvertible? p = p.number?.bind fun n => Fault.of? n.toFloat := by
  cases p with
  | number n =>
    cases n with
    | int n =>
      have hfault : Fault.of? (Number.floatOfInt n) =
          if overflow ≤ n.natAbs then some .tooLarge else none := by
        rw [Number.floatOfInt]
        cases h : ofInt? n with
        | none =>
          rw [if_pos (ofInt?_eq_none.mp h)]
          rfl
        | some x =>
          rw [if_neg fun hn => Option.some_ne_none x (h.symm.trans (ofInt?_eq_none.mpr hn))]
          rfl
      exact hfault.symm
    | _ => rfl
  | _ => rfl

/-- With errors suppressed a conversion gives a number, whatever the value is, or breaks down on one
that has no integer or float. -/
theorem suppressed_conversion (b : Builtin) (hb : b = .toint ∨ b = .tofloat) (fuel depth : Nat)
    (m : Machine) (hm : m.InSession) (f value flag : ObjectRef)
    (hf : (m.store.object f).payload = .builtin b.name)
    (hcontext : (m.store.object f).context ≠ none)
    (hflag : (m.store.object flag).payload = .number (.int 1)) :
    (b.unconvertible? (m.store.object value).payload = none →
      ∃ r m' n, call (fuel + 1) (depth + 1) f [.object value, .object flag] m =
        (.ok (.object r), m') ∧ (m'.store.object r).payload = .number n) ∧
    ∀ g, b.unconvertible? (m.store.object value).payload = some g →
      (call (fuel + 1) (depth + 1) f [.object value, .object flag] m).1 = .error (.fault g) := by
  have hrun : b ≠ .run := by rcases hb with rfl | rfl <;> decide
  have hcount : [value, flag].length = b.params.length := by rcases hb with rfl | rfl <;> rfl
  obtain ⟨c, m₁, hvalues, -, hcall⟩ := call_eq_perform hrun hf hcontext hcount fuel depth
  have hzero : (m₁.store.object ⟨1⟩).payload = .number (.int 0) :=
    (hvalues.payload _).trans hm.zero
  have hflag₁ := (hvalues.payload flag).trans hflag
  rw [List.map_cons, List.map_cons, List.map_nil] at hcall
  rw [hcall, ← hvalues.payload value]
  rcases hb with rfl | rfl
  · have hsuppressed := c.convert_suppressed "toint" "integer" (fun n => .int <$> n.toInt)
      (fun s => .int <$> Number.readInt s) value hflag₁ hzero
    simp only [Fault.of?_map, ← unconvertible?_toint] at hsuppressed
    exact hsuppressed
  · have hsuppressed := c.convert_suppressed "tofloat" "float" (fun n => .float <$> n.toFloat)
      (fun s => .float <$> Number.readFloat s) value hflag₁ hzero
    simp only [Fault.of?_map, ← unconvertible?_tofloat] at hsuppressed
    exact hsuppressed

/-- Null is let pass as a number, infinity is not. -/
theorem suppressed_conversion_infinity :
    let callee := (Object.fresh (.builtin "toint")).within (some (programContext "<stdin>"))
    let s := Machine.freshStore
    let s₁ := (s.allocate (.fresh (.number (.float infinity)))).2
    let s₂ := (s₁.allocate (.fresh (.number (.int 1)))).2
    let m : Machine := ⟨(s₂.allocate callee).2, .start ⟨"/", []⟩⟩
    let value : ObjectRef := ⟨s.objects.size⟩
    let flag : ObjectRef := ⟨s₁.objects.size⟩
    let f : ObjectRef := ⟨s₂.objects.size⟩
    (∃ r m' n, call 1 1 f [.object ⟨0⟩, .object flag] m = (.ok (.object r), m') ∧
      (m'.store.object r).payload = .number n) ∧
    toint.unconvertible? (m.store.object value).payload = some .tooLarge ∧
    (call 1 1 f [.object value, .object flag] m).1 = .error (.fault .tooLarge) := by
  intro callee s s₁ s₂ m value flag f
  have hm : m.InSession :=
    .tail (.tail (.tail .refl (.value (.object _))) (.value (.object _))) (.value (.object _))
  have hf : m.store.object f = callee := Store.object_push s₂ callee
  have hsize₁ : s₁.objects.size = s.objects.size + 1 := Array.size_push _
  have hsize₂ : s₂.objects.size = s₁.objects.size + 1 := Array.size_push _
  have hflag : (m.store.object flag).payload = .number (.int 1) := by
    rw [Store.object_allocate, if_neg (by simp only [flag]; omega), Store.object_push]
    rfl
  have hvalue : (m.store.object value).payload = .number (.float infinity) := by
    rw [Store.object_allocate, if_neg (by simp only [value]; omega), Store.object_allocate,
      if_neg (by simp only [value]; omega), Store.object_push]
    rfl
  have hinfinite : toint.unconvertible? (m.store.object value).payload = some .tooLarge := by
    rw [hvalue]
    decide +kernel
  have hconversion (value : ObjectRef) := suppressed_conversion toint (.inl rfl) 0 0 m hm f value
    flag (by rw [hf]; rfl) (by rw [hf]; simp [callee, Object.within]) hflag
  exact ⟨(hconversion ⟨0⟩).1 (by rw [hm.null]; rfl), hinfinite, (hconversion value).2 _ hinfinite⟩

end Builtin

end Think
