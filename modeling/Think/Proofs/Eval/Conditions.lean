import Think.Proofs.Eval.Edits
import Think.Proofs.Number.Truth

/-! # Compound conditions

A condition that is made by `not`, `and` or `or` holds as its parts say, with three exceptions: the
negation of null does not hold although null counts as false, a fraction that a logical operator
passes on loses its truth with its fractional part, and so does a text that is taken for a number.
-/

namespace Think

open BuiltinCall (nullValue)
open Eval

namespace Operator

variable {α : Type} {m m' : Machine} {l : ObjectRef} {v : Value}

theorem illegal_ne_ok (l : ObjectRef) (v : Value) (reason : String) (a : α) :
    (illegal l v reason : Eval α) m ≠ (.ok a, m') := by
  intro h
  cases hs : m.store.isSomething v with
  | false => cases (illegal_nothing l reason hs).symm.trans h
  | true =>
    cases v with
    | object r => cases (illegal_object l reason hs).symm.trans h
    | bare t =>
      have ht : t.isEmpty = false := by simpa [Store.isSomething] using hs
      cases (illegal_bare l reason ht).symm.trans h
    | absent => cases hs

theorem illegalKind_ne_ok (l : ObjectRef) (v : Value) (action : String) (a : α) :
    (illegalKind l v action : Eval α) m ≠ (.ok a, m') := by
  intro h
  obtain ⟨kind, m₁, -, h⟩ := bind_eq_ok h
  exact illegal_ne_ok _ _ _ _ h

/-- The operators `and` and `or` give something for two numbers only. -/
theorem binary_logic {op : BinaryOp} {answer : Answer} (hop : op = .and ∨ op = .or)
    (h : binary op l v m = (.ok answer, m')) : ∃ a b n,
      (m.store.object l).payload = .number a ∧ m.store.payload? v = some (.number b) ∧
      numbers op a b = .ok n ∧ result l (.number n) m = (.ok answer, m') := by
  rw [binary, bind_ok (object_apply l m)] at h
  cases hl : (m.store.object l).payload with
  | number a =>
    rw [hl] at h
    dsimp only at h
    rw [onNumber, bind_ok (payload?_eq v m)] at h
    have hdiv : op ≠ .div := by rintro rfl; simp at hop
    cases hv : m.store.payload? v with
    | none =>
      rw [hv] at h
      exact absurd h (illegalKind_ne_ok _ _ _ _)
    | some p =>
      rw [hv] at h
      cases p with
      | number b =>
        simp only [hdiv, decide_false, Bool.false_and, Bool.false_eq_true, if_false] at h
        cases hn : numbers op a b with
        | error f =>
          rw [hn] at h
          cases h
        | ok n =>
          rw [hn] at h
          exact ⟨a, b, n, rfl, rfl, hn, h⟩
      | _ => exact absurd h (illegalKind_ne_ok _ _ _ _)
  | text t =>
    rw [hl] at h
    dsimp only at h
    rw [onText, bind_ok (payload?_eq v m)] at h
    obtain rfl | rfl := hop <;> exact absurd h (illegal_ne_ok _ _ _ _)
  | list cells =>
    rw [hl] at h
    dsimp only at h
    rw [onList, bind_ok (payload?_eq v m)] at h
    obtain rfl | rfl := hop <;> exact absurd h (illegal_ne_ok _ _ _ _)
  | file name path =>
    rw [hl] at h
    obtain rfl | rfl := hop <;> exact absurd h (illegal_ne_ok _ _ _ _)
  | null =>
    rw [hl] at h
    obtain rfl | rfl := hop <;> exact absurd h (illegal_ne_ok _ _ _ _)
  | function | builtin | plain =>
    rw [hl] at h
    exact absurd h (illegal_ne_ok _ _ _ _)

theorem negate_cases {answer : Answer} (h : negate l m = (.ok answer, m')) : ∃ p n,
    (m.store.object l).payload = p ∧ result l (.number n) m = (.ok answer, m') ∧
      ((∃ a, p = .number a ∧ n = .ofBool a.isZero) ∨ (p = .null ∧ n = .int 0)) := by
  rw [negate, bind_ok (object_apply l m)] at h
  cases hl : (m.store.object l).payload with
  | number a =>
    rw [hl] at h
    exact ⟨_, _, rfl, h, .inl ⟨a, rfl, rfl⟩⟩
  | null =>
    rw [hl] at h
    exact ⟨_, _, rfl, h, .inr ⟨rfl, rfl⟩⟩
  | _ =>
    rw [hl] at h
    cases h

end Operator

namespace Eval

variable {fuel depth : Nat} {context : Context} {span : Span} {m m' m₁ m₂ : Machine}
  {v w q : Value} {n : Number}

theorem isTrue_number (h : m.store.payload? v = some (.number n)) :
    isTrue v m = (.ok n.isTrue, m) := by
  cases v with
  | object r =>
    rw [isTrue, objectOf_bind, bind_ok (object_apply r m)]
    dsimp only
    rw [Option.some.inj h]
    rfl
  | absent | bare => cases h

theorem isTrue_null (h : m.store.payload? v = some .null) : isTrue v m = (.ok false, m) := by
  cases v with
  | object r =>
    rw [isTrue, objectOf_bind, bind_ok (object_apply r m)]
    dsimp only
    rw [Option.some.inj h]
    rfl
  | absent | bare => cases h

theorem payload_placed_result {l : ObjectRef} {answer : Answer}
    (hresult : Operator.result l (.number n) m = (.ok answer, m₁))
    (hplaced : placed span answer m₁ = (.ok q, m')) : m'.store.payload? q = some (.number n) := by
  cases hresult
  cases hplaced
  have hpayload := Store.payload_update (m.store.allocate
    ((Object.fresh (.number n)).within (m.store.object l).context)).2 ⟨m.store.objects.size⟩
    ⟨m.store.objects.size⟩ (f := (·.placed span)) fun _ => rfl
  rw [Store.object_push] at hpayload
  exact congrArg some hpayload

theorem binary_logic {op : BinaryOp} (hop : op = .and ∨ op = .or)
    (h : binary op span v w m = (.ok q, m')) : ∃ a b n,
      m.store.payload? v = some (.number a) ∧ m.store.payload? w = some (.number b) ∧
      Operator.numbers op a b = .ok n ∧ m'.store.payload? q = some (.number n) := by
  cases v with
  | object l =>
    rw [binary, objectOf_bind, bind_ok (object_apply l m)] at h
    obtain ⟨answer, m₁, hanswer, hplaced⟩ := bind_eq_ok h
    obtain ⟨a, b, n, hl, hw, hn, hresult⟩ := Operator.binary_logic hop hanswer
    exact ⟨a, b, n, congrArg some hl, hw, hn, payload_placed_result hresult hplaced⟩
  | absent | bare => cases h

theorem unary_not (h : unary .not span v m = (.ok q, m')) : ∃ p n,
    m.store.payload? v = some p ∧ m'.store.payload? q = some (.number n) ∧
      ((∃ a, p = .number a ∧ n = .ofBool a.isZero) ∨ (p = .null ∧ n = .int 0)) := by
  cases v with
  | object l =>
    rw [unary, objectOf_bind, bind_ok (object_apply l m)] at h
    obtain ⟨answer, m₁, hanswer, hplaced⟩ := bind_eq_ok h
    obtain ⟨p, n, hl, hresult, hcases⟩ := Operator.negate_cases hanswer
    exact ⟨p, n, congrArg some hl, payload_placed_result hresult hplaced, hcases⟩
  | absent | bare => cases h

/-- A branch takes the body of the condition, and a loop has a round, just if `t` is true. Both go
on from `m'`. -/
structure Decides (fuel depth : Nat) (context : Context) (condition : Node) (m m' : Machine)
    (t : Bool) : Prop where
  branch : ∀ body block rest fallback,
    evalCases (fuel + 1) depth context ((condition, body, block) :: rest) fallback m =
      if t then (do
        let v ← eval fuel depth context body
        return if block then nullValue else v : Eval Value) m'
      else evalCases fuel depth context rest fallback m'
  loop : ∀ body done,
    repeatWhile (fuel + 1) depth context condition body done m =
      if t then (do
        match ← outcome (eval fuel depth context body) with
        | .ok v => repeatWhile fuel depth context condition body (v :: done)
        | .error .continued => repeatWhile fuel depth context condition body done
        | .error .broke => return done.reverse
        | .error stop => throw stop : Eval (List Value)) m'
      else (.ok done.reverse, m')

theorem decides_of_isTrue {condition : Node} {t : Bool}
    (hq : eval fuel depth context condition m = (.ok q, m')) (ht : isTrue q m' = (.ok t, m')) :
    Decides fuel depth context condition m m' t := by
  constructor
  · intro body block rest fallback
    rw [evalCases, bind_ok hq, bind_ok ht]
    cases t <;> rfl
  · intro body done
    rw [repeatWhile, bind_ok hq, bind_ok ht]
    cases t <;> rfl

theorem decides_unary {op : UnaryOp} {t : Bool} (hq : unary op span v m = (.ok q, m'))
    (ht : isTrue q m' = (.ok t, m')) {x : Node} (hx : eval fuel depth context x m₁ = (.ok v, m)) :
    Decides (fuel + 1) depth context (.unary span op x) m₁ m' t := by
  apply decides_of_isTrue _ ht
  rw [eval, bind_ok hx, hq]

theorem decides_binary {op : BinaryOp} {t : Bool} (hq : binary op span v w m = (.ok q, m'))
    (ht : isTrue q m' = (.ok t, m')) {x y : Node}
    (hx : eval fuel depth context x m₁ = (.ok v, m₂))
    (hy : eval fuel depth context y m₂ = (.ok w, m)) :
    Decides (fuel + 1) depth context (.binary span op x y) m₁ m' t := by
  apply decides_of_isTrue _ ht
  rw [eval, bind_ok hx, bind_ok hy, hq]

/-- Two numbers under an operator: `t` is the truth of what comes out, by which branches and loops
go. -/
structure Joins (op : BinaryOp) (span : Span) (v w q : Value) (m m' : Machine) (a b : Number)
    (t : Bool) : Prop where
  left : m.store.payload? v = some (.number a)
  right : m.store.payload? w = some (.number b)
  left_truth : isTrue v m = (.ok a.isTrue, m)
  right_truth : isTrue w m = (.ok b.isTrue, m)
  truth : isTrue q m' = (.ok t, m')
  decides : ∀ fuel depth context x y m₁ m₂, eval fuel depth context x m₁ = (.ok v, m₂) →
    eval fuel depth context y m₂ = (.ok w, m) →
    Decides (fuel + 1) depth context (.binary span op x y) m₁ m' t

theorem joins_logic {op : BinaryOp} (hop : op = .and ∨ op = .or)
    (h : binary op span v w m = (.ok q, m')) :
    ∃ a b n, Joins op span v w q m m' a b n.isTrue ∧ Operator.numbers op a b = .ok n := by
  obtain ⟨a, b, n, hv, hw, hn, hq⟩ := binary_logic hop h
  have ht := isTrue_number hq
  exact ⟨a, b, n, ⟨hv, hw, isTrue_number hv, isTrue_number hw, ht,
    fun _ _ _ _ _ _ _ hx hy => decides_binary h ht hx hy⟩, hn⟩

/-- Wherever `not v`, `v and w` or `v or w` has a value, its truth is made of those of the operands,
but for null under `not` and for numbers that vanish. -/
theorem compound_truth (span : Span) (m m' : Machine) (q : Value) :
    (∀ v, unary .not span v m = (.ok q, m') → ∃ a t,
      isTrue v m = (.ok a, m) ∧ isTrue q m' = (.ok t, m') ∧
      (∀ fuel depth context x m₁, eval fuel depth context x m₁ = (.ok v, m) →
        Decides (fuel + 1) depth context (.unary span .not x) m₁ m' t) ∧
      (t = !a ↔ m.store.payload? v ≠ some .null)) ∧
    (∀ v w, binary .and span v w m = (.ok q, m') → ∃ a b t, Joins .and span v w q m m' a b t ∧
      (t = (a.isTrue && b.isTrue) ↔ ¬ (a.isTrue = true ∧ b.Vanishes))) ∧
    (∀ v w, binary .or span v w m = (.ok q, m') → ∃ a b t, Joins .or span v w q m m' a b t ∧
      (t = (a.isTrue || b.isTrue) ↔
        ¬ (if a.isSomething then a.Vanishes
          else b.Vanishes ∨ (a.isTrue = true ∧ b.isTrue = false)))) := by
  refine ⟨fun v h => ?_, fun v w h => ?_, fun v w h => ?_⟩
  · obtain ⟨p, n, hv, hq, hcases⟩ := unary_not h
    have ht := isTrue_number hq
    obtain ⟨a, rfl, rfl⟩ | ⟨rfl, rfl⟩ := hcases
    · refine ⟨a.isTrue, _, isTrue_number hv, ht, fun _ _ _ _ _ hx => decides_unary h ht hx, ?_⟩
      simp [hv, Number.isZero_eq, Number.isTrue_ofBool]
    · refine ⟨false, _, isTrue_null hv, ht, fun _ _ _ _ _ hx => decides_unary h ht hx, ?_⟩
      simp [hv, Number.isTrue_int]
  · obtain ⟨a, b, n, hjoins, hn⟩ := joins_logic (.inl rfl) h
    exact ⟨a, b, _, hjoins, Number.isTrue_and hn⟩
  · obtain ⟨a, b, n, hjoins, hn⟩ := joins_logic (.inr rfl) h
    exact ⟨a, b, _, hjoins, Number.isTrue_or hn⟩

def halfMachine : Machine where
  store := { Store.empty with
    objects := #[.fresh (.number (.int 1)), .fresh (.number (.float 0.5)), .fresh .null] }
  world := .start ⟨"/home", []⟩

/-- One and one half both count as true, but not under `and`, and null is not true, but neither is
its negation. -/
theorem compound_truth_half :
    (∃ m', binary .and default (.object ⟨0⟩) (.object ⟨1⟩) halfMachine = (.ok (.object ⟨3⟩), m') ∧
      isTrue (.object ⟨0⟩) halfMachine = (.ok true, halfMachine) ∧
      isTrue (.object ⟨1⟩) halfMachine = (.ok true, halfMachine) ∧
      isTrue (.object ⟨3⟩) m' = (.ok false, m')) ∧
    (∃ m', unary .not default (.object ⟨2⟩) halfMachine = (.ok (.object ⟨3⟩), m') ∧
      isTrue (.object ⟨2⟩) halfMachine = (.ok false, halfMachine) ∧
      isTrue (.object ⟨3⟩) m' = (.ok false, m')) := by
  have hhalf : (Number.float 0.5).Vanishes := by
    have hdecode : Binary64.decode? 0.5 = some ⟨false, Nat.pow 2 52, -53⟩ := rfl
    refine ⟨_, hdecode, ?_, (Binary64.truncate?_eq_zero hdecode).mp rfl⟩
    rw [Ne, Binary64.Exact.value_eq_zero]
    decide
  constructor
  · obtain ⟨a, b, t, hjoins, ht⟩ := (compound_truth default halfMachine _ (.object ⟨3⟩)).2.1
      (.object ⟨0⟩) (.object ⟨1⟩) rfl
    obtain rfl : .int 1 = a := by injection Option.some.inj hjoins.left
    obtain rfl : .float 0.5 = b := by injection Option.some.inj hjoins.right
    have hfalse : t = false := by
      simpa [hhalf.isTrue, hhalf, Number.isTrue_int] using ht
    have htruth := hjoins.truth
    rw [hfalse] at htruth
    refine ⟨_, rfl, hjoins.left_truth, ?_, htruth⟩
    rw [hjoins.right_truth, hhalf.isTrue]
  · obtain ⟨a, t, ha, ht, -, heq⟩ := (compound_truth default halfMachine _ (.object ⟨3⟩)).1
      (.object ⟨2⟩) rfl
    have hnull : isTrue (.object ⟨2⟩) halfMachine = (.ok false, halfMachine) := isTrue_null rfl
    obtain rfl : a = false := by
      rw [ha] at hnull
      injection congrArg Prod.fst hnull
    have hfalse : t = false := by
      have hne : ¬ t = true := fun h => heq.mp h rfl
      simpa using hne
    rw [hfalse] at ht
    exact ⟨_, rfl, ha, ht⟩

end Eval

end Think
