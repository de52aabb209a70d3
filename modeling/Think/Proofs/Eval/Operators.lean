import Think.Proofs.Eval.Changes

/-! # Operators on all kinds of operands

Which operators break down on which operands. Almost everywhere an operator gives a value or reports
an error at its operands, also where a kind of operand does not have it. The exceptions are listed
by `Operator.fault?`.
-/

namespace Think

/-- A value of a kind that programs work with, and an integer if it is a number. -/
def Payload.isCommon : Payload → Bool
  | .number (.int _) | .text _ | .list _ | .null => true
  | .function _ _ _ _ | .builtin _ | .file _ _ => true
  | _ => false

def Fault.of? {α : Type} : Except Fault α → Option Fault
  | .ok _ => none
  | .error f => some f

namespace Operator

/-- The fault of an operator on two integers, if it has one. A power with a negative exponent is
worked out in floats, and whatever they do not admit is its fault. -/
def integerFault? (op : BinaryOp) (a b : Int) : Option Fault :=
  match op with
  | .div => if b ≠ 0 ∧ (Binary64.ofQuotient? a b).isNone then some .tooLarge else none
  | .mod => if b = 0 then some .divisionByZero else none
  | .pow => if b < 0 then Fault.of? ((Number.int a).pow (.int b)) else none
  | _ => none

/-- The fault of a text that is repeated, if it has one: neither the count nor the length may exceed
what sizes are counted in, and no text is longer than its characters let it be. -/
def repetitionFault? (s : String) (count : Int) : Option Fault :=
  if count < -Number.sizeLimit ∨ Number.sizeLimit ≤ count ∨
      Number.sizeLimit ≤ s.length * count.toNat then some .tooLarge
  else if Number.longestText s < s.length * count.toNat then some .outOfMemory
  else none

/-- The fault of an operator on two objects, if it has one. -/
def fault? (s : Store) (op : BinaryOp) (l r : ObjectRef) : Option Fault :=
  match (s.object l).payload, op, (s.object r).payload with
  | .number (.int a), _, .number (.int b) => integerFault? op a b
  | .text a, .mul, .number (.int n) => repetitionFault? a n
  | .text _, .dot, .list _ => Fault.of? (s.snapshot (.object r)).shown
  | .list cells, .gt, .number (.int i) =>
    match (index? (s.elements cells).size i).bind ((s.elements cells)[·]?) with
    | none | some (.object _) => none
    | some _ => some .noSuchPart
  | .file _ _, .eq, .file _ _ => some .noSuchPart
  | _, _, _ => none

def unaryFault? (s : Store) (op : UnaryOp) (arg : ObjectRef) : Option Fault :=
  match op, (s.object arg).payload with
  | .not, .number _ | .not, .null => none
  | .not, _ => some .wrongKind
  | _, _ => none

end Operator

namespace Eval

/-- Whether this is how an evaluation ends that has the given fault, if any: with the fault, and
otherwise with an object or a reported error. -/
def Concludes (f? : Option Fault) (r : Except Stop Value) : Prop :=
  match f? with
  | some f => r = .error (.fault f)
  | none => (∃ o, r = .ok (.object o)) ∨ ∃ d, r = .error (.error d)

end Eval

namespace Operator

open Eval

def Yields (f? : Option Fault) (x : Eval Answer) (m : Machine) : Prop :=
  ∀ span, Concludes f? ((x >>= placed span) m).1

section

variable {α : Type} {f? : Option Fault} {left r : ObjectRef} {m m' : Machine} {a : α}

theorem yields_bind {x : Eval α} {k : α → Eval Answer} (h : x m = (.ok a, m'))
    (hk : Yields f? (k a) m') : Yields f? (x >>= k) m := by
  intro span
  rw [bind_assoc, bind_ok h]
  exact hk span

theorem yields_fault (f : Fault) : Yields (some f) (fault f) m := fun _ => rfl

theorem yields_report {x : Eval Answer} {d : Diagnostic} (h : x m = (.error (.error d), m')) :
    Yields none x m := by
  intro span
  rw [bind_error h]
  exact .inr ⟨d, rfl⟩

theorem yields_object (o : ObjectRef) : Yields none (pure (.value (.object o))) m := fun _ =>
  .inl ⟨o, rfl⟩

theorem yields_truth (b : Bool) : Yields (some .noSuchPart) (pure (.truth b)) m := fun _ => rfl

theorem yields_result (p : Payload) : Yields none (result left p) m := fun _ => .inl ⟨_, rfl⟩

theorem yields_lift {x : Except Fault α} {k : α → Eval Answer} (hk : ∀ a, Yields none (k a) m) :
    Yields (Fault.of? x) (lift x >>= k) m := by
  cases x with
  | ok a => exact hk a
  | error f => exact yields_fault f

theorem yields_illegal (reason : String) : Yields none (illegal left (.object r) reason) m := by
  cases h : m.store.isSomething (.object r) with
  | false => exact yields_report (illegal_nothing left reason h)
  | true => exact yields_report (illegal_object left reason h)

theorem yields_unknown : Yields none (unknown left (.object r)) m := yields_illegal "unknown"

theorem kindName_int (n : Int) : (Number.int n).kindName = .ok "<int>" := by
  change Except.ok (if Number.isZero (.int (n.fmod 1)) then "<int>" else "<float>") = _
  rw [Int.fmod_one]
  rfl

/-- Every object has the name of its kind, except for numbers that have none. -/
theorem exists_kindName_or_fault (r : ObjectRef) (m : Machine) :
    (∃ kind, kindName (.object r) m = (.ok kind, m)) ∨
      ∃ n f, (m.store.object r).payload = .number n ∧ n.kindName = .error f ∧
        kindName (.object r) m = (.error (.fault f), m) := by
  have hobject : objectOf (.object r) m = (.ok (r, m.store.object r), m) := rfl
  have hkind : kindName (.object r) m = _ := bind_ok hobject
  rw [hkind]
  dsimp only
  cases (m.store.object r).payload with
  | number n =>
    dsimp only
    cases hn : n.kindName with
    | ok kind => exact .inl ⟨kind, rfl⟩
    | error f => exact .inr ⟨n, f, rfl, hn, rfl⟩
  | _ => exact .inl ⟨_, rfl⟩

theorem exists_kindName (hr : (m.store.object r).payload.isCommon = true) :
    ∃ kind, kindName (.object r) m = (.ok kind, m) := by
  rcases exists_kindName_or_fault r m with hkind | ⟨n, f, hp, hn, -⟩
  · exact hkind
  · rw [hp] at hr
    cases n with
    | int n => cases (kindName_int n).symm.trans hn
    | _ => cases hr

theorem yields_illegalKind (action : String) (hr : (m.store.object r).payload.isCommon = true) :
    Yields none (illegalKind left (.object r) action) m := by
  obtain ⟨kind, hkind⟩ := exists_kindName hr
  exact yields_bind hkind (yields_illegal _)

theorem yields_errorAtRight (details : String) :
    Yields none (errorAtRight left (.object r) details) m :=
  yields_report rfl

theorem payload?_apply (r : ObjectRef) (m : Machine) :
    payload? (.object r) m = (.ok (some (m.store.object r).payload), m) := rfl

theorem fault?_numbers {op : BinaryOp} {a b : Int} (h : ¬ (op = .div ∧ b = 0)) :
    Fault.of? (numbers op (.int a) (.int b)) = integerFault? op a b := by
  cases op with
  | div =>
    have hb : b ≠ 0 := fun hb => h ⟨rfl, hb⟩
    change Fault.of? (if b = 0 then _ else _) = if b ≠ 0 ∧ _ then _ else _
    rw [if_neg hb]
    cases Binary64.ofQuotient? a b with
    | none =>
      rw [if_pos ⟨hb, rfl⟩]
      rfl
    | some q =>
      rw [if_neg (by simp)]
      rfl
  | mod =>
    change Fault.of? (if b = 0 then _ else _) = if b = 0 then _ else _
    split <;> rfl
  | pow =>
    change Fault.of? (if 0 ≤ b then _ else _) =
      if b < 0 then Fault.of? (if 0 ≤ b then _ else _) else none
    split <;> split <;> first | rfl | omega
  | and | or =>
    change Fault.of? (Number.int <$> Number.toInt (if _ then _ else _)) = none
    split <;> rfl
  | _ => rfl

theorem yields_onNumber (op : BinaryOp) {a : Int}
    (hl : (m.store.object left).payload = .number (.int a))
    (hr : (m.store.object r).payload.isCommon = true) :
    Yields (fault? m.store op left r) (onNumber op left (.int a) (.object r)) m := by
  apply yields_bind (payload?_apply r m)
  cases hp : (m.store.object r).payload with
  | number n =>
    cases n with
    | int b =>
      have hfault : fault? m.store op left r = integerFault? op a b := by simp only [fault?, hl, hp]
      rw [hfault]
      by_cases hzero : op = .div ∧ b = 0
      · obtain ⟨rfl, rfl⟩ := hzero
        exact yields_errorAtRight _
      · rw [← fault?_numbers hzero]
        dsimp only
        rw [if_neg]
        · exact yields_lift fun n => yields_result _
        · simpa [Number.isZero, Number.isEq] using hzero
    | _ => simp [hp, Payload.isCommon] at hr
  | plain => simp [hp, Payload.isCommon] at hr
  | _ =>
    have hfault : fault? m.store op left r = none := by simp only [fault?, hl, hp]
    rw [hfault]
    exact yields_illegalKind _ hr

theorem repetitionFault?_of_empty {s : String} {n : Int} (hrange : -Number.sizeLimit ≤ n)
    (hlt : n < Number.sizeLimit) (h : s.length * n.toNat = 0) : repetitionFault? s n = none := by
  have hlimit : 0 < Number.sizeLimit := by decide
  unfold repetitionFault?
  rw [h, if_neg (by omega), if_neg (Nat.not_lt_zero _)]

theorem fault?_repeatText (s : String) (n : Int) :
    Fault.of? (Number.repeatText s n) = repetitionFault? s n := by
  unfold Number.repeatText
  split
  · next h =>
    rw [Bool.or_eq_true, decide_eq_true_eq, decide_eq_true_eq] at h
    rw [repetitionFault?, if_pos (by omega)]
    rfl
  next h =>
  rw [Bool.or_eq_true, decide_eq_true_eq, decide_eq_true_eq, not_or, Int.not_lt, Int.not_le] at h
  split
  · next hempty =>
    rw [repetitionFault?_of_empty h.1 h.2]
    · rfl
    · rw [Bool.or_eq_true, decide_eq_true_eq, String.isEmpty_iff] at hempty
      rcases hempty with hn | rfl
      · rw [Int.toNat_of_nonpos hn, Nat.mul_zero]
      · exact Nat.zero_mul _
  · by_cases hlarge : Number.sizeLimit ≤ s.length * n.toNat
    · rw [repetitionFault?, if_pos hlarge, if_pos (.inr (.inr hlarge))]
      rfl
    · have hsmall : ¬ (n < -Number.sizeLimit ∨ Number.sizeLimit ≤ n ∨
          Number.sizeLimit ≤ s.length * n.toNat) := by omega
      rw [repetitionFault?, if_neg hlarge, if_neg hsmall]
      split <;> rfl

theorem yields_shown {v : Value} {k : String → Eval Answer} (hk : ∀ t, Yields none (k t) m) :
    Yields (Fault.of? (m.store.snapshot v).shown) (shown v >>= k) m := fun span =>
  yields_lift hk span

theorem yields_onText (op : BinaryOp) {a : String} (hl : (m.store.object left).payload = .text a)
    (hr : (m.store.object r).payload.isCommon = true) :
    Yields (fault? m.store op left r) (onText op left a (.object r)) m := by
  apply yields_bind (payload?_apply r m)
  unfold fault?
  rw [hl]
  generalize hp : (m.store.object r).payload = p at hr
  cases op with
  | add | eq | ne =>
    cases p with
    | text b => exact yields_result _
    | _ => exact yields_illegalKind _ (hp ▸ hr)
  | mul =>
    cases p with
    | number n =>
      cases n with
      | int n =>
        dsimp only
        rw [← fault?_repeatText]
        exact yields_lift fun s => yields_result _
      | _ => cases hr
    | _ => exact yields_illegalKind _ (hp ▸ hr)
  | dot =>
    cases p with
    | text b => exact yields_result _
    | number n =>
      dsimp only
      split
      · exact yields_result _
      · exact yields_errorAtRight _
    | list cells => exact yields_shown fun t => yields_illegal _
    | _ =>
      have hshown : Fault.of? (m.store.snapshot (.object r)).shown = none := by
        simp [Store.snapshot, Store.snapshotBelow, hp, Snapshot.shown, Fault.of?]
      exact hshown ▸ yields_shown fun t => yields_illegal _
  | _ => exact yields_unknown

theorem exists_takeElement (cells : ListRef) (n : Number) (m : Machine) :
    ∃ v? m', takeElement cells n m = (.ok v?, m') := by
  have htake : takeElement cells n m = _ :=
    bind_ok (show elements cells m = (.ok (m.store.elements cells), m) from rfl)
  rw [htake]
  cases n with
  | int i =>
    dsimp only
    cases index? (m.store.elements cells).size i <;> exact ⟨_, _, rfl⟩
  | _ => exact ⟨_, _, rfl⟩

theorem yields_onList (op : BinaryOp) {cells : ListRef}
    (hl : (m.store.object left).payload = .list cells)
    (hr : (m.store.object r).payload.isCommon = true) :
    Yields (fault? m.store op left r) (onList op left cells (.object r)) m := by
  have hcopy := copy_eq (m := m) (r := left) (by simp [hl])
  apply yields_bind (payload?_apply r m)
  unfold fault?
  rw [hl]
  generalize hp : (m.store.object r).payload = p at hr
  cases op with
  | add => exact yields_bind hcopy (yields_bind rfl (yields_object _))
  | sub =>
    cases p with
    | number n =>
      obtain ⟨v?, m', htake⟩ := exists_takeElement cells n
        ⟨(m.store.allocate (m.store.object left)).2, m.world⟩
      apply yields_bind hcopy
      apply yields_bind htake
      cases v? with
      | some => exact yields_object _
      | none => exact yields_errorAtRight _
    | _ => exact yields_illegalKind _ (hp ▸ hr)
  | mul =>
    cases p with
    | list others => exact yields_bind hcopy (yields_bind rfl (yields_bind rfl (yields_object _)))
    | _ => exact yields_illegalKind _ (hp ▸ hr)
  | gt =>
    cases p with
    | number n =>
      cases n with
      | int i =>
        apply yields_bind (show elements cells m = (.ok (m.store.elements cells), m) from rfl)
        dsimp only
        generalize (index? (m.store.elements cells).size i).bind ((m.store.elements cells)[·]?) = v?
        cases v? with
        | none => exact yields_errorAtRight _
        | some v =>
          cases v with
          | object o => exact yields_object o
          | absent | bare => exact fun _ => rfl
      | _ => cases hr
    | _ => exact yields_illegal _
  | _ => exact yields_unknown

theorem yields_onFile (op : BinaryOp) {name path : String}
    (hl : (m.store.object left).payload = .file name path)
    (hr : (m.store.object r).payload.isCommon = true) :
    Yields (fault? m.store op left r) (onFile op left path (.object r)) m := by
  unfold onFile
  split
  · apply yields_bind (payload?_apply r m)
    cases hp : (m.store.object r).payload with
    | file name' path' =>
      have hfault : fault? m.store .eq left r = some .noSuchPart := by simp only [fault?, hl, hp]
      rw [hfault]
      exact yields_truth _
    | _ =>
      have hfault : fault? m.store .eq left r = none := by simp only [fault?, hl, hp]
      rw [hfault]
      exact yields_illegalKind _ hr
  · next hop =>
    have hfault : fault? m.store op left r = none := by
      unfold fault?
      rw [hl]
      split <;> simp_all
    rw [hfault]
    exact yields_unknown

theorem yields_binary (op : BinaryOp) (hl : (m.store.object left).payload.isCommon = true)
    (hr : (m.store.object r).payload.isCommon = true) :
    Yields (fault? m.store op left r) (Operator.binary op left (.object r)) m := by
  apply yields_bind (object_apply left m)
  cases hp : (m.store.object left).payload with
  | number n =>
    cases n with
    | int a => exact yields_onNumber op hp hr
    | _ => simp [hp, Payload.isCommon] at hl
  | text a => exact yields_onText op hp hr
  | list cells => exact yields_onList op hp hr
  | file name path => exact yields_onFile op hp hr
  | plain => simp [hp, Payload.isCommon] at hl
  | null =>
    have hfault : fault? m.store op left r = none := by simp only [fault?, hp]
    rw [hfault]
    dsimp only
    split
    · exact yields_object r
    · exact yields_unknown
  | function | builtin =>
    have hfault : fault? m.store op left r = none := by simp only [fault?, hp]
    rw [hfault]
    exact yields_unknown

theorem yields_negate (hl : (m.store.object left).payload.isCommon = true) :
    Yields (unaryFault? m.store .not left) (negate left) m := by
  apply yields_bind (object_apply left m)
  unfold unaryFault?
  cases hp : (m.store.object left).payload with
  | number | null => exact yields_result _
  | plain => simp [hp, Payload.isCommon] at hl
  | _ => exact yields_fault _

theorem fault?_minus_one {s : Store} {one : ObjectRef}
    (hone : (s.object one).payload = .number (.int (-1))) : fault? s .mul left one = none := by
  unfold fault?
  rw [hone]
  cases (s.object left).payload with
  | number n => cases n <;> rfl
  | text a => exact repetitionFault?_of_empty (by decide) (by decide) (Nat.mul_zero _)
  | _ => rfl

theorem isCommon_allocate {s : Store} {o : Object} (h : (s.object r).payload.isCommon = true) :
    ((s.allocate o).2.object r).payload.isCommon = true := by
  rw [Store.object_allocate, if_neg]
  · exact h
  · intro hr
    simp [Store.object, hr, Object.fresh, Payload.isCommon] at h

end

end Operator

namespace Eval

variable {m : Machine} {l r : ObjectRef}

theorem concludes_binary (op : BinaryOp) (span : Span)
    (hl : (m.store.object l).payload.isCommon = true)
    (hr : (m.store.object r).payload.isCommon = true) :
    Concludes (Operator.fault? m.store op l r) (binary op span (.object l) (.object r) m).1 :=
  Operator.yields_binary op hl hr span

theorem concludes_unary (op : UnaryOp) (span : Span)
    (hr : (m.store.object r).payload.isCommon = true) :
    Concludes (Operator.unaryFault? m.store op r) (unary op span (.object r) m).1 := by
  cases op with
  | plus => exact .inl ⟨r, rfl⟩
  | not => exact Operator.yields_negate hr span
  | minus =>
    let m₁ : Machine := ⟨(m.store.allocate (.fresh (.number (.int (-1))))).2, m.world⟩
    have hone : (m₁.store.object ⟨m.store.objects.size⟩).payload = .number (.int (-1)) :=
      congrArg Object.payload (Store.object_push _ _)
    have hconcludes := concludes_binary (m := m₁) .mul span (Operator.isCommon_allocate hr)
      (show Payload.isCommon _ = true by rw [hone]; rfl)
    rwa [Operator.fault?_minus_one hone] at hconcludes

/-- An operator on two objects of whatever kinds, or on one, ends with an object or a reported
error, except in the cases of `Operator.fault?` and `Operator.unaryFault?`. There it breaks down. -/
theorem eval_operator_ends (fuel depth : Nat) (context : Context) (span : Span) (m : Machine) :
    (∀ op left right l r m₁ m₂, eval fuel depth context left m = (.ok (.object l), m₁) →
      eval fuel depth context right m₁ = (.ok (.object r), m₂) →
      (m₂.store.object l).payload.isCommon = true → (m₂.store.object r).payload.isCommon = true →
      Concludes (Operator.fault? m₂.store op l r)
        (eval (fuel + 1) depth context (.binary span op left right) m).1) ∧
    (∀ op arg r m₁, eval fuel depth context arg m = (.ok (.object r), m₁) →
      (m₁.store.object r).payload.isCommon = true →
      Concludes (Operator.unaryFault? m₁.store op r)
        (eval (fuel + 1) depth context (.unary span op arg) m).1) := by
  constructor
  · intro op left right l r m₁ m₂ hleft hright hl hr
    rw [eval, bind_ok hleft, bind_ok hright]
    exact concludes_binary op span hl hr
  · intro op arg r m₁ harg hr
    rw [eval, bind_ok harg]
    exact concludes_unary op span hr

/-- A remainder by zero breaks down, and so does the negation of a text. -/
theorem eval_operator_ends_zero :
    (eval 2 0 (programContext "") (.binary default .mod (.number default (.int 1))
      (.number default (.int 0))) ⟨.empty, .start ⟨"/home", []⟩⟩).1 =
        .error (.fault .divisionByZero) ∧
    (eval 2 0 (programContext "") (.unary default .not (.text default "a"))
      ⟨.empty, .start ⟨"/home", []⟩⟩).1 = .error (.fault .wrongKind) := by
  obtain ⟨hbinary, hunary⟩ :=
    eval_operator_ends 1 0 (programContext "") default ⟨.empty, .start ⟨"/home", []⟩⟩
  constructor
  · exact hbinary .mod (.number default (.int 1)) (.number default (.int 0)) ⟨0⟩ ⟨1⟩ _ _
      (by rw [eval]; rfl) (by rw [eval]; rfl) rfl rfl
  · exact hunary .not (.text default "a") ⟨0⟩ _ (by rw [eval]; rfl) rfl

end Eval

end Think
