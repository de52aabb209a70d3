import Mathlib.Order.Compare
import Think.Proofs.Eval.Basic
import Think.Proofs.IntExpr.Syntax

/-! # Integer expressions are worth what they say

Evaluating the tree of an expression adds a number to the store, the value of the expression, and
leaves everything else as it was.
-/

namespace Think

structure NewNumber (s s' : Store) (r : ObjectRef) (v : Int) : Prop where
  grows : s.Grows s'
  isNew : s.objects.size ≤ r.index
  isThere : r.index < s'.objects.size
  payload : (s'.object r).payload = .number (.int v)

namespace NewNumber

variable {s s' s'' : Store} {r : ObjectRef} {v : Int}

theorem allocate (s : Store) {o : Object} (ho : o.payload = .number (.int v)) :
    NewNumber s (s.allocate o).2 ⟨s.objects.size⟩ v where
  grows := .allocate s o
  isNew := Nat.le_refl _
  isThere := by simp [Store.allocate]
  payload := by rw [Store.object_push, ho]

theorem placed (h : NewNumber s s' r v) (span : Span) :
    NewNumber s (s'.update r (·.placed span)) r v where
  grows := h.grows.update h.isNew _
  isNew := h.isNew
  isThere := by simpa [Store.update] using h.isThere
  payload := by
    rw [Store.object_update h.isThere]
    exact h.payload

theorem keep (h : NewNumber s s' r v) (h' : s'.Grows s'') :
    (s''.object r).payload = .number (.int v) := by
  rw [h'.objects r h.isThere, h.payload]

theorem after (h : s.Grows s') (h' : NewNumber s' s'' r v) : NewNumber s s'' r v where
  grows := h.trans h'.grows
  isNew := Nat.le_trans h.size h'.isNew
  isThere := h'.isThere
  payload := h'.payload

end NewNumber

namespace Number

theorem lt_int (a b : Int) : lt (.int a) (.int b) = .ok (decide (a < b)) := by
  change Except.ok (some (compare a b) == some .lt) = _
  congr 1
  rw [Bool.eq_iff_iff]
  simp [compare_lt_iff_lt]

theorem gt_int (a b : Int) : gt (.int a) (.int b) = .ok (decide (b < a)) := by
  change Except.ok (some (compare a b) == some .gt) = _
  congr 1
  rw [Bool.eq_iff_iff]
  simp [compare_gt_iff_gt]

theorem le_int (a b : Int) : le (.int a) (.int b) = .ok (decide (a ≤ b)) := by
  change Except.ok (some (compare a b) == some .lt || some (compare a b) == some .eq) = _
  congr 1
  rw [Bool.eq_iff_iff]
  simp [compare_lt_iff_lt, le_iff_lt_or_eq]

theorem ge_int (a b : Int) : ge (.int a) (.int b) = .ok (decide (b ≤ a)) := by
  change Except.ok (some (compare a b) == some .gt || some (compare a b) == some .eq) = _
  congr 1
  rw [Bool.eq_iff_iff]
  simp [compare_gt_iff_gt, le_iff_lt_or_eq, @eq_comm _ b a]

theorem and_int (a b : Int) :
    and (.int a) (.int b) = .ok (.int (if a ≠ 0 then b else 0)) := by
  by_cases h : a = 0 <;> simp [and, isSomething, isTrue, toInt, h]

theorem or_int (a b : Int) : or (.int a) (.int b) = .ok (.int (if a ≠ 0 then a else b)) := by
  by_cases h : a = 0 <;> simp [or, isSomething, isTrue, toInt, h]

end Number

theorem IntOp.numbers_int (op : IntOp) (a b : Int) :
    Operator.numbers op.op (.int a) (.int b) = .ok (.int (op.value a b)) := by
  cases op with
  | add => rfl
  | sub => rfl
  | mul => rfl
  | eq => simp [IntOp.op, Operator.numbers, Number.isEq, Number.ofBool, IntOp.value, IntOp.truth]
  | ne => simp [IntOp.op, Operator.numbers, Number.isEq, Number.ofBool, IntOp.value, IntOp.truth]
  | lt => simp [IntOp.op, Operator.numbers, Number.lt_int, Number.ofBool, IntOp.value, IntOp.truth]
  | gt => simp [IntOp.op, Operator.numbers, Number.gt_int, Number.ofBool, IntOp.value, IntOp.truth]
  | le => simp [IntOp.op, Operator.numbers, Number.le_int, Number.ofBool, IntOp.value, IntOp.truth]
  | ge => simp [IntOp.op, Operator.numbers, Number.ge_int, Number.ofBool, IntOp.value, IntOp.truth]
  | and => exact Number.and_int a b
  | or => exact Number.or_int a b

namespace Operator

open Eval

variable {s : Store} {w : World} {l r : ObjectRef} {a b v : Int}

theorem result_number (s : Store) (w : World) (l : ObjectRef) (v : Int) :
    ∃ s' q, result l (.number (.int v)) ⟨s, w⟩ = (.ok (.value (.object q)), ⟨s', w⟩) ∧
      NewNumber s s' q v :=
  ⟨_, _, rfl, .allocate s rfl⟩

theorem binary_number {op : BinaryOp} (hop : op ≠ .div)
    (hl : (s.object l).payload = .number (.int a)) (hr : (s.object r).payload = .number (.int b))
    (hv : numbers op (.int a) (.int b) = .ok (.int v)) :
    ∃ s' q, binary op l (.object r) ⟨s, w⟩ = (.ok (.value (.object q)), ⟨s', w⟩) ∧
      NewNumber s s' q v := by
  obtain ⟨s', q, hres, hnew⟩ := result_number s w l v
  refine ⟨s', q, ?_, hnew⟩
  have hleft : object l ⟨s, w⟩ = (.ok (s.object l), ⟨s, w⟩) := rfl
  have hright : payload? (.object r) ⟨s, w⟩ = (.ok (some (.number (.int b))), ⟨s, w⟩) := by
    rw [← hr]
    rfl
  have hlift : lift (numbers op (.int a) (.int b)) ⟨s, w⟩ = (.ok (.int v), ⟨s, w⟩) := by
    rw [hv]
    rfl
  rw [binary, bind_ok hleft]
  simp only [hl]
  rw [onNumber, bind_ok hright]
  simp only [hop, decide_false, Bool.false_and, Bool.false_eq_true, if_false]
  rw [bind_ok hlift, hres]

theorem negate_number (hl : (s.object l).payload = .number (.int a)) :
    ∃ s' q, negate l ⟨s, w⟩ = (.ok (.value (.object q)), ⟨s', w⟩) ∧
      NewNumber s s' q (IntOp.truth (a = 0)) := by
  obtain ⟨s', q, hres, hnew⟩ := result_number s w l (IntOp.truth (a = 0))
  refine ⟨s', q, ?_, hnew⟩
  have hleft : object l ⟨s, w⟩ = (.ok (s.object l), ⟨s, w⟩) := rfl
  have hzero : Number.ofBool (Number.isZero (.int a)) = .int (IntOp.truth (a = 0)) := by
    simp [Number.isZero, Number.isEq, Number.ofBool, IntOp.truth]
  rw [negate, bind_ok hleft]
  simp only [hl, hzero]
  exact hres

end Operator

namespace Eval

variable {s s' : Store} {w : World} {l r : ObjectRef} {a b : Int}

theorem allocateAt_number (s : Store) (w : World) (span : Span) (context : Context) (v : Int) :
    ∃ s' q, allocateAt (.number (.int v)) span context ⟨s, w⟩ = (.ok (.object q), ⟨s', w⟩) ∧
      NewNumber s s' q v :=
  ⟨_, _, rfl, .allocate s rfl⟩

theorem placed_number (span : Span) (h : NewNumber s s' r a) :
    ∃ s'', placed span (.value (.object r)) ⟨s', w⟩ = (.ok (.object r), ⟨s'', w⟩) ∧
      NewNumber s s'' r a :=
  ⟨_, rfl, h.placed span⟩

theorem binary_number (op : IntOp) (span : Span)
    (hl : (s.object l).payload = .number (.int a)) (hr : (s.object r).payload = .number (.int b)) :
    ∃ s' q, binary op.op span (.object l) (.object r) ⟨s, w⟩ = (.ok (.object q), ⟨s', w⟩) ∧
      NewNumber s s' q (op.value a b) := by
  obtain ⟨s₁, q, hop, hnew⟩ := Operator.binary_number (w := w) (by cases op <;> decide) hl hr
    (op.numbers_int a b)
  obtain ⟨s₂, hplace, hnew⟩ := placed_number (w := w) span hnew
  refine ⟨s₂, q, ?_, hnew⟩
  have hleft : objectOf (.object l) ⟨s, w⟩ = (.ok (l, s.object l), ⟨s, w⟩) := rfl
  exact (bind_ok hleft).trans ((bind_ok hop).trans hplace)

theorem unary_minus (span : Span) (hr : (s.object r).payload = .number (.int a)) :
    ∃ s' q, unary .minus span (.object r) ⟨s, w⟩ = (.ok (.object q), ⟨s', w⟩) ∧
      NewNumber s s' q (-a) := by
  have harg : objectOf (.object r) ⟨s, w⟩ = (.ok (r, s.object r), ⟨s, w⟩) := rfl
  have hmake : make (.number (.int (-1))) ⟨s, w⟩ = (.ok (.object ⟨s.objects.size⟩),
      ⟨(s.allocate (.fresh (.number (.int (-1))))).2, w⟩) := rfl
  have hone := NewNumber.allocate s (o := .fresh (.number (.int (-1)))) rfl
  have hkept : (((s.allocate (.fresh (.number (.int (-1))))).2).object r).payload =
      .number (.int a) := by
    rw [hone.grows.objects r (Store.index_lt (by simp [hr])), hr]
  have hneg : Operator.numbers .mul (.int a) (.int (-1)) = .ok (.int (-a)) := by
    change Except.ok (Number.int (a * -1)) = _
    rw [Int.mul_neg_one]
  obtain ⟨s₁, q, hop, hnew⟩ := Operator.binary_number (w := w) (by decide) hkept hone.payload hneg
  obtain ⟨s₂, hplace, hnew⟩ := placed_number (w := w) span hnew
  refine ⟨s₂, q, ?_, .after hone.grows hnew⟩
  exact (bind_ok harg).trans ((bind_ok hmake).trans ((bind_ok hop).trans hplace))

theorem unary_number (op : UnaryOp) (span : Span) (h : NewNumber s s' r a) :
    ∃ s'' q, unary op span (.object r) ⟨s', w⟩ = (.ok (.object q), ⟨s'', w⟩) ∧
      NewNumber s s'' q (op.value a) := by
  have harg : objectOf (.object r) ⟨s', w⟩ = (.ok (r, s'.object r), ⟨s', w⟩) := rfl
  cases op with
  | plus =>
    obtain ⟨s₁, hplace, hnew⟩ := placed_number (w := w) span h
    exact ⟨s₁, r, (bind_ok harg).trans hplace, hnew⟩
  | minus =>
    obtain ⟨s₁, q, hop, hnew⟩ := unary_minus (w := w) span h.payload
    exact ⟨s₁, q, hop, .after h.grows hnew⟩
  | not =>
    obtain ⟨s₁, q, hop, hnew⟩ := Operator.negate_number (w := w) h.payload
    obtain ⟨s₂, hplace, hnew⟩ := placed_number (w := w) span hnew
    refine ⟨s₂, q, ?_, .after h.grows hnew⟩
    exact (bind_ok harg).trans ((bind_ok hop).trans hplace)

end Eval

namespace IntExpr

def height : IntExpr → Nat
  | lit _ => 1
  | unary _ e => e.height + 1
  | binary _ x y => max x.height y.height + 1

theorem height_pos (e : IntExpr) : 0 < e.height := by
  cases e <;> exact Nat.succ_pos _

/-- Evaluating the tree of an expression gives a new number, its value. -/
theorem eval_tree (e : IntExpr) {tree : Node} (ht : tree.shape = e.node.shape) {fuel : Nat}
    (hf : e.height ≤ fuel) (depth : Nat) (context : Context) (s : Store) (w : World) :
    ∃ s' r, Eval.eval fuel depth context tree ⟨s, w⟩ = (.ok (.object r), ⟨s', w⟩) ∧
      NewNumber s s' r e.value := by
  induction e generalizing tree fuel s with
  | lit n =>
    obtain ⟨fuel, rfl⟩ := Nat.exists_eq_add_of_le' hf
    cases tree with
    | number span v =>
      obtain rfl : v = .int n := by
        rw [node, Node.shape, Node.shape] at ht
        injection ht
      rw [height, Eval.eval]
      exact Eval.allocateAt_number s w span context n
    | _ => cases ht
  | unary op e ih =>
    obtain ⟨fuel, rfl⟩ := Nat.exists_eq_add_of_le' (Nat.le_trans (height_pos _) hf)
    cases tree with
    | unary span op' arg =>
      rw [node, Node.shape, Node.shape] at ht
      injection ht with _ hop harg
      subst hop
      obtain ⟨s₁, r, heval, hnew⟩ := ih harg (Nat.le_of_succ_le_succ hf) s
      obtain ⟨s₂, q, hop, hnew⟩ := Eval.unary_number (w := w) op' span hnew
      refine ⟨s₂, q, ?_, hnew⟩
      rw [Eval.eval]
      exact (Eval.bind_ok heval).trans hop
    | _ => cases ht
  | binary op x y ihx ihy =>
    obtain ⟨fuel, rfl⟩ := Nat.exists_eq_add_of_le' (Nat.le_trans (height_pos _) hf)
    have hf : max x.height y.height ≤ fuel := Nat.le_of_succ_le_succ hf
    cases tree with
    | binary span op' left right =>
      rw [node, Node.shape, Node.shape] at ht
      injection ht with _ hop hleft hright
      subst hop
      obtain ⟨s₁, l, hx, hl⟩ := ihx hleft (Nat.le_trans (Nat.le_max_left ..) hf) s
      obtain ⟨s₂, r, hy, hr⟩ := ihy hright (Nat.le_trans (Nat.le_max_right ..) hf) s₁
      obtain ⟨s₃, q, hop, hnew⟩ := Eval.binary_number (w := w) op span (hl.keep hr.grows) hr.payload
      refine ⟨s₃, q, ?_, .after (hl.grows.trans hr.grows) hnew⟩
      rw [Eval.eval]
      exact (Eval.bind_ok hx).trans ((Eval.bind_ok hy).trans hop)
    | _ => cases ht

end IntExpr

end Think
