import Think.Proofs.IntExpr.Evaluation
import Think.Session

/-! # Running the text of an integer expression

A program that is one expression gives a list of one number, the value of the expression. Its
text is read as its tree, the tree is worth the value, and the value can be written out, so the
program has something to show.
-/

namespace Think

namespace Number

theorem written_int {n : Int} (h : (toString n.natAbs).length ≤ maxDigits) :
    (int n).written = .ok (toString n) := by
  rw [Nat.toString_eq_ofList_toDigits, String.length_ofList,
    Nat.length_toDigits_le_iff (by decide) (by decide)] at h
  rw [written, digitLimit, Nat.pow_eq, if_neg (Nat.not_le_of_gt h)]

theorem toString_ne_null (n : Int) : toString n ≠ "null" := by
  intro h
  cases n with
  | ofNat n =>
    have hn : 'n' ∈ Nat.toDigits 10 n := by
      have h := congrArg String.toList (show toString n = "null" from h)
      rw [Nat.toString_eq_ofList_toDigits, String.toList_ofList] at h
      rw [h]
      decide
    exact absurd (Nat.isDigit_of_mem_toDigits (by decide) (by decide) hn) (by decide)
  | negSucc n =>
    have h := congrArg String.toList (show "-" ++ toString (n + 1) = "null" from h)
    simp at h

end Number

namespace Snapshot

theorem written_number (n : Number) : (number n).written = n.written := by
  rw [written, shown] <;> simp

theorem written_singleton (x : Snapshot) : (list [x]).written = x.written := by
  rw [written, writtenAll, writtenAll]
  cases x.written with
  | error f => rfl
  | ok t => rfl

end Snapshot

namespace Node

theorem exists_of_shape_singleton {tree n : Node}
    (h : tree.shape = (list default [n]).shape) :
    ∃ span n', tree = list span [n'] ∧ n'.shape = n.shape := by
  cases tree with
  | list span items =>
    rw [shape, shape] at h
    injection h with _ h
    obtain _ | ⟨n', _ | ⟨_, _⟩⟩ := items
    · cases h
    · injection h with h
      exact ⟨span, n', rfl, h⟩
    · injection h with _ h
      cases h
  | _ => cases h

end Node

namespace Store

variable {s : Store} {r q : ObjectRef} {cells : ListRef} {n : Number}

theorem snapshot_singleton (hr : (s.object r).payload = .list cells)
    (hcells : s.elements cells = #[.object q]) (hq : (s.object q).payload = .number n) :
    s.snapshot (.object r) = .list [.number n] := by
  obtain ⟨d, hd⟩ : ∃ d, s.lists.size = d + 1 := by
    refine Nat.exists_eq_succ_of_ne_zero fun hempty => ?_
    simp [elements, Array.eq_empty_of_size_eq_zero hempty] at hcells
  simp [snapshot, hd, snapshotBelow, hr, hcells, hq]

end Store

namespace IntExpr

theorem length_inPlace (p own : Place) (text : String) :
    text.length ≤ (inPlace p own text).length := by
  rw [inPlace]
  split
  · exact Nat.le_refl _
  · simp only [String.length_append]
    omega

theorem height_le_length (e : IntExpr) : e.height ≤ e.text.length := by
  induction e with
  | lit n =>
    rw [height, text, Nat.toString_eq_ofList_toDigits, String.length_ofList]
    exact List.length_pos_iff.mpr Nat.toDigits_ne_nil
  | unary op e ih =>
    have hop : 1 ≤ op.text.length := by cases op <;> decide
    have harg := length_inPlace op.place e.place e.text
    simp only [height, text, String.length_append]
    omega
  | binary op x y ihx ihy =>
    have hop : 1 ≤ op.text.length := by cases op <;> decide
    have hx := length_inPlace op.op.level.leftPlace x.place x.text
    have hy := length_inPlace op.op.level.rightPlace y.place y.text
    simp only [height, text, String.length_append]
    omega

/-- The program that is just the expression gives a list of one number. -/
theorem eval_program (e : IntExpr) {tree : Node}
    (ht : tree.shape = (Node.list default [e.node]).shape) {fuel : Nat} (hf : e.height + 2 ≤ fuel)
    (depth : Nat) (context : Context) (s : Store) (w : World) :
    ∃ v m, Eval.eval fuel depth context tree ⟨s, w⟩ = (.ok v, m) ∧
      m.store.snapshot v = .list [.number (.int e.value)] := by
  obtain ⟨fuel, rfl⟩ := Nat.exists_eq_add_of_le' (Nat.le_trans (Nat.le_add_left 2 _) hf)
  obtain ⟨span, n, rfl, hn⟩ := Node.exists_of_shape_singleton ht
  have hf : e.height ≤ fuel := Nat.le_of_add_le_add_right hf
  obtain ⟨s₁, q, heval, hnew⟩ := e.eval_tree hn hf depth context s w
  have hnil : Eval.evalAll fuel depth context [] ⟨s₁, w⟩ = (.ok [], ⟨s₁, w⟩) := by
    obtain ⟨fuel, rfl⟩ := Nat.exists_eq_add_of_le' (Nat.le_trans e.height_pos hf)
    rw [Eval.evalAll]
    rfl
  have hall : Eval.evalAll (fuel + 1) depth context [n] ⟨s, w⟩ = (.ok [.object q], ⟨s₁, w⟩) := by
    rw [Eval.evalAll]
    exact (Eval.bind_ok heval).trans ((Eval.bind_ok hnil).trans rfl)
  let list : Object := ((Object.fresh (.list ⟨s₁.lists.size⟩)).within (some context)).placed span
  let s₂ : Store := { s₁ with lists := s₁.lists.push #[.object q] }
  refine ⟨.object ⟨s₂.objects.size⟩, ⟨(s₂.allocate list).2, w⟩, ?_, ?_⟩
  · rw [Eval.eval]
    exact (Eval.bind_ok hall).trans rfl
  · have hlist :
        ((s₂.allocate list).2.object ⟨s₂.objects.size⟩).payload = .list ⟨s₁.lists.size⟩ := by
      rw [Store.object_push]
      rfl
    apply Store.snapshot_singleton hlist
    · simp [Store.elements, Store.allocate, s₂]
      rfl
    · rw [(Store.Grows.allocate s₂ list).objects q hnew.isThere]
      exact hnew.payload

end IntExpr

/-- A session, be it a fresh one, reads the text of an integer expression and gives its value, if
the literals and the value are not too long to be read and written. -/
theorem Machine.run_intExpr (m : Machine) (name : String) (e : IntExpr)
    (hliterals : ∀ n ∈ e.literals, (toString n).length ≤ 4300)
    (hvalue : (toString e.value.natAbs).length ≤ 4300) :
    ∃ v m', m.run ⟨name, e.text⟩ = (.value v, m') ∧
      m'.store.snapshot v = .list [.number (.int e.value)] := by
  obtain ⟨tokens, tree, htokens, htree, hshape⟩ :=
    IntExpr.tree_of_text ⟨name, e.text⟩ rfl hliterals
  obtain ⟨fuel, hfuel, hf⟩ :
      ∃ fuel, Eval.maxFuel + e.text.length = fuel + 1 ∧ e.height + 2 ≤ fuel := by
    have hheight := e.height_le_length
    have hmax : Eval.maxFuel = 999999999999 + 1 := rfl
    exact ⟨999999999999 + e.text.length, by omega, by omega⟩
  obtain ⟨v, m', heval, hv⟩ := e.eval_program hshape hf 249 (Eval.programContext name)
    (Eval.mainMachine m).store (Eval.mainMachine m).world
  have hwritten : (m'.store.snapshot v).written = .ok (toString e.value) := by
    rw [hv, Snapshot.written_singleton, Snapshot.written_number, Number.written_int hvalue]
  have hsettle := Eval.settle_ok heval hwritten (Number.toString_ne_null e.value)
  refine ⟨v, m', ?_, hv⟩
  rw [run, hfuel, Eval.maxDepth, Eval.runText_succ (Eval.treeOf_ok htokens htree), hsettle]
  rfl

theorem Machine.run_intExpr_brackets :
    ∃ v m, (start (.start ⟨"/home", []⟩)).run ⟨"<stdin>", "not (1 + -2) * 3 or 4 <= 5"⟩ =
        (.value v, m) ∧
      m.store.snapshot v = .list [.number (.int 1)] := by
  let product : IntExpr := .binary .mul (.binary .add (.lit 1) (.unary .minus (.lit 2))) (.lit 3)
  let e : IntExpr := .binary .or (.unary .not product) (.binary .le (.lit 4) (.lit 5))
  have htext : e.text = "not (1 + -2) * 3 or 4 <= 5" := by decide +kernel
  have hvalue : e.value = 1 := by decide
  have h := Machine.run_intExpr (start (.start ⟨"/home", []⟩)) "<stdin>" e (by decide +kernel)
    (by decide +kernel)
  rwa [htext, hvalue] at h

end Think
