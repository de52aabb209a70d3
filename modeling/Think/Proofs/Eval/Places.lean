import Think.Proofs.Eval.Contents

/-! # Where values arise

Evaluation of a tree gives a value that is at a place in a text, or null. The null that blocks and
branches give is one object for all programs, and it is at no place unless an operator has put it
at one.
-/

namespace Think

namespace Store

def Located (s : Store) (v : Value) : Prop :=
  ∀ r, v = .object r → r.index < s.objects.size → r = ⟨0⟩ ∨ s.Placed r

theorem Located.of_objects {s s' : Store} {v : Value} (h : s.Located v)
    (hs : s'.objects = s.objects) : s'.Located v := by
  intro r hr hsize
  have hobject : s'.object r = s.object r := by rw [object, object, hs]
  rw [hs] at hsize
  rw [Placed, hobject]
  exact h r hr hsize

end Store

namespace Eval

open BuiltinCall (nullValue)

def Locates (x : Eval Value) : Prop := ∀ m v m', x m = (.ok v, m') → m'.store.Located v

namespace Locates

variable {α : Type} {x : Eval Value}

theorem bind {y : Eval α} {k : α → Eval Value} (hk : ∀ a, Locates (k a)) : Locates (y >>= k) := by
  intro m v m' h
  obtain ⟨a, m₁, -, h⟩ := bind_eq_ok h
  exact hk a m₁ v m' h

theorem of_ne_object {v : Value} (hv : ∀ r, v ≠ .object r) : Locates (pure v) := by
  intro m _ _ h r hr
  cases h
  exact absurd hr (hv r)

theorem null : Locates (pure nullValue) := by
  intro m _ _ h r hr _
  cases h
  cases hr
  exact .inl rfl

theorem throw (e : Stop) : Locates (throw e) := by
  intro m v m' h
  cases h

/-- What comes after the value may still be null instead of it. -/
theorem keep {k : Value → Eval Value} (hx : Locates x)
    (hk : ∀ v m w m', k v m = (.ok w, m') →
      m'.store.objects = m.store.objects ∧ (w = v ∨ w = nullValue)) : Locates (x >>= k) := by
  intro m w m' h
  obtain ⟨v, m₁, hv, h⟩ := bind_eq_ok h
  obtain ⟨hobjects, rfl | rfl⟩ := hk v m₁ w m' h
  · exact (hx m w m₁ hv).of_objects hobjects
  · exact null m₁ _ m₁ rfl |>.of_objects hobjects

end Locates

section

variable {span : Span} {context : Context}

theorem locates_allocateAt (p : Payload) : Locates (allocateAt p span context) := by
  intro m v m' h r hr _
  cases h
  cases hr
  refine .inr ?_
  change Store.Placed (m.store.allocate _).2 ⟨m.store.objects.size⟩
  rw [Store.Placed, Store.object_push]
  exact ⟨rfl, rfl⟩

theorem locates_listAt (vs : List Value) : Locates (listAt vs span context) :=
  .bind fun _ => locates_allocateAt _

theorem locates_copyTo (r : ObjectRef) :
    Locates (do return .object (← copyTo r span context)) := by
  intro m v m' h
  by_cases hr : (m.store.object r).payload = .plain
  · cases (bind_error (bind_error (copy_plain hr))).symm.trans h
  · obtain ⟨c, m₁, hc, h⟩ := bind_eq_ok h
    rw [copyTo_eq span context hr] at hc
    cases hc
    cases h
    rintro _ ⟨⟩ _
    refine .inr ?_
    change Store.Placed (m.store.allocate _).2 ⟨m.store.objects.size⟩
    rw [Store.Placed, Store.object_push]
    exact ⟨rfl, rfl⟩

theorem locates_access (name : String) : Locates (access context span name) := by
  apply Locates.bind
  intro found
  dsimp only
  split
  all_goals
    apply Locates.bind
    intro v
    split
    · exact .throw _
    · exact .throw _
    · exact locates_copyTo _

theorem locates_resultAt (v : Value) : Locates (resultAt span context v) :=
  .bind fun _ => locates_copyTo _

theorem locates_placed (a : Answer) : Locates (placed span a) := by
  cases a with
  | truth b => exact .throw _
  | value v =>
    cases v with
    | absent | bare => exact .throw _
    | object r =>
      intro m v m' h
      cases h
      rintro _ ⟨⟩ hsize
      refine .inr ?_
      have hr : r.index < m.store.objects.size := by simpa [Store.update] using hsize
      rw [Store.Placed, Store.object_update hr]
      exact ⟨rfl, rfl⟩

theorem locates_binary (op : BinaryOp) (left right : Value) :
    Locates (binary op span left right) :=
  .bind fun _ => .bind fun a => locates_placed a

theorem locates_unary (op : UnaryOp) (arg : Value) : Locates (unary op span arg) := by
  apply Locates.bind
  intro r
  cases op with
  | plus => exact locates_placed _
  | minus => exact .bind fun _ => .bind fun a => locates_placed a
  | not => exact .bind fun a => locates_placed a

theorem locates_returnValue (v : Value) : Locates (returnValue v) := by
  intro m w m' h
  cases hv : m.store.isSomething v with
  | true =>
    rw [returnValue_something hv] at h
    cases h
  | false =>
    rw [returnValue_nothing hv] at h
    cases h
    nofun

end

structure Locating (n : Nat) : Prop where
  eval : ∀ depth context node, Locates (eval n depth context node)
  evalCases : ∀ depth context cs fallback, Locates (evalCases n depth context cs fallback)
  importText : ∀ depth path m v m', importText n depth path m = (.ok (.ok v), m') →
    m'.store.Located v

namespace Locating

theorem zero : Locating 0 where
  eval depth context node := by
    rw [Eval.eval]
    exact .throw _
  evalCases depth context cs fallback := by
    rw [Eval.evalCases]
    exact .throw _
  importText depth path m v m' h := by
    rw [Eval.importText] at h
    cases h

variable {n : Nat} (ih : Locating n)

include ih

theorem body_succ (depth : Nat) (context : Context) (body : Node) (block : Bool) :
    Locates (do
      let v ← Eval.eval n depth context body
      return if block then nullValue else v) := by
  apply (ih.eval depth context body).keep
  intro v m w m' h
  cases h
  cases block with
  | true => exact ⟨rfl, .inr rfl⟩
  | false => exact ⟨rfl, .inl rfl⟩

theorem evalCases_succ (depth : Nat) (context : Context) (cs : List (Node × Node × Bool))
    (fallback : Option (Node × Bool)) :
    Locates (Eval.evalCases (n + 1) depth context cs fallback) := by
  match cs, fallback with
  | [], none =>
    rw [Eval.evalCases]
    exact .null
  | [], some (body, block) =>
    rw [Eval.evalCases]
    exact ih.body_succ depth context body block
  | (c, body, block) :: cs, fallback =>
    rw [Eval.evalCases]
    apply Locates.bind
    intro v
    apply Locates.bind
    intro holds
    split
    · exact ih.body_succ depth context body block
    · exact ih.evalCases depth context cs fallback

theorem importText_succ (depth : Nat) (path : String) {m m' : Machine} {v : Value}
    (h : Eval.importText (n + 1) depth path m = (.ok (.ok v), m')) : m'.store.Located v := by
  cases depth with
  | zero =>
    rw [Eval.importText] at h
    · cases h
    · simp
  | succ depth =>
    rw [Eval.importText] at h
    obtain ⟨text, m₁, -, h⟩ := bind_eq_ok h
    obtain ⟨tree, m₂, -, h⟩ := bind_eq_ok h
    cases tree with
    | error d => cases h
    | ok tree =>
      obtain ⟨hidden, m₃, -, h⟩ := bind_eq_ok h
      obtain ⟨zero, m₄, -, h⟩ := bind_eq_ok h
      obtain ⟨_, m₅, -, h⟩ := bind_eq_ok h
      rcases settle_eq_ok h with ⟨u, hu, rfl | rfl⟩ | ⟨rfl, -⟩
      · exact ih.eval _ _ _ _ _ _ hu
      · rintro r ⟨⟩
      · rintro r ⟨⟩

theorem eval_succ (depth : Nat) (context : Context) (node : Node) :
    Locates (Eval.eval (n + 1) depth context node) := by
  cases node with
  | number span k =>
    cases k <;> (rw [Eval.eval]; exact locates_allocateAt _)
  | text span s =>
    rw [Eval.eval]
    exact locates_allocateAt _
  | list span items =>
    rw [Eval.eval]
    exact .bind fun vs => locates_listAt vs
  | access span name =>
    rw [Eval.eval]
    exact locates_access name
  | assign span name value =>
    rw [Eval.eval]
    apply (ih.eval depth context value).keep
    intro v m w m' h
    cases h
    exact ⟨rfl, .inl rfl⟩
  | binary span op l r =>
    rw [Eval.eval]
    exact .bind fun _ => .bind fun _ => locates_binary op _ _
  | unary span op arg =>
    rw [Eval.eval]
    exact .bind fun _ => locates_unary op _
  | branch span cs fallback =>
    rw [Eval.eval]
    exact ih.evalCases depth context cs fallback
  | forLoop span name x y z b k =>
    rw [eval_forLoop]
    refine .bind fun _ => .bind fun _ => .bind fun _ => .bind fun _ => .bind fun vs => ?_
    cases k with
    | true => exact .null
    | false => exact locates_listAt vs
  | whileLoop span c b k =>
    rw [Eval.eval]
    apply Locates.bind
    intro vs
    cases k with
    | true => exact .null
    | false => exact locates_listAt vs
  | function span name params body isExpression =>
    rw [Eval.eval]
    apply (locates_allocateAt _).keep
    intro v m w m' h
    cases name <;> (cases h; exact ⟨rfl, .inl rfl⟩)
  | call span f args =>
    rw [Eval.eval]
    exact .bind fun _ => .bind fun _ => .bind fun _ => .bind fun v => locates_resultAt v
  | ret span value =>
    rw [eval_ret]
    exact .bind fun v => locates_returnValue v
  | think span value =>
    rw [eval_think]
    exact .bind fun _ => .bind fun _ => .bind fun _ => .of_ne_object (by simp)
  | importFile span path =>
    rw [Eval.eval]
    apply Locates.bind
    intro file m v m' h
    obtain ⟨r, m₁, hr, h⟩ := bind_eq_ok h
    cases r with
    | error d => cases h
    | ok u =>
      cases h
      exact ih.importText _ _ _ _ _ hr
  | continueLoop span =>
    rw [Eval.eval]
    exact .throw _
  | breakLoop span =>
    rw [Eval.eval]
    exact .throw _

end Locating

theorem locating (n : Nat) : Locating n := by
  induction n with
  | zero => exact .zero
  | succ n ih =>
    exact ⟨ih.eval_succ, ih.evalCases_succ, fun depth path m v m' => ih.importText_succ depth path⟩

end Eval

end Think
