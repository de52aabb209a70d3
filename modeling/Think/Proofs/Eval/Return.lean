import Think.Proofs.Eval.Reach
import Think.Session

/-! # Returning from a function

A function that gets to a return statement ends there: the call is worth the operand. This holds of
every operand but the empty text. That one does not count as something, so evaluation goes on, and
no call is ever worth an empty text.
-/

namespace Think

/-- A machine of a session: its store has come from a fresh one by changes. -/
def Machine.InSession (m : Machine) : Prop :=
  Relation.ReflTransGen Store.Change Machine.freshStore m.store

theorem Machine.InSession.after {α : Type} {x : Eval α} {S : Stop → Store → Prop} {m m' : Machine}
    {r : Except Stop α} (h : m.InSession) (hx : Obeys Store.Change S x) (hm : x m = (r, m')) :
    m'.InSession := by
  have hchanges := (hx m).changes
  rw [hm] at hchanges
  exact Relation.ReflTransGen.trans h hchanges

theorem Machine.InSession.null {m : Machine} (h : m.InSession) :
    (m.store.object ⟨0⟩).payload = .null := by
  rw [Store.payload_of_changes h (by decide +kernel)]
  have hnull : ((Machine.freshStore.object ⟨0⟩).payload matches .null) = true := by decide +kernel
  split at hnull
  · assumption
  · cases hnull

/-- The values are objects of the same kind with the same contents. -/
def Store.Same (s : Store) (v : Value) (s' : Store) (w : Value) : Prop :=
  ∃ r q, v = .object r ∧ w = .object q ∧ (s'.object q).payload = (s.object r).payload

/-- The value can be the value of a call: it is an object of some kind and not an empty text. -/
def Store.Returnable (s : Store) (v : Value) : Prop :=
  ∃ r, v = .object r ∧ (s.object r).payload ≠ .plain ∧ (s.object r).payload ≠ .text ""

namespace Eval

open BuiltinCall (nullValue)

variable {m m' : Machine} {v w : Value} {r : ObjectRef}

theorem isSomething_object :
    m.store.isSomething (.object r) = true ↔ (m.store.object r).payload ≠ .text "" := by
  cases h : (m.store.object r).payload <;> simp [Store.isSomething, h]

theorem resultAt_object (span : Span) (context : Context)
    (h : (m.store.object r).payload ≠ .plain) :
    ∃ q m', resultAt span context (.object r) m = (.ok (.object q), m') ∧
      (m'.store.object q).payload = (m.store.object r).payload := by
  let q : ObjectRef := ⟨m.store.objects.size⟩
  let s := (m.store.allocate (m.store.object r)).2
  let s' := (s.update q (·.placed span)).update q (·.within (some context))
  refine ⟨q, ⟨s', m.world⟩, ?_, ?_⟩
  · have hcopy : copyTo r span context m = (.ok q, ⟨s', m.world⟩) := bind_ok (copy_eq h)
    exact bind_ok hcopy
  · calc (s'.object q).payload
        = ((s.update q (·.placed span)).object q).payload := Store.payload_update _ q q fun _ => rfl
      _ = (s.object q).payload := Store.payload_update _ q q fun _ => rfl
      _ = (m.store.object r).payload := by rw [Store.object_push]

theorem resultAt_eq_ok {span : Span} {context : Context}
    (h : resultAt span context v m = (.ok w, m')) :
    ∃ r q, v = .object r ∧ w = .object q ∧ (m.store.object r).payload ≠ .plain ∧
      (m'.store.object q).payload = (m.store.object r).payload := by
  cases v with
  | absent => cases h
  | bare t => cases h
  | object r =>
    by_cases hr : (m.store.object r).payload = .plain
    · cases (bind_error (bind_error (copy_plain hr))).symm.trans h
    · obtain ⟨q, m'', hq, hsame⟩ := resultAt_object span context hr
      rw [hq] at h
      cases h
      exact ⟨r, q, rfl, rfl, hr, hsame⟩

end Eval

open Eval

open BuiltinCall (nullValue)

/-- A call expression in a session that has entered its function: the function and the arguments
are evaluated, their number is right, and the body comes next. -/
structure Activation where
  fuel : Nat
  depth : Nat
  site : Context
  span : Span
  callee : Node
  args : List Node
  start : Machine
  called : Value
  afterCallee : Machine
  function : ObjectRef
  placed : Machine
  values : List Value
  afterArgs : Machine
  name : String
  params : List String
  body : Node
  isExpression : Bool
  context : Context
  entered : Machine
  inSession : start.InSession
  evalCallee : eval (fuel + 1) (depth + 1) site callee start = (.ok called, afterCallee)
  calleeAt : Eval.calleeAt span called afterCallee = (.ok function, placed)
  evalArgs : evalAll (fuel + 1) (depth + 1) site args placed = (.ok values, afterArgs)
  isFunction : (afterArgs.store.object function).payload = .function name params body isExpression
  enterFunction : Eval.enterFunction function (afterArgs.store.object function) name params values
    afterArgs = (.ok context, entered)

namespace Activation

variable (a : Activation) {v w : Value} {m m' : Machine}

def result : Except Stop Value × Machine :=
  eval (a.fuel + 2) (a.depth + 1) a.site (.call a.span a.callee a.args) a.start

def Reaches (p : Point) : Prop :=
  Eval.Reaches a.depth a.context ⟨.node a.body, a.fuel, a.entered⟩ p

/-- The call expression is worth the same as `v` was in `m`. -/
def IsWorth (v : Value) (m : Machine) : Prop :=
  ∃ w m', a.result = (.ok w, m') ∧ m.store.Same v m'.store w

theorem result_eq : a.result =
    (call (a.fuel + 1) (a.depth + 1) a.function a.values >>= resultAt a.span a.site)
      a.afterArgs := by
  rw [result, eval]
  exact (bind_ok a.evalCallee).trans ((bind_ok a.calleeAt).trans (bind_ok a.evalArgs))

theorem call_eq : call (a.fuel + 1) (a.depth + 1) a.function a.values a.afterArgs =
    match eval a.fuel a.depth a.context a.body a.entered with
    | (.ok v, m) => functionResult a.isExpression v m
    | (.error (.returned v), m) => (.ok v, m)
    | (.error e, m) => (.error e, m) := by
  rw [call]
  refine (bind_ok (object_apply a.function a.afterArgs)).trans ?_
  rw [a.isFunction]
  refine (bind_ok a.enterFunction).trans ?_
  rw [bind_ok (outcome_apply _ _)]
  rcases eval a.fuel a.depth a.context a.body a.entered with ⟨e | v, m⟩
  · cases e <;> rfl
  · rfl

theorem call_value {u : Value}
    (h : call (a.fuel + 1) (a.depth + 1) a.function a.values a.afterArgs = (.ok u, m)) :
    u = nullValue ∨ m.store.isSomething u = true := by
  rw [a.call_eq] at h
  split at h
  · next v m₁ _ =>
    rw [functionResult_eq] at h
    cases h
    split
    · next hv => exact .inr (by simp_all)
    · exact .inl rfl
  · next v m₁ hbody =>
    cases h
    exact .inr (((disciplined a.fuel).eval a.depth a.context a.body).isSomething hbody)
  · cases h

theorem inSession_afterArgs : a.afterArgs.InSession := by
  have hcallee := a.inSession.after ((disciplined _).eval _ _ _) a.evalCallee
  have hplaced := hcallee.after (plain_calleeAt _ _).tame a.calleeAt
  exact hplaced.after ((disciplined _).evalAll _ _ _) a.evalArgs

theorem returnable_of_isWorth (h : a.IsWorth v m) : m.store.Returnable v := by
  obtain ⟨_, m', h, r, q, rfl, rfl, hpayload⟩ := h
  rw [result_eq] at h
  obtain ⟨u, m₁, hcall, hresult⟩ := bind_eq_ok h
  obtain ⟨p, q', rfl, hq, hplain, hcopy⟩ := resultAt_eq_ok hresult
  cases hq
  have hvalue : (m.store.object r).payload = (m₁.store.object p).payload :=
    hpayload.symm.trans hcopy
  refine ⟨r, rfl, hvalue ▸ hplain, hvalue ▸ ?_⟩
  rcases a.call_value hcall with hnull | hsomething
  · have hm₁ := a.inSession_afterArgs.after ((disciplined _).call _ _ _) hcall
    cases hnull
    rw [hm₁.null]
    simp
  · exact isSomething_object.mp hsomething

theorem isWorth_of_result (h : a.result = resultAt a.span a.site v m) (hv : m.store.Returnable v) :
    a.IsWorth v m := by
  obtain ⟨r, rfl, hplain, -⟩ := hv
  obtain ⟨q, m', hresult, hsame⟩ := resultAt_object a.span a.site hplain
  exact ⟨.object q, m', h.trans hresult, r, q, rfl, rfl, hsame⟩

theorem result_of_returned
    (h : eval a.fuel a.depth a.context a.body a.entered = (.error (.returned v), m)) :
    a.result = resultAt a.span a.site v m := by
  rw [result_eq]
  apply bind_ok
  rw [call_eq, h]

theorem result_of_ok (h : eval a.fuel a.depth a.context a.body a.entered = (.ok v, m)) :
    a.result = resultAt a.span a.site
      (if a.isExpression && m.store.isSomething v then v else nullValue) m := by
  rw [result_eq]
  apply bind_ok
  rw [call_eq, h]
  exact functionResult_eq a.isExpression v m

end Activation

def Activation.ofBody (fuel : Nat) (w : World) (body : Node) (isExpression : Bool) : Activation :=
  let site := programContext "program"
  let literal : Payload := .function "<anonymous>" [] body isExpression
  let f : Object := ((Object.fresh literal).within (some site)).placed default
  let s := (Machine.start w).store
  let s₁ := (s.allocate f).2
  let s₂ := (s₁.allocate f).2.update ⟨s₁.objects.size⟩ (·.placed default)
  let s₃ := (s₂.childOf site.symbols).2
  let s₄ := (s₃.childOf site.hidden).2
  have hf : s₂.object ⟨s₁.objects.size⟩ = f := by
    rw [Store.object_update (by simp [Store.allocate]), Store.object_push]
    rfl
  have hcopy : copy ⟨s.objects.size⟩ ⟨s₁, (Machine.start w).world⟩ =
      (.ok ⟨s₁.objects.size⟩, ⟨(s₁.allocate f).2, (Machine.start w).world⟩) := by
    have hs : s₁.object ⟨s.objects.size⟩ = f := Store.object_push s f
    rw [copy_eq (by rw [hs]; rintro ⟨⟩), hs]
  { fuel := fuel + 1
    depth := 0
    site
    span := default
    callee := .function default none [] body isExpression
    args := []
    start := Machine.start w
    called := .object ⟨s.objects.size⟩
    afterCallee := ⟨s₁, (Machine.start w).world⟩
    function := ⟨s₁.objects.size⟩
    placed := ⟨s₂, (Machine.start w).world⟩
    values := []
    afterArgs := ⟨s₂, (Machine.start w).world⟩
    name := "<anonymous>"
    params := []
    body
    isExpression
    context := ⟨"<anonymous>", some site, f.start, ⟨s₂.tables.size⟩, ⟨s₃.tables.size⟩⟩
    entered := ⟨s₄, (Machine.start w).world⟩
    inSession := .refl
    evalCallee := by
      rw [eval]
      rfl
    calleeAt := bind_ok hcopy
    evalArgs := by
      rw [evalAll]
      rfl
    isFunction := by
      rw [hf]
      rfl
    enterFunction := by
      rw [hf]
      rfl }

def Activation.ofText (t : String) : Activation :=
  .ofBody 3 (.start ⟨"/home", []⟩) (.list default [.ret default (some (.text default t))]) false

theorem Activation.reaches_ofText (t : String) :
    (ofText t).Reaches ⟨.node (.ret default (some (.text default t))), 1 + 1, (ofText t).entered⟩ :=
  .head .list (.head .first .refl)

theorem Activation.eval_ofText (t : String) : ∃ r m,
    eval 1 (ofText t).depth (ofText t).context (.text default t) (ofText t).entered =
      (.ok (.object r), m) ∧ (m.store.object r).payload = .text t := by
  let a := ofText t
  let o := ((Object.fresh (.text t)).within (some a.context)).placed default
  refine ⟨⟨a.entered.store.objects.size⟩, ⟨(a.entered.store.allocate o).2, a.entered.world⟩, ?_, ?_⟩
  · rw [eval]
    rfl
  · rw [Store.object_push]
    rfl

theorem Store.Returnable.isSomething {m : Machine} {v : Value} (h : m.store.Returnable v) :
    m.store.isSomething v = true := by
  obtain ⟨r, rfl, -, hempty⟩ := h
  exact isSomething_object.mpr hempty

/-- If evaluation of a body gets to `return e` and `e` has a value, then the call is worth it
exactly if it can be the value of a call, and then nothing but the copy for the place of the call is
made. In the same way an arrow function is worth what its body is worth. -/
theorem Activation.isWorth_iff_returnable (a : Activation) :
    (∀ span e fuel m v m', a.Reaches ⟨.node (.ret span (some e)), fuel + 1, m⟩ →
      eval fuel a.depth a.context e m = (.ok v, m') →
      (a.IsWorth v m' ↔ m'.store.Returnable v) ∧
      if m'.store.isSomething v then a.result = resultAt a.span a.site v m'
      else eval (fuel + 1) a.depth a.context (.ret span (some e)) m = (.ok .absent, m')) ∧
    (∀ v m', a.isExpression = true → eval a.fuel a.depth a.context a.body a.entered = (.ok v, m') →
      (a.IsWorth v m' ↔ m'.store.Returnable v) ∧
      a.result =
        resultAt a.span a.site (if m'.store.isSomething v then v else nullValue) m') := by
  constructor
  · intro span e fuel m v m' hreach he
    have hresult (hv : m'.store.isSomething v = true) : a.result = resultAt a.span a.site v m' := by
      apply a.result_of_returned
      apply hreach.stopsWith
      change eval (fuel + 1) a.depth a.context (.ret span (some e)) m = _
      rw [eval_ret]
      exact (bind_ok he).trans (returnValue_something hv)
    refine ⟨⟨a.returnable_of_isWorth, fun hv => ?_⟩, ?_⟩
    · exact a.isWorth_of_result (hresult hv.isSomething) hv
    split
    · next hv => exact hresult hv
    · next hv =>
      rw [eval_ret]
      exact (bind_ok he).trans (returnValue_nothing (by simpa using hv))
  · intro v m' harrow hbody
    have hresult := a.result_of_ok hbody
    rw [harrow, Bool.true_and] at hresult
    refine ⟨⟨a.returnable_of_isWorth, fun hv => a.isWorth_of_result ?_ hv⟩, hresult⟩
    rwa [if_pos hv.isSomething] at hresult

/-- A call of a function that returns a letter is worth it; that of one that returns an empty text
is not. -/
theorem Activation.isWorth_letter_not_empty :
    (∃ v m, eval 1 0 (ofText "a").context (.text default "a") (ofText "a").entered = (.ok v, m) ∧
      (ofText "a").IsWorth v m) ∧
      ∃ v m, eval 1 0 (ofText "").context (.text default "") (ofText "").entered = (.ok v, m) ∧
        ¬ (ofText "").IsWorth v m := by
  constructor
  · obtain ⟨r, m, he, hr⟩ := eval_ofText "a"
    have hworth := ((ofText "a").isWorth_iff_returnable.1 _ _ _ _ _ _ (reaches_ofText "a") he).1
    refine ⟨.object r, m, he, hworth.mpr ⟨r, rfl, ?_, ?_⟩⟩ <;> simp [hr]
  · obtain ⟨r, m, he, hr⟩ := eval_ofText ""
    refine ⟨.object r, m, he, ?_⟩
    rw [((ofText "").isWorth_iff_returnable.1 _ _ _ _ _ _ (reaches_ofText "") he).1]
    rintro ⟨_, ⟨⟩, -, hempty⟩
    exact hempty hr

end Think
