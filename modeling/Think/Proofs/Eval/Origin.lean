import Think.Proofs.Eval.Frame

/-! # Where a stop comes from

A stop in a part of a program is a stop of all that is under way around it, up to a loop that takes
a signal from its body or a call that takes a return. So every stop that is not a fault can be
traced back, through the calls that are under way, to the one activity that raises it.
-/

namespace Think

def Node.signal? : Node → Option Stop
  | .continueLoop _ => some .continued
  | .breakLoop _ => some .broke
  | _ => none

namespace Eval

def CallReport (callee : Object) (d : Diagnostic) (s : Store) : Prop :=
  CalleeReport callee d s ∨ ∃ context : Context, context.parent = callee.context ∧
    context.entry = callee.start ∧ (⟨callee, context⟩ : BuiltinCall).Fails d s

namespace Activity

def StopsWith : Activity → Stop → Machine → Prop
  | .inside depth context p, e, m => p.StopsWith depth context e m
  | .call fuel depth r args m₀, e, m => Eval.call fuel depth r args m₀ = (.error e, m)

def fuel : Activity → Nat
  | .inside _ _ p => p.fuel
  | .call fuel _ _ _ _ => fuel

/-- One activity comes to another as a part of it, and a stop with `e` there is a stop of its own.
A call passes on everything but a return. -/
inductive Passes (e : Stop) : Activity → Activity → Prop
  | inside {depth context p q} (h : Eval.Passes e depth context p q) :
    Passes e (.inside depth context p) (.inside depth context q)
  | call {fuel depth context span f args m v m₁ r m₂ vs m₃}
    (hf : eval fuel depth context f m = (.ok v, m₁))
    (hr : calleeAt span v m₁ = (.ok r, m₂))
    (hvs : evalAll fuel depth context args m₂ = (.ok vs, m₃)) :
    Passes e (.inside depth context ⟨.node (.call span f args), fuel + 1, m⟩)
      (.call fuel depth r vs m₃)
  | body {fuel depth r args m name params body isExpression context m'}
    (hp : (m.store.object r).payload = .function name params body isExpression)
    (he : enterFunction r (m.store.object r) name params args m = (.ok context, m'))
    (hreturn : ∀ v, e ≠ .returned v) :
    Passes e (.call (fuel + 1) (depth + 1) r args m) (.inside depth context ⟨.node body, fuel, m'⟩)

/-- The activity stops with `e` when all that it has come to has ended. -/
inductive Raises (e : Stop) (m' : Machine) : Activity → Prop
  | part {depth context p} (h : Eval.Raises depth context e m' p)
    (hcall : ∀ span f args, p.task ≠ .node (.call span f args)) :
    Raises e m' (.inside depth context p)
  | entry {fuel depth r args m name params body isExpression}
    (hp : (m.store.object r).payload = .function name params body isExpression)
    (h : enterFunction r (m.store.object r) name params args m = (.error e, m')) :
    Raises e m' (.call (fuel + 1) (depth + 1) r args m)
  | builtin {fuel depth r args m name} (hp : (m.store.object r).payload = .builtin name)
    (h : Eval.call (fuel + 1) (depth + 1) r args m = (.error e, m')) :
    Raises e m' (.call (fuel + 1) (depth + 1) r args m)
  | other {fuel depth r args m}
    (hfunction : ∀ name params body isExpression,
      (m.store.object r).payload ≠ .function name params body isExpression)
    (hbuiltin : ∀ name, (m.store.object r).payload ≠ .builtin name)
    (h : (Operator.unknown r .absent : Eval Value) m = (.error e, m')) :
    Raises e m' (.call (fuel + 1) (depth + 1) r args m)

variable {a b : Activity} {e : Stop} {m m' : Machine}

theorem Passes.leads (h : Passes e a b) : Leads a b := by
  cases h with
  | inside h => exact .enters h.toEnters
  | call hf hr hvs => exact .call hf hr hvs
  | body hp he _ => exact .body hp he

theorem Leads.fuel_lt (h : Leads a b) : b.fuel < a.fuel := by
  cases h with
  | enters h => exact h.fuel_lt
  | call | body => exact Nat.lt_succ_self _

end Activity

section

variable {fuel depth : Nat} {r : ObjectRef} {args : List Value} {name : String}
  {params : List String} {body : Node} {isExpression : Bool} {e : Stop} {context : Context}
  {m m₁ m' : Machine}

/-- A call of a function enters it, evaluates its body, and takes a return. -/
theorem call_function (hp : (m.store.object r).payload = .function name params body isExpression) :
    call (fuel + 1) (depth + 1) r args m = (do
      let context ← enterFunction r (m.store.object r) name params args
      match ← outcome (eval fuel depth context body) with
      | .ok v => functionResult isExpression v
      | .error (.returned v) => return v
      | .error stop => throw stop : Eval Value) m := by
  rw [call]
  refine (bind_ok (object_apply r m)).trans ?_
  exact hp ▸ rfl

theorem call_other
    (hfunction : ∀ name params body isExpression,
      (m.store.object r).payload ≠ .function name params body isExpression)
    (hbuiltin : ∀ name, (m.store.object r).payload ≠ .builtin name) :
    call (fuel + 1) (depth + 1) r args m = (Operator.unknown r .absent : Eval Value) m := by
  rw [call]
  refine (bind_ok (object_apply r m)).trans ?_
  cases hp : (m.store.object r).payload with
  | function name params body isExpression => exact absurd hp (hfunction _ _ _ _)
  | builtin name => exact absurd hp (hbuiltin _)
  | _ => rfl

theorem call_body (hp : (m.store.object r).payload = .function name params body isExpression)
    (he : enterFunction r (m.store.object r) name params args m = (.ok context, m₁))
    (hbody : eval fuel depth context body m₁ = (.error e, m')) (hreturn : ∀ v, e ≠ .returned v) :
    call (fuel + 1) (depth + 1) r args m = (.error e, m') := by
  rw [call_function hp]
  refine (bind_ok he).trans ?_
  rw [bind_ok (outcome_apply _ _), hbody]
  cases e with
  | returned v => exact absurd rfl (hreturn v)
  | _ => rfl

/-- A function of the language stops with faults, and with errors that are reported at the call. -/
theorem call_builtin (hp : (m.store.object r).payload = .builtin name)
    (h : call (fuel + 1) (depth + 1) r args m = (.error e, m')) :
    e.Within (CallReport (m.store.object r)) m'.store := by
  rw [call] at h
  replace h := (bind_ok (object_apply r m)).symm.trans h
  rw [hp] at h
  rcases bind_eq_error h with h | ⟨context, m₁, hctx, h⟩
  · exact (mute_callContext _ _).reports.stop h
  cases hb : Builtin.ofName? name with
  | none =>
    rw [hb] at h
    cases h
    trivial
  | some b =>
    rw [hb] at h
    rcases bind_eq_error h with h | ⟨_, m₂, _, h⟩
    · exact ((modest_checkCount _ _ _ _).stop h).mono fun _ => .inl
    rcases bind_eq_error h with h | ⟨refs, m₃, _, h⟩
    · exact (mute_bindArgs _ _ _).reports.stop h
    have hfails : e.Within (BuiltinCall.Fails ⟨m.store.object r, context⟩) m'.store := by
      split at h
      · exact ((disciplined fuel).runFile _ _ _).stop h
      · exact (BuiltinCall.modest_perform _ _ _).stop h
    obtain ⟨outer, houter, rfl, -⟩ := callContext_eq_ok hctx
    exact hfails.mono fun d hd => .inr ⟨_, houter.symm, rfl, hd⟩

end

namespace Activity

variable {a b : Activity} {e : Stop} {m m' : Machine}

/-- A stop that gets through leaves everything that is under way. -/
theorem Passes.stopsWith (h : Passes e a b) (hb : b.StopsWith e m) : a.StopsWith e m := by
  cases h with
  | inside h => exact h.stopsWith hb
  | call hf hr hvs => exact Eval.Raises.stopsWith (.call hf hr hvs hb)
  | body hp he hreturn => exact call_body hp he hb hreturn

theorem Raises.stopsWith (h : Raises e m a) : a.StopsWith e m := by
  cases h with
  | part h _ => exact h.stopsWith
  | entry hp h => exact (call_function hp).trans (bind_error h)
  | builtin _ h => exact h
  | other hfunction hbuiltin h => exact (call_other hfunction hbuiltin).trans h

theorem raises_or_passes_call {fuel depth : Nat} {r : ObjectRef} {args : List Value}
    (he : ∀ f, e ≠ .fault f) (h : Eval.call fuel depth r args m = (.error e, m')) :
    Raises e m' (.call fuel depth r args m) ∨
      ∃ b, Passes e (.call fuel depth r args m) b ∧ b.StopsWith e m' := by
  rcases fuel with _ | fuel
  · rw [Eval.call] at h
    cases h
    exact absurd rfl (he _)
  rcases depth with _ | depth
  · rw [Eval.call] at h
    · cases h
      exact absurd rfl (he _)
    · simp
  · cases hp : (m.store.object r).payload with
    | function name params body isExpression =>
      have hcall := (call_function hp).symm.trans h
      rcases bind_eq_error hcall with henter | ⟨context, m₁, henter, hcall⟩
      · exact .inl (.entry hp henter)
      rw [bind_ok (outcome_apply _ _)] at hcall
      rcases hbody : eval fuel depth context body m₁ with ⟨e' | v, m₂⟩
      · rw [hbody] at hcall
        cases e' with
        | returned v => cases hcall
        | fault | error | continued | broke =>
          cases hcall
          exact .inr ⟨_, .body hp henter (by simp), hbody⟩
      · rw [hbody] at hcall
        exact absurd hcall ((modest_functionResult _ _).mute.not_stops he)
    | builtin name => exact .inl (.builtin hp h)
    | number | text | list | null | file | plain =>
      have hfunction : ∀ name params body isExpression,
          (m.store.object r).payload ≠ .function name params body isExpression := by simp [hp]
      have hbuiltin : ∀ name, (m.store.object r).payload ≠ .builtin name := by simp [hp]
      exact .inl (.other hfunction hbuiltin ((call_other hfunction hbuiltin).symm.trans h))

theorem raises_or_passes (he : ∀ f, e ≠ .fault f) (h : a.StopsWith e m) :
    Raises e m a ∨ ∃ b, Passes e a b ∧ b.StopsWith e m := by
  cases a with
  | call fuel depth r args m₀ => exact raises_or_passes_call he h
  | inside depth context p =>
    rcases raises_or_hands he h with hp | ⟨q, hpq, hq⟩
    · by_cases hcall : ∃ span f args, p.task = .node (.call span f args)
      · obtain ⟨span, f, args, htask⟩ := hcall
        cases hp with
        | call hf hr hvs hcall => exact .inr ⟨_, .call hf hr hvs, hcall⟩
        | _ => cases htask
      · exact .inl (.part hp (by simpa using hcall))
    · exact .inr ⟨_, .inside hpq, hq⟩

/-- A stop that is not a fault is raised somewhere, and gets through from there. -/
theorem stopsWith_iff (he : ∀ f, e ≠ .fault f) :
    a.StopsWith e m ↔ ∃ b, Relation.ReflTransGen (Passes e) a b ∧ Raises e m b := by
  constructor
  · intro h
    -- Every step inside takes fuel, so the origin is found in the end.
    induction hn : a.fuel using Nat.strongRecOn generalizing a with
    | ind n ih =>
      rcases raises_or_passes he h with ha | ⟨b, hab, hb⟩
      · exact ⟨a, .refl, ha⟩
      · obtain ⟨c, hbc, hc⟩ := ih b.fuel (hn ▸ hab.leads.fuel_lt) hb rfl
        exact ⟨c, .head hab hbc, hc⟩
  · rintro ⟨b, hab, hb⟩
    induction hab using Relation.ReflTransGen.head_induction_on with
    | refl => exact hb.stopsWith
    | head hac _ ih => exact hac.stopsWith ih

/-- A signal for a loop is raised by the statement that sends it, and by nothing else. -/
theorem raises_signal_iff (he : e.ForLoop) :
    Raises e m a ↔ ∃ depth context fuel n,
      a = .inside depth context ⟨.node n, fuel + 1, m⟩ ∧ n.signal? = some e := by
  have hfailure {s : Store} {E : Diagnostic → Store → Prop} (h : e.Within E s) : False := by
    cases e with
    | continued | broke => exact h
    | _ => exact he
  constructor
  · intro h
    cases h with
    | entry _ h => exact (hfailure ((reports_enterFunction _ _ _ _ _).stop h)).elim
    | builtin hp h => exact (hfailure (call_builtin hp h)).elim
    | other _ _ h => exact (hfailure ((Operator.modest_unknown _ _).stop h)).elim
    | part h hcall =>
      cases h with
      | access h => exact (hfailure ((within_access _ _ _).stop h)).elim
      | binary _ _ h => exact (hfailure ((modest_binary _ _ _ _).stop h)).elim
      | unary _ h => exact (hfailure ((modest_unary _ _ _).stop h)).elim
      | call => exact absurd rfl (hcall _ _ _)
      | notFound h => exact (hfailure ((modest_importFile _ _ _).stop h)).elim
      | imported _ _ herror =>
        cases herror
        exact he.elim
      | ret _ h =>
        obtain ⟨rfl, -⟩ := returnValue_eq_error h
        exact he.elim
      | continueLoop hsignal => exact ⟨_, _, _, _, rfl, congrArg some hsignal.symm⟩
      | breakLoop hsignal => exact ⟨_, _, _, _, rfl, congrArg some hsignal.symm⟩
  · rintro ⟨depth, context, fuel, n, rfl, hn⟩
    cases n with
    | breakLoop => exact .part (.breakLoop (Option.some.inj hn).symm) nofun
    | continueLoop => exact .part (.continueLoop (Option.some.inj hn).symm) nofun
    | _ => cases hn

end Activity

end Eval

end Think
