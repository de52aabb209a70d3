import Think.Proofs.Eval.Reach
import Think.Proofs.Eval.Record

/-! # Records are exclusive

The evaluator that keeps records does what evaluation does, and its records never tell two things
at once: of an error, a value to return and the marks for the loops at most one is set, and then
there is no value. So a record tells just one way to end, and stale marks do no harm.
-/

namespace Think

open Eval
open BuiltinCall (nullValue)

namespace Record

/-- The record tells how an evaluation ends. -/
inductive Tells (s : Store) : Record → Except Stop Value → Prop
  | value (v : Value) : Tells s (success v) (.ok v)
  | nothing {v : Value} (hv : s.isSomething v = false) : Tells s (leaving v) (.ok .absent)
  | error (d : Diagnostic) : Tells s (failure d) (.error (.error d))
  | returned {v : Value} (hv : s.isSomething v = true) : Tells s (leaving v) (.error (.returned v))
  | continued : Tells s continuing (.error .continued)
  | broke : Tells s breaking (.error .broke)

end Record

/-- From `m` on, the evaluation `x` ends with a record that tells how `y` ends, or both have the
same fault. -/
inductive FollowsAt (x : Eval Record) (y : Eval Value) (m : Machine) : Prop
  | fault {f : Fault} {m' : Machine} (hx : x m = (.error (.fault f), m'))
    (hy : y m = (.error (.fault f), m'))
  | record {r : Record} {e : Except Stop Value} {m' : Machine} (hx : x m = (.ok r, m'))
    (hy : y m = (e, m')) (h : r.Tells m'.store e)

def Follows (x : Eval Record) (y : Eval Value) : Prop := ∀ m, FollowsAt x y m

section

variable {α : Type} {x x' : Eval Record} {y y' : Eval Value} {r other : Record} {m m' : Machine}
  {s : Store} {e : Except Stop Value} {after : Except Stop Value → Eval Value}
  {k : Record → Value → Eval Record} {k' : Value → Eval Value}

theorem Record.register_eq (h : r.value = other.value) : r.register other = other := by
  rw [register, h]

namespace Record.Tells

theorem answer_eq (h : r.Tells m.store e) : r.answer m = (e, m) := by
  cases h with
  | @nothing v hv =>
    change (if m.store.isSomething v then _ else _ : Eval Value) m = _
    rw [hv]
    rfl
  | @returned v hv =>
    change (if m.store.isSomething v then _ else _ : Eval Value) m = _
    rw [hv]
    rfl
  | _ => rfl

theorem exclusive (h : r.Tells s e) : r.Exclusive := by
  cases h with
  | value => exact ⟨by simp [marks, success, blank], by simp [marks, success, blank]⟩
  | @nothing v =>
    refine ⟨?_, fun _ => rfl⟩
    by_cases hv : v = .absent <;> simp [marks, leaving, blank, hv]
  | @returned v =>
    refine ⟨?_, fun _ => rfl⟩
    by_cases hv : v = .absent <;> simp [marks, leaving, blank, hv]
  | error | continued | broke =>
    exact ⟨by simp [marks, failure, continuing, breaking, blank], fun _ => rfl⟩

/-- A record that is registered goes on with its value, or interrupts and tells the same. -/
theorem register (h : other.Tells s e) (hr : r.value = .absent) :
    ((r.register other).interrupts s = false ∧ e = .ok other.value) ∨
      ((r.register other).interrupts s = true ∧ r.register other = other ∧
        ∃ stop, e = .error stop) := by
  cases h with
  | value => exact .inl ⟨rfl, rfl⟩
  | nothing hv => exact .inl ⟨by simp [interrupts, Record.register, leaving, blank, hv], rfl⟩
  | returned hv =>
    exact .inr ⟨by simp [interrupts, Record.register, leaving, blank, hv], register_eq hr, _, rfl⟩
  | error => exact .inr ⟨rfl, register_eq hr, _, rfl⟩
  | continued | broke =>
    exact .inr ⟨by simp [interrupts, Record.register, continuing, breaking, blank],
      register_eq hr, _, rfl⟩

end Record.Tells

theorem FollowsAt.of_eq (h : FollowsAt x' y' m') (hx : x m = x' m') (hy : y m = y' m') :
    FollowsAt x y m := by
  cases h with
  | fault hx' hy' => exact .fault (hx.trans hx') (hy.trans hy')
  | record hx' hy' h => exact .record (hx.trans hx') (hy.trans hy') h

namespace Eval

theorem outcome_bind (hy : y m = (e, m')) : (outcome y >>= after) m = after e m' := by
  rw [bind_ok (outcome_apply y m), hy]

section

variable {z : Eval α} {a : α} {k : α → Eval Record}

theorem settling_ok (hz : z m = (.ok a, m')) : settling z k m = k a m' := by
  rw [settling, bind_ok (outcome_apply z m), hz]

theorem settling_error {d : Diagnostic} (hz : z m = (.error (.error d), m')) :
    settling z k m = (.ok (.failure d), m') := by
  rw [settling, bind_ok (outcome_apply z m), hz]
  rfl

theorem settling_fault {f : Fault} (hz : z m = (.error (.fault f), m')) :
    settling z k m = (.error (.fault f), m') := by
  rw [settling, bind_ok (outcome_apply z m), hz]
  rfl

end

theorem registering_eq (hx : x m = (.ok other, m')) :
    registering r x k m =
      if (r.register other).interrupts m'.store then (.ok (r.register other), m')
      else k (r.register other) other.value m' := by
  rw [registering, bind_ok hx]
  change (if _ then _ else _ : Eval Record) m' = _
  split <;> rfl

theorem registeringRound_eq (again : Record → Option Value → Eval Record) (leave : Eval Record)
    (hx : x m = (.ok other, m')) :
    registeringRound r x again leave m =
      (if (r.register other).interrupts m'.store && !other.continued && !other.broke then
        pure (r.register other)
      else if other.continued then again (r.register other) none
      else if other.broke then leave
      else again (r.register other) (some other.value)) m' := by
  rw [registeringRound, bind_ok hx]
  rfl

theorem concludeBody_eq (isExpression : Bool) (hx : x m = (.ok other, m'))
    (hr : Record.blank.register other = r) :
    concludeBody isExpression x m = (.ok
      (if r.interrupts m'.store && r.returned = Value.absent then r
      else if isExpression && m'.store.isSomething other.value then .success other.value
      else if m'.store.isSomething r.returned then .success r.returned
      else .success nullValue), m') := by
  subst hr
  rw [concludeBody, bind_ok hx]
  change (if _ then _ else _ : Eval Record) m' = _
  split
  · rfl
  · split
    · rfl
    · split <;> rfl

theorem programValue_absent (m : Machine) : programValue .absent m = (.ok .absent, m) := by
  have hwritten : written .absent m = (.ok "None", m) := by
    have hsnapshot : m.store.snapshot .absent = .absent := by
      simp [Store.snapshot, Store.snapshotBelow]
    change lift (m.store.snapshot .absent).written m = _
    rw [hsnapshot]
    rfl
  rw [programValue, bind_ok hwritten]
  rfl

end Eval

namespace Follows

theorem answer_eq (h : Follows x y) : (x >>= Record.answer) = y := by
  funext m
  cases h m with
  | fault hx hy => rw [hy, bind_error hx]
  | record hx hy h => rw [hy, bind_ok hx, h.answer_eq]

theorem fault (f : Fault) : Follows (fault f) (Eval.fault f) := fun _ => .fault rfl rfl

theorem success (v : Value) : Follows (pure (.success v)) (pure v) := fun _ =>
  .record rfl rfl (.value v)

theorem leaving (v : Value) : Follows (pure (.leaving v)) (returnValue v) := by
  intro m
  cases hv : m.store.isSomething v with
  | false => exact .record rfl (returnValue_nothing hv) (.nothing hv)
  | true => exact .record rfl (returnValue_something hv) (.returned hv)

/-- Parts that only stop with a fault are the same on both sides. -/
theorem bind {z : Eval α} {k : α → Eval Record} {k' : α → Eval Value} (hz : Mute z)
    (hk : ∀ a, Follows (k a) (k' a)) : Follows (z >>= k) (z >>= k') := by
  intro m
  rcases hm : z m with ⟨stop | a, m'⟩
  · cases stop with
    | fault f => exact .fault (bind_error hm) (bind_error hm)
    | _ => exact (hz.not_stops (by simp) hm).elim
  · exact (hk a m').of_eq (bind_ok hm) (bind_ok hm)

theorem settling {z : Eval α} {k : α → Eval Record} {k' : α → Eval Value} (hz : Tame z)
    (hk : ∀ a, Follows (k a) (k' a)) : Follows (settling z k) (z >>= k') := by
  intro m
  rcases hm : z m with ⟨stop | a, m'⟩
  · have hfails : stop.IsFailure := hz.stop hm
    cases stop with
    | fault f => exact .fault (settling_fault hm) (bind_error hm)
    | error d => exact .record (settling_error hm) (bind_error hm) (.error d)
    | _ => exact hfails.elim
  · exact (hk a m').of_eq (settling_ok hm) (bind_ok hm)

theorem conclude (hy : Tame y) : Follows (conclude y) y := by
  have h := settling hy success
  rwa [bind_pure] at h

theorem registering (hx : Follows x y) (hr : r.value = .absent)
    (hk : ∀ r v, r.value = .absent → Follows (k r v) (k' v)) :
    Follows (registering r x k) (y >>= k') := by
  intro m
  cases hx m with
  | fault hx hy => exact .fault (bind_error hx) (bind_error hy)
  | @record other e m' hx hy h =>
    have hregister := registering_eq (r := r) (k := k) hx
    rcases h.register hr with ⟨hgoes, rfl⟩ | ⟨hstops, hsame, stop, rfl⟩
    · rw [if_neg (by simp [hgoes])] at hregister
      exact (hk (r.register other) other.value hr m').of_eq hregister (bind_ok hy)
    · rw [if_pos hstops, hsame] at hregister
      exact .record hregister (bind_error hy) h

theorem handOn (hx : Follows x y) :
    Follows (Eval.registering .blank x fun _ v => pure (.success v)) y := by
  have h := registering hx (show Record.blank.value = .absent from rfl) fun _ v _ => success v
  rwa [bind_pure] at h

theorem registeringOr {z : Option Node} {f : Node → Eval Record} {g : Option Node → Eval Value}
    (hf : ∀ n, Follows (f n) (g (some n))) (hnone : Mute (g none)) (hr : r.value = .absent)
    (hk : ∀ r v, r.value = .absent → Follows (k r v) (k' v)) :
    Follows (registeringOr r (z.map f) (g none) k) (g z >>= k') := by
  cases z with
  | none => exact bind hnone fun v => hk r v hr
  | some n => exact registering (hf n) hr hk

/-- Behind a round both sides go on in the same way, or the loop is left. -/
theorem round {again : Record → Option Value → Eval Record} {leave : Eval Record}
    (hx : Follows x y) (hr : r.value = .absent)
    (hvalue : ∀ r v, r.value = .absent → Follows (again r (some v)) (after (.ok v)))
    (hcontinued : ∀ r, r.value = .absent → Follows (again r none) (after (.error .continued)))
    (hbroke : Follows leave (after (.error .broke)))
    (hstop : ∀ stop : Stop, ¬ stop.ForLoop → after (.error stop) = throw stop) :
    Follows (registeringRound r x again leave) (outcome y >>= after) := by
  intro m
  cases hx m with
  | fault hx hy => exact .fault (bind_error hx) (by rw [outcome_bind hy, hstop _ id]; rfl)
  | @record other e m' hx hy h =>
    have houtcome : (outcome y >>= after) m = after e m' := outcome_bind hy
    have hregister := registeringRound_eq (r := r) again leave hx
    cases h with
    | value v => exact (hvalue (r.register (.success v)) v hr m').of_eq hregister houtcome
    | @nothing v hv =>
      refine (hvalue (r.register (.leaving v)) .absent hr m').of_eq (hregister.trans ?_) houtcome
      simp [Record.interrupts, Record.register, Record.leaving, Record.blank, hv]
    | error d =>
      rw [Record.register_eq hr] at hregister
      rw [hstop _ id] at houtcome
      exact .record hregister houtcome (.error d)
    | @returned v hv =>
      rw [Record.register_eq hr, if_pos] at hregister
      · rw [hstop _ id] at houtcome
        exact .record hregister houtcome (.returned hv)
      · simp [Record.interrupts, Record.leaving, Record.blank, hv]
    | continued => exact (hcontinued (r.register .continuing) hr m').of_eq hregister houtcome
    | broke => exact (hbroke m').of_eq hregister houtcome

/-- The body of a function takes a return, and passes errors and signals for loops on. -/
theorem body (hx : Follows x y) (isExpression : Bool)
    (hvalue : ∀ v, after (.ok v) = functionResult isExpression v)
    (hreturned : ∀ v, after (.error (.returned v)) = pure v)
    (hstop : ∀ stop : Stop, (∀ v, stop ≠ .returned v) → after (.error stop) = throw stop) :
    Follows (concludeBody isExpression x) (outcome y >>= after) := by
  intro m
  cases hx m with
  | fault hx hy => exact .fault (bind_error hx) (by rw [outcome_bind hy, hstop _ (by simp)]; rfl)
  | @record other e m' hx hy h =>
    have houtcome : (outcome y >>= after) m = after e m' := outcome_bind hy
    have habsent : m'.store.isSomething .absent = false := rfl
    cases h with
    | value v =>
      rw [hvalue, functionResult_eq] at houtcome
      have hbody := concludeBody_eq (r := .blank) isExpression hx rfl
      refine .record (hbody.trans ?_) houtcome (.value _)
      rw [apply_ite Record.success]
      rfl
    | @nothing v hv =>
      rw [hvalue, functionResult_eq] at houtcome
      have hbody := concludeBody_eq (r := .leaving v) isExpression hx rfl
      refine .record (hbody.trans ?_) houtcome (.value _)
      simp [Record.interrupts, Record.leaving, Record.blank, habsent, hv]
    | @returned v hv =>
      rw [hreturned] at houtcome
      have hbody := concludeBody_eq (r := .leaving v) isExpression hx rfl
      refine .record (hbody.trans ?_) houtcome (.value _)
      have hne : v ≠ .absent := by
        rintro rfl
        cases hv
      simp [Record.interrupts, Record.leaving, Record.blank, habsent, hv, hne]
    | error d =>
      rw [hstop _ (by simp)] at houtcome
      exact .record (concludeBody_eq isExpression hx rfl) houtcome (.error d)
    | continued =>
      rw [hstop _ (by simp)] at houtcome
      exact .record (concludeBody_eq isExpression hx rfl) houtcome .continued
    | broke =>
      rw [hstop _ (by simp)] at houtcome
      exact .record (concludeBody_eq isExpression hx rfl) houtcome .broke

theorem settle (h : Follows x y) : settleRecord x = settle y := by
  funext m
  cases h m with
  | @fault f m' hx hy =>
    rw [settleRecord, bind_ok (outcome_apply _ m), bind_error hx, Eval.settle,
      bind_ok (outcome_apply _ m), bind_error hy]
    cases f <;> rfl
  | @record r e m' hx hy h =>
    have hvalue (hr : r.value = .absent) (k : Value → Eval (Except Diagnostic Value)) :
        (programValue r.value >>= k) m' = k .absent m' := by
      rw [hr, bind_ok (programValue_absent m')]
    rw [settleRecord, bind_ok (outcome_apply _ m), bind_ok hx, Eval.settle,
      bind_ok (outcome_apply _ m)]
    cases h with
    | value v =>
      rw [bind_ok hy]
      rcases hv : programValue v m' with ⟨stop | w, m''⟩
      · cases stop with
        | fault f =>
          rw [show (programValue (Record.success v).value >>= _) m' = _ from bind_error hv]
          cases f <;> rfl
        | _ => exact ((modest_programValue v).mute.stop hv).elim
      · rw [show (programValue (Record.success v).value >>= _) m' = _ from bind_ok hv]
        rfl
    | nothing =>
      rw [hvalue rfl, bind_ok hy, programValue_absent]
      rfl
    | _ =>
      rw [hvalue rfl, bind_error hy]
      rfl

end Follows

end

namespace Eval

structure Recorded (fuel : Nat) : Prop where
  visit : ∀ depth context node,
    Follows (visit fuel depth context node) (eval fuel depth context node)
  visitAll : ∀ depth context (r : Record) nodes k k', r.value = .absent →
    (∀ r vs, r.value = .absent → Follows (k r vs) (k' vs)) →
    Follows (visitAll fuel depth context r nodes k) (evalAll fuel depth context nodes >>= k')
  visitCases : ∀ depth context (r : Record) cases fallback, r.value = .absent →
    Follows (visitCases fuel depth context r cases fallback)
      (evalCases fuel depth context cases fallback)
  visitFor : ∀ depth context (r : Record) name i by_ up last body done k k', r.value = .absent →
    (∀ vs, Follows (k vs) (k' vs)) →
    Follows (visitFor fuel depth context r name i by_ up last body done k)
      (repeatFor fuel depth context name i by_ up last body done >>= k')
  visitWhile : ∀ depth context (r : Record) condition body done k k', r.value = .absent →
    (∀ vs, Follows (k vs) (k' vs)) →
    Follows (visitWhile fuel depth context r condition body done k)
      (repeatWhile fuel depth context condition body done >>= k')
  execute : ∀ depth ref args, Follows (execute fuel depth ref args) (call fuel depth ref args)
  executeFile : ∀ depth c file,
    Follows (executeFile fuel depth c file) (runFile fuel depth c file)
  runRecord : ∀ depth source, runRecord fuel depth source = runText fuel depth source
  importRecord : ∀ depth path, importRecord fuel depth path = importText fuel depth path

theorem tame_loopValue (vs : List Value) (span : Span) (context : Context) (block : Bool) :
    Tame (if block then pure nullValue else listAt vs span context) := by
  split
  · exact .pure _
  · exact (plain_listAt vs span context).tame

namespace Recorded

theorem zero : Recorded 0 := by
  constructor
  case runRecord | importRecord =>
    intros
    simp only [Eval.runRecord, Eval.runText, Eval.importRecord, Eval.importText]
  all_goals
    intros
    simp only [Eval.visit, Eval.visitAll, Eval.visitCases, Eval.visitFor, Eval.visitWhile,
      Eval.execute, Eval.executeFile, Eval.eval, Eval.evalAll, Eval.evalCases, Eval.repeatFor,
      Eval.repeatWhile, Eval.call, Eval.runFile, fault_bind]
    exact .fault _

variable {n : Nat} (ih : Recorded n)

include ih

theorem visitAll_succ (depth : Nat) (context : Context) (r : Record) (nodes : List Node)
    (k : Record → List Value → Eval Record) (k' : List Value → Eval Value) (hr : r.value = .absent)
    (hk : ∀ r vs, r.value = .absent → Follows (k r vs) (k' vs)) :
    Follows (Eval.visitAll (n + 1) depth context r nodes k)
      (Eval.evalAll (n + 1) depth context nodes >>= k') := by
  cases nodes with
  | nil =>
    rw [Eval.visitAll, Eval.evalAll, pure_bind]
    exact hk r [] hr
  | cons node nodes =>
    simp only [Eval.visitAll, Eval.evalAll, bind_assoc, pure_bind]
    apply Follows.registering (ih.visit depth context node) hr
    intro r v hr
    exact ih.visitAll depth context r nodes _ _ hr fun r vs hr => hk r (v :: vs) hr

theorem visitCases_succ (depth : Nat) (context : Context) (r : Record)
    (cases : List (Node × Node × Bool)) (fallback : Option (Node × Bool)) (hr : r.value = .absent) :
    Follows (Eval.visitCases (n + 1) depth context r cases fallback)
      (Eval.evalCases (n + 1) depth context cases fallback) := by
  rcases cases with _ | ⟨⟨condition, body, block⟩, rest⟩
  · rcases fallback with _ | ⟨body, block⟩
    · rw [Eval.visitCases, Eval.evalCases]
      exact .success _
    · rw [Eval.visitCases, Eval.evalCases]
      exact .registering (ih.visit depth context body) hr fun _ v _ => .success _
  · rw [Eval.visitCases, Eval.evalCases]
    apply Follows.registering (ih.visit depth context condition) hr
    intro r c hr
    apply Follows.bind (Modest.isTrue c).mute
    intro holds
    split
    · exact .registering (ih.visit depth context body) hr fun _ v _ => .success _
    · exact ih.visitCases depth context r rest fallback hr

theorem visitFor_succ (depth : Nat) (context : Context) (r : Record) (name : String)
    (i by_ : Number) (up : Bool) (last : Value) (body : Node) (done : List Value)
    (k : List Value → Eval Record) (k' : List Value → Eval Value) (hr : r.value = .absent)
    (hk : ∀ vs, Follows (k vs) (k' vs)) :
    Follows (Eval.visitFor (n + 1) depth context r name i by_ up last body done k)
      (Eval.repeatFor (n + 1) depth context name i by_ up last body done >>= k') := by
  rw [Eval.visitFor, Eval.repeatFor, bind_assoc]
  apply Follows.bind (mute_startRound context name i by_ up last)
  intro next?
  cases next? with
  | none => exact hk _
  | some next =>
    rw [bind_assoc]
    apply Follows.round (ih.visit depth context body) hr
    · intro r v hr
      exact ih.visitFor depth context r name next by_ up last body (v :: done) k k' hr hk
    · intro r hr
      exact ih.visitFor depth context r name next by_ up last body done k k' hr hk
    · exact hk _
    · intro stop hstop
      cases stop with
      | continued | broke => exact (hstop trivial).elim
      | _ => rfl

theorem visitWhile_succ (depth : Nat) (context : Context) (r : Record) (condition body : Node)
    (done : List Value) (k : List Value → Eval Record) (k' : List Value → Eval Value)
    (hr : r.value = .absent) (hk : ∀ vs, Follows (k vs) (k' vs)) :
    Follows (Eval.visitWhile (n + 1) depth context r condition body done k)
      (Eval.repeatWhile (n + 1) depth context condition body done >>= k') := by
  rw [Eval.visitWhile, Eval.repeatWhile, bind_assoc]
  apply Follows.registering (ih.visit depth context condition) hr
  intro r c hr
  rw [bind_assoc]
  apply Follows.bind (Modest.isTrue c).mute
  intro holds
  cases holds with
  | false => exact hk _
  | true =>
    simp only [if_true, bind_assoc]
    apply Follows.round (ih.visit depth context body) hr
    · intro r v hr
      exact ih.visitWhile depth context r condition body (v :: done) k k' hr hk
    · intro r hr
      exact ih.visitWhile depth context r condition body done k k' hr hk
    · exact hk _
    · intro stop hstop
      cases stop with
      | continued | broke => exact (hstop trivial).elim
      | _ => rfl

theorem execute_succ (depth : Nat) (ref : ObjectRef) (args : List Value) :
    Follows (Eval.execute (n + 1) depth ref args) (Eval.call (n + 1) depth ref args) := by
  cases depth with
  | zero =>
    rw [Eval.execute, Eval.call]
    · exact .fault _
    · simp
    · simp
  | succ depth =>
    rw [Eval.execute, Eval.call]
    apply Follows.bind (Obeys.object ref)
    intro callee
    cases callee.payload with
    | function name params body isExpression =>
      apply Follows.settling (reports_enterFunction ref callee name params args).tame
      intro context
      apply Follows.body (ih.visit depth context body) isExpression
      · exact fun _ => rfl
      · exact fun _ => rfl
      · intro stop hstop
        cases stop with
        | returned v => exact (hstop v rfl).elim
        | _ => rfl
    | builtin name =>
      apply Follows.bind (mute_callContext callee name)
      intro context
      dsimp only
      cases Builtin.ofName? name with
      | none => exact .fault _
      | some b =>
        dsimp only
        have henter : Tame (do
            checkCount ref callee b.params args
            bindArgs context b.params args) :=
          (plain_checkCount ref callee b.params args).tame.bind fun _ =>
            (mute_bindArgs context b.params args).tame
        rw [← bind_assoc]
        apply Follows.settling henter
        intro refs
        apply Follows.handOn
        have hperform := (BuiltinCall.modest_perform ⟨callee, context⟩ b refs).plain.tame
        cases b with
        | run =>
          rcases refs with _ | ⟨file, _ | ⟨other, rest⟩⟩
          · exact .conclude hperform
          · exact ih.executeFile depth _ file
          · exact .conclude hperform
        | _ => exact .conclude hperform
    | _ => exact .conclude (Operator.modest_unknown ref _).plain.tame

theorem executeFile_succ (depth : Nat) (c : BuiltinCall) (file : ObjectRef) :
    Follows (Eval.executeFile (n + 1) depth c file) (Eval.runFile (n + 1) depth c file) := by
  rw [Eval.executeFile, Eval.runFile]
  apply Follows.settling (c.civil_textArg file _).modest.plain.tame
  intro path
  apply Follows.bind Obeys.world
  intro w
  cases w.readText path with
  | error e => exact .conclude (c.modest_fail _).plain.tame
  | ok text =>
    dsimp only
    rw [ih.runRecord]
    apply Follows.bind ((disciplined n).runText depth _)
    intro ending
    cases ending with
    | ok v => exact .success _
    | error d =>
      dsimp only
      cases d.message? with
      | none => exact .fault _
      | some message => exact .conclude (c.modest_fail _).plain.tame

theorem runRecord_succ (depth : Nat) (source : Source) :
    Eval.runRecord (n + 1) depth source = Eval.runText (n + 1) depth source := by
  cases depth with
  | zero =>
    rw [Eval.runRecord, Eval.runText]
    · simp
    · simp
  | succ depth =>
    rw [Eval.runRecord, Eval.runText]
    apply bind_congr
    intro tree?
    cases tree? with
    | error d => rfl
    | ok tree => simp only [(ih.visit depth _ tree).settle]

theorem importRecord_succ (depth : Nat) (path : String) :
    Eval.importRecord (n + 1) depth path = Eval.importText (n + 1) depth path := by
  cases depth with
  | zero =>
    rw [Eval.importRecord, Eval.importText]
    · simp
    · simp
  | succ depth =>
    rw [Eval.importRecord, Eval.importText]
    apply bind_congr
    intro text
    apply bind_congr
    intro tree?
    cases tree? with
    | error d => rfl
    | ok tree => simp only [(ih.visit depth _ tree).settle]

theorem visitOperand (depth : Nat) (context : Context) (value : Option Node)
    (k : Value → Eval Record) (k' : Value → Eval Value) (hk : ∀ v, Follows (k v) (k' v)) :
    Follows (registeringOr .blank (value.map (Eval.visit n depth context)) (pure nullValue)
        fun _ v => k v)
      (operandValue n depth context value >>= k') := by
  have hoperand : ∀ e,
      Follows (Eval.visit n depth context e) (operandValue n depth context (some e)) :=
    ih.visit depth context
  exact .registeringOr hoperand (.pure _) rfl fun _ v _ => hk v

theorem visit_succ (depth : Nat) (context : Context) (node : Node) :
    Follows (Eval.visit (n + 1) depth context node) (Eval.eval (n + 1) depth context node) := by
  cases node with
  | number span v =>
    cases v <;> (rw [Eval.visit, Eval.eval]; exact .conclude (plain_allocateAt _ span context).tame)
  | text span s =>
    rw [Eval.visit, Eval.eval]
    exact .conclude (plain_allocateAt _ span context).tame
  | list span items =>
    rw [Eval.visit, Eval.eval]
    exact ih.visitAll depth context .blank items _ _ rfl fun _ vs _ =>
      .conclude (plain_listAt vs span context).tame
  | access span name =>
    rw [Eval.visit, Eval.eval]
    exact .conclude (plain_access context span name).tame
  | assign span name value =>
    rw [Eval.visit, Eval.eval]
    apply Follows.registering (ih.visit depth context value) rfl
    intro _ v _
    apply Follows.bind (mute_bind _ _ _)
    intro _
    exact .bind (mute_bind _ _ _) fun _ => .success v
  | binary span op left right =>
    rw [Eval.visit, Eval.eval]
    apply Follows.registering (ih.visit depth context left) rfl
    intro r l hr
    apply Follows.registering (ih.visit depth context right) hr
    exact fun _ v _ => .conclude (plain_binary op span l v).tame
  | unary span op arg =>
    rw [Eval.visit, Eval.eval]
    apply Follows.registering (ih.visit depth context arg) rfl
    exact fun _ v _ => .conclude (plain_unary op span v).tame
  | branch span cases fallback =>
    rw [Eval.visit, Eval.eval]
    exact ih.visitCases depth context .blank cases fallback rfl
  | forLoop span name first last step body block =>
    rw [Eval.visit, eval_forLoop]
    apply Follows.registering (ih.visit depth context first) rfl
    intro r first hr
    apply Follows.registering (ih.visit depth context last) hr
    intro r last hr
    have hstep : ∀ s, Follows (Eval.visit n depth context s) (stepValue n depth context (some s)) :=
      ih.visit depth context
    apply Follows.registeringOr hstep (BuiltinCall.modest_number _).mute hr
    intro r step hr
    apply Follows.bind (modest_loopStart first step).mute
    rintro ⟨i, by_, up⟩
    apply ih.visitFor depth context r name i by_ up last body [] _ _ hr
    exact fun vs => .conclude (tame_loopValue vs span context block)
  | whileLoop span condition body block =>
    rw [Eval.visit, Eval.eval]
    apply ih.visitWhile depth context .blank condition body [] _ _ rfl
    exact fun vs => .conclude (tame_loopValue vs span context block)
  | function span name params body isExpression =>
    rw [Eval.visit, Eval.eval]
    apply Follows.bind (within_allocateAt _ span context).reports
    intro f
    cases name with
    | none => exact .success f
    | some name => exact .bind (mute_bind _ _ _) fun _ => .success f
  | call span callee args =>
    rw [Eval.visit, Eval.eval]
    apply Follows.registering (ih.visit depth context callee) rfl
    intro r v hr
    apply Follows.bind (modest_calleeAt span v).mute
    intro f
    apply ih.visitAll depth context r args _ _ hr
    intro r vs hr
    apply Follows.registering (ih.execute depth f vs) hr
    exact fun _ w _ => .conclude (plain_resultAt span context w).tame
  | ret span value =>
    rw [Eval.visit, eval_ret]
    exact ih.visitOperand depth context value _ _ .leaving
  | think span value =>
    rw [Eval.visit, eval_think]
    apply ih.visitOperand depth context value
    intro v
    apply Follows.bind (modest_askModel v).mute
    intro code
    rw [ih.runRecord]
    exact .bind ((disciplined n).runText depth _) fun _ => .success _
  | importFile span path =>
    rw [Eval.visit, Eval.eval]
    apply Follows.settling (plain_importFile context span path).tame
    intro file
    rw [ih.importRecord]
    apply Follows.bind ((disciplined n).importText depth file)
    intro ending
    cases ending with
    | ok v => exact .success v
    | error d => exact fun _ => .record rfl rfl (.error d)
  | continueLoop span =>
    rw [Eval.visit, Eval.eval]
    exact fun _ => .record rfl rfl .continued
  | breakLoop span =>
    rw [Eval.visit, Eval.eval]
    exact fun _ => .record rfl rfl .broke

theorem succ : Recorded (n + 1) where
  visit := ih.visit_succ
  visitAll := ih.visitAll_succ
  visitCases := ih.visitCases_succ
  visitFor := ih.visitFor_succ
  visitWhile := ih.visitWhile_succ
  execute := ih.execute_succ
  executeFile := ih.executeFile_succ
  runRecord := ih.runRecord_succ
  importRecord := ih.importRecord_succ

end Recorded

theorem recorded (fuel : Nat) : Recorded fuel := by
  induction fuel with
  | zero => exact .zero
  | succ n ih => exact ih.succ

/-- The evaluation has a fault or ends with a record that is exclusive. -/
def KeepsExclusive (x : Eval Record) : Prop :=
  ∀ m, (∃ f m', x m = (.error (.fault f), m')) ∨ ∃ r m', x m = (.ok r, m') ∧ r.Exclusive

theorem keepsExclusive_of_follows {x : Eval Record} {y : Eval Value} (h : Follows x y) :
    KeepsExclusive x := by
  intro m
  cases h m with
  | fault hx => exact .inl ⟨_, _, hx⟩
  | record hx _ h => exact .inr ⟨_, _, hx, h.exclusive⟩

/-- Every record that a node or a call leaves is exclusive, and tells how its evaluation ends. -/
theorem records_exclusive (fuel depth : Nat) :
    (∀ context node, KeepsExclusive (visit fuel depth context node) ∧
      (visit fuel depth context node >>= Record.answer) = eval fuel depth context node) ∧
    ∀ callee args, KeepsExclusive (execute fuel depth callee args) ∧
      (execute fuel depth callee args >>= Record.answer) = call fuel depth callee args := by
  constructor
  · intro context node
    have h := (recorded fuel).visit depth context node
    exact ⟨keepsExclusive_of_follows h, h.answer_eq⟩
  · intro callee args
    have h := (recorded fuel).execute depth callee args
    exact ⟨keepsExclusive_of_follows h, h.answer_eq⟩

end Eval

end Think
