import Think.Proofs.Eval.Signals

/-! # Where an evaluation gets to

An activation evaluates trees inside trees, all in one context. A point is such a part with the fuel
and the machine that it starts with. A stop at a point that another one enters is a stop there too,
unless a loop takes it. So every stop that is not a fault has an origin.
-/

namespace Think.Eval

open BuiltinCall (nullValue)

/-- What an activation can be about to evaluate. -/
inductive Task
  | node (n : Node)
  | all (ns : List Node)
  | cases (cs : List (Node × Node × Bool)) (fallback : Option (Node × Bool))
  | forRounds (name : String) (i by_ : Number) (up : Bool) (last : Value) (body : Node)
    (done : List Value)
  | whileRounds (condition body : Node) (done : List Value)

structure Point where
  task : Task
  fuel : Nat
  machine : Machine

def Point.StopsWith (depth : Nat) (context : Context) (p : Point) (e : Stop) (m : Machine) : Prop :=
  match p.task with
  | .node n => eval p.fuel depth context n p.machine = (.error e, m)
  | .all ns => evalAll p.fuel depth context ns p.machine = (.error e, m)
  | .cases cs fallback => evalCases p.fuel depth context cs fallback p.machine = (.error e, m)
  | .forRounds name i by_ up last body done =>
    repeatFor p.fuel depth context name i by_ up last body done p.machine = (.error e, m)
  | .whileRounds condition body done =>
    repeatWhile p.fuel depth context condition body done p.machine = (.error e, m)

/-- The step of a loop as it is evaluated: one, if none is given. -/
def stepValue (fuel depth : Nat) (context : Context) : Option Node → Eval Value
  | some s => eval fuel depth context s
  | none => make (.number (.int 1))

/-- Evaluation at one point gets to another, right inside it. -/
inductive Enters (depth : Nat) (context : Context) : Point → Point → Prop
  | list {fuel m span items} :
    Enters depth context ⟨.node (.list span items), fuel + 1, m⟩ ⟨.all items, fuel, m⟩
  | first {fuel m n ns} :
    Enters depth context ⟨.all (n :: ns), fuel + 1, m⟩ ⟨.node n, fuel, m⟩
  | next {fuel m n ns v m'} (hn : eval fuel depth context n m = (.ok v, m')) :
    Enters depth context ⟨.all (n :: ns), fuel + 1, m⟩ ⟨.all ns, fuel, m'⟩
  | assign {fuel m span name value} :
    Enters depth context ⟨.node (.assign span name value), fuel + 1, m⟩ ⟨.node value, fuel, m⟩
  | left {fuel m span op l r} :
    Enters depth context ⟨.node (.binary span op l r), fuel + 1, m⟩ ⟨.node l, fuel, m⟩
  | right {fuel m span op l r v m'} (hl : eval fuel depth context l m = (.ok v, m')) :
    Enters depth context ⟨.node (.binary span op l r), fuel + 1, m⟩ ⟨.node r, fuel, m'⟩
  | operand {fuel m span op arg} :
    Enters depth context ⟨.node (.unary span op arg), fuel + 1, m⟩ ⟨.node arg, fuel, m⟩
  | branch {fuel m span cs fallback} :
    Enters depth context ⟨.node (.branch span cs fallback), fuel + 1, m⟩
      ⟨.cases cs fallback, fuel, m⟩
  | condition {fuel m c b k cs fallback} :
    Enters depth context ⟨.cases ((c, b, k) :: cs) fallback, fuel + 1, m⟩ ⟨.node c, fuel, m⟩
  | consequence {fuel m c b k cs fallback v m' m''} (hc : eval fuel depth context c m = (.ok v, m'))
    (ht : isTrue v m' = (.ok true, m'')) :
    Enters depth context ⟨.cases ((c, b, k) :: cs) fallback, fuel + 1, m⟩ ⟨.node b, fuel, m''⟩
  | otherCases {fuel m c b k cs fallback v m' m''} (hc : eval fuel depth context c m = (.ok v, m'))
    (ht : isTrue v m' = (.ok false, m'')) :
    Enters depth context ⟨.cases ((c, b, k) :: cs) fallback, fuel + 1, m⟩
      ⟨.cases cs fallback, fuel, m''⟩
  | fallback {fuel m b k} :
    Enters depth context ⟨.cases [] (some (b, k)), fuel + 1, m⟩ ⟨.node b, fuel, m⟩
  | forFirst {fuel m span name x y z b k} :
    Enters depth context ⟨.node (.forLoop span name x y z b k), fuel + 1, m⟩ ⟨.node x, fuel, m⟩
  | forLast {fuel m span name x y z b k v m'} (hx : eval fuel depth context x m = (.ok v, m')) :
    Enters depth context ⟨.node (.forLoop span name x y z b k), fuel + 1, m⟩ ⟨.node y, fuel, m'⟩
  | forStep {fuel m span name x y z b k v m' v' m''}
    (hx : eval fuel depth context x m = (.ok v, m'))
    (hy : eval fuel depth context y m' = (.ok v', m'')) :
    Enters depth context ⟨.node (.forLoop span name x y (some z) b k), fuel + 1, m⟩
      ⟨.node z, fuel, m''⟩
  | forRounds {fuel m span name x y z b k first m₁ last m₂ step m₃ i by_ up m₄}
    (hx : eval fuel depth context x m = (.ok first, m₁))
    (hy : eval fuel depth context y m₁ = (.ok last, m₂))
    (hz : stepValue fuel depth context z m₂ = (.ok step, m₃))
    (hs : loopStart first step m₃ = (.ok (i, by_, up), m₄)) :
    Enters depth context ⟨.node (.forLoop span name x y z b k), fuel + 1, m⟩
      ⟨.forRounds name i by_ up last b [], fuel, m₄⟩
  | forBody {fuel m name i by_ up last b done next m'}
    (hr : startRound context name i by_ up last m = (.ok (some next), m')) :
    Enters depth context ⟨.forRounds name i by_ up last b done, fuel + 1, m⟩ ⟨.node b, fuel, m'⟩
  | forNext {fuel m name i by_ up last b done next m' v m''}
    (hr : startRound context name i by_ up last m = (.ok (some next), m'))
    (hb : eval fuel depth context b m' = (.ok v, m'')) :
    Enters depth context ⟨.forRounds name i by_ up last b done, fuel + 1, m⟩
      ⟨.forRounds name next by_ up last b (v :: done), fuel, m''⟩
  | forContinue {fuel m name i by_ up last b done next m' m''}
    (hr : startRound context name i by_ up last m = (.ok (some next), m'))
    (hb : eval fuel depth context b m' = (.error .continued, m'')) :
    Enters depth context ⟨.forRounds name i by_ up last b done, fuel + 1, m⟩
      ⟨.forRounds name next by_ up last b done, fuel, m''⟩
  | whileRounds {fuel m span c b k} :
    Enters depth context ⟨.node (.whileLoop span c b k), fuel + 1, m⟩ ⟨.whileRounds c b [], fuel, m⟩
  | whileCondition {fuel m c b done} :
    Enters depth context ⟨.whileRounds c b done, fuel + 1, m⟩ ⟨.node c, fuel, m⟩
  | whileBody {fuel m c b done v m' m''} (hc : eval fuel depth context c m = (.ok v, m'))
    (ht : isTrue v m' = (.ok true, m'')) :
    Enters depth context ⟨.whileRounds c b done, fuel + 1, m⟩ ⟨.node b, fuel, m''⟩
  | whileNext {fuel m c b done v m' m'' w m₃} (hc : eval fuel depth context c m = (.ok v, m'))
    (ht : isTrue v m' = (.ok true, m'')) (hb : eval fuel depth context b m'' = (.ok w, m₃)) :
    Enters depth context ⟨.whileRounds c b done, fuel + 1, m⟩
      ⟨.whileRounds c b (w :: done), fuel, m₃⟩
  | whileContinue {fuel m c b done v m' m'' m₃} (hc : eval fuel depth context c m = (.ok v, m'))
    (ht : isTrue v m' = (.ok true, m''))
    (hb : eval fuel depth context b m'' = (.error .continued, m₃)) :
    Enters depth context ⟨.whileRounds c b done, fuel + 1, m⟩ ⟨.whileRounds c b done, fuel, m₃⟩
  | callee {fuel m span f args} :
    Enters depth context ⟨.node (.call span f args), fuel + 1, m⟩ ⟨.node f, fuel, m⟩
  | args {fuel m span f args v m' r m''} (hf : eval fuel depth context f m = (.ok v, m'))
    (hr : calleeAt span v m' = (.ok r, m'')) :
    Enters depth context ⟨.node (.call span f args), fuel + 1, m⟩ ⟨.all args, fuel, m''⟩
  | returned {fuel m span e} :
    Enters depth context ⟨.node (.ret span (some e)), fuel + 1, m⟩ ⟨.node e, fuel, m⟩
  | thought {fuel m span e} :
    Enters depth context ⟨.node (.think span (some e)), fuel + 1, m⟩ ⟨.node e, fuel, m⟩

/-- The operand of a return as it is evaluated: null, if none is given. -/
def operandValue (fuel depth : Nat) (context : Context) : Option Node → Eval Value
  | some e => eval fuel depth context e
  | none => pure nullValue

theorem eval_ret (fuel depth : Nat) (context : Context) (span : Span) (value : Option Node) :
    eval (fuel + 1) depth context (.ret span value) =
      operandValue fuel depth context value >>= returnValue := by
  cases value <;> (rw [eval]; rfl)

theorem eval_think (fuel depth : Nat) (context : Context) (span : Span) (value : Option Node) :
    eval (fuel + 1) depth context (.think span value) = (do
      let v ← operandValue fuel depth context value
      let code ← askModel v
      let _ ← runText fuel depth ⟨"<stdin>", code⟩
      return .bare code) := by
  cases value <;> (rw [eval]; rfl)

theorem eval_forLoop (fuel depth : Nat) (context : Context) (span : Span) (name : String)
    (x y : Node) (z : Option Node) (b : Node) (k : Bool) :
    eval (fuel + 1) depth context (.forLoop span name x y z b k) = (do
      let first ← eval fuel depth context x
      let last ← eval fuel depth context y
      let step ← stepValue fuel depth context z
      let (i, by_, up) ← loopStart first step
      let vs ← repeatFor fuel depth context name i by_ up last b []
      if k then return nullValue else listAt vs span context) := by
  rw [eval]
  cases z <;> rfl

def Task.IsRounds : Task → Prop
  | .forRounds _ _ _ _ _ _ _ | .whileRounds _ _ _ => True
  | _ => False

/-- Evaluation at one point gets to another, and a stop with `e` there is a stop of its own. A loop
takes the signals that are meant for it from its body, but not from its condition. -/
inductive Passes (e : Stop) (depth : Nat) (context : Context) : Point → Point → Prop
  | enters {p q} (h : Enters depth context p q)
    (hbody : e.ForLoop → p.task.IsRounds → q.task.IsRounds) : Passes e depth context p q
  | condition {fuel m c b done} :
    Passes e depth context ⟨.whileRounds c b done, fuel + 1, m⟩ ⟨.node c, fuel, m⟩

section

variable {depth : Nat} {context : Context} {fuel : Nat} {e : Stop} {v : Value} {m m' : Machine}
  {p q : Point}

theorem Passes.straight (h : Enters depth context p q) (hp : ¬ p.task.IsRounds) :
    Passes e depth context p q := .enters h fun _ hrounds => absurd hrounds hp

theorem Passes.toEnters (h : Passes e depth context p q) : Enters depth context p q := by
  cases h with
  | enters h => exact h
  | condition => exact .whileCondition

theorem Enters.fuel_lt (h : Enters depth context p q) : q.fuel < p.fuel := by
  cases h <;> exact Nat.lt_succ_self _

theorem repeatFor_body {name : String} {i by_ : Number} {up : Bool} {last : Value} {b : Node}
    {done : List Value} {next : Number} {m₁ : Machine}
    (hr : startRound context name i by_ up last m = (.ok (some next), m₁))
    (hb : eval fuel depth context b m₁ = (.error e, m')) (he : ¬ e.ForLoop) :
    repeatFor (fuel + 1) depth context name i by_ up last b done m = (.error e, m') := by
  rw [repeatFor]
  refine (bind_ok hr).trans ?_
  dsimp only
  rw [bind_ok (outcome_apply _ _), hb]
  cases e with
  | continued | broke => exact absurd trivial he
  | _ => rfl

theorem repeatWhile_body {c b : Node} {done : List Value} {m₁ m₂ : Machine}
    (hc : eval fuel depth context c m = (.ok v, m₁)) (ht : isTrue v m₁ = (.ok true, m₂))
    (hb : eval fuel depth context b m₂ = (.error e, m')) (he : ¬ e.ForLoop) :
    repeatWhile (fuel + 1) depth context c b done m = (.error e, m') := by
  rw [repeatWhile]
  refine (bind_ok hc).trans ((bind_ok ht).trans ?_)
  rw [if_pos rfl, bind_ok (outcome_apply _ _), hb]
  cases e with
  | continued | broke => exact absurd trivial he
  | _ => rfl

/-- A stop that gets through leaves every point that evaluation has entered, as it is. -/
theorem Passes.stopsWith (h : Passes e depth context p q) (hq : q.StopsWith depth context e m) :
    p.StopsWith depth context e m := by
  cases h with
  | condition =>
    dsimp only [Point.StopsWith] at hq ⊢
    rw [repeatWhile]
    exact bind_error hq
  | enters h hbody =>
    cases h <;> dsimp only [Point.StopsWith] at hq ⊢
    case list | assign | left | operand | callee | returned | thought | whileRounds =>
      rw [eval]
      exact bind_error hq
    case branch => rwa [eval]
    case right hl =>
      rw [eval]
      exact (bind_ok hl).trans (bind_error hq)
    case first =>
      rw [evalAll]
      exact bind_error hq
    case next hn =>
      rw [evalAll]
      exact (bind_ok hn).trans (bind_error hq)
    case condition =>
      rw [evalCases]
      exact bind_error hq
    case consequence hc ht =>
      rw [evalCases]
      exact (bind_ok hc).trans ((bind_ok ht).trans (bind_error hq))
    case otherCases hc ht =>
      rw [evalCases]
      exact (bind_ok hc).trans ((bind_ok ht).trans hq)
    case fallback =>
      rw [evalCases]
      exact bind_error hq
    case forFirst =>
      rw [eval_forLoop]
      exact bind_error hq
    case forLast hx =>
      rw [eval_forLoop]
      exact (bind_ok hx).trans (bind_error hq)
    case forStep hx hy =>
      rw [eval_forLoop]
      exact (bind_ok hx).trans ((bind_ok hy).trans (bind_error hq))
    case forRounds hx hy hz hs =>
      rw [eval_forLoop]
      exact (bind_ok hx).trans ((bind_ok hy).trans ((bind_ok hz).trans ((bind_ok hs).trans
        (bind_error hq))))
    case forBody hr => exact repeatFor_body hr hq fun he => hbody he trivial
    case forNext hr hb | forContinue hr hb =>
      rw [repeatFor]
      refine (bind_ok hr).trans ?_
      dsimp only
      rw [bind_ok (outcome_apply _ _), hb]
      exact hq
    case whileCondition =>
      rw [repeatWhile]
      exact bind_error hq
    case whileBody hc ht => exact repeatWhile_body hc ht hq fun he => hbody he trivial
    case whileNext hc ht hb | whileContinue hc ht hb =>
      rw [repeatWhile]
      refine (bind_ok hc).trans ((bind_ok ht).trans ?_)
      rw [if_pos rfl, bind_ok (outcome_apply _ _), hb]
      exact hq
    case args hf hr =>
      rw [eval]
      exact (bind_ok hf).trans ((bind_ok hr).trans (bind_error hq))

def Point.Hands (depth : Nat) (context : Context) (p : Point) (e : Stop) (m : Machine) : Prop :=
  ∃ q, Passes e depth context p q ∧ q.StopsWith depth context e m

/-- The point stops with `e` when all that it has entered has ended: at a name, at an operator, in a
call, by leaving the function or the loop, or because of an import. -/
inductive Raises (depth : Nat) (context : Context) (e : Stop) (m' : Machine) : Point → Prop
  | access {fuel span name m} (h : access context span name m = (.error e, m')) :
    Raises depth context e m' ⟨.node (.access span name), fuel + 1, m⟩
  | binary {fuel span op x y m l m₁ r m₂} (hl : eval fuel depth context x m = (.ok l, m₁))
    (hr : eval fuel depth context y m₁ = (.ok r, m₂)) (h : binary op span l r m₂ = (.error e, m')) :
    Raises depth context e m' ⟨.node (.binary span op x y), fuel + 1, m⟩
  | unary {fuel span op x m v m₁} (hv : eval fuel depth context x m = (.ok v, m₁))
    (h : unary op span v m₁ = (.error e, m')) :
    Raises depth context e m' ⟨.node (.unary span op x), fuel + 1, m⟩
  | call {fuel span f args m v m₁ r m₂ vs m₃} (hf : eval fuel depth context f m = (.ok v, m₁))
    (hr : calleeAt span v m₁ = (.ok r, m₂))
    (hvs : evalAll fuel depth context args m₂ = (.ok vs, m₃))
    (h : call fuel depth r vs m₃ = (.error e, m')) :
    Raises depth context e m' ⟨.node (.call span f args), fuel + 1, m⟩
  | ret {fuel span value m v m₁} (hv : operandValue fuel depth context value m = (.ok v, m₁))
    (h : returnValue v m₁ = (.error e, m')) :
    Raises depth context e m' ⟨.node (.ret span value), fuel + 1, m⟩
  | notFound {fuel span path m} (h : importFile context span path m = (.error e, m')) :
    Raises depth context e m' ⟨.node (.importFile span path), fuel + 1, m⟩
  | imported {fuel span path m file m₁ d} (hf : importFile context span path m = (.ok file, m₁))
    (h : importText fuel depth file m₁ = (.ok (.error d), m')) (he : e = .error d) :
    Raises depth context e m' ⟨.node (.importFile span path), fuel + 1, m⟩
  | continueLoop {fuel span} (he : e = .continued) :
    Raises depth context e m' ⟨.node (.continueLoop span), fuel + 1, m'⟩
  | breakLoop {fuel span} (he : e = .broke) :
    Raises depth context e m' ⟨.node (.breakLoop span), fuel + 1, m'⟩

theorem Raises.stopsWith (h : Raises depth context e m p) : p.StopsWith depth context e m := by
  cases h <;> dsimp only [Point.StopsWith]
  case access h => rwa [eval]
  case binary hl hr h =>
    rw [eval]
    exact (bind_ok hl).trans ((bind_ok hr).trans h)
  case unary hv h =>
    rw [eval]
    exact (bind_ok hv).trans h
  case call hf hr hvs h =>
    rw [eval]
    exact (bind_ok hf).trans ((bind_ok hr).trans ((bind_ok hvs).trans (bind_error h)))
  case ret hv h =>
    rw [eval_ret]
    exact (bind_ok hv).trans h
  case notFound h =>
    rw [eval]
    exact bind_error h
  case imported hf h he =>
    rw [eval, he]
    exact (bind_ok hf).trans (bind_ok h)
  case continueLoop he =>
    rw [eval, he]
    rfl
  case breakLoop he =>
    rw [eval, he]
    rfl

variable (he : ∀ f, e ≠ .fault f)

include he

theorem hands_all {ns : List Node} (h : evalAll fuel depth context ns m = (.error e, m')) :
    (Point.mk (.all ns) fuel m).Hands depth context e m' := by
  match fuel, ns with
  | 0, ns =>
    rw [evalAll] at h
    cases h
    exact absurd rfl (he _)
  | fuel + 1, [] =>
    rw [evalAll] at h
    cases h
  | fuel + 1, n :: ns =>
    rw [evalAll] at h
    rcases bind_eq_error h with h | ⟨w, m₁, hn, h⟩
    · exact ⟨_, .straight .first id, h⟩
    · rcases bind_eq_error h with h | ⟨ws, m₂, _, h⟩
      · exact ⟨_, .straight (.next hn) id, h⟩
      · cases h

theorem hands_cases {cs : List (Node × Node × Bool)} {fallback : Option (Node × Bool)}
    (h : evalCases fuel depth context cs fallback m = (.error e, m')) :
    (Point.mk (.cases cs fallback) fuel m).Hands depth context e m' := by
  match fuel, cs, fallback with
  | 0, cs, fallback =>
    rw [evalCases] at h
    cases h
    exact absurd rfl (he _)
  | fuel + 1, [], none =>
    rw [evalCases] at h
    cases h
  | fuel + 1, [], some (b, k) =>
    rw [evalCases] at h
    rcases bind_eq_error h with h | ⟨w, m₁, _, h⟩
    · exact ⟨_, .straight .fallback id, h⟩
    · cases h
  | fuel + 1, (c, b, k) :: cs, fallback =>
    rw [evalCases] at h
    rcases bind_eq_error h with h | ⟨w, m₁, hc, h⟩
    · exact ⟨_, .straight .condition id, h⟩
    · rcases bind_eq_error h with h | ⟨holds, m₂, ht, h⟩
      · exact absurd h ((Modest.isTrue w).mute.not_stops he)
      · cases holds with
        | false => exact ⟨_, .straight (.otherCases hc ht) id, h⟩
        | true =>
          rcases bind_eq_error h with h | ⟨u, m₃, _, h⟩
          · exact ⟨_, .straight (.consequence hc ht) id, h⟩
          · cases h

theorem hands_forRounds {name : String} {i by_ : Number} {up : Bool} {last : Value} {b : Node}
    {done : List Value}
    (h : repeatFor fuel depth context name i by_ up last b done m = (.error e, m')) :
    (Point.mk (.forRounds name i by_ up last b done) fuel m).Hands depth context e m' := by
  cases fuel with
  | zero =>
    rw [repeatFor] at h
    cases h
    exact absurd rfl (he _)
  | succ fuel =>
    rw [repeatFor] at h
    rcases bind_eq_error h with h | ⟨next, m₁, hr, h⟩
    · exact absurd h ((mute_startRound context name i by_ up last).not_stops he)
    · cases next with
      | none => cases h
      | some next =>
        dsimp only at h
        rw [bind_ok (outcome_apply _ _)] at h
        rcases hb : eval fuel depth context b m₁ with ⟨e' | w, m₂⟩
        · rw [hb] at h
          cases e' with
          | continued => exact ⟨_, .enters (.forContinue hr hb) fun _ _ => trivial, h⟩
          | broke => cases h
          | fault | error | returned =>
            cases h
            exact ⟨_, .enters (.forBody hr) fun hloop => hloop.elim, hb⟩
        · rw [hb] at h
          exact ⟨_, .enters (.forNext hr hb) fun _ _ => trivial, h⟩

theorem hands_whileRounds {c b : Node} {done : List Value}
    (h : repeatWhile fuel depth context c b done m = (.error e, m')) :
    (Point.mk (.whileRounds c b done) fuel m).Hands depth context e m' := by
  cases fuel with
  | zero =>
    rw [repeatWhile] at h
    cases h
    exact absurd rfl (he _)
  | succ fuel =>
    rw [repeatWhile] at h
    rcases bind_eq_error h with h | ⟨w, m₁, hc, h⟩
    · exact ⟨_, .condition, h⟩
    · rcases bind_eq_error h with h | ⟨holds, m₂, ht, h⟩
      · exact absurd h ((Modest.isTrue w).mute.not_stops he)
      · cases holds with
        | false => cases h
        | true =>
          rw [if_pos rfl, bind_ok (outcome_apply _ _)] at h
          rcases hb : eval fuel depth context b m₂ with ⟨e' | u, m₃⟩
          · rw [hb] at h
            cases e' with
            | continued => exact ⟨_, .enters (.whileContinue hc ht hb) fun _ _ => trivial, h⟩
            | broke => cases h
            | fault | error | returned =>
              cases h
              exact ⟨_, .enters (.whileBody hc ht) fun hloop => hloop.elim, hb⟩
          · rw [hb] at h
            exact ⟨_, .enters (.whileNext hc ht hb) fun _ _ => trivial, h⟩

theorem hands_forLoop {span : Span} {name : String} {x y : Node} {z : Option Node} {b : Node}
    {k : Bool}
    (h : eval (fuel + 1) depth context (.forLoop span name x y z b k) m = (.error e, m')) :
    (Point.mk (.node (.forLoop span name x y z b k)) (fuel + 1) m).Hands depth context e m' := by
  rw [eval_forLoop] at h
  rcases bind_eq_error h with h | ⟨first, m₁, hx, h⟩
  · exact ⟨_, .straight .forFirst id, h⟩
  rcases bind_eq_error h with h | ⟨last, m₂, hy, h⟩
  · exact ⟨_, .straight (.forLast hx) id, h⟩
  rcases bind_eq_error h with h | ⟨step, m₃, hz, h⟩
  · cases z with
    | none => cases h
    | some z => exact ⟨_, .straight (.forStep hx hy) id, h⟩
  rcases bind_eq_error h with h | ⟨⟨i, by_, up⟩, m₄, hs, h⟩
  · exact absurd h ((modest_loopStart first step).mute.not_stops he)
  rcases bind_eq_error h with h | ⟨vs, m₅, _, h⟩
  · exact ⟨_, .straight (.forRounds hx hy hz hs) id, h⟩
  cases k <;> cases h

/-- A stop in a call expression comes from its parts or from the call. -/
theorem raises_or_hands_call {span : Span} {f : Node} {args : List Node}
    (h : eval (fuel + 1) depth context (.call span f args) m = (.error e, m')) :
    Raises depth context e m' ⟨.node (.call span f args), fuel + 1, m⟩ ∨
      (Point.mk (.node (.call span f args)) (fuel + 1) m).Hands depth context e m' := by
  rw [eval] at h
  rcases bind_eq_error h with h | ⟨w, m₁, hf, h⟩
  · exact .inr ⟨_, .straight .callee id, h⟩
  rcases bind_eq_error h with h | ⟨r, m₂, hr, h⟩
  · exact absurd h ((modest_calleeAt span w).mute.not_stops he)
  rcases bind_eq_error h with h | ⟨vs, m₃, hvs, h⟩
  · exact .inr ⟨_, .straight (.args hf hr) id, h⟩
  rcases bind_eq_error h with h | ⟨u, m₄, _, h⟩
  · exact .inl (.call hf hr hvs h)
  · exact absurd h (Mute.not_stops (within_resultAt span context u).reports he)

theorem raises_or_hands_node {n : Node} (h : eval fuel depth context n m = (.error e, m')) :
    Raises depth context e m' ⟨.node n, fuel, m⟩ ∨
      (Point.mk (.node n) fuel m).Hands depth context e m' := by
  cases fuel with
  | zero =>
    rw [eval] at h
    cases h
    exact absurd rfl (he _)
  | succ fuel =>
    cases n with
    | number span x => cases x <;> (rw [eval] at h; cases h)
    | text span t =>
      rw [eval] at h
      cases h
    | list span items =>
      rw [eval] at h
      rcases bind_eq_error h with h | ⟨vs, m₁, _, h⟩
      · exact .inr ⟨_, .straight .list id, h⟩
      · cases h
    | access span name =>
      rw [eval] at h
      exact .inl (.access h)
    | assign span name value =>
      rw [eval] at h
      rcases bind_eq_error h with h | ⟨w, m₁, _, h⟩
      · exact .inr ⟨_, .straight .assign id, h⟩
      · cases h
    | binary span op l r =>
      rw [eval] at h
      rcases bind_eq_error h with h | ⟨w, m₁, hl, h⟩
      · exact .inr ⟨_, .straight .left id, h⟩
      rcases bind_eq_error h with h | ⟨u, m₂, hr, h⟩
      · exact .inr ⟨_, .straight (.right hl) id, h⟩
      · exact .inl (.binary hl hr h)
    | unary span op arg =>
      rw [eval] at h
      rcases bind_eq_error h with h | ⟨w, m₁, hw, h⟩
      · exact .inr ⟨_, .straight .operand id, h⟩
      · exact .inl (.unary hw h)
    | branch span cs fallback =>
      rw [eval] at h
      exact .inr ⟨_, .straight .branch id, h⟩
    | forLoop span name x y z b k => exact .inr (hands_forLoop he h)
    | whileLoop span c b k =>
      rw [eval] at h
      rcases bind_eq_error h with h | ⟨vs, m₁, _, h⟩
      · exact .inr ⟨_, .straight .whileRounds id, h⟩
      · cases k <;> cases h
    | function span name params body isExpression =>
      rw [eval] at h
      cases name <;> cases h
    | call span f args => exact raises_or_hands_call he h
    | ret span value =>
      rw [eval_ret] at h
      rcases bind_eq_error h with h | ⟨w, m₁, hw, h⟩
      · cases value with
        | none => cases h
        | some x => exact .inr ⟨_, .straight .returned id, h⟩
      · exact .inl (.ret hw h)
    | think span value =>
      rw [eval_think] at h
      rcases bind_eq_error h with h | ⟨w, m₁, _, h⟩
      · cases value with
        | none => cases h
        | some x => exact .inr ⟨_, .straight .thought id, h⟩
      rcases bind_eq_error h with h | ⟨code, m₂, _, h⟩
      · exact absurd h ((modest_askModel w).mute.not_stops he)
      rcases bind_eq_error h with h | ⟨ending, m₃, _, h⟩
      · exact absurd h (((disciplined fuel).runText depth _).not_stops he)
      · cases h
    | importFile span path =>
      rw [eval] at h
      rcases bind_eq_error h with h | ⟨file, m₁, hf, h⟩
      · exact .inl (.notFound h)
      rcases bind_eq_error h with h | ⟨ending, m₂, hi, h⟩
      · exact absurd h (((disciplined fuel).importText depth file).not_stops he)
      cases ending <;> cases h
      exact .inl (.imported hf hi rfl)
    | continueLoop span =>
      rw [eval] at h
      cases h
      exact .inl (.continueLoop rfl)
    | breakLoop span =>
      rw [eval] at h
      cases h
      exact .inl (.breakLoop rfl)

/-- A stop that is not a fault comes from the point itself or from something entered from it. -/
theorem raises_or_hands (h : p.StopsWith depth context e m) :
    Raises depth context e m p ∨ p.Hands depth context e m := by
  rcases p with ⟨task, fuel, m₀⟩
  cases task with
  | node n => exact raises_or_hands_node he h
  | all ns => exact .inr (hands_all he h)
  | cases cs fallback => exact .inr (hands_cases he h)
  | forRounds name i by_ up last b done => exact .inr (hands_forRounds he h)
  | whileRounds c b done => exact .inr (hands_whileRounds he h)

end

section

variable {depth : Nat} {context : Context} {v : Value} {m : Machine} {p : Point}

def Point.Returns (depth : Nat) (context : Context) (p : Point) (v : Value) (m : Machine) : Prop :=
  ∃ span value fuel, p.task = .node (.ret span value) ∧ p.fuel = fuel + 1 ∧
    operandValue fuel depth context value p.machine = (.ok v, m)

theorem Raises.returns (h : Raises depth context (.returned v) m p) :
    p.Returns depth context v m := by
  cases h with
  | access h => exact absurd h (plain_access _ _ _).not_returned
  | binary _ _ h => exact absurd h (plain_binary _ _ _ _).not_returned
  | unary _ h => exact absurd h (plain_unary _ _ _).not_returned
  | call _ _ _ h => exact absurd h ((disciplined _).call _ _ _).not_returned
  | notFound h => exact absurd h (plain_importFile _ _ _).not_returned
  | ret hv h =>
    obtain ⟨hreturn, rfl⟩ := returnValue_eq_error h
    cases hreturn
    exact ⟨_, _, _, rfl, rfl, hv⟩
  | imported _ _ he | continueLoop he | breakLoop he => cases he

/-- The points that evaluation gets to from a point, however deep inside it. -/
abbrev Reaches (depth : Nat) (context : Context) : Point → Point → Prop :=
  Relation.ReflTransGen (Enters depth context)

/-- A return from a point that evaluation gets to is a return from where it started. -/
theorem Reaches.stopsWith {q : Point} (h : Reaches depth context p q)
    (hq : q.StopsWith depth context (.returned v) m) :
    p.StopsWith depth context (.returned v) m := by
  induction h using Relation.ReflTransGen.head_induction_on with
  | refl => exact hq
  | head hpq _ ih => exact Passes.stopsWith (.enters hpq fun hloop => hloop.elim) ih

theorem Point.StopsWith.isSomething (h : p.StopsWith depth context (.returned v) m) :
    m.store.isSomething v = true := by
  rcases p with ⟨task, fuel, m₀⟩
  cases task with
  | node n => exact ((disciplined fuel).eval depth context n).isSomething h
  | all ns => exact ((disciplined fuel).evalAll depth context ns).isSomething h
  | cases cs fallback =>
    exact ((disciplined fuel).evalCases depth context cs fallback).isSomething h
  | forRounds name i by_ up last b done =>
    exact ((disciplined fuel).repeatFor depth context name i by_ up last b done).isSomething h
  | whileRounds c b done =>
    exact ((disciplined fuel).repeatWhile depth context c b done).isSomething h

/-- Evaluation returns a value exactly if it gets to a return statement whose operand has that
value, and the value counts as something. -/
theorem stopsWith_returned_iff :
    p.StopsWith depth context (.returned v) m ↔
      m.store.isSomething v = true ∧
        ∃ q, Reaches depth context p q ∧ q.Returns depth context v m := by
  constructor
  · intro h
    refine ⟨h.isSomething, ?_⟩
    induction hn : p.fuel using Nat.strongRecOn generalizing p with
    | ind n ih =>
      have hreturn (f : Fault) : Stop.returned v ≠ .fault f := nofun
      rcases raises_or_hands hreturn h with hp | ⟨q, hpq, hq⟩
      · exact ⟨p, .refl, hp.returns⟩
      · obtain ⟨r, hqr, hr⟩ := ih q.fuel (hn ▸ hpq.toEnters.fuel_lt) hq rfl
        exact ⟨r, .head hpq.toEnters hqr, hr⟩
  · rintro ⟨hv, ⟨task, fuel, m₀⟩, hreach, span, value, fuel, rfl, rfl, hvalue⟩
    apply hreach.stopsWith
    change eval (fuel + 1) depth context (.ret span value) m₀ = _
    rw [eval_ret, bind_ok hvalue, returnValue_something hv]

end

end Think.Eval
