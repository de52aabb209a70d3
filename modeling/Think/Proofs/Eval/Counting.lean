import Mathlib.Data.Rat.Floor
import Think.Proofs.Eval.Invariant
import Think.Proofs.IntExpr.Evaluation

/-! # Counted loops

A loop that counts from one integer towards another executes its body once for each number on the
way, unless a round ends it earlier. Every round starts by binding the loop's name anew, so whatever
a round does to that name or to the names in the bounds, the numbers stay the same.
-/

namespace Think

open BuiltinCall (nullValue plainNumber)
open Relation (ReflTransGen)

/-- How many numbers there are from `start` on, in steps of `step`, before `stop` is reached. -/
def roundCount (start stop step : Int) : Nat := ⌈((stop - start : Int) : ℚ) / step⌉.toNat

/-- There is a further number as long as `stop` is not reached. -/
theorem lt_roundCount {start stop step : Int} (hstep : step ≠ 0) (k : Nat) :
    k < roundCount start stop step ↔
      if 0 ≤ step then start + k * step < stop else stop < start + k * step := by
  have hcount : k < roundCount start stop step ↔
      ((k : Int) : ℚ) < ((stop - start : Int) : ℚ) / step := by
    rw [roundCount, Int.lt_toNat, Int.lt_ceil]
  rw [hcount]
  split
  · next hup =>
    have hpos : (0 : ℚ) < step := Int.cast_pos.mpr (by omega)
    rw [lt_div_iff₀ hpos]
    norm_cast
    omega
  · next hdown =>
    have hneg : (step : ℚ) < 0 := Int.cast_lt_zero.mpr (by omega)
    rw [lt_div_iff_of_neg hneg]
    norm_cast
    omega

/-- The machine once a name is bound to a new integer. -/
def Machine.counting (m : Machine) (t : TableRef) (name : String) (i : Int) : Machine where
  store := (m.store.allocate (.fresh (.number (.int i)))).2.bind t name
    (.object ⟨m.store.objects.size⟩)
  world := m.world

namespace Store

variable {s s' : Store}

def Holds (s : Store) (t : TableRef) (name : String) (i : Int) : Prop :=
  ∃ r, (s.table t).get name = .object r ∧ (s.object r).payload = .number (.int i)

theorem holds_counting {m : Machine} {t : TableRef} (ht : t.index < m.store.tables.size)
    (name : String) (i : Int) : (m.counting t name i).store.Holds t name i := by
  refine ⟨⟨m.store.objects.size⟩, ?_, congrArg Object.payload (object_push m.store _)⟩
  rw [Machine.counting, table_bind, if_pos ⟨rfl, ht⟩, Table.get, Table.set, lookup_setIn,
    if_pos rfl]
  rfl

theorem tables_of_changes (h : ReflTransGen Change s s') : s.tables.size ≤ s'.tables.size := by
  refine (kept_of_writes (W := fun _ _ => True) (ReflTransGen.mono ?_ _ _ h)).size
  intro s s' hc
  cases hc with
  | value hv => exact .value hv
  | table t => exact .table t
  | bind t x v => exact .bind v trivial

end Store

namespace Eval

structure Round where
  before : Machine
  ending : Except Stop Value
  after : Machine

namespace Round

/-- Whether the loop goes on after the round. -/
def goesOn (r : Round) : Bool :=
  match r.ending with
  | .ok _ | .error .continued => true
  | .error _ => false

/-- The stop of the round, if the loop does not take it itself. -/
def passedOn? (r : Round) : Option Stop :=
  match r.ending with
  | .ok _ | .error .continued | .error .broke => none
  | .error e => some e

/-- What the round adds to the values of the loop. -/
def value? (r : Round) : Option Value :=
  match r.ending with
  | .ok v => some v
  | .error _ => none

def leave (m : Machine) (rounds : List Round) : Machine := rounds.foldl (fun _ r => r.after) m

@[simp]
theorem leave_nil (m : Machine) : leave m [] = m := rfl

variable {r : Round}

theorem ending_of_goesOn (h : r.goesOn = true) :
    (∃ v, r.ending = .ok v) ∨ r.ending = .error .continued := by
  obtain ⟨_, ending, _⟩ := r
  rcases ending with ⟨_ | _ | _ | _ | _⟩ | v
  case error.continued => exact .inr rfl
  case ok => exact .inl ⟨v, rfl⟩
  all_goals cases h

/-- The round executes the body with the loop's name bound to the number, and with nothing else done
since `m`. -/
structure Executes (fuel depth : Nat) (context : Context) (name : String) (body : Node)
    (number : Int) (m : Machine) (r : Round) : Prop where
  before : r.before = m.counting context.symbols name number
  holds : r.before.store.Holds context.symbols name number
  run : eval fuel depth context body r.before = (r.ending, r.after)

theorem Executes.keeps {fuel depth : Nat} {context : Context} {name : String} {body : Node}
    {number stop : Int} {m : Machine} {last : ObjectRef}
    (h : r.Executes fuel depth context name body number m)
    (htable : context.symbols.index < m.store.tables.size)
    (hlast : (m.store.object last).payload = .number (.int stop)) :
    context.symbols.index < r.after.store.tables.size ∧
      (r.after.store.object last).payload = .number (.int stop) := by
  have hbound : ReflTransGen Store.Change m.store r.before.store := by
    rw [h.before]
    exact (ReflTransGen.single (.value (.object _))).tail (.bind _ _ _)
  have hrun := (Event.inside fuel depth context r.before (.node body)).changes
  rw [show (Event.inside fuel depth context r.before (.node body)).after = r.after from
    congrArg Prod.snd h.run] at hrun
  have hchanges := hbound.trans hrun
  refine ⟨Nat.lt_of_lt_of_le htable (Store.tables_of_changes hchanges), ?_⟩
  rw [Store.payload_of_changes hchanges (Store.index_lt (by simp [hlast]))]
  exact hlast

end Round

/-- The rounds of a loop that starts on `m`, counts from `start` in steps of `step` and has at most
`count` rounds. It has fewer only if its last round does not let it go on. -/
structure Counts (fuel depth : Nat) (context : Context) (name : String) (body : Node)
    (start step : Int) (count : Nat) (m : Machine) (rounds : List Round) : Prop where
  length_le : rounds.length ≤ count
  executes : ∀ (k : Nat) (r : Round), rounds[k]? = some r →
    r.Executes (fuel - (k + 1)) depth context name body (start + k * step)
      (Round.leave m (rounds.take k))
  goesOn : ∀ (k : Nat) (r : Round), rounds[k]? = some r → k + 1 < rounds.length → r.goesOn = true
  complete : rounds.length < count → ∃ r, rounds.getLast? = some r ∧ r.goesOn = false

/-- How a loop ends that had the given rounds: it passes on the stop of the last one if this is not
meant for loops, and else gives null or the list of what its rounds gave. -/
def Gathers (block : Bool) (rounds : List Round) (m : Machine)
    (ending : Except Stop Value × Machine) : Prop :=
  match rounds.getLast?.bind Round.passedOn? with
  | some e => ending = (.error e, Round.leave m rounds)
  | none =>
    if block then ending = (.ok nullValue, Round.leave m rounds)
    else ∃ o cells m', ending = (.ok (.object o), m') ∧ (m'.store.object o).payload = .list cells ∧
      (m'.store.elements cells).toList = rounds.filterMap Round.value?

namespace Counts

variable {fuel depth : Nat} {context : Context} {name : String} {body : Node} {start step : Int}
  {count : Nat} {m : Machine} {r : Round} {rounds : List Round}

theorem nil : Counts fuel depth context name body start step 0 m [] where
  length_le := Nat.le_refl _
  executes := by simp
  goesOn := by simp
  complete := by simp

theorem single (h : r.Executes fuel depth context name body start m) (hgo : r.goesOn = false) :
    Counts (fuel + 1) depth context name body start step (count + 1) m [r] where
  length_le := by simp
  executes k r' hk := by
    rcases k with _ | k <;> simp at hk
    simpa [hk] using h
  goesOn k _ _ hk := by simp at hk
  complete _ := ⟨r, rfl, hgo⟩

theorem cons (h : r.Executes fuel depth context name body start m) (hgo : r.goesOn = true)
    (hrest : Counts fuel depth context name body (start + step) step count r.after rounds) :
    Counts (fuel + 1) depth context name body start step (count + 1) m (r :: rounds) where
  length_le := by simpa using hrest.length_le
  executes k r' hk := by
    rcases k with _ | k
    · obtain rfl : r = r' := by simpa using hk
      simpa using h
    · have hnumber : start + ((k + 1 : Nat) : Int) * step = start + step + k * step := by
        push_cast
        ring
      rw [hnumber, Nat.add_sub_add_right]
      exact hrest.executes k r' (by simpa using hk)
  goesOn k r' hk hlt := by
    rcases k with _ | k
    · obtain rfl : r = r' := by simpa using hk
      exact hgo
    · exact hrest.goesOn k r' (by simpa using hk) (by simpa using hlt)
  complete hlt := by
    obtain ⟨r', hlast, hr'⟩ := hrest.complete (by simpa using hlt)
    exact ⟨r', by rw [List.getLast?_cons, hlast]; rfl, hr'⟩

end Counts

namespace Round

variable {fuel depth : Nat} {context : Context} {body : Node} {m : Machine} {r : Round}
  {rounds : List Round}

def gathered (done : List Value) (rounds : List Round) (m : Machine) :
    Except Stop (List Value) × Machine :=
  (match rounds.getLast?.bind passedOn? with
    | some e => .error e
    | none => .ok (done.reverse ++ rounds.filterMap value?), leave m rounds)

theorem gathered_cons (hgo : r.goesOn = true) (done : List Value) :
    gathered done (r :: rounds) m = gathered (r.value?.toList ++ done) rounds r.after := by
  have hnone : r.passedOn? = none := by
    rcases ending_of_goesOn hgo with ⟨v, h⟩ | h <;> simp [passedOn?, h]
  have hlast : (r :: rounds).getLast?.bind passedOn? = rounds.getLast?.bind passedOn? := by
    rw [List.getLast?_cons]
    cases rounds.getLast? with
    | some r' => rfl
    | none => exact hnone
  have hvalues : done.reverse ++ (r :: rounds).filterMap value? =
      (r.value?.toList ++ done).reverse ++ rounds.filterMap value? := by
    cases hv : r.value? <;> simp [hv]
  rw [gathered, gathered, hlast, hvalues]
  rfl

def events (fuel depth : Nat) (context : Context) (body : Node) (rounds : List Round) :
    List Event :=
  rounds.mapIdx fun k r => .inside (fuel - (k + 1)) depth context r.before (.node body)

theorem events_cons :
    events (fuel + 1) depth context body (r :: rounds) =
      .inside fuel depth context r.before (.node body) ::
        events fuel depth context body rounds := by
  simp only [events, List.mapIdx_cons, Nat.add_sub_add_right, Nat.sub_zero]

end Round

namespace Event

def isRounds : Event → Bool
  | .part (.inside _ _ ⟨.forRounds _ _ _ _ _ _ _, _, _⟩) => true
  | _ => false

/-- The executions of its body that a counted loop comes to, down to `n` levels. -/
def bodyRuns : Nat → Event → List Event
  | 0, _ => []
  | n + 1, e => e.parts.flatMap fun f =>
    if f.isRounds then bodyRuns n f else if e.isRounds then [f] else []

end Event

section

variable {fuel depth : Nat} {context : Context} {name : String} {body : Node}
  {start stop step : Int}
  {last : ObjectRef} {count : Nat} {m : Machine} {r : Round}

theorem plainNumber_int {v : ObjectRef} {i : Int}
    (h : (m.store.object v).payload = .number (.int i)) :
    plainNumber (.object v) m = (.ok (.int i), m) := by
  rw [plainNumber, objectOf_bind, bind_ok (object_apply v m)]
  dsimp only
  rw [h]
  rfl

theorem loopStart_int {first by_ : ObjectRef}
    (hfirst : (m.store.object first).payload = .number (.int start))
    (hby : (m.store.object by_).payload = .number (.int step)) :
    loopStart (.object first) (.object by_) m =
      (.ok (.int start, .int step, decide (0 ≤ step)), m) := by
  rw [loopStart, bind_ok (plainNumber_int hfirst), bind_ok (plainNumber_int hby), Number.ge_int]
  rfl

theorem startRound_int (context : Context) (name : String) (i step : Int)
    (hlast : (m.store.object last).payload = .number (.int stop)) :
    startRound context name (.int i) (.int step) (decide (0 ≤ step)) (.object last) m =
      if (if 0 ≤ step then i < stop else stop < i) then
        (.ok (some (.int (i + step))), m.counting context.symbols name i)
      else (.ok none, m) := by
  have hmore : lift (if decide (0 ≤ step) = true then (Number.int i).lt (.int stop)
      else (Number.int i).gt (.int stop)) m =
        (.ok (decide (if 0 ≤ step then i < stop else stop < i)), m) := by
    rw [Number.lt_int, Number.gt_int]
    by_cases hstep : 0 ≤ step <;> simp [hstep] <;> rfl
  rw [startRound, bind_ok (plainNumber_int hlast), bind_ok hmore]
  by_cases hend : if 0 ≤ step then i < stop else stop < i
  · rw [if_pos hend, decide_eq_true hend]
    rfl
  · rw [if_neg hend, decide_eq_false hend]
    rfl

section

variable {i by_ next : Number} {up : Bool} {v : Value} {done : List Value}
  (hstart : startRound context name i by_ up v m = (.ok (some next), r.before))
  (hrun : eval fuel depth context body r.before = (r.ending, r.after))

include hstart hrun

theorem repeatFor_goesOn (hgo : r.goesOn = true) :
    repeatFor (fuel + 1) depth context name i by_ up v body done m =
      repeatFor fuel depth context name next by_ up v body (r.value?.toList ++ done) r.after := by
  rw [repeatFor, bind_ok hstart]
  dsimp only
  rw [bind_ok (outcome_apply _ _), hrun]
  rcases Round.ending_of_goesOn hgo with ⟨v, h⟩ | h <;> rw [Round.value?, h] <;> rfl

theorem repeatFor_ends (hgo : r.goesOn = false) :
    repeatFor (fuel + 1) depth context name i by_ up v body done m =
      Round.gathered done [r] m := by
  rw [repeatFor, bind_ok hstart]
  dsimp only
  rw [bind_ok (outcome_apply _ _), hrun]
  obtain ⟨_, ending, after⟩ := r
  rcases ending with e | v
  · cases e with
    | continued => cases hgo
    | broke =>
      change _ = (Except.ok (done.reverse ++ []), after)
      rw [List.append_nil]
      rfl
    | fault | error | returned => rfl
  · cases hgo

theorem bodyRuns_goesOn (hgo : r.goesOn = true) (n : Nat) :
    (Event.inside (fuel + 1) depth context m (.forRounds name i by_ up v body done)).bodyRuns
        (n + 1) = .inside fuel depth context r.before (.node body) ::
      (Event.inside fuel depth context r.after
        (.forRounds name next by_ up v body (r.value?.toList ++ done))).bodyRuns n := by
  rcases Round.ending_of_goesOn hgo with ⟨v, h⟩ | h <;>
    simp [Event.bodyRuns, Event.parts, Event.taskParts, Event.roundParts, Event.isRounds, hstart,
      hrun, onward, Round.value?, h]

theorem bodyRuns_ends (hgo : r.goesOn = false) (n : Nat) :
    (Event.inside (fuel + 1) depth context m (.forRounds name i by_ up v body done)).bodyRuns
        (n + 1) = [.inside fuel depth context r.before (.node body)] := by
  have hnone (next : Option Value → Machine → Event) :
      Event.roundParts (r.ending, r.after) next = [] := by
    obtain ⟨_, ending, _⟩ := r
    rcases ending with e | v
    · cases e with
      | continued => cases hgo
      | fault | error | returned | broke => rfl
    · cases hgo
  simp [Event.bodyRuns, Event.parts, Event.taskParts, Event.isRounds, hstart, hrun, onward, hnone]

end

/-- A loop over integers has the rounds that it counts, and no others. -/
theorem exists_rounds (fuel depth : Nat) (context : Context) (name : String) (body : Node)
    (done : List Value)
    (hcount : ∀ k : Nat, k < count ↔
      if 0 ≤ step then start + k * step < stop else stop < start + k * step)
    (htable : context.symbols.index < m.store.tables.size)
    (hlast : (m.store.object last).payload = .number (.int stop)) (hfuel : count < fuel) :
    ∃ rounds, Counts fuel depth context name body start step count m rounds ∧
      repeatFor fuel depth context name (.int start) (.int step) (decide (0 ≤ step)) (.object last)
        body done m = Round.gathered done rounds m ∧
      (Event.inside fuel depth context m (.forRounds name (.int start) (.int step)
        (decide (0 ≤ step)) (.object last) body done)).bodyRuns fuel =
          Round.events fuel depth context body rounds := by
  -- Each round takes one from the fuel and one from the numbers that are left.
  induction fuel generalizing count start m done with
  | zero => omega
  | succ fuel ih =>
    have hstart := startRound_int context name start step hlast
    have hfirst := hcount 0
    simp only [Nat.cast_zero, zero_mul, add_zero] at hfirst
    rcases count with _ | count
    · rw [if_neg (by rw [← hfirst]; omega)] at hstart
      refine ⟨[], .nil, ?_, ?_⟩
      · rw [repeatFor, bind_ok hstart]
        simp [Round.gathered]
        rfl
      · simp [Event.bodyRuns, Event.parts, Event.taskParts, hstart, onward, Round.events]
    · rw [if_pos (hfirst.mp (Nat.succ_pos count))] at hstart
      let before := m.counting context.symbols name start
      let r : Round := ⟨before, (eval fuel depth context body before).1,
        (eval fuel depth context body before).2⟩
      have hexecutes : r.Executes fuel depth context name body start m :=
        ⟨rfl, Store.holds_counting htable name start, rfl⟩
      cases hgo : r.goesOn with
      | false =>
        refine ⟨[r], .single hexecutes hgo, repeatFor_ends hstart hexecutes.run hgo, ?_⟩
        rw [bodyRuns_ends hstart hexecutes.run hgo, Round.events_cons]
        rfl
      | true =>
        obtain ⟨htable', hlast'⟩ := hexecutes.keeps htable hlast
        have hcount' (k : Nat) : k < count ↔ if 0 ≤ step then start + step + k * step < stop
            else stop < start + step + k * step := by
          have hnext := hcount (k + 1)
          push_cast at hnext
          rw [Nat.add_lt_add_iff_right] at hnext
          rw [hnext, add_mul, one_mul, add_comm (k * step), add_assoc]
        obtain ⟨rounds, hrounds, hrepeat, hruns⟩ := ih (r.value?.toList ++ done) hcount' htable'
          hlast' (by omega)
        refine ⟨r :: rounds, .cons hexecutes hgo hrounds, ?_, ?_⟩
        · rw [repeatFor_goesOn hstart hexecutes.run hgo, Round.gathered_cons hgo]
          exact hrepeat
        · rw [bodyRuns_goesOn hstart hexecutes.run hgo, Round.events_cons]
          exact congrArg _ hruns

end

section

variable {fuel depth : Nat} {context : Context} {span : Span} {name : String} {x y body : Node}
  {z : Option Node} {block : Bool} {m m₁ m₂ m₃ : Machine} {a b c : ObjectRef}
  {start stop step : Int}

theorem bodyRuns_forLoop {first last by_ : Value} {i j : Number} {up : Bool} {m₄ : Machine}
    (hx : eval fuel depth context x m = (.ok first, m₁))
    (hy : eval fuel depth context y m₁ = (.ok last, m₂))
    (hz : stepValue fuel depth context z m₂ = (.ok by_, m₃))
    (hs : loopStart first by_ m₃ = (.ok (i, j, up), m₄)) (n : Nat) :
    (Event.inside (fuel + 1) depth context m
        (.node (.forLoop span name x y z body block))).bodyRuns (n + 1) =
      (Event.inside fuel depth context m₄ (.forRounds name i j up last body [])).bodyRuns n := by
  cases z <;>
    simp [Event.bodyRuns, Event.parts, Event.taskParts, Event.nodeParts, Event.isRounds, onward, hx,
      hy, hz, hs]

theorem elements_listAt (vs : List Value) (m : Machine) :
    ∃ o cells m', listAt vs span context m = (.ok (.object o), m') ∧
      (m'.store.object o).payload = .list cells ∧ (m'.store.elements cells).toList = vs := by
  refine ⟨⟨m.store.objects.size⟩, ⟨m.store.lists.size⟩, _, rfl, ?_, ?_⟩
  · exact congrArg Object.payload (Store.object_push (m.store.allocateList vs.toArray).2 _)
  · change (((m.store.lists.push vs.toArray)[m.store.lists.size]?).getD #[]).toList = vs
    simp

theorem gathers_of_gathered {rounds : List Round} {values : Eval (List Value)}
    (h : values m = Round.gathered [] rounds m₁) :
    Gathers block rounds m₁
      ((values >>= fun vs => if block then pure nullValue else listAt vs span context) m) := by
  rw [Round.gathered] at h
  unfold Gathers
  cases hlast : rounds.getLast?.bind Round.passedOn? with
  | some e =>
    rw [hlast] at h
    exact bind_error h
  | none =>
    rw [hlast] at h
    rw [bind_ok h]
    cases block with
    | true => rfl
    | false => exact elements_listAt _ _

end

/-- A loop from one integer to another executes its body in rounds that have the numbers in turn,
`roundCount` of them unless one does not let it go on, and what it gives is what the rounds
give. -/
theorem eval_forLoop_counts (fuel depth : Nat) (context : Context) (span : Span) (name : String)
    (x y : Node) (z : Option Node) (body : Node) (block : Bool) (m m₁ m₂ m₃ : Machine)
    (a b c : ObjectRef) (start stop step : Int)
    (hx : eval fuel depth context x m = (.ok (.object a), m₁))
    (hy : eval fuel depth context y m₁ = (.ok (.object b), m₂))
    (hz : stepValue fuel depth context z m₂ = (.ok (.object c), m₃))
    (ha : (m₃.store.object a).payload = .number (.int start))
    (hb : (m₃.store.object b).payload = .number (.int stop))
    (hc : (m₃.store.object c).payload = .number (.int step)) (hstep : step ≠ 0)
    (htable : context.symbols.index < m₃.store.tables.size)
    (hfuel : roundCount start stop step < fuel) :
    ∃ rounds,
      Counts fuel depth context name body start step (roundCount start stop step) m₃ rounds ∧
      (Event.inside (fuel + 1) depth context m
        (.node (.forLoop span name x y z body block))).bodyRuns (fuel + 1) =
          Round.events fuel depth context body rounds ∧
      Gathers block rounds m₃
        (eval (fuel + 1) depth context (.forLoop span name x y z body block) m) := by
  have hs := loopStart_int ha hc
  obtain ⟨rounds, hrounds, hrepeat, hruns⟩ := exists_rounds fuel depth context name body []
    (lt_roundCount hstep) htable hb hfuel
  refine ⟨rounds, hrounds, ?_, ?_⟩
  · rw [bodyRuns_forLoop hx hy hz hs, hruns]
  · rw [eval_forLoop, bind_ok hx, bind_ok hy, bind_ok hz, bind_ok hs]
    exact gathers_of_gathered hrepeat

/-- A loop that counts down and whose body binds the loop's name to something else. -/
theorem eval_forLoop_counts_down :
    roundCount 5 0 (-2) = 3 ∧ ∃ m₃ rounds,
      Counts 10 0 (programContext "") "i" (.assign default "i" (.number default (.int 7))) 5 (-2) 3
        m₃ rounds ∧
      Gathers false rounds m₃ (eval 11 0 (programContext "")
        (.forLoop default "i" (.number default (.int 5)) (.number default (.int 0))
          (some (.unary default .minus (.number default (.int 2))))
          (.assign default "i" (.number default (.int 7))) false)
        ⟨⟨#[], #[], #[⟨[], []⟩, ⟨[], []⟩]⟩, .start ⟨"/home", []⟩⟩) := by
  have hcount : roundCount 5 0 (-2) = 3 := by
    rw [roundCount]
    norm_num
    rfl
  obtain ⟨rounds, hrounds, -, hgathers⟩ := eval_forLoop_counts 10 0 (programContext "") default "i"
    (.number default (.int 5)) (.number default (.int 0))
    (some (.unary default .minus (.number default (.int 2))))
    (.assign default "i" (.number default (.int 7))) false
    ⟨⟨#[], #[], #[⟨[], []⟩, ⟨[], []⟩]⟩, .start ⟨"/home", []⟩⟩ _ _ _ _ _ _ 5 0 (-2)
    (by rw [eval]; rfl) (by rw [eval]; rfl) (by rw [stepValue, eval, eval]; rfl) rfl rfl rfl
    (by decide) (by decide) (by rw [hcount]; decide)
  rw [hcount] at hrounds
  exact ⟨hcount, _, rounds, hrounds, hgathers⟩

end Eval

end Think
