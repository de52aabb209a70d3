import Think.Proofs.Eval.Invariant
import Think.Proofs.Eval.Scope
import Think.Proofs.Eval.Shown
import Think.Proofs.Parse.CallStart

/-! # Tracebacks

An error that leaves a program is shown with the activations it was reported in. If the functions
under way were called by their names, these are the calls in the order in which they were made, each
at the name of the function that is called next.
-/

namespace Think

open Relation (ReflTransGen)

namespace Store

def Headed (s : Store) : Prop :=
  ∀ r name params body isExpression,
    (s.object r).payload = .function name params body isExpression → body.Headed

variable {s s' : Store}

theorem Headed.allocate {o : Object} (h : s.Headed)
    (ho : ∀ name params body k, o.payload = .function name params body k → body.Headed) :
    (s.allocate o).2.Headed := by
  intro r name params body k hr
  rw [object_allocate] at hr
  split at hr
  · exact ho _ _ _ _ hr
  · exact h _ _ _ _ _ hr

theorem Headed.data {o : Object} (h : s.Headed) (ho : o.payload.IsData) :
    (s.allocate o).2.Headed :=
  h.allocate fun _ _ _ _ hfunction => absurd hfunction (ho _ _ _ _)

theorem Headed.update {f : Object → Object} (h : s.Headed) (r : ObjectRef)
    (hf : ∀ o, (f o).payload = o.payload) : (s.update r f).Headed := by
  intro q name params body k hq
  rw [payload_update s r q hf] at hq
  exact h _ _ _ _ _ hq

theorem Headed.modest (h : s.Headed) (hc : ReflTransGen ModestChange s s') : s'.Headed := by
  induction hc with
  | refl => exact h
  | tail _ hc ih =>
    cases hc with
    | fresh p hp => exact ih.data hp
    | beside r p hp => exact ih.data hp
    | copy r => exact ih.allocate (ih r)
    | place r span => exact ih.update r fun _ => rfl
    | list | elements => exact ih

end Store

theorem Machine.headed_freshStore : freshStore.Headed :=
  fun r _ _ _ _ h => (Eval.fits_freshStore.object r).body h

namespace Eval

def Task.Headed : Task → Prop
  | .node n => n.Headed
  | .all ns => ∀ n ∈ ns, n.Headed
  | .cases cs fallback => Cases.Headed (cs, fallback)
  | .forRounds _ _ _ _ _ b _ => b.Headed
  | .whileRounds c b _ => c.Headed ∧ b.Headed

theorem Enters.headed {depth : Nat} {context : Context} {p q : Point}
    (h : Enters depth context p q) (hp : p.task.Headed) : q.task.Headed := by
  cases h
  case first => exact hp _ List.mem_cons_self
  case next => exact fun n hn => hp n (List.mem_cons_of_mem _ hn)
  case condition => exact hp.conditions _ List.mem_cons_self
  case consequence => exact hp.bodies _ List.mem_cons_self
  case otherCases =>
    constructor
    · exact fun c hc => hp.conditions c (List.mem_cons_of_mem _ hc)
    · exact fun c hc => hp.bodies c (List.mem_cons_of_mem _ hc)
    · exact hp.fallback
  case fallback => exact hp.fallback _ rfl
  case branch =>
    cases hp with
    | branch hc hb hf => exact ⟨hc, hb, hf⟩
  case forStep =>
    cases hp with
    | forLoop _ _ hz => exact hz _ rfl
  case returned =>
    cases hp with
    | ret h => exact h _ rfl
  case thought =>
    cases hp with
    | think h => exact h _ rfl
  case whileRounds =>
    cases hp with
    | whileLoop hc hb => exact ⟨hc, hb⟩
  case whileCondition => exact hp.1
  case whileBody => exact hp.2
  case forBody | forNext | forContinue | whileNext | whileContinue => exact hp
  all_goals
    cases hp
    assumption

theorem headed_treeOf {source : Source} {m m' : Machine} {tree : Node}
    (h : treeOf source m = (.ok (.ok tree), m')) : tree.Headed := by
  obtain ⟨-, ⟨d, -, hx⟩ | ⟨tokens, -, ⟨d, -, hx⟩ | ⟨tree, htree, hx⟩⟩⟩ := treeOf_cases h
  · cases hx
  · cases hx
  · cases hx
    exact Node.headed_ofTokens htree

theorem headed_receives {context : Context} {m m' : Machine}
    (h : ReflTransGen (Receives context) m m') (hm : m.store.Headed) : m'.store.Headed := by
  induction h with
  | refl => exact hm
  | tail _ hr ih =>
    cases hr with
    | enter r => exact ih.update r fun _ => rfl
    | bind => exact ih

namespace Event

def Headed : Event → Prop
  | .part (.inside _ _ p) => p.machine.store.Headed ∧ p.task.Headed
  | .part (.call _ _ _ _ m) | .text _ _ _ m | .file _ _ _ m => m.store.Headed

theorem Headed.store {e : Event} (h : e.Headed) : e.machine.store.Headed := by
  rcases e with _ | _ | (_ | _)
  · exact h
  · exact h
  · exact h.1
  · exact h

theorem headed_act {e : Event} {m m' : Machine} (he : e.Headed) (h : Acts e m m')
    (hm : m.store.Headed) : m'.store.Headed := by
  cases h with
  | world => exact hm
  | value h => exact hm.modest (.single h)
  | data _ ho => exact hm.data ho
  | function _ ho =>
    apply hm.allocate
    intro name params body k hfunction
    cases ho.symm.trans hfunction
    cases he.2 with
    | function hbody => exact hbody
  | enter r => exact hm.update r fun _ => rfl
  | name | assign => exact hm
  | entry hc ha =>
    obtain ⟨outer, -, -, rfl⟩ := callContext_eq_ok hc
    exact headed_receives ha hm
  | program => exact hm.data (by simp [Object.fresh])
  | module hh hz hb =>
    cases hh
    cases hz
    cases hb
    exact Store.Headed.data (s := (m.store.allocateTable _).2) hm (by simp [Object.fresh])

theorem headed_part {e f : Event} (he : e.Headed) (hf : f.machine.store.Headed) (h : Leads e f) :
    f.Headed := by
  cases h with
  | program ht => exact ⟨hf, headed_treeOf ht⟩
  | module _ ht => exact ⟨hf, headed_treeOf ht⟩
  | think | importFile | run => exact hf
  | part h =>
    cases h with
    | enters h => exact ⟨hf, h.headed he.2⟩
    | call => exact hf
    | body hp => exact ⟨hf, he _ _ _ _ _ hp⟩

theorem invariant_headed :
    Invariant (fun _ => True) Headed fun m m' => m.store.Headed → m'.store.Headed where
  trans h h' hm := h' (h hm)
  modest h hm := hm.modest h
  act _ he _ h := headed_act he h
  part _ he hR h := headed_part he (hR he.store) h

theorem Occurs.inSession {e : Event} (h : Occurs e) : e.machine.InSession := by
  have hinvariant := invariant_changes (J := Machine.InSession) fun _ _ hm hR => hm.trans hR
  refine hinvariant.occursIn (J := Machine.InSession) ?_ ?_ ?_ ?_ h.occursIn
  · exact fun _ => .refl
  · exact fun _ _ hm => hm
  · exact fun _ _ hm => hm
  · exact fun _ _ hm hR => hm.trans hR

theorem Occurs.headed {e : Event} (h : Occurs e) : e.Headed := by
  refine invariant_headed.occursIn (J := fun m => m.store.Headed) ?_ ?_ ?_ ?_ h.occursIn
  · exact fun _ => Machine.headed_freshStore
  · exact fun _ _ hm => hm
  · intro e he hm
    cases e with
    | text | file => exact hm
    | part => cases he
  · exact fun _ _ hm hR => hR hm

end Event

end Eval

open Eval

/-- A function that is called by its name is entered from where it is called, at the name. -/
theorem Activation.context_eq (a : Activation) {place : Span} {x : String}
    (ho : Event.Occurs (.part a.activity)) (hx : a.callee = .access place x) :
    ∃ symbols hidden, a.context = ⟨a.name, some a.site, some place.start, symbols, hidden⟩ := by
  obtain ⟨r, K, hcalled, hcarried, hentered⟩ := a.exists_carried ho.sound
  have hdirect : a.callee.isDirect = true := by
    rw [hx]
    rfl
  have hsite := context_of_isDirect hdirect (hcalled ▸ a.evalCallee)
  obtain rfl : K = a.site := Option.some.inj (hcarried.symm.trans hsite)
  have hstart : a.span.start = place.start := by
    cases ho.headed.2 with
    | call hs =>
      rw [hs, hx]
      rfl
  exact ⟨_, _, hstart ▸ hentered.context⟩

theorem Eval.Event.Occurs.context_of_call {depth depth₁ depth' fuel fuel₁ : Nat} {c c' : Context}
    {span place : Span} {x name : String} {nodes : List Node} {m m₁ : Machine} {r : ObjectRef}
    {args : List Value} {params : List String} {body : Node} {k : Bool} {p : Point}
    (h : Occurs (.part (.inside depth c ⟨.node (.call span (.access place x) nodes), fuel, m⟩)))
    (hcall : Activity.Leads
      (.inside depth c ⟨.node (.call span (.access place x) nodes), fuel, m⟩)
      (.call fuel₁ depth₁ r args m₁))
    (hfunction : (m₁.store.object r).payload = .function name params body k)
    (hbody : Activity.Leads (.call fuel₁ depth₁ r args m₁) (.inside depth' c' p)) :
    ∃ symbols hidden, c' = ⟨name, some c, some place.start, symbols, hidden⟩ := by
  cases hcall with
  | call hf hr hvs =>
    cases hbody with
    | body hp he =>
      cases hfunction.symm.trans hp
      let a : Activation :=
        { inSession := h.inSession, evalCallee := hf, calleeAt := hr, evalArgs := hvs,
          isFunction := hp, enterFunction := he, .. }
      exact a.context_eq h rfl

/-- A call as a traceback tells of it: the name of the function, and where the name stands that it
is called by. -/
structure NamedCall where
  function : String
  place : Position

/-- From a point on the evaluation has come to another one through the calls, from the outermost in:
all of them are calls of functions by their names, and none of them is over. -/
inductive Underway (depth₀ : Nat) (root : Context) (start : Point) :
    List NamedCall → Nat → Context → Point → Prop
  | root {q} (h : Reaches depth₀ root start q) : Underway depth₀ root start [] depth₀ root q
  | call {calls depth c span place x nodes fuel m fuel₁ depth₁ r args m₁ name params body k depth'
      c'
      p q}
    (h : Underway depth₀ root start calls depth c
      ⟨.node (.call span (.access place x) nodes), fuel, m⟩)
    (hcall : Activity.Leads
      (.inside depth c ⟨.node (.call span (.access place x) nodes), fuel, m⟩)
      (.call fuel₁ depth₁ r args m₁))
    (hfunction : (m₁.store.object r).payload = .function name params body k)
    (hbody : Activity.Leads (.call fuel₁ depth₁ r args m₁) (.inside depth' c' p))
    (hq : Reaches depth' c' p q) :
    Underway depth₀ root start (calls ++ [⟨name, place.start⟩]) depth' c' q

def traceLine (name : String) (place : Position) : String :=
  s!"  File {place.source.name}, line {place.ln + 1}, in {name}\n"

/-- The lines for an error at a place in the innermost of the calls: each activation is shown where
the next one was called by its name. -/
def traceLines (root : String) (calls : List NamedCall) (last : Position) : List String :=
  List.zipWith traceLine (root :: calls.map (·.function)) (calls.map (·.place) ++ [last])

theorem length_traceLines (root : String) (calls : List NamedCall) (last : Position) :
    (traceLines root calls last).length = calls.length + 1 := by
  simp [traceLines]

theorem traceLines_append (root : String) (calls : List NamedCall) (c : NamedCall)
    (last : Position) :
    traceLines root (calls ++ [c]) last =
      traceLines root calls c.place ++ [traceLine c.function last] := by
  induction calls generalizing root with
  | nil => rfl
  | cons d calls ih => exact congrArg (traceLine root d.place :: ·) (ih d.function)

theorem traceback?_context (name : String) (parent : Option Context) (entry : Option Position)
    (symbols hidden : TableRef) (place : Position) :
    Diagnostic.traceback? (some ⟨name, parent, entry, symbols, hidden⟩) (some place) =
      (Diagnostic.traceback? parent entry).map (· ++ traceLine name place) := by
  rw [Diagnostic.traceback?]
  cases Diagnostic.traceback? parent entry <;> rfl

namespace Underway

variable {depth₀ depth : Nat} {root c : Context} {start q : Point} {calls : List NamedCall}

theorem enters {p : Point} (h : Underway depth₀ root start calls depth c p)
    (hstep : Enters depth c p q) : Underway depth₀ root start calls depth c q := by
  cases h with
  | root h => exact .root (h.tail hstep)
  | call h hcall hfunction hbody hq => exact .call h hcall hfunction hbody (hq.tail hstep)

theorem occurs (ho : Event.Occurs (.part (.inside depth₀ root start)))
    (h : Underway depth₀ root start calls depth c q) :
    Event.Occurs (.part (.inside depth c q)) := by
  induction h with
  | root hq => exact ho.reaches (Event.leads_of_reaches hq)
  | call _ hcall _ hbody hq ih =>
    have hbody := (ih.leads (.part hcall)).leads (.part hbody)
    exact hbody.reaches (Event.leads_of_reaches hq)

/-- An error that is reported where the evaluation has come to leaves all calls under way. -/
theorem stopsWith {d : Diagnostic} {m : Machine} (h : Underway depth₀ root start calls depth c q)
    (hq : q.StopsWith depth c (.error d) m) : start.StopsWith depth₀ root (.error d) m := by
  have hreaches {depth : Nat} {c : Context} {p q : Point} (h : Reaches depth c p q)
      (hq : q.StopsWith depth c (.error d) m) : p.StopsWith depth c (.error d) m := by
    induction h using ReflTransGen.head_induction_on with
    | refl => exact hq
    | head hstep _ ih => exact Passes.stopsWith (.enters hstep fun hloop => hloop.elim) ih
  induction h with
  | root h => exact hreaches h hq
  | call _ hcall _ hbody h ih =>
    apply ih
    have hstop := hreaches h hq
    cases hcall with
    | call hf hr hvs =>
      cases hbody with
      | body hp he =>
        exact Activity.Passes.stopsWith (.call hf hr hvs)
          (Activity.Passes.stopsWith (.body hp he (by simp)) hstop)

theorem traceback?_eq (ho : Event.Occurs (.part (.inside depth₀ root start)))
    (hroot : root.parent = none) (h : Underway depth₀ root start calls depth c q)
    (place : Position) :
    Diagnostic.traceback? (some c) (some place) =
      some (String.join (traceLines root.name calls place)) := by
  induction h generalizing place with
  | root =>
    obtain ⟨name, parent, entry, symbols, hidden⟩ := root
    cases hroot
    rw [traceback?_context, Diagnostic.traceback?]
    simp [traceLines, String.join]
  | call h hcall hfunction hbody hq ih =>
    obtain ⟨symbols, hidden, rfl⟩ := (h.occurs ho).context_of_call hcall hfunction hbody
    rw [traceback?_context, ih, traceLines_append]
    simp [String.join]

end Underway

namespace Eval

namespace Event

variable {e : Event} {depth₀ depth fuel : Nat} {root c : Context} {start : Point} {m : Machine}
  {span : Span} {x : String} {calls : List NamedCall}

/-- An error in the tree of a program is what the program ends with. -/
theorem reports_of_stopsWith {d : Diagnostic} {m' : Machine} (he : e.isProgram = true)
    (hl : Leads e (.part (.inside depth₀ root start)))
    (h : start.StopsWith depth₀ root (.error d) m') : root.parent = none ∧ e.Reports d := by
  cases hl with
  | program ht =>
    refine ⟨rfl, m', ?_⟩
    rw [runText_succ ht]
    exact settle_error h
  | module hf ht hh hz hb =>
    refine ⟨rfl, m', ?_⟩
    rw [importText]
    refine (bind_ok hf).trans ((bind_ok ht).trans ?_)
    exact (bind_ok hh).trans ((bind_ok hz).trans ((bind_ok hb).trans (settle_error h)))
  | part => cases he

/-- If a name without a value is read while functions are under way that were called by their
names, the program ends with an error, and its traceback has one line for the program and one for
each of the calls, from the outermost in. -/
theorem Occurs.traceback_of_undefined (ho : Occurs e) (he : e.isProgram = true)
    (hl : Leads e (.part (.inside depth₀ root start)))
    (hu : Underway depth₀ root start calls depth c ⟨.node (.access span x), fuel + 1, m⟩)
    (hx : m.store.meaning c x = .absent) :
    ∃ d, e.Reports d ∧ d.kind = .runtime ∧ d.details = s!"'{x}' is not defined" ∧
      Diagnostic.traceback? d.context d.start =
        some (String.join (traceLines root.name calls span.start)) ∧
      (traceLines root.name calls span.start).length = calls.length + 1 := by
  have hread : eval (fuel + 1) depth c (.access span x) m = (.error (.error ⟨.runtime,
      s!"'{x}' is not defined", some span.start, some span.stop, some c⟩), m) := by
    rw [eval, access_eq, hx]
    rfl
  obtain ⟨hroot, hreports⟩ := reports_of_stopsWith he hl (hu.stopsWith hread)
  refine ⟨_, hreports, rfl, rfl, ?_, length_traceLines _ _ _⟩
  exact hu.traceback?_eq (ho.leads hl) hroot span.start

def callsUnder : Nat → List NamedCall → Event → List (List NamedCall × Event)
  | 0, _, _ => []
  | n + 1, calls, e => (calls, e) :: e.parts.flatMap fun f =>
    match e, f with
    | _, .part (.inside _ _ _) => callsUnder n calls f
    | .part (.inside _ _ ⟨.node (.call _ (.access place _) _), _, _⟩), .part (.call _ _ r _ m) =>
      match (m.store.object r).payload with
      | .function name _ _ _ => f.parts.flatMap (callsUnder n (calls ++ [⟨name, place.start⟩]))
      | _ => []
    | _, _ => []

theorem underway_of_mem {n : Nat} {calls' : List NamedCall} {q : Point} {f : Event}
    (hu : Underway depth₀ root start calls depth c q)
    (h : (calls', f) ∈ callsUnder n calls (.part (.inside depth c q))) :
    ∃ depth' c' q', f = .part (.inside depth' c' q') ∧
      Underway depth₀ root start calls' depth' c' q' := by
  induction n generalizing calls depth c q with
  | zero => cases h
  | succ n ih =>
    rcases List.mem_cons.mp h with hself | h
    · cases hself
      exact ⟨depth, c, q, rfl, hu⟩
    · obtain ⟨g, hg, hf⟩ := List.mem_flatMap.mp h
      replace hg := leads_iff.mpr hg
      split at hf
      · cases hg with
        | part hl =>
          cases hl with
          | enters hstep => exact ih (hu.enters hstep) hf
      · next heq =>
        cases heq
        split at hf
        · next hfunction =>
          obtain ⟨k, hk, hf⟩ := List.mem_flatMap.mp hf
          cases hg with
          | part hcall =>
            cases leads_iff.mpr hk with
            | run hp => cases hfunction.symm.trans hp
            | part hbody =>
              have hentered := hbody
              cases hbody with
              | body => exact ih (.call hu hcall hfunction hentered .refl) hf
        · cases hf
      · cases hf

def undefinedInner : Event :=
  .text 24 9 ⟨"<stdin>", "func g() -> y\nfunc f()\nreturn g()\nend\nf()"⟩
    (Machine.start (.start ⟨"/home", []⟩))

def undefinedRead? : Event → Option Position
  | .part (.inside _ c ⟨.node (.access span x), _ + 1, m⟩) =>
    if m.store.meaning c x = .absent then some span.start else none
  | _ => none

theorem exists_of_undefinedRead? {place : Position} (h : e.undefinedRead? = some place) :
    ∃ depth c span x fuel m, e = .part (.inside depth c ⟨.node (.access span x), fuel + 1, m⟩) ∧
      m.store.meaning c x = .absent ∧ place = span.start := by
  unfold undefinedRead? at h
  split at h
  · next depth c span x fuel m =>
    split at h
    · next hx =>
      cases h
      exact ⟨depth, c, span, x, fuel, m, rfl, hx, rfl⟩
    · cases h
  · cases h

def innerTrace : String :=
  "  File <stdin>, line 5, in <<stdin>>\n" ++ "  File <stdin>, line 3, in f\n" ++
    "  File <stdin>, line 1, in g\n"

def showsInner (u : List NamedCall × Event) : Bool :=
  u.2.undefinedRead?.any fun place =>
    String.join (traceLines "<<stdin>>" u.1 place) = innerTrace

/-- The program is shown at the call of the outer function, that one at the call of the inner one,
and the inner function at the name. -/
theorem Occurs.traceback_of_undefined_inner : Occurs undefinedInner ∧
    ∃ d, undefinedInner.Reports d ∧
      Diagnostic.traceback? d.context d.start = some innerTrace := by
  have ho : Occurs undefinedInner := .text (.start _) 24 9 _
  have hany : undefinedInner.parts.any (fun e => (callsUnder 24 [] e).any showsInner) = true := by
    decide +kernel
  obtain ⟨e, he, hany⟩ := List.any_eq_true.mp hany
  obtain ⟨⟨calls, f⟩, hf, hshows⟩ := List.any_eq_true.mp hany
  rw [showsInner, Option.any_eq_true] at hshows
  obtain ⟨place, hplace, htrace⟩ := hshows
  obtain ⟨depth, c, span, x, fuel, m, rfl, hx, rfl⟩ := exists_of_undefinedRead? hplace
  have hl := leads_iff.mpr he
  obtain ⟨start, rfl⟩ : ∃ start, e = .part (.inside 8 (programContext "<stdin>") start) := by
    cases hl
    exact ⟨_, rfl⟩
  obtain ⟨_, _, _, heq, hu⟩ := underway_of_mem (.root .refl) hf
  cases heq
  obtain ⟨d, hreports, -, -, htraceback, -⟩ := ho.traceback_of_undefined rfl hl hu hx
  exact ⟨ho, d, hreports, htraceback.trans (congrArg some (of_decide_eq_true htrace))⟩

end Event

end Eval

end Think
