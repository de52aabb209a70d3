import Think.Proofs.Eval.Builtins

/-! # Signals

Which signals can come out of an evaluation. A value is only ever returned if it counts as
something, and no call and no program passes a return on.
-/

namespace Think

open Store

abbrev Tame {α : Type} (x : Eval α) : Prop := Obeys Change (fun e _ => e.IsFailure) x

/-- The evaluation may change tables too, and if it stops, it does so with a fault or with an error
that `E` allows. -/
abbrev Reports (E : Diagnostic → Store → Prop) {α : Type} (x : Eval α) : Prop :=
  Obeys Change (Stop.Within E) x

abbrev Mute {α : Type} (x : Eval α) : Prop := Reports (fun _ _ => False) x

abbrev Contained {α : Type} (x : Eval α) : Prop := Obeys Change (fun e _ => ∀ v, e ≠ .returned v) x

abbrev Returns {α : Type} (x : Eval α) : Prop :=
  Obeys Change (fun e s => ∀ v, e = .returned v → s.isSomething v = true) x

section

variable {α : Type} {E : Diagnostic → Store → Prop} {x : Eval α}

theorem Plain.tame (h : Plain x) : Tame x := h.mono (fun _ _ => .value) fun _ _ h => h

theorem Reports.tame (h : Reports E x) : Tame x :=
  h.mono (fun _ _ h => h) fun _ _ => Stop.Within.isFailure

theorem PlainWithin.reports (h : PlainWithin E x) : Reports E x :=
  h.mono (fun _ _ => .value) fun _ _ h => h

theorem Modest.reports (h : Modest E x) : Reports E x := h.within.reports

theorem Modest.mute (h : Modest (fun _ _ => False) x) : Mute x := h.reports

theorem Mute.reports (h : Mute x) : Reports E x :=
  h.mono (fun _ _ h => h) fun _ _ h => h.mono fun _ => False.elim

theorem Mute.not_stops (h : Mute x) {m m' : Machine} {e : Stop} (he : ∀ f, e ≠ .fault f) :
    x m ≠ (.error e, m') := by
  intro hm
  have hstop := h.stop hm
  cases e with
  | fault f => exact he f rfl
  | _ => exact hstop

theorem Tame.contained (h : Tame x) : Contained x := by
  apply h.mono (fun _ _ h => h)
  rintro _ _ h v rfl
  exact h

theorem Contained.returns (h : Contained x) : Returns x := by
  apply h.mono (fun _ _ h => h)
  intro e _ h v he
  exact absurd he (h v)

theorem Contained.not_returned (h : Contained x) {m m' : Machine} {v : Value} :
    x m ≠ (.error (.returned v), m') := by
  intro hm
  exact h.stop hm v rfl

theorem Tame.not_returned (h : Tame x) {m m' : Machine} {v : Value} :
    x m ≠ (.error (.returned v), m') := h.contained.not_returned

theorem Plain.not_returned (h : Plain x) {m m' : Machine} {v : Value} :
    x m ≠ (.error (.returned v), m') := h.tame.not_returned

theorem Returns.isSomething (h : Returns x) {m m' : Machine} {v : Value}
    (hm : x m = (.error (.returned v), m')) : m'.store.isSomething v = true := h.stop hm v rfl

theorem Tame.returns (h : Tame x) : Returns x := h.contained.returns

theorem Plain.returns (h : Plain x) : Returns x := h.tame.returns

end

namespace Eval

@[simp]
theorem mute_childTable (t : TableRef) : Mute (childTable t) :=
  .step (fun _ => rfl) fun _ => .table _

theorem mute_newTable : Mute newTable := .step (fun _ => rfl) fun _ => .table _

@[simp]
theorem mute_bind (t : TableRef) (name : String) (v : Value) : Mute (bind t name v) :=
  .step (fun _ => rfl) fun _ => .bind t name v

theorem within_allocateAt {E : Diagnostic → Store → Prop} (p : Payload) (span : Span)
    (context : Context) : PlainWithin E (allocateAt p span context) :=
  (PlainWithin.allocate _).bind fun _ => .pure _

theorem plain_allocateAt (p : Payload) (span : Span) (context : Context) :
    Plain (allocateAt p span context) :=
  (within_allocateAt (E := fun _ _ => False) p span context).plain

theorem within_listAt {E : Diagnostic → Store → Prop} (vs : List Value) (span : Span)
    (context : Context) : PlainWithin E (listAt vs span context) :=
  (Modest.allocateList _).within.bind fun _ => within_allocateAt _ span context

theorem plain_listAt (vs : List Value) (span : Span) (context : Context) :
    Plain (listAt vs span context) :=
  (within_listAt (E := fun _ _ => False) vs span context).plain

def PlaceReport (context : Context) (span : Span) (d : Diagnostic) (_ : Store) : Prop :=
  ∃ details, d = ⟨.runtime, details, some span.start, some span.stop, some context⟩

theorem within_access (context : Context) (span : Span) (name : String) :
    PlainWithin (PlaceReport context span) (access context span name) := by
  apply Obeys.bind (Obeys.lookup _ _)
  intro found
  dsimp only
  split
  all_goals
    apply Obeys.bind (by first | exact Obeys.lookup _ _ | exact Obeys.pure _)
    intro v
    split
    · exact .throw fun _ => ⟨_, rfl⟩
    · exact (Modest.fault _).within
    · exact (PlainWithin.copyTo _ span context).bind fun _ => .pure _

theorem plain_access (context : Context) (span : Span) (name : String) :
    Plain (access context span name) := (within_access context span name).plain

@[simp]
theorem modest_placed {E : Diagnostic → Store → Prop} (span : Span) (a : Answer) :
    Modest E (placed span a) := by
  cases a with
  | truth b => exact .fault _
  | value v =>
    apply Obeys.bind (Modest.objectOf v)
    rintro ⟨r, o⟩
    simp

def BinaryReport (left right : Value) (d : Diagnostic) (s : Store) : Prop :=
  ∃ l, left = .object l ∧ Operator.Reported l right d s

theorem modest_binary (op : BinaryOp) (span : Span) (left right : Value) :
    Modest (BinaryReport left right) (binary op span left right) := by
  cases left with
  | absent | bare => exact .fault _
  | object l =>
    rw [binary, objectOf_bind]
    apply Obeys.bind (Obeys.object l)
    intro o
    apply Obeys.bind ((Operator.modest_binary l right op).weaken fun d s h => ⟨l, rfl, h⟩)
    simp

theorem plain_binary (op : BinaryOp) (span : Span) (left right : Value) :
    Plain (binary op span left right) := (modest_binary op span left right).plain

def UnaryReport (arg : Value) (d : Diagnostic) (s : Store) : Prop :=
  ∃ r other, arg = .object r ∧ Operator.Reported r other d s

theorem modest_unary (op : UnaryOp) (span : Span) (arg : Value) :
    Modest (UnaryReport arg) (unary op span arg) := by
  cases arg with
  | absent | bare => exact .fault _
  | object r =>
    rw [unary, objectOf_bind]
    apply Obeys.bind (Obeys.object r)
    intro o
    cases op with
    | plus => simp
    | not => simp
    | minus =>
      apply Obeys.bind (BuiltinCall.modest_number _)
      intro v
      apply Obeys.bind ((Operator.modest_binary r v .mul).weaken fun d s h => ⟨r, v, rfl, h⟩)
      simp

theorem plain_unary (op : UnaryOp) (span : Span) (arg : Value) : Plain (unary op span arg) :=
  (modest_unary op span arg).plain

theorem mute_callContext (callee : Object) (name : String) : Mute (callContext callee name) := by
  unfold callContext
  split
  · exact (Modest.fault _).mute
  · apply Obeys.bind (mute_childTable _)
    simp

def CalleeReport (callee : Object) (d : Diagnostic) (_ : Store) : Prop :=
  ∃ details, d = ⟨.runtime, details, callee.start, callee.stop, callee.context⟩

theorem modest_checkCount (ref : ObjectRef) (callee : Object) (params : List String)
    (args : List Value) : Modest (CalleeReport callee) (checkCount ref callee params args) := by
  have hreport (count : Nat) (which : String) : Modest (CalleeReport callee) (do
      let whole ← written (.object ref)
      error callee.start callee.stop s!"{count} too {which} args passed into {whole}"
        callee.context : Eval Unit) := by
    apply Obeys.bind (Modest.written _)
    intro whole
    exact .throw fun _ => ⟨_, rfl⟩
  unfold checkCount
  dsimp only
  split
  · apply Obeys.bind (hreport _ _)
    intro _
    split
    · exact hreport _ _
    · simp
  · split
    · exact hreport _ _
    · simp

theorem plain_checkCount (ref : ObjectRef) (callee : Object) (params : List String)
    (args : List Value) : Plain (checkCount ref callee params args) :=
  (modest_checkCount ref callee params args).plain

theorem mute_bindArgs (context : Context) (params : List String) (args : List Value) :
    Mute (bindArgs context params args) := by
  fun_induction bindArgs context params args with
  | case1 p params v args ih =>
    apply Obeys.bind (Modest.objectOf v).mute
    rintro ⟨r, o⟩
    apply Obeys.bind (PlainWithin.enter r _).reports
    simp [ih]
  | case2 => exact .pure _

theorem reports_enterFunction (ref : ObjectRef) (callee : Object) (name : String)
    (params : List String) (args : List Value) :
    Reports (CalleeReport callee) (enterFunction ref callee name params args) := by
  apply Obeys.bind (mute_callContext callee name).reports
  intro context
  apply Obeys.bind (modest_checkCount ref callee params args).reports
  intro _
  exact (mute_bindArgs context params args).reports.bind fun _ => .pure _

theorem modest_calleeAt {E : Diagnostic → Store → Prop} (span : Span) (v : Value) :
    Modest E (calleeAt span v) := by
  apply Obeys.bind (Modest.objectOf v)
  rintro ⟨r, o⟩
  simp

theorem plain_calleeAt (span : Span) (v : Value) : Plain (calleeAt span v) :=
  (modest_calleeAt (E := fun _ _ => False) span v).plain

theorem within_resultAt {E : Diagnostic → Store → Prop} (span : Span) (context : Context)
    (v : Value) : PlainWithin E (resultAt span context v) := by
  apply Obeys.bind (Modest.objectOf v).within
  rintro ⟨r, o⟩
  exact (PlainWithin.copyTo r span context).bind fun _ => .pure _

theorem plain_resultAt (span : Span) (context : Context) (v : Value) :
    Plain (resultAt span context v) :=
  (within_resultAt (E := fun _ _ => False) span context v).plain

theorem modest_loopStart {E : Diagnostic → Store → Prop} (first step : Value) :
    Modest E (loopStart first step) := by
  apply Obeys.bind (BuiltinCall.modest_plainNumber first)
  simp

theorem plain_loopStart (first step : Value) : Plain (loopStart first step) :=
  (modest_loopStart (E := fun _ _ => False) first step).plain

theorem mute_startRound (context : Context) (name : String) (i by_ : Number) (up : Bool)
    (last : Value) : Mute (startRound context name i by_ up last) := by
  apply Obeys.bind (BuiltinCall.modest_plainNumber last).mute
  intro bound
  apply Obeys.bind (Modest.lift _).mute
  intro more
  split
  · apply Obeys.bind (BuiltinCall.modest_number _).mute
    intro v
    apply Obeys.bind (mute_bind _ _ _)
    intro _
    exact (Modest.lift _).mute.bind fun _ => .pure _
  · exact .pure _

theorem modest_functionResult {E : Diagnostic → Store → Prop} (isExpression : Bool) (v : Value) :
    Modest E (functionResult isExpression v) := by
  apply Obeys.bind Obeys.store
  intro s
  split <;> simp

theorem plain_functionResult (isExpression : Bool) (v : Value) :
    Plain (functionResult isExpression v) :=
  (modest_functionResult (E := fun _ _ => False) isExpression v).plain

theorem functionResult_eq (isExpression : Bool) (v : Value) (m : Machine) :
    functionResult isExpression v m =
      (.ok (if isExpression && m.store.isSomething v then v else BuiltinCall.nullValue), m) := by
  change (if isExpression && m.store.isSomething v then pure v else pure BuiltinCall.nullValue :
    Eval Value) m = _
  split <;> rfl

theorem returnValue_something {v : Value} {m : Machine} (h : m.store.isSomething v = true) :
    returnValue v m = (.error (.returned v), m) := by
  change (if m.store.isSomething v then throw (.returned v) else pure .absent : Eval Value) m = _
  rw [if_pos h]
  rfl

theorem returnValue_nothing {v : Value} {m : Machine} (h : m.store.isSomething v = false) :
    returnValue v m = (.ok .absent, m) := by
  change (if m.store.isSomething v then throw (.returned v) else pure .absent : Eval Value) m = _
  rw [if_neg (by simp [h])]
  rfl

theorem returnValue_eq_error {v : Value} {e : Stop} {m m' : Machine}
    (h : returnValue v m = (.error e, m')) : e = .returned v ∧ m = m' := by
  cases hv : m.store.isSomething v with
  | false =>
    rw [returnValue_nothing hv] at h
    cases h
  | true =>
    rw [returnValue_something hv] at h
    cases h
    exact ⟨rfl, rfl⟩

theorem returns_returnValue (v : Value) : Returns (returnValue v) := by
  intro m
  cases h : m.store.isSomething v with
  | false => exact .of_ok (returnValue_nothing h) .refl
  | true =>
    apply ObeysAt.of_error (returnValue_something h) .refl
    rintro _ ⟨⟩
    exact h

theorem modest_programValue {E : Diagnostic → Store → Prop} (v : Value) :
    Modest E (programValue v) := by
  simp [programValue]

theorem plain_programValue (v : Value) : Plain (programValue v) :=
  (modest_programValue (E := fun _ _ => False) v).plain

theorem mute_settle {x : Eval Value} (hx : Returns x) : Mute (settle x) := by
  have hshown : Returns (x >>= programValue) := hx.bind fun v => (plain_programValue v).returns
  apply Obeys.handle hshown
  · intro v
    exact .pure _
  · intro e m _
    split
    · contradiction
    · exact Obeys.pure _ m
    · exact Obeys.pure _ m
    · exact (Modest.fault _).mute m
    · exact Obeys.pure _ m

theorem programValue_eq_ok {u v : Value} {m m' : Machine} (h : programValue u m = (.ok v, m')) :
    (v = u ∨ v = .bare "") ∧ m' = m := by
  obtain ⟨t, m₁, ht, h⟩ := bind_eq_ok h
  have hm : m₁ = m := by
    obtain ⟨s, m₂, hs, ht⟩ := bind_eq_ok ht
    cases hs
    cases hw : (m.store.snapshot u).written with
    | ok t' => rw [hw] at ht; cases ht; rfl
    | error f => rw [hw] at ht; cases ht
  cases h
  subst hm
  refine ⟨?_, rfl⟩
  split
  · exact .inr rfl
  · exact .inl rfl

/-- A program that ends with a value has evaluated to it or to null, or it was stopped by a signal
that nothing took. -/
theorem settle_eq_ok {x : Eval Value} {v : Value} {m m' : Machine}
    (h : settle x m = (.ok (.ok v), m')) :
    (∃ u, x m = (.ok u, m') ∧ (v = u ∨ v = .bare "")) ∨
      v = .absent ∧ ∃ e, ¬ e.IsFailure ∧ x m = (.error e, m') := by
  have hsettle : settle x m = _ := bind_ok (outcome_apply (x >>= programValue) m)
  rw [hsettle] at h
  rcases hx : x m with ⟨e | u, m₁⟩
  · rw [bind_error hx] at h
    cases e with
    | fault f => cases f <;> cases h
    | error d => cases h
    | returned | continued | broke =>
      cases h
      exact .inr ⟨rfl, _, id, rfl⟩
  · rw [bind_ok hx] at h
    rcases hv : programValue u m₁ with ⟨e | w, m₂⟩
    · rw [hv] at h
      obtain ⟨f, rfl⟩ : ∃ f, e = .fault f := by
        cases e with
        | fault f => exact ⟨f, rfl⟩
        | _ => exact ((modest_programValue u).mute.stop hv).elim
      cases f <;> cases h
    · rw [hv] at h
      cases h
      obtain ⟨hw, rfl⟩ := programValue_eq_ok hv
      exact .inl ⟨u, rfl, hw⟩

/-- A program that ends with an error has stopped with it, or it was interrupted. -/
theorem settle_eq_error {x : Eval Value} {d : Diagnostic} {m m' : Machine}
    (h : settle x m = (.ok (.error d), m')) :
    x m = (.error (.error d), m') ∨ d = interruptReport := by
  have hsettle : settle x m = _ := bind_ok (outcome_apply (x >>= programValue) m)
  rw [hsettle] at h
  rcases hx : (x >>= programValue) m with ⟨e | v, m₁⟩
  · rw [hx] at h
    cases e with
    | fault f =>
      cases f <;> cases h
      exact .inr rfl
    | error d' =>
      cases h
      rcases bind_eq_error hx with hx | ⟨u, m₂, -, hv⟩
      · exact .inl hx
      · exact ((modest_programValue u).mute.stop hv).elim
    | returned | continued | broke => cases h
  · rw [hx] at h
    cases h

theorem modest_treeOf {E : Diagnostic → Store → Prop} (source : Source) :
    Modest E (treeOf source) := by
  unfold treeOf
  split <;> try simp
  split <;> simp

theorem modest_readFile {E : Diagnostic → Store → Prop} (path : String) :
    Modest E (readFile path) := by
  apply Obeys.bind Obeys.world
  intro w
  split <;> simp

theorem modest_importFile (context : Context) (span : Span) (path : String) :
    Modest (PlaceReport context span) (importFile context span path) := by
  apply Obeys.bind Obeys.world
  intro w
  split
  · simp
  · dsimp only
    repeat' split
    all_goals first | exact .pure _ | exact .throw fun _ => ⟨_, rfl⟩

theorem plain_importFile (context : Context) (span : Span) (path : String) :
    Plain (importFile context span path) := (modest_importFile context span path).plain

theorem modest_askModel {E : Diagnostic → Store → Prop} (request : Value) :
    Modest E (askModel request) := by
  apply Obeys.bind (Modest.written _)
  intro request
  apply Obeys.bind (Obeys.modifyWorld _)
  intro _
  apply Obeys.bind Obeys.world
  intro w
  apply Obeys.bind (Modest.lift _)
  intro prompt
  apply Obeys.bind (Obeys.modifyWorld _)
  intro _
  simp

theorem plain_askModel (request : Value) : Plain (askModel request) :=
  (modest_askModel (E := fun _ _ => False) request).plain

/-- What holds of all parts of the evaluator with the given fuel. -/
structure Disciplined (fuel : Nat) : Prop where
  eval : ∀ depth context node, Returns (eval fuel depth context node)
  evalAll : ∀ depth context nodes, Returns (evalAll fuel depth context nodes)
  evalCases : ∀ depth context cases fallback, Returns (evalCases fuel depth context cases fallback)
  repeatFor : ∀ depth context name i by_ up last body done,
    Returns (repeatFor fuel depth context name i by_ up last body done)
  repeatWhile : ∀ depth context condition body done,
    Returns (repeatWhile fuel depth context condition body done)
  call : ∀ depth ref args, Contained (call fuel depth ref args)
  runFile : ∀ depth c file, Reports c.Fails (runFile fuel depth c file)
  runText : ∀ depth source, Mute (runText fuel depth source)
  importText : ∀ depth path, Mute (importText fuel depth path)

namespace Disciplined

theorem zero : Disciplined 0 := by
  constructor
  case call =>
    intros
    rw [Eval.call]
    exact (Plain.fault _).tame.contained
  case runFile | runText | importText =>
    intros
    simp only [Eval.runFile, Eval.runText, Eval.importText]
    exact (Modest.fault _).reports
  all_goals
    intros
    simp only [Eval.eval, Eval.evalAll, Eval.evalCases, Eval.repeatFor, Eval.repeatWhile]
    exact (Plain.fault _).returns

variable {n : Nat} (ih : Disciplined n)

include ih

theorem evalAll_succ (depth : Nat) (context : Context) (nodes : List Node) :
    Returns (Eval.evalAll (n + 1) depth context nodes) := by
  cases nodes with
  | nil =>
    rw [Eval.evalAll]
    exact .pure _
  | cons node nodes =>
    rw [Eval.evalAll]
    apply Obeys.bind (ih.eval depth context node)
    intro v
    exact (ih.evalAll depth context nodes).bind fun _ => .pure _

theorem evalCases_succ (depth : Nat) (context : Context) (cases : List (Node × Node × Bool))
    (fallback : Option (Node × Bool)) :
    Returns (Eval.evalCases (n + 1) depth context cases fallback) := by
  match cases, fallback with
  | [], none =>
    rw [Eval.evalCases]
    exact .pure _
  | [], some (body, block) =>
    rw [Eval.evalCases]
    exact (ih.eval depth context body).bind fun _ => .pure _
  | (condition, body, block) :: rest, fallback =>
    rw [Eval.evalCases]
    apply Obeys.bind (ih.eval depth context condition)
    intro v
    apply Obeys.bind (Plain.isTrue v).returns
    intro holds
    split
    · exact (ih.eval depth context body).bind fun _ => .pure _
    · exact ih.evalCases depth context rest fallback

/-- A loop takes the signals meant for it and passes on the others. -/
theorem repeatFor_succ (depth : Nat) (context : Context) (name : String) (i by_ : Number)
    (up : Bool) (last : Value) (body : Node) (done : List Value) :
    Returns (Eval.repeatFor (n + 1) depth context name i by_ up last body done) := by
  rw [Eval.repeatFor]
  apply Obeys.bind (mute_startRound context name i by_ up last).tame.returns
  intro next
  split
  · exact .pure _
  · apply Obeys.handle (ih.eval depth context body)
    · intro v
      exact ih.repeatFor _ _ _ _ _ _ _ _ _
    · intro e m he
      cases e with
      | continued => exact ih.repeatFor _ _ _ _ _ _ _ _ _ m
      | broke => exact Obeys.pure _ m
      | _ => exact .throw he

theorem repeatWhile_succ (depth : Nat) (context : Context) (condition body : Node)
    (done : List Value) : Returns (Eval.repeatWhile (n + 1) depth context condition body done) := by
  rw [Eval.repeatWhile]
  apply Obeys.bind (ih.eval depth context condition)
  intro v
  apply Obeys.bind (Plain.isTrue v).returns
  intro holds
  split
  · apply Obeys.handle (ih.eval depth context body)
    · intro v
      exact ih.repeatWhile _ _ _ _ _
    · intro e m he
      cases e with
      | continued => exact ih.repeatWhile _ _ _ _ _ m
      | broke => exact Obeys.pure _ m
      | _ => exact .throw he
  · exact .pure _

/-- A call takes a return, so it gives its value and does not pass it on. -/
theorem call_succ (depth : Nat) (ref : ObjectRef) (args : List Value) :
    Contained (Eval.call (n + 1) depth ref args) := by
  cases depth with
  | zero =>
    rw [Eval.call]
    · exact (Plain.fault _).tame.contained
    · simp
  | succ depth =>
    rw [Eval.call]
    apply Obeys.bind (Obeys.object ref)
    intro callee
    split
    · apply Obeys.bind (reports_enterFunction ref callee _ _ args).tame.contained
      intro context
      apply Obeys.handle (ih.eval depth context _)
      · intro v
        exact (plain_functionResult _ v).tame.contained
      · intro e m _
        cases e with
        | returned v => exact Obeys.pure _ m
        | _ => exact .throw (by simp)
    · apply Obeys.bind (mute_callContext callee _).tame.contained
      intro context
      split
      · exact (Plain.fault _).tame.contained
      · apply Obeys.bind (plain_checkCount ref callee _ args).tame.contained
        intro _
        apply Obeys.bind (mute_bindArgs context _ args).tame.contained
        intro refs
        split
        · exact (ih.runFile depth _ _).tame.contained
        · exact (BuiltinCall.modest_perform _ _ _).plain.tame.contained
    · exact (Operator.modest_unknown ref _).plain.tame.contained

theorem runText_succ (depth : Nat) (source : Source) :
    Mute (Eval.runText (n + 1) depth source) := by
  cases depth with
  | zero =>
    rw [Eval.runText]
    · exact (Modest.fault _).mute
    · simp
  | succ depth =>
    rw [Eval.runText]
    apply Obeys.bind (modest_treeOf source).mute
    intro tree
    split
    · exact .pure _
    · apply Obeys.bind (BuiltinCall.modest_number _).mute
      intro one
      apply Obeys.bind (mute_bind _ _ _)
      intro _
      exact mute_settle (ih.eval _ _ _)

theorem importText_succ (depth : Nat) (path : String) :
    Mute (Eval.importText (n + 1) depth path) := by
  cases depth with
  | zero =>
    rw [Eval.importText]
    · exact (Modest.fault _).mute
    · simp
  | succ depth =>
    rw [Eval.importText]
    apply Obeys.bind (modest_readFile path).mute
    intro text
    apply Obeys.bind (modest_treeOf _).mute
    intro tree
    split
    · exact .pure _
    · apply Obeys.bind mute_newTable
      intro hidden
      apply Obeys.bind (BuiltinCall.modest_number _).mute
      intro zero
      apply Obeys.bind (mute_bind _ _ _)
      intro _
      exact mute_settle (ih.eval _ _ _)

theorem runFile_succ (depth : Nat) (c : BuiltinCall) (file : ObjectRef) :
    Reports c.Fails (Eval.runFile (n + 1) depth c file) := by
  rw [Eval.runFile]
  apply Obeys.bind (c.civil_textArg file _).modest.reports
  intro path
  apply Obeys.bind Obeys.world
  intro w
  split
  · exact (c.modest_fail _).reports
  · apply Obeys.bind (ih.runText depth _).reports
    intro ending
    split
    · exact .pure _
    · split
      · exact (c.modest_fail _).reports
      · exact (Modest.fault _).reports

theorem forLoop_succ (depth : Nat) (context : Context) (span : Span) (name : String)
    (first last : Node) (step : Option Node) (body : Node) (block : Bool) :
    Returns (Eval.eval (n + 1) depth context (.forLoop span name first last step body block)) := by
  rw [Eval.eval]
  apply Obeys.bind (ih.eval depth context first)
  intro first
  apply Obeys.bind (ih.eval depth context last)
  intro last
  dsimp only
  split
  all_goals
    apply Obeys.bind (by first | exact ih.eval depth context _ | exact (Plain.make _).returns)
    intro step
    apply Obeys.bind (plain_loopStart first step).returns
    rintro ⟨i, by_, up⟩
    apply Obeys.bind (ih.repeatFor _ _ _ _ _ _ _ _ _)
    intro vs
    split
    · exact .pure _
    · exact (plain_listAt vs span context).returns

theorem callNode_succ (depth : Nat) (context : Context) (span : Span) (callee : Node)
    (args : List Node) : Returns (Eval.eval (n + 1) depth context (.call span callee args)) := by
  rw [Eval.eval]
  apply Obeys.bind (ih.eval depth context callee)
  intro v
  apply Obeys.bind (plain_calleeAt span v).returns
  intro f
  apply Obeys.bind (ih.evalAll depth context args)
  intro vs
  apply Obeys.bind (ih.call depth f vs).returns
  intro w
  exact (plain_resultAt span context w).returns

theorem eval_succ (depth : Nat) (context : Context) (node : Node) :
    Returns (Eval.eval (n + 1) depth context node) := by
  cases node with
  | number span v => cases v <;> (rw [Eval.eval]; exact (plain_allocateAt _ span context).returns)
  | text span s =>
    rw [Eval.eval]
    exact (plain_allocateAt _ span context).returns
  | list span items =>
    rw [Eval.eval]
    exact (ih.evalAll depth context items).bind fun vs => (plain_listAt vs span context).returns
  | access span name =>
    rw [Eval.eval]
    exact (plain_access context span name).returns
  | assign span name value =>
    rw [Eval.eval]
    apply Obeys.bind (ih.eval depth context value)
    intro v
    apply Obeys.bind (mute_bind _ _ _).tame.returns
    intro _
    exact (mute_bind _ _ _).tame.returns.bind fun _ => .pure _
  | binary span op left right =>
    rw [Eval.eval]
    apply Obeys.bind (ih.eval depth context left)
    intro l
    apply Obeys.bind (ih.eval depth context right)
    intro r
    exact (plain_binary op span l r).returns
  | unary span op arg =>
    rw [Eval.eval]
    exact (ih.eval depth context arg).bind fun v => (plain_unary op span v).returns
  | branch span cases fallback =>
    rw [Eval.eval]
    exact ih.evalCases depth context cases fallback
  | forLoop span name first last step body block =>
    exact ih.forLoop_succ depth context span name first last step body block
  | whileLoop span condition body block =>
    rw [Eval.eval]
    apply Obeys.bind (ih.repeatWhile depth context condition body [])
    intro vs
    split
    · exact .pure _
    · exact (plain_listAt vs span context).returns
  | function span name params body isExpression =>
    rw [Eval.eval]
    apply Obeys.bind (plain_allocateAt _ span context).returns
    intro f
    split
    · exact (mute_bind _ _ _).tame.returns.bind fun _ => .pure _
    · exact .pure _
  | call span callee args => exact ih.callNode_succ depth context span callee args
  | ret span value =>
    cases value with
    | none =>
      rw [Eval.eval]
      exact (Obeys.pure _).bind fun v => returns_returnValue v
    | some e =>
      rw [Eval.eval]
      exact (ih.eval depth context e).bind fun v => returns_returnValue v
  | think span value =>
    cases value
    all_goals
      rw [Eval.eval]
      apply Obeys.bind (by first | exact ih.eval depth context _ | exact Obeys.pure _)
      intro v
      apply Obeys.bind (plain_askModel v).returns
      intro code
      exact (ih.runText depth _).tame.returns.bind fun _ => .pure _
  | importFile span path =>
    rw [Eval.eval]
    apply Obeys.bind (plain_importFile context span path).returns
    intro file
    apply Obeys.bind (ih.importText depth file).tame.returns
    intro ending
    split
    · exact .pure _
    · exact .throw (by simp)
  | continueLoop span =>
    rw [Eval.eval]
    exact .throw (by simp)
  | breakLoop span =>
    rw [Eval.eval]
    exact .throw (by simp)

theorem succ : Disciplined (n + 1) where
  eval := ih.eval_succ
  evalAll := ih.evalAll_succ
  evalCases := ih.evalCases_succ
  repeatFor := ih.repeatFor_succ
  repeatWhile := ih.repeatWhile_succ
  call := ih.call_succ
  runFile := ih.runFile_succ
  runText := ih.runText_succ
  importText := ih.importText_succ

end Disciplined

theorem disciplined (fuel : Nat) : Disciplined fuel := by
  induction fuel with
  | zero => exact .zero
  | succ n ih => exact ih.succ

end Eval

end Think
