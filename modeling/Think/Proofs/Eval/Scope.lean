import Think.Proofs.Eval.Confinement

/-! # Where a function looks up its names

A function value carries a context: that in which it was made, or in which it was last read from a
name or given by a call. Names that it does not bind itself are looked up there. For a function
that is called by its name this is the context of the call, so names have dynamic scope.
-/

namespace Think

namespace Store

variable {W : TableRef → String → Prop} {s s' : Store} {t outer : TableRef} {x : String}

/-- A name that is not bound in a table made in front of another is looked up in that one. -/
theorem Kept.lookup_front (h : Kept W s s') (ht : t.index < s.tables.size)
    (houter : outer.index < s.tables.size)
    (htable : s.table t = ⟨[], outer :: (s.table outer).ancestors⟩) (hx : ¬ W t x) :
    s'.lookup t x = s'.lookup outer x := by
  have hget : (s'.table t).get x = .absent := by
    rw [Table.get, h.entry t x ht hx, htable]
    rfl
  have hancestors : (s'.table t).ancestors = outer :: (s'.table outer).ancestors := by
    rw [h.ancestors t ht, h.ancestors outer houter, htable]
  rw [lookup, search, hget, hancestors]
  rfl

/-- The two tables of a call stand in front of those that the function carries. -/
theorem table_children {a b : TableRef} (ha : a.index < s.tables.size)
    (hb : b.index < s.tables.size) :
    let s₁ := ((s.childOf a).2.childOf b).2
    s₁.tables.size = s.tables.size + 2 ∧
      s₁.table ⟨s.tables.size⟩ = ⟨[], a :: (s₁.table a).ancestors⟩ ∧
      s₁.table ⟨s.tables.size + 1⟩ = ⟨[], b :: (s₁.table b).ancestors⟩ := by
  have hsize (s : Store) (t : Table) : (s.allocateTable t).2.tables.size = s.tables.size + 1 := by
    simp [allocateTable]
  simp only [childOf, hsize, table_allocateTable]
  refine ⟨trivial, ?_, ?_⟩
  · simp [Nat.ne_of_lt ha, Nat.ne_of_lt (Nat.lt_succ_of_lt ha)]
  · simp [Nat.ne_of_lt hb, Nat.ne_of_lt (Nat.lt_succ_of_lt hb)]

theorem Kept.lookup_children {a b : TableRef} (ha : a.index < s.tables.size)
    (hb : b.index < s.tables.size) (h : Kept W ((s.childOf a).2.childOf b).2 s')
    (hx : ¬ W ⟨s.tables.size⟩ x) (hx' : ¬ W ⟨s.tables.size + 1⟩ x) :
    s'.lookup ⟨s.tables.size⟩ x = s'.lookup a x ∧
      s'.lookup ⟨s.tables.size + 1⟩ x = s'.lookup b x := by
  obtain ⟨hsize, hfirst, hsecond⟩ := table_children ha hb
  have hrange {i : Nat} (hi : i < s.tables.size + 2) :
      i < ((s.childOf a).2.childOf b).2.tables.size :=
    Nat.lt_of_lt_of_eq hi hsize.symm
  constructor
  · exact h.lookup_front (hrange (Nat.lt_add_of_pos_right Nat.two_pos))
      (hrange (Nat.lt_add_right 2 ha)) hfirst hx
  · exact h.lookup_front (hrange (Nat.lt_succ_self _)) (hrange (Nat.lt_add_right 2 hb)) hsecond hx'

end Store

/-- What a name means in a context. Hidden names come after the others. -/
def Store.meaning (s : Store) (c : Context) (name : String) : Value :=
  if s.lookup c.symbols name = .absent then s.lookup c.hidden name else s.lookup c.symbols name

/-- The expression gives what it finds or makes to the context that it is evaluated in: it is a
name, a call or a function literal. -/
def Node.isDirect : Node → Bool
  | .access .. | .call .. | .function .. => true
  | _ => false

namespace Eval

variable {context : Context} {span : Span} {m m' : Machine} {r q : ObjectRef}

/-- The value of a name that has been looked up, for the place where it is read. -/
def valueRead (context : Context) (span : Span) (name : String) : Value → Eval Value
  | .absent => error (some span.start) (some span.stop) s!"'{name}' is not defined" (some context)
  | .bare _ => fault .noSuchPart
  | .object r => do return .object (← copyTo r span context)

theorem access_eq (context : Context) (span : Span) (name : String) (m : Machine) :
    access context span name m =
      valueRead context span name (m.store.meaning context name) m := by
  have hlookup (t : TableRef) : lookup t name m = (.ok (m.store.lookup t name), m) := rfl
  unfold access Store.meaning
  rw [bind_ok (hlookup context.symbols)]
  by_cases hfound : m.store.lookup context.symbols name = .absent
  · rw [if_pos hfound, if_pos hfound]
    rw [bind_ok (hlookup context.hidden)]
    generalize m.store.lookup context.hidden name = v
    cases v <;> rfl
  · rw [if_neg hfound, if_neg hfound]
    generalize m.store.lookup context.symbols name = v
    cases v <;> rfl

theorem context_copyTo (h : copyTo r span context m = (.ok q, m')) :
    (m'.store.object q).context = some context := by
  by_cases hplain : (m.store.object r).payload = .plain
  · cases (bind_error (copy_plain hplain)).symm.trans h
  · rw [copyTo_eq span context hplain] at h
    cases h
    exact congrArg Object.context (Store.object_push _ _)

/-- A name, a call or a function literal gives a value that carries the context in which it is
evaluated, whatever context the value carried before. -/
theorem context_of_isDirect {fuel depth : Nat} {n : Node} (hn : n.isDirect)
    (h : eval (fuel + 1) depth context n m = (.ok (.object q), m')) :
    (m'.store.object q).context = some context := by
  cases n with
  | access span name =>
    rw [eval, access_eq] at h
    generalize m.store.meaning context name = v at h
    cases v with
    | absent => cases h
    | bare t => cases h
    | object r =>
      obtain ⟨q', m₁, hcopy, h⟩ := bind_eq_ok h
      cases h
      exact context_copyTo hcopy
  | call span callee args =>
    rw [eval] at h
    obtain ⟨v, m₁, -, h⟩ := bind_eq_ok h
    obtain ⟨f, m₂, -, h⟩ := bind_eq_ok h
    obtain ⟨vs, m₃, -, h⟩ := bind_eq_ok h
    obtain ⟨u, m₄, -, h⟩ := bind_eq_ok h
    obtain ⟨⟨r, o⟩, m₅, -, h⟩ := bind_eq_ok h
    obtain ⟨q', m₆, hcopy, h⟩ := bind_eq_ok h
    cases h
    exact context_copyTo hcopy
  | function span name params body isExpression =>
    rw [eval] at h
    cases name with
    | none =>
      cases h
      exact congrArg Object.context (Store.object_push _ _)
    | some name =>
      cases h
      exact congrArg Object.context (Store.object_push _ _)
  | _ => cases hn

end Eval

open Eval

/-- What is called is a copy of the value for the place of the call, and evaluating the arguments
leaves the copy alone: nothing refers to it. -/
theorem Eval.Activity.Sound.object_callee {fuel depth : Nat} {context : Context} {span : Span}
    {callee : Node} {args : List Node} {m m₁ m₂ m₃ : Machine} {v : Value} {f : ObjectRef}
    {vs : List Value}
    (h : (Activity.inside depth context ⟨.node (.call span callee args), fuel + 1, m⟩).Sound)
    (hcallee : eval fuel depth context callee m = (.ok v, m₁))
    (hf : calleeAt span v m₁ = (.ok f, m₂))
    (hargs : evalAll fuel depth context args m₂ = (.ok vs, m₃)) :
    ∃ ρ r, v = .object r ∧ SoundAt ρ context m₁ ∧ ρ.objects r r ∧
      m₁.store.tables.size ≤ m₃.store.tables.size ∧
      m₃.store.object f = (m₁.store.object r).placed span := by
  obtain ⟨ρ, hstart, -⟩ := h
  obtain ⟨ρ₁, -, hsound, hcalled⟩ := hstart.eval_ok hcallee
  cases hcalled with
  | absent => cases hf
  | bare t => cases hf
  | @object r _ hr =>
    by_cases hplain : (m₁.store.object r).payload = .plain
    · cases (bind_error (copy_plain hplain)).symm.trans hf
    · rw [calleeAt_eq span hplain] at hf
      obtain ⟨hfunction, hplaced⟩ := Prod.mk.inj hf
      let o := (m₁.store.object r).placed span
      let placed : Machine := ⟨(m₁.store.allocate o).2, m₁.world⟩
      have hargs : evalAll fuel depth context args placed = (.ok vs, m₃) := by
        rw [← hargs, ← hplaced]
        rfl
      have hstep : InStep ρ₁ Relates.values (evalAll fuel depth context args)
          (evalAll fuel depth context args) placed placed :=
        (simulated (Nat.le_refl _)).evalAll hsound.context rfl (hsound.allClear _)
      have hend := hstep ⟨(hsound.alike.store.allocate_left o).allocate_right o, rfl⟩
      rw [hargs] at hend
      rcases hend with hfuel | ⟨ρ₂, hg, -⟩
      · cases hfuel
      · refine ⟨ρ₁, r, rfl, hsound, hr, hg.tables, ?_⟩
        have hkept := hg.kept ⟨m₁.store.objects.size⟩ (by simp [placed, Store.allocate])
          hsound.alike.store.fresh_left
        rw [← Except.ok.inj hfunction]
        exact hkept.trans (Store.object_push _ _)

namespace Activation

variable (a : Activation)

def activity : Activity :=
  .inside (a.depth + 1) a.site ⟨.node (.call a.span a.callee a.args), a.fuel + 2, a.start⟩

theorem object_function (h : a.activity.Sound) :
    ∃ ρ r, a.called = .object r ∧ SoundAt ρ a.site a.afterCallee ∧ ρ.objects r r ∧
      a.afterCallee.store.tables.size ≤ a.afterArgs.store.tables.size ∧
      a.afterArgs.store.object a.function = (a.afterCallee.store.object r).placed a.span :=
  h.object_callee a.evalCallee a.calleeAt a.evalArgs

/-- The call is entered from the context, with two new tables in front of the context's own. -/
structure EnteredFrom (K : Context) : Prop where
  symbols : K.symbols.index < a.afterArgs.store.tables.size
  hidden : K.hidden.index < a.afterArgs.store.tables.size
  roots : 2 ≤ a.afterArgs.store.tables.size
  enters : callContext (a.afterArgs.store.object a.function) a.name a.afterArgs =
    (.ok a.context,
      ⟨((a.afterArgs.store.childOf K.symbols).2.childOf K.hidden).2, a.afterArgs.world⟩)
  context : a.context = ⟨a.name, some K, some a.span.start, ⟨a.afterArgs.store.tables.size⟩,
    ⟨a.afterArgs.store.tables.size + 1⟩⟩

/-- A call is entered from the context that the called value carries. -/
theorem exists_carried (h : a.activity.Sound) :
    ∃ r K, a.called = .object r ∧ (a.afterCallee.store.object r).context = some K ∧
      a.EnteredFrom K := by
  obtain ⟨ρ, r, hcalled, hsound, hr, hsize, hfunction⟩ := a.object_function h
  obtain ⟨m₁, m₂, refs, hcontext, -, -⟩ := enterFunction_eq_ok a.enterFunction
  obtain ⟨K, hK, hctx, rfl⟩ := callContext_eq_ok hcontext
  have hcarried : (a.afterCallee.store.object r).context = some K := by
    rw [hfunction] at hK
    exact hK
  have hrange := (hsound.alike.store.objects hr).2.2.context
  rw [hcarried] at hrange
  cases hrange with
  | some hrange =>
    refine ⟨r, K, hcalled, hcarried, ?_, ?_, ?_, hcontext, ?_⟩
    · exact Nat.lt_of_lt_of_le hrange.symbols hsize
    · exact Nat.lt_of_lt_of_le hrange.hidden hsize
    · exact Nat.le_trans hsound.alike.store.roots hsize
    · rw [hctx, hfunction]
      rfl

/-- A call that has been entered binds no names in its own tables but parameters and names that
the body assigns. -/
theorem kept {m₁ m₂ : Machine} {refs : List ObjectRef} {W : TableRef → String → Prop} {q : Point}
    (hcount : checkCount a.function (a.afterArgs.store.object a.function) a.params a.values m₁ =
      (.ok (), m₂))
    (hargs : bindArgs a.context a.params a.values m₂ = (.ok refs, a.entered))
    (hW : ∀ t x, m₁.store.tables.size ≤ t.index → W t x)
    (hg : ∀ x, W globals x ∧ W programNames x) (hparams : Allows W a.context a.params)
    (hbody : Allows W a.context a.body.assigned) (hq : a.Reaches q) :
    Store.Kept W m₁.store q.machine.store := by
  have hentered := writes_bindArgs a.params a.values hparams m₂
  rw [hargs, (Still.checkCount _ _ _ _).eq hcount] at hentered
  have hkept := Store.kept_of_writes hentered
  exact hkept.trans (Eval.Reaches.kept hq hW hg hbody hkept.size)

variable {a} in
/-- Wherever the body gets to, a name that the function does not bind itself means what it means in
the context from which the call was entered. -/
theorem EnteredFrom.meaning_eq {K : Context} {q : Point} {x : String} (h : a.EnteredFrom K)
    (hq : a.Reaches q) (hparams : x ∉ a.params) (hbody : x ∉ a.body.assigned) :
    q.machine.store.meaning a.context x = q.machine.store.meaning K x := by
  obtain ⟨m₁, m₂, refs, henters, hcount, hargs⟩ := enterFunction_eq_ok a.enterFunction
  cases h.enters.symm.trans henters
  have hsize := (Store.table_children h.symbols h.hidden).1
  let W : TableRef → String → Prop := fun t y =>
    a.afterArgs.store.tables.size + 2 ≤ t.index ∨ t.index < 2 ∨ y ∈ a.params ∨ y ∈ a.body.assigned
  have hkept := a.kept (W := W) hcount hargs
    (fun t y ht => .inl (hsize ▸ ht))
    (fun y => ⟨.inr (.inl (by decide)), .inr (.inl (by decide))⟩)
    (fun y hy => ⟨.inr (.inr (.inl hy)), .inr (.inr (.inl hy))⟩)
    (fun y hy => ⟨.inr (.inr (.inr hy)), .inr (.inr (.inr hy))⟩) hq
  have hfree {i : Nat} (hi : i < a.afterArgs.store.tables.size + 2) (hi' : 2 ≤ i) :
      ¬ W ⟨i⟩ x := by
    rintro (hnew | hshared | hparam | hassigned)
    · exact Nat.not_lt.mpr hnew hi
    · exact Nat.not_lt.mpr hi' hshared
    · exact hparams hparam
    · exact hbody hassigned
  obtain ⟨hleft, hright⟩ := hkept.lookup_children h.symbols h.hidden
    (hfree (Nat.lt_add_of_pos_right Nat.two_pos) h.roots)
    (hfree (Nat.lt_succ_self _) (Nat.le_succ_of_le h.roots))
  rw [Store.meaning, Store.meaning, h.context, hleft, hright]

end Activation

theorem Machine.inSession_main (w : World) : (mainMachine (start w)).InSession :=
  .tail (.single (.value (.object _))) (.bind programNames _ _)

namespace Activation

def ofCall? (fuel depth : Nat) (site : Context) (span : Span) (callee : Node) (args : List Node)
    (start : Machine) (inSession : start.InSession) : Option Activation :=
  match evalCallee : eval (fuel + 1) (depth + 1) site callee start with
  | (.ok called, afterCallee) =>
    match calleeAt : Eval.calleeAt span called afterCallee with
    | (.ok function, placed) =>
      match evalArgs : evalAll (fuel + 1) (depth + 1) site args placed with
      | (.ok values, afterArgs) =>
        match isFunction : (afterArgs.store.object function).payload with
        | .function name params body isExpression =>
          match enterFunction : Eval.enterFunction function (afterArgs.store.object function) name
            params values afterArgs with
          | (.ok context, entered) => some
            { fuel, depth, site, span, callee, args, start, called, afterCallee, function, placed,
              values, afterArgs, name, params, body, isExpression, context, entered, inSession,
              evalCallee, calleeAt, evalArgs, isFunction, enterFunction }
          | _ => none
        | _ => none
      | _ => none
    | _ => none
  | _ => none

theorem activity_ofCall? {fuel depth : Nat} {site : Context} {span : Span} {callee : Node}
    {args : List Node} {start : Machine} {h : start.InSession} {a : Activation}
    (ha : ofCall? fuel depth site span callee args start h = some a) :
    a.fuel = fuel ∧
      a.activity = .inside (depth + 1) site ⟨.node (.call span callee args), fuel + 2, start⟩ := by
  unfold ofCall? at ha
  repeat' split at ha
  all_goals cases ha
  exact ⟨rfl, rfl⟩

def ofSecond? (fuel depth : Nat) (w : World) (source : Source) : Option Activation :=
  match treeOf source (Machine.start w) with
  | (.ok (.ok (.list _ [first, .call span callee args])), _) =>
    match hfirst : eval (fuel + 3) (depth + 1) (programContext source.name) first
      (mainMachine (Machine.start w)) with
    | (.ok _, m) =>
      ofCall? fuel depth (programContext source.name) span callee args m
        ((Machine.inSession_main w).after ((disciplined _).eval _ _ _) hfirst)
    | _ => none
  | _ => none

theorem occurs_ofSecond? {fuel depth : Nat} {w : World} {source : Source} {a : Activation}
    (ha : ofSecond? fuel depth w source = some a) :
    a.fuel = fuel ∧ Event.Occurs (.part a.activity) := by
  unfold ofSecond? at ha
  split at ha
  · next span first span' callee args m htree =>
    split at ha
    · next v m' hfirst =>
      obtain ⟨hfuel, hactivity⟩ := activity_ofCall? ha
      refine ⟨hfuel, ?_⟩
      rw [hactivity]
      obtain ⟨ρ, hsound⟩ := (Machine.sound_start w).at_program source.name
      cases (looks_treeOf source).machine_eq hsound htree
      have hprogram : Event.Occurs (.part (.inside (depth + 1) (programContext source.name)
          ⟨.node (.list span [first, .call span' callee args]), fuel + 5,
            mainMachine (Machine.start w)⟩)) :=
        .leads (.text (.start w) (fuel + 6) (depth + 2) source) (.program htree)
      exact .leads (.leads (.leads hprogram (.part (.enters .list)))
        (.part (.enters (.next hfirst)))) (.part (.enters .first))
    · cases ha
  · cases ha

end Activation

def returnedFunction : Source := ⟨"<stdin>", "func mk(n)\nreturn func () -> n\nend\n(mk(1))()"⟩

def Node.readsName (name : String) : Node → Bool
  | .access _ x => x == name
  | _ => false

theorem Node.eq_access_of_readsName {name : String} {n : Node} (h : n.readsName name = true) :
    ∃ span, n = .access span name := by
  cases n
  case access span x =>
    cases eq_of_beq h
    exact ⟨span, rfl⟩
  all_goals cases h

theorem Activation.exists_returned : ∃ a span,
    ofSecond? 20 20 (.start ⟨"/home", []⟩) returnedFunction = some a ∧ a.callee.isDirect ∧
      a.params = [] ∧ a.body = .access span "n" ∧
      a.entered.store.meaning a.site "n" = .absent := by
  have hcheck : ((ofSecond? 20 20 (.start ⟨"/home", []⟩) returnedFunction).any fun a =>
      a.callee.isDirect && a.params = [] && a.body.readsName "n" &&
        a.entered.store.meaning a.site "n" = .absent) = true := by
    decide +kernel
  rw [Option.any_eq_true] at hcheck
  obtain ⟨a, ha, hcheck⟩ := hcheck
  simp only [Bool.and_eq_true, decide_eq_true_eq] at hcheck
  obtain ⟨⟨⟨hdirect, hparams⟩, hbody⟩, hmeaning⟩ := hcheck
  obtain ⟨span, hspan⟩ := Node.eq_access_of_readsName hbody
  exact ⟨a, span, ha, hdirect, hparams, hspan, hmeaning⟩

/-- Dynamic scope. A name that the body reads and that is neither a parameter nor assigned in the
body means what it means in the context `K` that the called value carries. If the function is called
by a name, as the result of a call or where it is written, `K` is the context of the call. -/
theorem Activation.reads_carried (a : Activation) (h : Event.Occurs (.part a.activity)) :
    ∃ r K, a.called = .object r ∧ (a.afterCallee.store.object r).context = some K ∧
      a.context.parent = some K ∧ (a.callee.isDirect → K = a.site) ∧
      ∀ span x fuel m, a.Reaches ⟨.node (.access span x), fuel + 1, m⟩ →
        x ∉ a.params → x ∉ a.body.assigned →
        eval (fuel + 1) a.depth a.context (.access span x) m =
          valueRead a.context span x (m.store.meaning K x) m := by
  obtain ⟨r, K, hcalled, hcarried, hentered⟩ := a.exists_carried h.sound
  refine ⟨r, K, hcalled, hcarried, ?_, ?_, ?_⟩
  · rw [hentered.context]
  · intro hdirect
    have hsite := context_of_isDirect hdirect (hcalled ▸ a.evalCallee)
    exact Option.some.inj (hcarried.symm.trans hsite)
  · intro span x fuel m hm hparams hbody
    have hmeaning : m.store.meaning a.context x = m.store.meaning K x :=
      hentered.meaning_eq hm hparams hbody
    rw [eval, access_eq, hmeaning]

/-- The function that is given back reads its `n` where it is called, and there is none. -/
theorem Activation.reads_carried_returned : ∃ a span,
    ofSecond? 20 20 (.start ⟨"/home", []⟩) returnedFunction = some a ∧
      Event.Occurs (.part a.activity) ∧
      a.Reaches ⟨.node (.access span "n"), a.fuel, a.entered⟩ ∧
      eval a.fuel a.depth a.context (.access span "n") a.entered =
        error (some span.start) (some span.stop) "'n' is not defined" (some a.context)
          a.entered := by
  obtain ⟨a, span, ha, hdirect, hparams, hbody, hmeaning⟩ := exists_returned
  obtain ⟨hfuel, hoccurs⟩ := occurs_ofSecond? ha
  obtain ⟨r, K, -, -, -, hK, hreads⟩ := a.reads_carried hoccurs
  have hreaches : a.Reaches ⟨.node (.access span "n"), a.fuel, a.entered⟩ := by
    rw [← hbody]
    exact .refl
  have hfree : "n" ∉ a.params ∧ "n" ∉ a.body.assigned := by
    simp [hparams, hbody, Node.assigned]
  refine ⟨a, span, ha, hoccurs, hreaches, ?_⟩
  rw [hfuel] at hreaches ⊢
  rw [hreads span "n" 19 a.entered hreaches hfree.1 hfree.2, hK hdirect, hmeaning]
  rfl

/-- A parameter of the call that made a function is not there when the function is called. -/
theorem Machine.run_returned_function :
    ((start (.start ⟨"/home", []⟩)).run returnedFunction).1 matches
      .error ⟨_, "'n' is not defined", _, _, _⟩ := by
  decide +kernel

end Think
