import Think.Proofs.Eval.Frame

/-! # What a store can hold

A function in a store was written in a tree that was evaluated, a context belongs to a program or a
call, and a place has both ends. So what holds of the bodies of all functions in a program holds of
all functions in the store while it runs.
-/

namespace Think

inductive Context.Traced : Context → Prop
  | outermost {name entry symbols hidden} : Traced ⟨name, none, entry, symbols, hidden⟩
  | entered {name outer place symbols hidden} (h : Traced outer) :
    Traced ⟨name, some outer, some place, symbols, hidden⟩

/-- `N` holds of the body if this is a function, its context is traced, and its place, if it has
one, has both ends. -/
structure Object.Fits (N : Node → Prop) (o : Object) : Prop where
  body : ∀ {name params body isExpression},
    o.payload = .function name params body isExpression → N body
  context : ∀ {c}, o.context = some c → c.Traced
  place : o.start.isSome = o.stop.isSome

namespace Object.Fits

variable {N : Node → Prop} {o : Object} {p : Payload} {context : Option Context}

theorem fresh (hp : ∀ {name params body isExpression},
    p = .function name params body isExpression → N body) : (Object.fresh p).Fits N :=
  ⟨hp, nofun, rfl⟩

theorem data (hp : p.IsData) : (Object.fresh p).Fits N :=
  .fresh fun h => absurd h (hp _ _ _ _)

theorem placed (h : o.Fits N) (span : Span) : (o.placed span).Fits N :=
  ⟨h.body, h.context, rfl⟩

theorem within (h : o.Fits N) (hc : ∀ {c}, context = some c → c.Traced) :
    (o.within context).Fits N :=
  ⟨h.body, hc, h.place⟩

end Object.Fits

namespace Store

def Fits (N : Node → Prop) (s : Store) : Prop :=
  (∀ r, (s.object r).Fits N) ∧ (s.object ⟨0⟩).payload = .null

/-- The object is at a place in a text. -/
def Placed (s : Store) (r : ObjectRef) : Prop :=
  (s.object r).start.isSome ∧ (s.object r).stop.isSome

variable {N : Node → Prop} {s s' : Store} {o : Object} {r : ObjectRef}

theorem Fits.object (h : s.Fits N) (r : ObjectRef) : (s.object r).Fits N := h.1 r

theorem Fits.allocate (h : s.Fits N) (ho : o.Fits N) : (s.allocate o).2.Fits N := by
  constructor
  · intro r
    rw [object_allocate]
    split
    · exact ho
    · exact h.object r
  · rw [object_allocate, if_neg]
    · exact h.2
    · intro hsize
      have hnull := h.2
      simp [Store.object, ← hsize, Object.fresh] at hnull

theorem Fits.update {f : Object → Object} (h : s.Fits N) (r : ObjectRef)
    (hf : ∀ o : Object, o.Fits N → (f o).Fits N) (hp : ∀ o, (f o).payload = o.payload) :
    (s.update r f).Fits N := by
  constructor
  · intro q
    rw [object_update_eq]
    split
    · exact hf _ (h.object q)
    · exact h.object q
  · rw [object_update_eq]
    split
    · exact (hp _).trans h.2
    · exact h.2

theorem Fits.modest (h : s.Fits N) (hc : s.ModestChange s') : s'.Fits N := by
  cases hc with
  | fresh p hp => exact h.allocate (.data hp)
  | beside r p hp => exact h.allocate ((Object.Fits.data hp).within (h.object r).context)
  | copy r => exact h.allocate (h.object r)
  | place r span => exact h.update r (fun _ ho => ho.placed span) fun _ => rfl
  | list | elements => exact h

theorem Placed.change (h : s.Placed r) (hc : s.Change s') : s'.Placed r := by
  have hr : r.index < s.objects.size := by
    apply Nat.lt_of_not_le
    intro hr
    simp [Placed, object, hr, Object.fresh] at h
  rcases hc with hc | _ | _
  · rcases hc with o | ⟨q, span⟩ | ⟨q, context⟩ | _ | _
    · rwa [Placed, object_allocate, if_neg (Nat.ne_of_lt hr)]
    · rw [Placed, object_update_eq]
      split
      · exact ⟨rfl, rfl⟩
      · exact h
    · rw [Placed, object_update_eq]
      split <;> exact h
    · exact h
    · exact h
  · exact h
  · exact h

theorem Placed.changes (h : s.Placed r) (hc : Relation.ReflTransGen Change s s') : s'.Placed r := by
  induction hc with
  | refl => exact h
  | tail _ hc ih => exact ih.change hc

end Store

mutual

/-- The bodies of the functions that an evaluation of the tree makes. What such a body makes in its
turn is left to its calls. -/
def Node.bodies : Node → List Node
  | .number _ _ | .text _ _ | .access _ _ | .importFile _ _ | .continueLoop _ | .breakLoop _ => []
  | .list _ ns => Node.bodiesAll ns
  | .assign _ _ v => v.bodies
  | .binary _ _ l r => l.bodies ++ r.bodies
  | .unary _ _ a => a.bodies
  | .branch _ cs f => Node.bodiesCases cs ++ Node.bodiesBlock f
  | .forLoop _ _ x y z b _ => x.bodies ++ y.bodies ++ Node.bodiesOption z ++ b.bodies
  | .whileLoop _ c b _ => c.bodies ++ b.bodies
  | .function _ _ _ body _ => [body]
  | .call _ c args => c.bodies ++ Node.bodiesAll args
  | .ret _ v | .think _ v => Node.bodiesOption v

def Node.bodiesAll : List Node → List Node
  | [] => []
  | n :: ns => n.bodies ++ Node.bodiesAll ns

def Node.bodiesOption : Option Node → List Node
  | none => []
  | some n => n.bodies

def Node.bodiesBlock : Option (Node × Bool) → List Node
  | none => []
  | some (n, _) => n.bodies

def Node.bodiesCases : List (Node × Node × Bool) → List Node
  | [] => []
  | (c, b, _) :: cs => c.bodies ++ b.bodies ++ Node.bodiesCases cs

end

namespace Eval

/-- The bodies of the functions that are made when the task is done. -/
def Task.bodies : Task → List Node
  | .node n => n.bodies
  | .all ns => Node.bodiesAll ns
  | .cases cs fallback => Node.bodiesCases cs ++ Node.bodiesBlock fallback
  | .forRounds _ _ _ _ _ body _ => body.bodies
  | .whileRounds condition body _ => condition.bodies ++ body.bodies

/-- If the store fits when the evaluation starts, it fits when it ends, however it ends. -/
def FitsAfter (N : Node → Prop) {α : Type} (x : Eval α) (m : Machine) : Prop :=
  m.store.Fits N → (x m).2.store.Fits N

namespace FitsAfter

variable {N : Node → Prop} {α β : Type} {E : Diagnostic → Store → Prop} {x : Eval α}
  {f : α → Eval β} {m m' : Machine} {r : Except Stop α}

theorem of_eq (h : x m = (r, m')) (hm : m.store.Fits N → m'.store.Fits N) : FitsAfter N x m := by
  intro hfits
  rw [h]
  exact hm hfits

theorem store (hx : FitsAfter N x m) (h : x m = (r, m')) (hm : m.store.Fits N) :
    m'.store.Fits N := by
  have hfits := hx hm
  rwa [h] at hfits

theorem bind (hx : FitsAfter N x m) (hf : ∀ a m', x m = (.ok a, m') → FitsAfter N (f a) m') :
    FitsAfter N (x >>= f) m := by
  intro hm
  rcases h : x m with ⟨e | a, m'⟩
  · rw [bind_error h]
    exact hx.store h hm
  · rw [bind_ok h]
    exact hf a m' h (hx.store h hm)

theorem handle {f : Except Stop α → Eval β} (hx : FitsAfter N x m)
    (hf : ∀ r m', x m = (r, m') → FitsAfter N (f r) m') : FitsAfter N (outcome x >>= f) m := by
  intro hm
  rw [bind_ok (outcome_apply x m)]
  exact hf _ _ rfl (hx hm)

theorem of_modest (h : Modest E x) : FitsAfter N x m := by
  intro hm
  have hkeeps (s : Store) (hs : Relation.ReflTransGen Store.ModestChange m.store s) : s.Fits N := by
    induction hs with
    | refl => exact hm
    | tail _ hc ih => exact ih.modest hc
  exact hkeeps _ (h m).changes

theorem of_mute (h : Modest (fun _ _ => False) x) : FitsAfter N x m := of_modest h

theorem pure (a : α) : FitsAfter N (Pure.pure a : Eval α) m := id

theorem throw (e : Stop) : FitsAfter N (throw e : Eval α) m := id

theorem fault (e : Fault) : FitsAfter N (fault e : Eval α) m := id

theorem newTable : FitsAfter N Eval.newTable m := id

theorem childTable (t : TableRef) : FitsAfter N (Eval.childTable t) m := id

theorem bindName (t : TableRef) (name : String) (v : Value) :
    FitsAfter N (Eval.bind t name v) m := id

end FitsAfter

section

variable {N : Node → Prop} {m m' : Machine} {context : Context} {span : Span}

theorem fits_allocateAt {p : Payload}
    (hp : ∀ {name params body isExpression}, p = .function name params body isExpression → N body)
    (hc : context.Traced) : FitsAfter N (allocateAt p span context) m := by
  intro hm
  refine hm.allocate (((Object.Fits.fresh hp).within ?_).placed span)
  rintro _ ⟨⟩
  exact hc

theorem fits_listAt (vs : List Value) (hc : context.Traced) :
    FitsAfter N (listAt vs span context) m :=
  .bind (.of_mute (Modest.allocateList _)) fun _ _ _ => fits_allocateAt nofun hc

theorem fits_enter (r : ObjectRef) (hc : context.Traced) :
    FitsAfter N (enter r (some context)) m := by
  intro hm
  refine hm.update r (fun o ho => ho.within ?_) fun _ => rfl
  rintro _ ⟨⟩
  exact hc

theorem fits_copyTo (r : ObjectRef) (hc : context.Traced) :
    FitsAfter N (copyTo r span context) m := by
  refine .bind (.of_mute (Modest.copy r)) fun c _ _ => ?_
  refine .bind (.of_mute (Modest.place c span)) fun _ _ _ => ?_
  exact .bind (fits_enter c hc) fun _ _ _ => .pure _

theorem fits_access (name : String) (hc : context.Traced) :
    FitsAfter N (access context span name) m := by
  refine .bind (.of_mute (Obeys.lookup _ _)) fun found _ _ => ?_
  dsimp only
  split
  all_goals
    refine .bind (by first | exact .of_mute (Obeys.lookup _ _) | exact .pure _) fun v _ _ => ?_
    split
    · exact .throw _
    · exact .fault _
    · exact .bind (fits_copyTo _ hc) fun _ _ _ => .pure _

theorem fits_resultAt (v : Value) (hc : context.Traced) :
    FitsAfter N (resultAt span context v) m := by
  refine .bind (.of_mute (Modest.objectOf v)) fun r _ _ => ?_
  exact .bind (fits_copyTo _ hc) fun _ _ _ => .pure _

theorem fits_callContext (callee : Object) (name : String) :
    FitsAfter N (callContext callee name) m := by
  unfold callContext
  cases callee.context with
  | none => exact .fault _
  | some outer =>
    refine .bind (.childTable _) fun _ _ _ => ?_
    exact .bind (.childTable _) fun _ _ _ => .pure _

/-- The context of a call knows where it was entered if the function is at a place. -/
theorem traced_callContext {callee : Object} {name : String} (hc : callee.Fits N)
    (hplace : callee.start.isSome) (h : callContext callee name m = (.ok context, m')) :
    context.Traced := by
  obtain ⟨outer, houter, rfl, -⟩ := callContext_eq_ok h
  obtain ⟨place, hplace⟩ := Option.isSome_iff_exists.mp hplace
  rw [hplace]
  exact .entered (hc.context houter)

theorem fits_bindArgs (params : List String) (args : List Value) (hc : context.Traced)
    (m : Machine) : FitsAfter N (bindArgs context params args) m := by
  fun_induction bindArgs context params args generalizing m with
  | case1 p params v args ih =>
    refine .bind (.of_mute (Modest.objectOf v)) fun r _ _ => ?_
    refine .bind (fits_enter _ hc) fun _ _ _ => ?_
    refine .bind (.bindName _ _ _) fun _ m₁ _ => ?_
    exact .bind (ih m₁) fun _ _ _ => .pure _
  | case2 => exact .pure _

theorem fits_enterFunction {ref : ObjectRef} {callee : Object} {name : String}
    {params : List String} {args : List Value} (hcallee : callee.Fits N)
    (hplace : callee.start.isSome) :
    FitsAfter N (enterFunction ref callee name params args) m := by
  refine .bind (fits_callContext _ _) fun context m₁ hctx => ?_
  refine .bind (.of_modest (modest_checkCount _ _ _ _)) fun _ m₂ _ => ?_
  have htraced := traced_callContext hcallee hplace hctx
  exact .bind (fits_bindArgs _ _ htraced m₂) fun _ _ _ => .pure _

theorem fits_startRound (name : String) (i by_ : Number) (up : Bool) (last : Value) :
    FitsAfter N (startRound context name i by_ up last) m := by
  refine .bind (.of_mute (BuiltinCall.modest_plainNumber last)) fun bound _ _ => ?_
  refine .bind (.of_mute (Modest.lift _)) fun more _ _ => ?_
  split
  · refine .bind (.of_mute (BuiltinCall.modest_number _)) fun v _ _ => ?_
    refine .bind (.bindName _ _ _) fun _ _ _ => ?_
    exact .bind (.of_mute (Modest.lift _)) fun _ _ _ => .pure _
  · exact .pure _

theorem placed_calleeAt {v : Value} {r : ObjectRef} (h : calleeAt span v m = (.ok r, m')) :
    m'.store.Placed r := by
  cases v with
  | absent | bare => cases h
  | object q =>
    by_cases hq : (m.store.object q).payload = .plain
    · cases (bind_error (copy_plain hq)).symm.trans h
    · rw [calleeAt_eq span hq] at h
      cases h
      change Store.Placed (m.store.allocate _).2 ⟨m.store.objects.size⟩
      rw [Store.Placed, Store.object_push]
      exact ⟨rfl, rfl⟩

/-- The function of a call expression is at the place of the call, also when the arguments have been
evaluated. -/
theorem placed_callee {fuel depth : Nat} {v : Value} {r : ObjectRef} {args : List Node}
    {vs : List Value} {m'' : Machine} (hr : calleeAt span v m = (.ok r, m'))
    (hvs : evalAll fuel depth context args m' = (.ok vs, m'')) : m''.store.Placed r := by
  have hchanges := ((disciplined fuel).evalAll depth context args m').changes
  rw [hvs] at hchanges
  exact (placed_calleeAt hr).changes hchanges

theorem fits_stepValue {n depth : Nat} {z : Option Node}
    (hz : ∀ e, z = some e → FitsAfter N (eval n depth context e) m) :
    FitsAfter N (stepValue n depth context z) m := by
  cases z with
  | none => exact .of_mute (BuiltinCall.modest_number _)
  | some e => exact hz e rfl

theorem fits_returnValue (v : Value) : FitsAfter N (returnValue v) m := by
  cases h : m.store.isSomething v with
  | true => exact .of_eq (returnValue_something h) id
  | false => exact .of_eq (returnValue_nothing h) id

theorem fits_settle {x : Eval Value} (hx : FitsAfter N x m) : FitsAfter N (settle x) m := by
  have hshown : FitsAfter N (x >>= programValue) m :=
    .bind hx fun v _ _ => .of_mute (modest_programValue v)
  refine .handle hshown fun r _ _ => ?_
  split
  · exact .pure _
  · exact .pure _
  · exact .pure _
  · exact .fault _
  · exact .pure _

end

abbrev Makes (N : Node → Prop) (bodies : List Node) : Prop := ∀ b ∈ bodies, N b

theorem Makes.sub {N : Node → Prop} {bodies bodies' : List Node} (h : Makes N bodies)
    (hsub : bodies' ⊆ bodies) : Makes N bodies' := fun b hb => h b (hsub hb)

theorem Makes.append {N : Node → Prop} {bodies bodies' : List Node} (h : Makes N bodies)
    (h' : Makes N bodies') : Makes N (bodies ++ bodies') := List.forall_mem_append.mpr ⟨h, h'⟩

structure Fitting (N : Node → Prop) (n : Nat) : Prop where
  eval : ∀ {depth context node m}, context.Traced → Makes N node.bodies →
    Calm (∀ b, N b) (.inside depth context ⟨.node node, n, m⟩) →
    FitsAfter N (eval n depth context node) m
  evalAll : ∀ {depth context nodes m}, context.Traced → Makes N (Node.bodiesAll nodes) →
    Calm (∀ b, N b) (.inside depth context ⟨.all nodes, n, m⟩) →
    FitsAfter N (evalAll n depth context nodes) m
  evalCases : ∀ {depth context cs fallback m}, context.Traced →
    Makes N (Node.bodiesCases cs ++ Node.bodiesBlock fallback) →
    Calm (∀ b, N b) (.inside depth context ⟨.cases cs fallback, n, m⟩) →
    FitsAfter N (evalCases n depth context cs fallback) m
  repeatFor : ∀ {depth context name i by_ up last body done m}, context.Traced →
    Makes N body.bodies →
    Calm (∀ b, N b) (.inside depth context ⟨.forRounds name i by_ up last body done, n, m⟩) →
    FitsAfter N (repeatFor n depth context name i by_ up last body done) m
  repeatWhile : ∀ {depth context condition body done m}, context.Traced →
    Makes N (condition.bodies ++ body.bodies) →
    Calm (∀ b, N b) (.inside depth context ⟨.whileRounds condition body done, n, m⟩) →
    FitsAfter N (repeatWhile n depth context condition body done) m
  call : ∀ {depth r args m}, m.store.Placed r → Calm (∀ b, N b) (.call n depth r args m) →
    FitsAfter N (call n depth r args) m
  runFile : ∀ {depth c file m}, (∀ b, N b) → FitsAfter N (runFile n depth c file) m
  runText : ∀ {depth source m}, (∀ b, N b) → FitsAfter N (runText n depth source) m
  importText : ∀ {depth path m}, (∀ b, N b) → FitsAfter N (importText n depth path) m

namespace Fitting

variable {N : Node → Prop} {n : Nat}

theorem zero : Fitting N 0 := by
  constructor
  all_goals
    intros
    simp only [Eval.eval, Eval.evalAll, Eval.evalCases, Eval.repeatFor, Eval.repeatWhile,
      Eval.call, Eval.runFile, Eval.runText, Eval.importText]
    exact .fault _

variable (ih : Fitting N n)

include ih

theorem evalAll_succ {depth : Nat} {context : Context} {nodes : List Node} {m : Machine}
    (ht : context.Traced) (hb : Makes N (Node.bodiesAll nodes))
    (hc : Calm (∀ b, N b) (.inside depth context ⟨.all nodes, n + 1, m⟩)) :
    FitsAfter N (Eval.evalAll (n + 1) depth context nodes) m := by
  cases nodes with
  | nil =>
    rw [Eval.evalAll]
    exact .pure _
  | cons node nodes =>
    rw [Eval.evalAll]
    rw [Node.bodiesAll] at hb
    refine .bind (ih.eval ht (hb.sub (by simp)) (hc.enters .first)) fun v m₁ hv => ?_
    exact .bind (ih.evalAll ht (hb.sub (by simp)) (hc.enters (.next hv))) fun _ _ _ => .pure _

theorem evalCases_succ {depth : Nat} {context : Context} {cs : List (Node × Node × Bool)}
    {fallback : Option (Node × Bool)} {m : Machine} (ht : context.Traced)
    (hb : Makes N (Node.bodiesCases cs ++ Node.bodiesBlock fallback))
    (hc : Calm (∀ b, N b) (.inside depth context ⟨.cases cs fallback, n + 1, m⟩)) :
    FitsAfter N (Eval.evalCases (n + 1) depth context cs fallback) m := by
  match cs, fallback with
  | [], none =>
    rw [Eval.evalCases]
    exact .pure _
  | [], some (body, block) =>
    rw [Eval.evalCases]
    rw [Node.bodiesBlock] at hb
    exact .bind (ih.eval ht (hb.sub (by simp)) (hc.enters .fallback)) fun _ _ _ => .pure _
  | (condition, body, block) :: rest, fallback =>
    rw [Eval.evalCases]
    rw [Node.bodiesCases] at hb
    refine .bind (ih.eval ht (hb.sub (by simp)) (hc.enters .condition)) fun v m₁ hv => ?_
    refine .bind (.of_mute (Modest.isTrue v)) fun holds m₂ htrue => ?_
    cases holds with
    | true =>
      have hbody : Makes N body.bodies := hb.sub (by simp)
      exact .bind (ih.eval ht hbody (hc.enters (.consequence hv htrue))) fun _ _ _ => .pure _
    | false => exact ih.evalCases ht (hb.sub (by simp)) (hc.enters (.otherCases hv htrue))

theorem repeatFor_succ {depth : Nat} {context : Context} {name : String} {i by_ : Number}
    {up : Bool} {last : Value} {body : Node} {done : List Value} {m : Machine}
    (ht : context.Traced) (hb : Makes N body.bodies)
    (hc : Calm (∀ b, N b)
      (.inside depth context ⟨.forRounds name i by_ up last body done, n + 1, m⟩)) :
    FitsAfter N (Eval.repeatFor (n + 1) depth context name i by_ up last body done) m := by
  rw [Eval.repeatFor]
  refine .bind (fits_startRound name i by_ up last) fun next m₁ hr => ?_
  cases next with
  | none => exact .pure _
  | some next =>
    refine .handle (ih.eval ht hb (hc.enters (.forBody hr))) fun r m₂ hbody => ?_
    rcases r with e | v
    · cases e with
      | continued => exact ih.repeatFor ht hb (hc.enters (.forContinue hr hbody))
      | broke => exact .pure _
      | _ => exact .throw _
    · exact ih.repeatFor ht hb (hc.enters (.forNext hr hbody))

theorem repeatWhile_succ {depth : Nat} {context : Context} {condition body : Node}
    {done : List Value} {m : Machine} (ht : context.Traced)
    (hb : Makes N (condition.bodies ++ body.bodies))
    (hc : Calm (∀ b, N b) (.inside depth context ⟨.whileRounds condition body done, n + 1, m⟩)) :
    FitsAfter N (Eval.repeatWhile (n + 1) depth context condition body done) m := by
  rw [Eval.repeatWhile]
  refine .bind (ih.eval ht (hb.sub (by simp)) (hc.enters .whileCondition)) fun v m₁ hv => ?_
  refine .bind (.of_mute (Modest.isTrue v)) fun holds m₂ htrue => ?_
  cases holds with
  | false => exact .pure _
  | true =>
    have hbodies : Makes N body.bodies := hb.sub (by simp)
    refine .handle (ih.eval ht hbodies (hc.enters (.whileBody hv htrue))) fun r m₃ hbody => ?_
    rcases r with e | w
    · cases e with
      | continued => exact ih.repeatWhile ht hb (hc.enters (.whileContinue hv htrue hbody))
      | broke => exact .pure _
      | _ => exact .throw _
    · exact ih.repeatWhile ht hb (hc.enters (.whileNext hv htrue hbody))

theorem runFile_succ {depth : Nat} {c : BuiltinCall} {file : ObjectRef} {m : Machine}
    (hN : ∀ b, N b) : FitsAfter N (Eval.runFile (n + 1) depth c file) m := by
  rw [Eval.runFile]
  refine .bind (.of_modest (c.civil_textArg file _).modest) fun path _ _ => ?_
  refine .bind (.of_mute Obeys.world) fun w _ _ => ?_
  split
  · exact .throw _
  · refine .bind (ih.runText hN) fun ending _ _ => ?_
    split
    · exact .pure _
    · split
      · exact .throw _
      · exact .fault _

theorem runText_succ {depth : Nat} {source : Source} {m : Machine} (hN : ∀ b, N b) :
    FitsAfter N (Eval.runText (n + 1) depth source) m := by
  cases depth with
  | zero =>
    rw [Eval.runText]
    · exact .fault _
    · simp
  | succ depth =>
    rw [Eval.runText]
    refine .bind (.of_mute (modest_treeOf source)) fun tree _ _ => ?_
    split
    · exact .pure _
    · refine .bind (.of_mute (BuiltinCall.modest_number _)) fun one _ _ => ?_
      refine .bind (.bindName _ _ _) fun _ _ _ => ?_
      exact fits_settle (ih.eval .outermost (fun b _ => hN b) (.inr hN))

theorem importText_succ {depth : Nat} {path : String} {m : Machine} (hN : ∀ b, N b) :
    FitsAfter N (Eval.importText (n + 1) depth path) m := by
  cases depth with
  | zero =>
    rw [Eval.importText]
    · exact .fault _
    · simp
  | succ depth =>
    rw [Eval.importText]
    refine .bind (.of_mute (modest_readFile path)) fun text _ _ => ?_
    refine .bind (.of_mute (modest_treeOf _)) fun tree m₁ _ => ?_
    split
    · exact .pure _
    · refine .bind .newTable fun hidden m₂ _ => ?_
      refine .bind (.of_mute (BuiltinCall.modest_number _)) fun zero _ _ => ?_
      refine .bind (.bindName _ _ _) fun _ _ _ => ?_
      exact fits_settle (ih.eval .outermost (fun b _ => hN b) (.inr hN))

/-- A function is entered in a context that knows where, and its body is as all bodies are. -/
theorem call_succ (hN : ∀ b, N b → Makes N b.bodies) {depth : Nat} {r : ObjectRef}
    {args : List Value} {m : Machine} (hr : m.store.Placed r)
    (hc : Calm (∀ b, N b) (.call (n + 1) depth r args m)) :
    FitsAfter N (Eval.call (n + 1) depth r args) m := by
  cases depth with
  | zero =>
    rw [Eval.call]
    · exact .fault _
    · simp
  | succ depth =>
    rw [Eval.call]
    intro hm
    refine FitsAfter.bind (.of_mute (Obeys.object r)) (fun callee m₁ hobject => ?_) hm
    cases hobject
    have htraced {name : String} {context : Context} {m₁ : Machine}
        (hctx : callContext (m.store.object r) name m = (.ok context, m₁)) : context.Traced :=
      traced_callContext (hm.object r) hr.1 hctx
    split
    · next name params body isExpression hp =>
      have hbody := hN body ((hm.object r).body hp)
      refine .bind (fits_enterFunction (hm.object r) hr.1) fun context m₁ henter => ?_
      obtain ⟨m₂, m₃, refs, hctx, -, -⟩ := enterFunction_eq_ok henter
      refine .handle (ih.eval (htraced hctx) hbody (hc.leads (.body hp henter))) fun v m₄ _ => ?_
      rcases v with e | v
      · cases e with
        | returned v => exact .pure _
        | _ => exact .throw _
      · exact .of_mute (modest_functionResult _ v)
    · next name hp =>
      refine .bind (fits_callContext _ _) fun context m₁ hctx => ?_
      split
      · exact .fault _
      · next b hb =>
        refine .bind (.of_modest (modest_checkCount _ _ _ _)) fun _ m₂ hcount => ?_
        refine .bind (fits_bindArgs _ _ (htraced hctx) m₂) fun refs m₃ _ => ?_
        split
        · obtain ⟨v, rfl⟩ := List.length_eq_one_iff.mp (checkCount_eq_ok hcount)
          exact ih.runFile (hc.starts (.run hp hb))
        · exact .of_modest (BuiltinCall.modest_perform _ _ _)
    · exact .of_modest (Operator.modest_unknown r _)

theorem forLoop_succ {depth : Nat} {context : Context} {span : Span} {name : String}
    {x y : Node} {z : Option Node} {body : Node} {block : Bool} {m : Machine}
    (ht : context.Traced) (hb : Makes N (Node.forLoop span name x y z body block).bodies)
    (hc : Calm (∀ b, N b)
      (.inside depth context ⟨.node (.forLoop span name x y z body block), n + 1, m⟩)) :
    FitsAfter N (Eval.eval (n + 1) depth context (.forLoop span name x y z body block)) m := by
  rw [Node.bodies] at hb
  rw [eval_forLoop]
  refine .bind (ih.eval ht (hb.sub (by simp)) (hc.enters .forFirst)) fun first m₁ hx => ?_
  have hlast : Makes N y.bodies := fun b hmem => hb b (by simp [hmem])
  refine .bind (ih.eval ht hlast (hc.enters (.forLast hx))) fun last m₂ hy => ?_
  have hstep : FitsAfter N (stepValue n depth context z) m₂ := by
    apply fits_stepValue
    rintro e rfl
    have he : Makes N e.bodies := fun b hmem => hb b (by simp [Node.bodiesOption, hmem])
    exact ih.eval ht he (hc.enters (.forStep hx hy))
  refine .bind hstep fun step m₃ hz => ?_
  refine .bind (.of_mute (modest_loopStart first step)) fun start m₄ hs => ?_
  obtain ⟨i, by_, up⟩ := start
  have hrounds : Makes N body.bodies := fun b hmem => hb b (by simp [hmem])
  refine .bind (ih.repeatFor ht hrounds (hc.enters (.forRounds hx hy hz hs))) fun vs m₅ _ => ?_
  split
  · exact .pure _
  · exact fits_listAt vs ht

theorem callNode_succ {depth : Nat} {context : Context} {span : Span} {callee : Node}
    {args : List Node} {m : Machine} (ht : context.Traced)
    (hb : Makes N (Node.call span callee args).bodies)
    (hc : Calm (∀ b, N b) (.inside depth context ⟨.node (.call span callee args), n + 1, m⟩)) :
    FitsAfter N (Eval.eval (n + 1) depth context (.call span callee args)) m := by
  rw [Node.bodies] at hb
  rw [Eval.eval]
  refine .bind (ih.eval ht (hb.sub (by simp)) (hc.enters .callee)) fun v m₁ hf => ?_
  refine .bind (.of_mute (modest_calleeAt span v)) fun r m₂ hr => ?_
  refine .bind (ih.evalAll ht (hb.sub (by simp)) (hc.enters (.args hf hr))) fun vs m₃ hvs => ?_
  refine .bind (ih.call (placed_callee hr hvs) (hc.leads (.call hf hr hvs))) fun w _ _ => ?_
  exact fits_resultAt w ht

theorem operand_succ {depth : Nat} {context : Context} {value : Option Node} {m : Machine}
    (ht : context.Traced) (hb : Makes N (Node.bodiesOption value))
    (hc : ∀ e, value = some e → Calm (∀ b, N b) (.inside depth context ⟨.node e, n, m⟩)) :
    FitsAfter N (operandValue n depth context value) m := by
  cases value with
  | none => exact .pure _
  | some e => exact ih.eval ht hb (hc e rfl)

theorem eval_succ {depth : Nat} {context : Context} {node : Node} {m : Machine}
    (ht : context.Traced) (hb : Makes N node.bodies)
    (hc : Calm (∀ b, N b) (.inside depth context ⟨.node node, n + 1, m⟩)) :
    FitsAfter N (Eval.eval (n + 1) depth context node) m := by
  cases node with
  | number span v => cases v <;> (rw [Eval.eval]; exact fits_allocateAt (by simp) ht)
  | text span s =>
    rw [Eval.eval]
    exact fits_allocateAt (by simp) ht
  | list span items =>
    rw [Eval.eval]
    exact .bind (ih.evalAll ht hb (hc.enters .list)) fun vs _ _ => fits_listAt vs ht
  | access span name =>
    rw [Eval.eval]
    exact fits_access name ht
  | assign span name value =>
    rw [Eval.eval]
    refine .bind (ih.eval ht hb (hc.enters .assign)) fun v _ _ => ?_
    refine .bind (.bindName _ _ _) fun _ _ _ => ?_
    exact .bind (.bindName _ _ _) fun _ _ _ => .pure _
  | binary span op left right =>
    rw [Node.bodies] at hb
    rw [Eval.eval]
    refine .bind (ih.eval ht (hb.sub (by simp)) (hc.enters .left)) fun l m₁ hl => ?_
    refine .bind (ih.eval ht (hb.sub (by simp)) (hc.enters (.right hl))) fun r _ _ => ?_
    exact .of_modest (modest_binary op span l r)
  | unary span op arg =>
    rw [Eval.eval]
    refine .bind (ih.eval ht hb (hc.enters .operand)) fun v _ _ => ?_
    exact .of_modest (modest_unary op span v)
  | branch span cs fallback =>
    rw [Eval.eval]
    exact ih.evalCases ht hb (hc.enters .branch)
  | forLoop span name x y z body block => exact ih.forLoop_succ ht hb hc
  | whileLoop span condition body block =>
    rw [Eval.eval]
    refine .bind (ih.repeatWhile ht hb (hc.enters .whileRounds)) fun vs _ _ => ?_
    split
    · exact .pure _
    · exact fits_listAt vs ht
  | function span name params body isExpression =>
    rw [Eval.eval]
    have hbody : N body := hb body (by simp [Node.bodies])
    refine .bind (fits_allocateAt ?_ ht) fun f _ _ => ?_
    · rintro _ _ _ _ ⟨⟩
      exact hbody
    · cases name with
      | none => exact .pure _
      | some name => exact .bind (.bindName _ _ _) fun _ _ _ => .pure _
  | call span callee args => exact ih.callNode_succ ht hb hc
  | ret span value =>
    rw [eval_ret]
    refine .bind (ih.operand_succ ht hb ?_) fun v m₁ _ => ?_
    · rintro e rfl
      exact hc.enters .returned
    · exact fits_returnValue v
  | think span value =>
    rw [eval_think]
    refine .bind (ih.operand_succ ht hb ?_) fun v _ _ => ?_
    · rintro e rfl
      exact hc.enters .thought
    · refine .bind (.of_mute (modest_askModel v)) fun code _ _ => ?_
      exact .bind (ih.runText (hc.starts .think)) fun _ _ _ => .pure _
  | importFile span path =>
    rw [Eval.eval]
    refine .bind (.of_modest (modest_importFile context span path)) fun file _ _ => ?_
    refine .bind (ih.importText (hc.starts .importFile)) fun ending _ _ => ?_
    split
    · exact .pure _
    · exact .throw _
  | continueLoop span =>
    rw [Eval.eval]
    exact .throw _
  | breakLoop span =>
    rw [Eval.eval]
    exact .throw _

theorem succ (hN : ∀ b, N b → Makes N b.bodies) : Fitting N (n + 1) where
  eval := ih.eval_succ
  evalAll := ih.evalAll_succ
  evalCases := ih.evalCases_succ
  repeatFor := ih.repeatFor_succ
  repeatWhile := ih.repeatWhile_succ
  call := ih.call_succ hN
  runFile := ih.runFile_succ
  runText := ih.runText_succ
  importText := ih.importText_succ

end Fitting

theorem fitting {N : Node → Prop} (hN : ∀ b, N b → Makes N b.bodies) (n : Nat) : Fitting N n := by
  induction n with
  | zero => exact .zero
  | succ n ih => exact ih.succ hN

section

variable {N : Node → Prop} {s : Store} {t : TableRef} {name : String} {p : Payload}

theorem fits_bind (h : s.Fits N) (v : Value) : (s.bind t name v).Fits N := h

theorem fits_bindNew (h : s.Fits N) (hp : p.IsData) : (Machine.bindNew s t name p).Fits N :=
  h.allocate (.data hp)

theorem fits_foldl {α : Type} {f : Store → α → Store} (xs : List α) (h : s.Fits N)
    (hf : ∀ (s : Store) (x : α), s.Fits N → (f s x).Fits N) : (xs.foldl f s).Fits N := by
  induction xs generalizing s with
  | nil => exact h
  | cons x xs ih => exact ih (hf s x h)

theorem fits_shared (lists : Array (Array Value)) (tables : Array Table) :
    (Store.mk Machine.sharedObjects lists tables).Fits N := by
  have hobjects : Machine.sharedObjects = #[.fresh .null, .fresh (.number (.int 0)),
      .fresh (.number (.int 0)), .fresh (.number (.int 1))] := by simp [Machine.sharedObjects]
  rw [hobjects]
  refine ⟨?_, rfl⟩
  rintro ⟨i⟩
  match i with
  | 0 => exact .data (p := .null) nofun
  | 1 | 2 => exact .data (p := .number (.int 0)) nofun
  | 3 => exact .data (p := .number (.int 1)) nofun
  | i + 4 => exact .data (p := .plain) nofun

/-- A fresh store holds neither functions of a program nor contexts nor places. -/
theorem fits_freshStore : Machine.freshStore.Fits N := by
  apply fits_bindNew
  · apply fits_bind
    apply fits_foldl
    · apply fits_foldl
      · apply fits_foldl _ (fits_shared _ _)
        exact fun s x h => fits_bind h _
      · exact fun s x h => fits_bindNew h nofun
    · exact fun s b h => fits_bindNew h nofun
  · nofun

theorem fits_mainMachine {m : Machine} (h : m.store.Fits N) : (mainMachine m).store.Fits N :=
  h.allocate (.data nofun)

end

theorem Enters.bodies_subset {depth : Nat} {context : Context} {p q : Point}
    (h : Enters depth context p q) : q.task.bodies ⊆ p.task.bodies := by
  intro n hn
  cases h
  all_goals
    simp only [Task.bodies] at hn
    simp_all [Task.bodies, Node.bodies, Node.bodiesAll, Node.bodiesOption, Node.bodiesBlock,
      Node.bodiesCases]

namespace Activity

variable {N : Node → Prop} {a b : Activity}

def Fits (N : Node → Prop) : Activity → Prop
  | .inside _ context p => p.machine.store.Fits N ∧ context.Traced ∧ Makes N p.task.bodies
  | .call _ _ r _ m => m.store.Fits N ∧ m.store.Placed r

variable (hN : ∀ b, N b → Makes N b.bodies)

include hN

theorem fits_enters {depth : Nat} {context : Context} {p q : Point}
    (h : (inside depth context p).Fits N) (hc : Calm (∀ b, N b) (.inside depth context p))
    (he : Enters depth context p q) : q.machine.store.Fits N := by
  obtain ⟨hm, ht, hb⟩ := h
  have heval {n : Node} {fuel : Nat} {m : Machine}
      (hen : Enters depth context p ⟨.node n, fuel, m⟩) :
      FitsAfter N (eval fuel depth context n) m :=
    (fitting hN fuel).eval ht (hb.sub hen.bodies_subset) (hc.enters hen)
  have htrue {v : Value} {m : Machine} : FitsAfter N (isTrue v) m := .of_mute (Modest.isTrue v)
  cases he
  case next hn => exact (heval .first).store hn hm
  case right hl => exact (heval .left).store hl hm
  case consequence hv hh | otherCases hv hh => exact htrue.store hh ((heval .condition).store hv hm)
  case forLast hx => exact (heval .forFirst).store hx hm
  case forStep hx hy => exact (heval (.forLast hx)).store hy ((heval .forFirst).store hx hm)
  case forRounds fuel m span name x y z b k first m₁ last m₂ step m₃ i by_ up m₄ hx hy hz hs =>
    have hlast := (heval (.forLast hx)).store hy ((heval .forFirst).store hx hm)
    have hvalue : FitsAfter N (stepValue fuel depth context z) m₂ := by
      apply fits_stepValue
      rintro e rfl
      exact heval (.forStep hx hy)
    have hstep := hvalue.store hz hlast
    exact (FitsAfter.of_mute (modest_loopStart _ _)).store hs hstep
  case forBody hr => exact (fits_startRound _ _ _ _ _).store hr hm
  case forNext hr hv | forContinue hr hv =>
    exact (heval (.forBody hr)).store hv ((fits_startRound _ _ _ _ _).store hr hm)
  case whileBody hv hh => exact htrue.store hh ((heval .whileCondition).store hv hm)
  case whileNext hv hh hw | whileContinue hv hh hw =>
    have hcondition := htrue.store hh ((heval .whileCondition).store hv hm)
    exact (heval (.whileBody hv hh)).store hw hcondition
  case args hf hr =>
    exact (FitsAfter.of_mute (modest_calleeAt _ _)).store hr ((heval .callee).store hf hm)
  all_goals exact hm

theorem Fits.leads (h : a.Fits N) (hc : Calm (∀ b, N b) a) (hl : Leads a b) : b.Fits N := by
  cases hl with
  | enters he => exact ⟨fits_enters hN h hc he, h.2.1, h.2.2.sub he.bodies_subset⟩
  | call hf hr hvs =>
    have hm := fits_enters hN h hc (.args hf hr)
    have hargs := (fitting hN _).evalAll h.2.1 (h.2.2.sub (Enters.args hf hr).bodies_subset)
      (hc.enters (.args hf hr))
    exact ⟨hargs.store hvs hm, placed_callee hr hvs⟩
  | body hp he =>
    obtain ⟨hm, hr⟩ := h
    obtain ⟨m₁, m₂, refs, hctx, -, -⟩ := enterFunction_eq_ok he
    refine ⟨(fits_enterFunction (hm.object _) hr.1).store he hm, ?_, hN _ ((hm.object _).body hp)⟩
    exact traced_callContext (hm.object _) hr.1 hctx

/-- What fits at the start fits all the way, as long as no program is started. -/
theorem Fits.reached (h : a.Fits N) (hquiet : a.Quiet) (hl : Relation.ReflTransGen Leads a b) :
    b.Fits N := by
  induction hl with
  | refl => exact h
  | tail hab hl ih => exact ih.leads hN (.inl fun d hd => hquiet d (hab.trans hd)) hl

end Activity

end Eval

end Think
