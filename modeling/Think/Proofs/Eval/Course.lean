import Think.Proofs.Eval.Origin
import Think.Proofs.Eval.Sound
import Think.Proofs.World.Files

/-! # The course of an evaluation

An event takes its course through the events that it comes to, one after the other. In between it
acts by itself: it makes objects and tables and binds names, and when all that it came to is over,
it may make a list, apply an operator or perform a function of the language.
-/

namespace Think

open BuiltinCall (nullValue)
open Relation (ReflTransGen)

namespace Eval

def Still {α : Type} (x : Eval α) : Prop := ∀ m, (x m).2 = m

namespace Still

variable {α β : Type} {x : Eval α} {k : α → Eval β} {m m' : Machine}

theorem eq {r : Except Stop α} (h : Still x) (hm : x m = (r, m')) : m' = m := by
  have hstill := h m
  rwa [hm] at hstill

@[simp]
theorem pure (a : α) : Still (Pure.pure a : Eval α) := fun _ => rfl

@[simp]
theorem throw (e : Stop) : Still (throw e : Eval α) := fun _ => rfl

@[simp]
theorem fault (f : Fault) : Still (Eval.fault f : Eval α) := fun _ => rfl

@[simp]
theorem error (start stop : Option Position) (details : String) (context : Option Context) :
    Still (Eval.error start stop details context : Eval α) := fun _ => rfl

@[simp]
theorem lift (r : Except Fault α) : Still (Eval.lift r) := by
  cases r <;> simp [Eval.lift]

@[simp]
theorem bind (hx : Still x) (hk : ∀ a, Still (k a)) : Still (x >>= k) := by
  intro m
  rcases hm : x m with ⟨e | a, m'⟩
  · rw [bind_error hm]
    exact hx.eq hm
  · rw [bind_ok hm, hk a]
    exact hx.eq hm

@[simp]
theorem map (hx : Still x) (f : α → β) : Still (f <$> x) := by
  rw [← bind_pure_comp]
  exact hx.bind fun a => .pure (f a)

@[simp]
theorem store : Still Eval.store := fun _ => rfl

@[simp]
theorem world : Still Eval.world := fun _ => rfl

@[simp]
theorem object (r : ObjectRef) : Still (Eval.object r) := fun _ => rfl

@[simp]
theorem elements (cells : ListRef) : Still (Eval.elements cells) := fun _ => rfl

@[simp]
theorem lookup (t : TableRef) (name : String) : Still (Eval.lookup t name) := fun _ => rfl

@[simp]
theorem snapshot (v : Value) : Still (Eval.snapshot v) := fun _ => rfl

@[simp]
theorem objectOf (v : Value) : Still (Eval.objectOf v) := by
  cases v <;> simp [Eval.objectOf]

@[simp]
theorem written (v : Value) : Still (Eval.written v) := by
  simp [Eval.written]

@[simp]
theorem isTrue (v : Value) : Still (Eval.isTrue v) := by
  apply bind (objectOf v)
  rintro ⟨_, o⟩
  dsimp only
  split <;> simp

@[simp]
theorem plainNumber (v : Value) : Still (BuiltinCall.plainNumber v) := by
  apply bind (objectOf v)
  rintro ⟨_, o⟩
  dsimp only
  split <;> simp

@[simp]
theorem textArg (c : BuiltinCall) (r : ObjectRef) (otherwise : String) :
    Still (c.textArg r otherwise) := by
  apply bind (object r)
  intro o
  split <;> simp [BuiltinCall.fail]

theorem loopStart (first step : Value) : Still (Eval.loopStart first step) := by
  apply bind (plainNumber first)
  simp

theorem checkCount (ref : ObjectRef) (callee : Object) (params : List String) (args : List Value) :
    Still (Eval.checkCount ref callee params args) := by
  have hreport (count : Nat) (which : String) : Still (do
      let whole ← Eval.written (.object ref)
      Eval.error callee.start callee.stop s!"{count} too {which} args passed into {whole}"
        callee.context : Eval Unit) :=
    bind (written _) fun _ => error _ _ _ _
  unfold Eval.checkCount
  dsimp only
  split
  · apply bind (hreport _ _)
    intro _
    split
    · exact hreport _ _
    · simp
  · split
    · exact hreport _ _
    · simp

theorem functionResult (isExpression : Bool) (v : Value) :
    Still (Eval.functionResult isExpression v) := by
  apply bind store
  intro s
  split <;> simp

theorem returnValue (v : Value) : Still (Eval.returnValue v) := by
  apply bind store
  intro s
  split <;> simp

theorem programValue (v : Value) : Still (Eval.programValue v) := by
  simp [Eval.programValue]

theorem treeOf (source : Source) : Still (Eval.treeOf source) := by
  unfold Eval.treeOf
  split <;> try simp
  split <;> simp

theorem readFile (path : String) : Still (Eval.readFile path) := by
  apply bind world
  intro w
  split <;> simp

theorem importFile (context : Context) (span : Span) (path : String) :
    Still (Eval.importFile context span path) := by
  apply bind world
  intro w
  dsimp only
  repeat' split
  all_goals simp

theorem unknown (r : ObjectRef) (v : Value) : Still (Operator.unknown r v : Eval α) := by
  apply bind (object r)
  intro o
  apply bind store
  intro s
  split <;> simp

/-- What comes after an outcome leaves the machine that the evaluation left. -/
theorem handle {k : Except Stop α → Eval β} (hk : ∀ r, Still (k r)) (x : Eval α) (m : Machine) :
    ((outcome x >>= k) m).2 = (x m).2 := by
  rw [bind_ok (outcome_apply x m)]
  exact hk _ _

end Still

section

variable {S : Machine → Machine → Prop} {α β : Type} {x : Eval α} {k : α → Eval β} {m : Machine}

theorem path_still (hx : Still x) : ReflTransGen S m (x m).2 := by
  rw [hx m]

theorem path_bind (hx : ReflTransGen S m (x m).2)
    (hk : ∀ a m', x m = (.ok a, m') → ReflTransGen S m' (k a m').2) :
    ReflTransGen S m ((x >>= k) m).2 := by
  rcases h : x m with ⟨s | a, m'⟩ <;> rw [h] at hx
  · rwa [bind_error h]
  · rw [bind_ok h]
    exact hx.trans (hk a m' h)

end

def Point.after (depth : Nat) (context : Context) (p : Point) : Machine :=
  match p.task with
  | .node n => (eval p.fuel depth context n p.machine).2
  | .all ns => (evalAll p.fuel depth context ns p.machine).2
  | .cases cs fallback => (evalCases p.fuel depth context cs fallback p.machine).2
  | .forRounds name i by_ up last body done =>
    (repeatFor p.fuel depth context name i by_ up last body done p.machine).2
  | .whileRounds condition body done =>
    (repeatWhile p.fuel depth context condition body done p.machine).2

/-- The name that a task binds in the first table of its context and not in the second. -/
inductive Task.Names : Task → String → Prop
  | function {span name params body k} :
    Names (.node (.function span (some name) params body k)) name
  | round {name i by_ up last b done} : Names (.forRounds name i by_ up last b done) name

def Task.makesList : Task → Bool
  | .node (.list _ _) => true
  | .node (.forLoop _ _ _ _ _ _ block) | .node (.whileLoop _ _ _ block) => !block
  | _ => false

/-- A call that has its context already takes an argument in, or binds it to a parameter. -/
inductive Receives (context : Context) : Machine → Machine → Prop
  | enter {m} (r : ObjectRef) :
    Receives context m ⟨m.store.update r (·.within (some context)), m.world⟩
  | bind {m} (x : String) (r : ObjectRef) :
    Receives context m ⟨m.store.bind context.symbols x (.object r), m.world⟩

theorem receives_bindArgs (context : Context) (params : List String) (args : List Value)
    (m : Machine) : ReflTransGen (Receives context) m (bindArgs context params args m).2 := by
  fun_induction bindArgs context params args generalizing m with
  | case1 p params v args ih =>
    cases v with
    | object r =>
      rw [objectOf_bind]
      apply path_bind (path_still (.object r))
      intro o m₁ _
      apply path_bind (.single (.enter r))
      intro _ m₂ _
      apply path_bind (.single (.bind p r))
      intro _ m₃ _
      exact path_bind (ih m₃) fun _ _ _ => .refl
    | absent | bare => exact .refl
  | case2 => exact .refl

def onward {α : Type} : Except Stop α × Machine → (α → Machine → List Event) → List Event
  | (.ok a, m), k => k a m
  | (.error _, _), _ => []

namespace Event

def fuel : Event → Nat
  | .text fuel _ _ _ | .file fuel _ _ _ => fuel
  | .part a => a.fuel

def machine : Event → Machine
  | .text _ _ _ m | .file _ _ _ m | .part (.call _ _ _ _ m) => m
  | .part (.inside _ _ p) => p.machine

def after : Event → Machine
  | .text fuel depth source m => (runText fuel depth source m).2
  | .file fuel depth path m => (importText fuel depth path m).2
  | .part (.call fuel depth r args m) => (call fuel depth r args m).2
  | .part (.inside depth context p) => p.after depth context

theorem Leads.fuel_lt {e e' : Event} (h : Leads e e') : e'.fuel < e.fuel := by
  cases h with
  | part h => exact h.fuel_lt
  | run => exact Nat.lt_succ_of_lt (Nat.lt_succ_self _)
  | program | module | think | importFile => exact Nat.lt_succ_self _

def nodeParts (fuel depth : Nat) (context : Context) (m : Machine) : Node → List Event
  | .list _ items => [inside fuel depth context m (.all items)]
  | .assign _ _ x | .unary _ _ x | .ret _ (some x) => [inside fuel depth context m (.node x)]
  | .binary _ _ x y =>
    inside fuel depth context m (.node x) :: onward (eval fuel depth context x m) fun _ m₁ =>
      [inside fuel depth context m₁ (.node y)]
  | .branch _ cs fallback => [inside fuel depth context m (.cases cs fallback)]
  | .forLoop _ name x y z b _ =>
    inside fuel depth context m (.node x) :: onward (eval fuel depth context x m) fun first m₁ =>
      inside fuel depth context m₁ (.node y) :: onward (eval fuel depth context y m₁) fun last m₂ =>
        (z.map fun e => inside fuel depth context m₂ (.node e)).toList ++
          onward (stepValue fuel depth context z m₂) fun step m₃ =>
            onward (loopStart first step m₃) fun (i, by_, up) m₄ =>
              [inside fuel depth context m₄ (.forRounds name i by_ up last b [])]
  | .whileLoop _ x b _ => [inside fuel depth context m (.whileRounds x b [])]
  | .call span f args =>
    inside fuel depth context m (.node f) :: onward (eval fuel depth context f m) fun v m₁ =>
      onward (calleeAt span v m₁) fun r m₂ =>
        inside fuel depth context m₂ (.all args) ::
          onward (evalAll fuel depth context args m₂) fun vs m₃ =>
            [.part (.call fuel depth r vs m₃)]
  | .think _ x =>
    (x.map fun e => inside fuel depth context m (.node e)).toList ++
      onward (operandValue fuel depth context x m) fun v m₁ =>
        onward (askModel v m₁) fun code m₂ => [.text fuel depth ⟨"<stdin>", code⟩ m₂]
  | .importFile span path =>
    onward (importFile context span path m) fun file m₁ => [.file fuel depth file m₁]
  | _ => []

def roundParts (ending : Except Stop Value × Machine) (next : Option Value → Machine → Event) :
    List Event :=
  match ending with
  | (.ok v, m) => [next (some v) m]
  | (.error .continued, m) => [next none m]
  | _ => []

def taskParts (fuel depth : Nat) (context : Context) (m : Machine) : Task → List Event
  | .node n => nodeParts fuel depth context m n
  | .all [] | .cases [] none => []
  | .all (n :: ns) =>
    inside fuel depth context m (.node n) :: onward (eval fuel depth context n m) fun _ m₁ =>
      [inside fuel depth context m₁ (.all ns)]
  | .cases [] (some (b, _)) => [inside fuel depth context m (.node b)]
  | .cases ((x, b, _) :: cs) fallback =>
    inside fuel depth context m (.node x) :: onward (eval fuel depth context x m) fun v m₁ =>
      onward (isTrue v m₁) fun holds m₂ =>
        [inside fuel depth context m₂ (if holds then .node b else .cases cs fallback)]
  | .forRounds name i by_ up last b done =>
    onward (startRound context name i by_ up last m) fun next? m₁ =>
      match next? with
      | none => []
      | some next =>
        inside fuel depth context m₁ (.node b) ::
          roundParts (eval fuel depth context b m₁) fun v? m₂ =>
            inside fuel depth context m₂ (.forRounds name next by_ up last b (v?.toList ++ done))
  | .whileRounds x b done =>
    inside fuel depth context m (.node x) :: onward (eval fuel depth context x m) fun v m₁ =>
      onward (isTrue v m₁) fun holds m₂ =>
        if holds then
          inside fuel depth context m₂ (.node b) ::
            roundParts (eval fuel depth context b m₂) fun v? m₃ =>
              inside fuel depth context m₃ (.whileRounds x b (v?.toList ++ done))
        else []

/-- What a call of `run` comes to: the text of the file, if it can be read. -/
def runParts (fuel depth : Nat) (r : ObjectRef) (name : String) (args : List Value) (m : Machine) :
    List Event :=
  match args, fuel with
  | [.object script], fuel + 1 =>
    onward (enterFunction r (m.store.object r) name Builtin.run.params [.object script] m)
      fun context m₁ =>
        onward ((⟨m.store.object r, context⟩ : BuiltinCall).textArg script
            "Second argument must be string" m₁) fun path m₂ =>
          match m₂.world.readText path with
          | .ok content => [.text fuel depth ⟨path, content⟩ m₂]
          | .error _ => []
  | _, _ => []

def callParts (fuel depth : Nat) (r : ObjectRef) (args : List Value) (m : Machine) : List Event :=
  match (m.store.object r).payload with
  | .function name params body _ =>
    onward (enterFunction r (m.store.object r) name params args m) fun context m₁ =>
      [inside fuel depth context m₁ (.node body)]
  | .builtin name =>
    if Builtin.ofName? name = some .run then runParts fuel depth r name args m else []
  | _ => []

/-- What the event comes to, in the order of time. -/
def parts : Event → List Event
  | .text (fuel + 1) (depth + 1) source m =>
    onward (treeOf source m) fun tree? m₁ =>
      match tree? with
      | .ok tree =>
        [inside fuel depth (programContext source.name) (mainMachine m₁) (.node tree)]
      | .error _ => []
  | .file (fuel + 1) (depth + 1) path m =>
    onward (readFile path m) fun text m₁ =>
      onward (treeOf ⟨path, text⟩ m₁) fun tree? m₂ =>
        match tree? with
        | .ok tree =>
          onward (newTable m₂) fun hidden m₃ =>
            onward (make (.number (.int 0)) m₃) fun zero m₄ =>
              onward (bind hidden "is_main" zero m₄) fun _ m₅ =>
                [inside fuel depth (moduleContext path hidden) m₅ (.node tree)]
        | .error _ => []
  | .part (.inside depth context ⟨t, fuel + 1, m⟩) => taskParts fuel depth context m t
  | .part (.call (fuel + 1) (depth + 1) r args m) => callParts fuel depth r args m
  | _ => []

theorem Leads.mem_parts {e f : Event} (h : Leads e f) : f ∈ e.parts := by
  cases h with
  | program ht => simp [parts, ht, onward]
  | module hf ht hh hz hb => simp [parts, hf, ht, hh, hz, hb, onward]
  | think hv hcode => simp [parts, taskParts, nodeParts, hv, hcode, onward]
  | importFile hf => simp [parts, taskParts, nodeParts, hf, onward]
  | run hp hn he hpath htext =>
    simp [parts, callParts, runParts, hp, hn, he, hpath, htext, onward]
  | part h =>
    cases h with
    | call hf hr hvs => simp [parts, taskParts, nodeParts, hf, hr, hvs, onward]
    | body hp he => simp [parts, callParts, hp, he, onward]
    | enters h => cases h <;> simp [parts, taskParts, nodeParts, roundParts, onward, *]

/-- An act of the event that leaves all lists alone. -/
inductive Acts : Event → Machine → Machine → Prop
  | world {e m} (w : World) (hw : w.disk = m.world.disk) : Acts e m ⟨m.store, w⟩
  | value {e m s} (h : m.store.ModestChange s) (hl : s.lists = m.store.lists) :
    Acts e m ⟨s, m.world⟩
  | data {depth context p m o} (hc : o.context = some context) (ho : o.payload.IsData) :
    Acts (.part (.inside depth context p)) m ⟨(m.store.allocate o).2, m.world⟩
  | function {depth context fuel span name params body k m₀ m o} (hc : o.context = some context)
    (ho : o.payload = .function (name.getD "<anonymous>") params body k) :
    Acts (inside (fuel + 1) depth context m₀ (.node (.function span name params body k))) m
      ⟨(m.store.allocate o).2, m.world⟩
  | enter {depth context p m} (r : ObjectRef) :
    Acts (.part (.inside depth context p)) m ⟨m.store.update r (·.within (some context)), m.world⟩
  | name {depth context p m x} (r : ObjectRef) (hx : p.task.Names x) :
    Acts (.part (.inside depth context p)) m ⟨m.store.bind context.symbols x (.object r), m.world⟩
  | assign {depth context fuel span x value m₀ v m}
    (hv : eval fuel depth context value m₀ = (.ok v, m)) :
    Acts (inside (fuel + 1) depth context m₀ (.node (.assign span x value))) m
      ⟨(m.store.bind context.symbols x v).bind context.hidden x v, m.world⟩
  | entry {fuel depth r args m name context m₁ m'}
    (hc : callContext (m.store.object r) name m = (.ok context, m₁))
    (ha : ReflTransGen (Receives context) m₁ m') : Acts (.part (.call fuel depth r args m)) m m'
  | program {fuel depth source m} : Acts (.text fuel depth source m) m (mainMachine m)
  | module {fuel depth path m hidden m₁ zero m₂ m₃} (hh : newTable m = (.ok hidden, m₁))
    (hz : make (.number (.int 0)) m₁ = (.ok zero, m₂))
    (hb : bind hidden "is_main" zero m₂ = (.ok (), m₃)) : Acts (.file fuel depth path m) m m₃

/-- What the event does when all that it came to is over, if it has to do with lists: it makes one,
applies an operator or performs a function of the language. -/
inductive Works : Event → Machine → Machine → Prop
  | rest {e m} : Works e m m
  | list {depth context p m} (vs : List Value) (hp : p.task.makesList = true) :
    Works (.part (.inside depth context p)) m ⟨(m.store.allocateList vs.toArray).2, m.world⟩
  | binary {depth context fuel span op x y m l m₁ r m₂}
    (hl : eval fuel depth context x m = (.ok l, m₁))
    (hr : eval fuel depth context y m₁ = (.ok r, m₂)) :
    Works (inside (fuel + 1) depth context m (.node (.binary span op x y))) m₂
      (binary op span l r m₂).2
  | unary {depth context fuel span op x m v m₁} (hv : eval fuel depth context x m = (.ok v, m₁)) :
    Works (inside (fuel + 1) depth context m (.node (.unary span op x))) m₁
      (unary op span v m₁).2
  | perform {fuel depth r name b context m m₁} {refs : List ObjectRef}
    (hp : (m.store.object r).payload = .builtin name) (hb : Builtin.ofName? name = some b)
    (he : enterFunction r (m.store.object r) name b.params (refs.map .object) m =
      (.ok context, m₁)) :
    Works (.part (.call (fuel + 1) (depth + 1) r (refs.map .object) m)) m₁
      ((⟨m.store.object r, context⟩ : BuiltinCall).perform b refs m₁).2

/-- The event takes its course from a machine on: it comes to the given events in turn, acts between
them, and leaves the last machine. -/
inductive Tiles (e : Event) : Machine → List Event → Machine → Prop
  | last {m m₁ m₂ m'} (h : ReflTransGen (Acts e) m m₁) (hw : Works e m₁ m₂)
    (h' : ReflTransGen (Acts e) m₂ m') : Tiles e m [] m'
  | part {m f fs m'} (h : ReflTransGen (Acts e) m f.machine) (hl : Leads e f)
    (ht : Tiles e f.after fs m') : Tiles e m (f :: fs) m'

namespace Tiles

variable {e f : Event} {fs : List Event} {α β : Type} {x : Eval α} {k : α → Eval β}
  {g : α → Machine → List Event} {m m' m'' : Machine}

theorem mem (h : Tiles e m fs m') (hf : f ∈ fs) : Leads e f := by
  induction h with
  | last => cases hf
  | part _ hl _ ih =>
    rcases List.mem_cons.mp hf with rfl | hf
    · exact hl
    · exact ih hf

theorem head (h : ReflTransGen (Acts e) m m') (ht : Tiles e m' fs m'') : Tiles e m fs m'' := by
  cases ht with
  | last h' hw h'' => exact .last (h.trans h') hw h''
  | part h' hl ht => exact .part (h.trans h') hl ht

theorem acts (h : ReflTransGen (Acts e) m m') : Tiles e m [] m' := .last h .rest .refl

theorem done : Tiles e m [] m := acts .refl

theorem work (h : Works e m m') : Tiles e m [] m' := .last .refl h .refl

theorem bind (hl : Leads e f) (hm : f.machine = m) (hx : f.after = (x m).2)
    (hk : ∀ a m', x m = (.ok a, m') → Tiles e m' (g a m') (k a m').2) :
    Tiles e m (f :: onward (x m) g) ((x >>= k) m).2 := by
  subst hm
  apply Tiles.part .refl hl
  rw [hx]
  rcases h : x f.machine with ⟨s | a, m'⟩
  · rw [bind_error h]
    exact done
  · rw [bind_ok h]
    exact hk a m' h

/-- The last part, and what the event does itself if that ends with a value. -/
theorem final (hl : Leads e f) (hm : f.machine = m) (hx : f.after = (x m).2)
    (hk : ∀ a m', x m = (.ok a, m') → Tiles e m' [] (k a m').2) :
    Tiles e m [f] ((x >>= k) m).2 := by
  have h := bind (g := fun _ _ => []) hl hm hx hk
  rcases hr : x m with ⟨s | a, m'⟩ <;> rwa [hr] at h

theorem tail (hl : Leads e f) (hm : f.machine = m) (hx : f.after = m') : Tiles e m [f] m' := by
  subst hm hx
  exact .part .refl hl done

/-- What the event does itself, and what follows if that ends with a value. -/
theorem act (hx : ReflTransGen (Acts e) m (x m).2)
    (hk : ∀ a m', x m = (.ok a, m') → Tiles e m' (g a m') (k a m').2) :
    Tiles e m (onward (x m) g) ((x >>= k) m).2 := by
  apply head hx
  rcases h : x m with ⟨s | a, m'⟩
  · rw [bind_error h]
    exact done
  · rw [bind_ok h]
    exact hk a m' h

theorem look (hx : Still x)
    (hk : ∀ a, x m = (.ok a, m) → Tiles e m (g a m) (k a m).2) :
    Tiles e m (onward (x m) g) ((x >>= k) m).2 := by
  apply act
  · rw [hx m]
  · intro a m' h
    obtain rfl := hx.eq h
    exact hk a h

theorem still (hx : Still x) : Tiles e m [] (x m).2 := by
  rw [hx m]
  exact done

end Tiles

section

variable {e : Event} {fuel depth : Nat} {context : Context} {p : Point} {m : Machine}

theorem acts_copy (r : ObjectRef) : ReflTransGen (Acts e) m (copy r m).2 := by
  by_cases hr : (m.store.object r).payload = .plain
  · rw [copy_plain hr]
  · rw [copy_eq hr]
    exact .single (.value (.copy r) rfl)

theorem acts_place (r : ObjectRef) (span : Span) : ReflTransGen (Acts e) m (place r span m).2 :=
  .single (.value (.place r span) rfl)

theorem acts_copyTo (r : ObjectRef) (span : Span) :
    ReflTransGen (Acts (.part (.inside depth context p))) m (copyTo r span context m).2 := by
  refine path_bind (acts_copy r) fun c m₁ _ => ?_
  refine path_bind (acts_place c span) fun _ m₂ _ => ?_
  exact .single (.enter c)

theorem acts_found (span : Span) (y : String) (v : Value) :
    ReflTransGen (Acts (.part (.inside depth context p))) m
      ((match v with
      | .absent => error (some span.start) (some span.stop) s!"'{y}' is not defined" (some context)
      | .bare _ => fault .noSuchPart
      | .object r => do return .object (← copyTo r span context) : Eval Value) m).2 := by
  cases v with
  | absent => exact path_still (.error _ _ _ _)
  | bare t => exact path_still (.fault _)
  | object r => exact path_bind (acts_copyTo r span) fun _ _ _ => .refl

theorem acts_access (span : Span) (y : String) :
    ReflTransGen (Acts (.part (.inside depth context p))) m (access context span y m).2 := by
  refine path_bind (path_still (.lookup _ _)) fun found m₁ _ => ?_
  split
  · exact path_bind (path_still (.lookup _ _)) fun v m₂ _ => acts_found span y v
  · exact acts_found span y found

theorem acts_resultAt (span : Span) (v : Value) :
    ReflTransGen (Acts (.part (.inside depth context p))) m (resultAt span context v m).2 := by
  refine path_bind (path_still (.objectOf v)) ?_
  rintro ⟨r, o⟩ m₁ -
  exact path_bind (acts_copyTo r span) fun _ _ _ => .refl

theorem acts_calleeAt (span : Span) (v : Value) :
    ReflTransGen (Acts e) m (calleeAt span v m).2 := by
  refine path_bind (path_still (.objectOf v)) ?_
  rintro ⟨r, o⟩ m₁ -
  refine path_bind (acts_copy r) fun f m₂ _ => ?_
  exact path_bind (acts_place f span) fun _ _ _ => .refl

theorem acts_make {q : Payload} (hq : q.IsData) : ReflTransGen (Acts e) m (make q m).2 :=
  .single (.value (.fresh q hq) rfl)

theorem acts_startRound {y : String} (hy : p.task.Names y) (i by_ : Number) (up : Bool)
    (last : Value) :
    ReflTransGen (Acts (.part (.inside depth context p))) m
      (startRound context y i by_ up last m).2 := by
  refine path_bind (path_still (.plainNumber last)) fun bound m₁ _ => ?_
  refine path_bind (path_still (.lift _)) fun more m₂ _ => ?_
  split
  · refine path_bind (acts_make (by simp)) fun v m₃ hv => ?_
    cases hv
    refine path_bind (.single (.name _ hy)) fun _ m₄ _ => ?_
    exact path_still (.map (.lift _) _)
  · exact .refl

theorem acts_askModel (v : Value) : ReflTransGen (Acts e) m (askModel v m).2 := by
  refine path_bind (path_still (.written v)) fun request m₁ _ => ?_
  refine path_bind (.single (.world _ rfl)) fun _ m₂ _ => ?_
  refine path_bind (path_still .world) fun w m₃ _ => ?_
  refine path_bind (path_still (.lift _)) fun prompt m₄ _ => ?_
  refine path_bind (.single (.world _ rfl)) fun _ m₅ _ => ?_
  refine path_bind (path_still .world) fun w m₆ _ => ?_
  exact path_bind (.single (.world _ rfl)) fun _ _ _ => .refl

theorem acts_stepless : ReflTransGen (Acts e) m (stepValue fuel depth context none m).2 :=
  acts_make (by simp)

theorem acts_allocateAt {q : Payload} (hq : q.IsData) (span : Span) :
    ReflTransGen (Acts (.part (.inside depth context p))) m (allocateAt q span context m).2 :=
  .single (.data rfl hq)

theorem tiles_listAt (hp : p.task.makesList = true) (vs : List Value) (span : Span) :
    Tiles (.part (.inside depth context p)) m [] (listAt vs span context m).2 :=
  .last .refl (.list vs hp) (acts_allocateAt (by simp) span)

theorem tiles_loopValue {block : Bool} (hp : p.task.makesList = !block) (vs : List Value)
    (span : Span) :
    Tiles (.part (.inside depth context p)) m []
      ((if block then pure nullValue else listAt vs span context : Eval Value) m).2 := by
  cases block with
  | true => exact .done
  | false => exact tiles_listAt hp vs span

end

section

variable {fuel depth : Nat} {context : Context} {m : Machine}

/-- A counted loop, from where its bounds and its step are known. -/
theorem tiles_rounds {e : Event} {first step last : Value} {y : String} {body : Node}
    {span : Span} {block : Bool} {p : Point} (he : e = .part (.inside depth context p))
    (hp : p.task.makesList = !block)
    (hl : ∀ i by_ up m', loopStart first step m = (.ok (i, by_, up), m') →
      Leads e (inside fuel depth context m' (.forRounds y i by_ up last body []))) :
    Tiles e m
      (onward (loopStart first step m) fun (i, by_, up) m' =>
        [inside fuel depth context m' (.forRounds y i by_ up last body [])])
      ((do
        let (i, by_, up) ← loopStart first step
        let vs ← repeatFor fuel depth context y i by_ up last body []
        if block then return nullValue else listAt vs span context : Eval Value) m).2 := by
  subst he
  refine .act (path_still (.loopStart _ _)) ?_
  rintro ⟨i, by_, up⟩ m' hs
  exact .final (hl i by_ up m' hs) rfl rfl fun vs _ _ => tiles_loopValue hp vs span

theorem tiles_forLoop (span : Span) (name : String) (x y : Node) (z : Option Node) (b : Node)
    (k : Bool) :
    Tiles (inside (fuel + 1) depth context m (.node (.forLoop span name x y z b k))) m
      (nodeParts fuel depth context m (.forLoop span name x y z b k))
      (eval (fuel + 1) depth context (.forLoop span name x y z b k) m).2 := by
  rw [eval_forLoop]
  refine .bind (.part (.enters .forFirst)) rfl rfl fun first m₁ hx => ?_
  refine .bind (.part (.enters (.forLast hx))) rfl rfl fun last m₂ hy => ?_
  cases z with
  | none =>
    rw [Option.map_none, Option.toList_none, List.nil_append]
    refine .act acts_stepless fun step m₃ hz => ?_
    exact tiles_rounds rfl rfl fun i by_ up m₄ hs => .part (.enters (.forRounds hx hy hz hs))
  | some z =>
    refine .bind (.part (.enters (.forStep hx hy))) rfl rfl fun step m₃ hz => ?_
    exact tiles_rounds rfl rfl fun i by_ up m₄ hs => .part (.enters (.forRounds hx hy hz hs))

theorem tiles_call (span : Span) (f : Node) (args : List Node) :
    Tiles (inside (fuel + 1) depth context m (.node (.call span f args))) m
      (nodeParts fuel depth context m (.call span f args))
      (eval (fuel + 1) depth context (.call span f args) m).2 := by
  rw [eval]
  refine .bind (.part (.enters .callee)) rfl rfl fun v m₁ hf => ?_
  refine .act (acts_calleeAt span v) fun r m₂ hr => ?_
  refine .bind (.part (.enters (.args hf hr))) rfl rfl fun vs m₃ hvs => ?_
  exact .final (.part (.call hf hr hvs)) rfl rfl fun v m₄ _ => .acts (acts_resultAt span v)

theorem tiles_think (span : Span) (x : Option Node) :
    Tiles (inside (fuel + 1) depth context m (.node (.think span x))) m
      (nodeParts fuel depth context m (.think span x))
      (eval (fuel + 1) depth context (.think span x) m).2 := by
  rw [eval_think]
  have hask (v : Value) (m₁ : Machine)
      (hv : operandValue fuel depth context x m = (.ok v, m₁)) :
      Tiles (inside (fuel + 1) depth context m (.node (.think span x))) m₁
        (onward (askModel v m₁) fun code m₂ => [.text fuel depth ⟨"<stdin>", code⟩ m₂])
        ((do
          let code ← askModel v
          let _ ← runText fuel depth ⟨"<stdin>", code⟩
          return .bare code : Eval Value) m₁).2 :=
    .act (acts_askModel v) fun code m₂ hcode =>
      .final (.think hv hcode) rfl rfl fun _ _ _ => .done
  cases x with
  | none => exact hask nullValue m rfl
  | some x => exact .bind (.part (.enters .thought)) rfl rfl hask

theorem tiles_importFile (span : Span) (path : String) :
    Tiles (inside (fuel + 1) depth context m (.node (.importFile span path))) m
      (nodeParts fuel depth context m (.importFile span path))
      (eval (fuel + 1) depth context (.importFile span path) m).2 := by
  rw [eval]
  refine .look (.importFile _ _ _) fun file hf => ?_
  refine .final (.importFile hf) rfl rfl fun answer m₁ _ => .still ?_
  cases answer <;> simp

theorem tiles_node (n : Node) :
    Tiles (inside (fuel + 1) depth context m (.node n)) m (nodeParts fuel depth context m n)
      (eval (fuel + 1) depth context n m).2 := by
  cases n with
  | number span x => cases x <;> (rw [eval]; exact .acts (acts_allocateAt (by simp) span))
  | text span t =>
    rw [eval]
    exact .acts (acts_allocateAt (by simp) span)
  | list span items =>
    rw [eval]
    exact .final (.part (.enters .list)) rfl rfl fun vs _ _ => tiles_listAt rfl vs span
  | access span x =>
    rw [eval]
    exact .acts (acts_access span x)
  | assign span x value =>
    rw [eval]
    exact .final (.part (.enters .assign)) rfl rfl fun v m₁ hv => .acts (.single (.assign hv))
  | binary span op x y =>
    rw [eval]
    refine .bind (.part (.enters .left)) rfl rfl fun l m₁ hl => ?_
    exact .final (.part (.enters (.right hl))) rfl rfl fun r m₂ hr => .work (.binary hl hr)
  | unary span op x =>
    rw [eval]
    exact .final (.part (.enters .operand)) rfl rfl fun v m₁ hv => .work (.unary hv)
  | branch span cs fallback =>
    rw [eval]
    exact .tail (.part (.enters .branch)) rfl rfl
  | forLoop span name x y z b k => exact tiles_forLoop span name x y z b k
  | whileLoop span x b k =>
    rw [eval]
    exact .final (.part (.enters .whileRounds)) rfl rfl fun vs m₁ _ => tiles_loopValue rfl vs span
  | function span name params body k =>
    rw [eval]
    cases name with
    | none => exact .acts (.single (.function rfl rfl))
    | some name => exact .acts ((ReflTransGen.single (.function rfl rfl)).tail (.name _ .function))
  | call span f args => exact tiles_call span f args
  | ret span x =>
    rw [eval_ret]
    cases x with
    | none => exact .still (.returnValue _)
    | some x =>
      exact .final (.part (.enters .returned)) rfl rfl fun v m₁ _ => .still (.returnValue v)
  | think span x => exact tiles_think span x
  | importFile span path => exact tiles_importFile span path
  | continueLoop span =>
    rw [eval]
    exact .done
  | breakLoop span =>
    rw [eval]
    exact .done

theorem Tiles.round {e f : Event} {next : Option Value → Machine → Event} {x : Eval Value}
    {k : Except Stop Value → Eval (List Value)} (hl : Leads e f) (hm : f.machine = m)
    (hx : f.after = (x m).2)
    (hok : ∀ v m', x m = (.ok v, m') → Leads e (next (some v) m') ∧
      (next (some v) m').machine = m' ∧ (next (some v) m').after = (k (.ok v) m').2)
    (hcontinued : ∀ m', x m = (.error .continued, m') → Leads e (next none m') ∧
      (next none m').machine = m' ∧ (next none m').after = (k (.error .continued) m').2)
    (hstop : ∀ s, s ≠ .continued → Still (k (.error s))) :
    Tiles e m (f :: roundParts (x m) next) ((outcome x >>= k) m).2 := by
  subst hm
  apply Tiles.part .refl hl
  rw [hx, bind_ok (outcome_apply _ _)]
  rcases h : x f.machine with ⟨s | v, m'⟩
  · cases s with
    | continued =>
      obtain ⟨hn, hm, ha⟩ := hcontinued m' h
      exact .tail hn hm ha
    | _ => exact .still (hstop _ (by simp))
  · obtain ⟨hn, hm, ha⟩ := hok v m' h
    exact .tail hn hm ha

theorem tiles_task (t : Task) :
    Tiles (inside (fuel + 1) depth context m t) m (taskParts fuel depth context m t)
      (inside (fuel + 1) depth context m t).after := by
  cases t with
  | node n => exact tiles_node n
  | all ns =>
    change Tiles _ _ _ (evalAll _ _ _ _ _).2
    cases ns with
    | nil =>
      rw [evalAll]
      exact .done
    | cons n ns =>
      rw [evalAll]
      refine .bind (.part (.enters .first)) rfl rfl fun v m₁ hn => ?_
      exact .final (.part (.enters (.next hn))) rfl rfl fun _ _ _ => .done
  | cases cs fallback =>
    change Tiles _ _ _ (evalCases _ _ _ _ _ _).2
    cases cs with
    | nil =>
      rcases fallback with _ | ⟨b, k⟩
      · rw [evalCases]
        exact .done
      · rw [evalCases]
        exact .final (.part (.enters .fallback)) rfl rfl fun _ _ _ => .done
    | cons c cs =>
      obtain ⟨x, b, k⟩ := c
      rw [evalCases]
      refine .bind (.part (.enters .condition)) rfl rfl fun v m₁ hc => ?_
      refine .act (path_still (.isTrue v)) fun holds m₂ ht => ?_
      cases holds with
      | true => exact .final (.part (.enters (.consequence hc ht))) rfl rfl fun _ _ _ => .done
      | false => exact .tail (.part (.enters (.otherCases hc ht))) rfl rfl
  | forRounds name i by_ up last b done =>
    change Tiles _ _ _ (repeatFor _ _ _ _ _ _ _ _ _ _ _).2
    rw [repeatFor]
    refine .act (acts_startRound .round i by_ up last) fun next? m₁ hr => ?_
    cases next? with
    | none => exact .done
    | some next =>
      refine .round (.part (.enters (.forBody hr))) rfl rfl ?_ ?_ ?_
      · exact fun v m₂ hb => ⟨.part (.enters (.forNext hr hb)), rfl, rfl⟩
      · exact fun m₂ hb => ⟨.part (.enters (.forContinue hr hb)), rfl, rfl⟩
      · intro s hs
        cases s <;> simp at hs ⊢
  | whileRounds x b done =>
    change Tiles _ _ _ (repeatWhile _ _ _ _ _ _ _).2
    rw [repeatWhile]
    refine .bind (.part (.enters .whileCondition)) rfl rfl fun v m₁ hc => ?_
    refine .act (path_still (.isTrue v)) fun holds m₂ ht => ?_
    cases holds with
    | false => exact .done
    | true =>
      refine .round (.part (.enters (.whileBody hc ht))) rfl rfl ?_ ?_ ?_
      · exact fun v m₃ hb => ⟨.part (.enters (.whileNext hc ht hb)), rfl, rfl⟩
      · exact fun m₃ hb => ⟨.part (.enters (.whileContinue hc ht hb)), rfl, rfl⟩
      · intro s hs
        cases s <;> simp at hs ⊢

end

section

variable {fuel depth : Nat} {r : ObjectRef} {name : String} {args : List Value} {b : Builtin}
  {m : Machine}

theorem callContext_eq_error {callee : Object} {s : Stop} {m' : Machine}
    (h : callContext callee name m = (.error s, m')) :
    m' = m ∧ callee.context = none ∧ s = .fault .noSuchPart := by
  unfold callContext at h
  cases hc : callee.context with
  | none =>
    rw [hc] at h
    cases h
    exact ⟨rfl, rfl, rfl⟩
  | some outer =>
    rw [hc] at h
    cases h

theorem acts_enterFunction (fuel depth : Nat) (r : ObjectRef) (name : String)
    (params : List String) (args : List Value) (m : Machine) :
    ReflTransGen (Acts (.part (.call fuel depth r args m))) m
      (enterFunction r (m.store.object r) name params args m).2 := by
  rcases hc : callContext (m.store.object r) name m with ⟨s | context, m₁⟩
  · rw [enterFunction, bind_error hc, (callContext_eq_error hc).1]
  · rw [enterFunction, bind_ok hc]
    refine .single (.entry hc (path_bind (path_still (.checkCount _ _ _ _)) fun _ m₂ _ => ?_))
    exact path_bind (receives_bindArgs _ _ _ _) fun _ _ _ => .refl

def performed (fuel depth : Nat) (c : BuiltinCall) (b : Builtin) (refs : List ObjectRef) :
    Eval Value :=
  match b, refs with
  | .run, [script] => runFile fuel depth c script
  | _, _ => c.perform b refs

theorem performed_eq {c : BuiltinCall} {refs : List ObjectRef} (hb : b ≠ .run) :
    performed fuel depth c b refs = c.perform b refs := by
  rw [performed]
  simp [hb]

theorem call_builtin_cases (fuel depth : Nat) (args : List Value)
    (hp : (m.store.object r).payload = .builtin name) (hb : Builtin.ofName? name = some b) :
    (∃ s m', enterFunction r (m.store.object r) name b.params args m = (.error s, m') ∧
      call (fuel + 1) (depth + 1) r args m = (.error s, m')) ∨
    ∃ (context : Context) (m₁ : Machine) (refs : List ObjectRef),
      enterFunction r (m.store.object r) name b.params args m = (.ok context, m₁) ∧
      args = refs.map .object ∧
      call (fuel + 1) (depth + 1) r args m =
        performed fuel depth ⟨m.store.object r, context⟩ b refs m₁ := by
  rw [call, enterFunction, bind_ok (object_apply r m), hp]
  dsimp only
  rw [hb]
  rcases hc : callContext (m.store.object r) name m with ⟨s | context, m₁⟩
  · rw [bind_error hc, bind_error hc]
    exact .inl ⟨s, m₁, rfl, rfl⟩
  rw [bind_ok hc, bind_ok hc]
  rcases hcount : checkCount r (m.store.object r) b.params args m₁ with ⟨s | _, m₂⟩
  · exact .inl ⟨s, m₂, bind_error hcount, bind_error hcount⟩
  have hlength := checkCount_eq_ok hcount
  rcases hargs : bindArgs context b.params args m₂ with ⟨s | refs, m₃⟩
  · exact .inl ⟨s, m₃, (bind_ok hcount).trans (bind_error hargs),
      (bind_ok hcount).trans (bind_error hargs)⟩
  · exact .inr ⟨context, m₃, refs, (bind_ok hcount).trans (bind_ok hargs),
      bindArgs_eq_ok hargs hlength, (bind_ok hcount).trans ((bind_ok hargs).trans rfl)⟩

theorem tiles_run {script : ObjectRef} {context : Context} {m₁ : Machine}
    (hp : (m.store.object r).payload = .builtin name) (hb : Builtin.ofName? name = some .run)
    (he : enterFunction r (m.store.object r) name Builtin.run.params [.object script] m =
      (.ok context, m₁)) :
    Tiles (.part (.call (fuel + 1) (depth + 1) r [.object script] m)) m₁
      (runParts fuel depth r name [.object script] m)
      (runFile fuel depth ⟨m.store.object r, context⟩ script m₁).2 := by
  cases fuel with
  | zero =>
    rw [runFile]
    exact .done
  | succ fuel =>
    rw [runFile, runParts, he]
    refine .look (.textArg _ _ _) fun path hpath => ?_
    rw [bind_ok (show world m₁ = (.ok m₁.world, m₁) from rfl)]
    cases htext : m₁.world.readText path with
    | error problem => exact .done
    | ok content =>
      refine .final (.run hp hb he hpath htext) rfl rfl fun answer m₂ _ => .still ?_
      cases answer with
      | ok v => exact .pure _
      | error d =>
        dsimp only
        split <;> simp [BuiltinCall.fail]

theorem tiles_perform {context : Context} {m₁ : Machine} {refs : List ObjectRef}
    (hp : (m.store.object r).payload = .builtin name) (hb : Builtin.ofName? name = some b)
    (he : enterFunction r (m.store.object r) name b.params (refs.map .object) m =
      (.ok context, m₁)) :
    Tiles (.part (.call (fuel + 1) (depth + 1) r (refs.map .object) m)) m₁
      (callParts fuel depth r (refs.map .object) m)
      (performed fuel depth ⟨m.store.object r, context⟩ b refs m₁).2 := by
  rw [callParts, hp]
  dsimp only
  rw [hb]
  by_cases hrun : b = .run
  · subst hrun
    rw [if_pos rfl]
    rcases refs with _ | ⟨script, _ | ⟨q, refs⟩⟩
    · exact .work (.perform hp hb he)
    · exact tiles_run hp hb he
    · exact .work (.perform hp hb he)
  · rw [if_neg (by simpa using hrun)]
    rw [performed_eq hrun]
    exact .work (.perform hp hb he)

theorem callParts_eq_nil {s : Stop} {m' : Machine}
    (hp : (m.store.object r).payload = .builtin name) (hb : Builtin.ofName? name = some b)
    (he : enterFunction r (m.store.object r) name b.params args m = (.error s, m')) :
    callParts fuel depth r args m = [] := by
  rw [callParts, hp]
  dsimp only
  split
  · next hrun =>
    obtain rfl : b = .run := Option.some.inj (hb.symm.trans hrun)
    unfold runParts
    split
    · rw [he]
      rfl
    · rfl
  · rfl

theorem tiles_callBuiltin (hp : (m.store.object r).payload = .builtin name) :
    Tiles (.part (.call (fuel + 1) (depth + 1) r args m)) m (callParts fuel depth r args m)
      (call (fuel + 1) (depth + 1) r args m).2 := by
  cases hb : Builtin.ofName? name with
  | none =>
    have hparts : callParts fuel depth r args m = [] := by simp [callParts, hp, hb]
    rw [hparts, call, bind_ok (object_apply r m), hp]
    dsimp only
    rw [hb]
    rcases hc : callContext (m.store.object r) name m with ⟨s | context, m₁⟩
    · rw [bind_error hc, (callContext_eq_error hc).1]
      exact .done
    · rw [bind_ok hc]
      exact .acts (.single (.entry hc .refl))
  | some b =>
    have hentry := acts_enterFunction (fuel + 1) (depth + 1) r name b.params args m
    rcases call_builtin_cases fuel depth args hp hb with
      ⟨s, m', he, hcall⟩ | ⟨context, m₁, refs, he, rfl, hcall⟩
    · rw [he] at hentry
      rw [hcall, callParts_eq_nil hp hb he]
      exact .acts hentry
    · rw [he] at hentry
      rw [hcall]
      exact .head hentry (tiles_perform hp hb he)

theorem tiles_callee :
    Tiles (.part (.call (fuel + 1) (depth + 1) r args m)) m (callParts fuel depth r args m)
      (call (fuel + 1) (depth + 1) r args m).2 := by
  cases hp : (m.store.object r).payload with
  | function name params body k =>
    rw [call_function hp, callParts, hp]
    refine .act (acts_enterFunction _ _ _ _ _ _ _) fun context m₁ he => ?_
    refine .tail (.part (.body hp he)) rfl (Eq.symm (Still.handle ?_ _ _))
    rintro (s | v)
    · cases s <;> simp
    · exact .functionResult k v
  | builtin name => exact tiles_callBuiltin hp
  | number | text | list | null | file | plain =>
    rw [call_other (by simp [hp]) (by simp [hp]), callParts, hp]
    exact .still (.unknown _ _)

theorem settle_machine (x : Eval Value) (m : Machine) : (settle x m).2 = (x m).2 := by
  have hshown : ((x >>= programValue) m).2 = (x m).2 := by
    rcases h : x m with ⟨s | v, m'⟩
    · rw [bind_error h]
    · rw [bind_ok h]
      exact Still.programValue v m'
  refine Eq.trans (Still.handle ?_ (x >>= programValue) m) hshown
  rintro (s | v)
  · cases s with
    | fault f => cases f <;> simp
    | _ => simp
  · exact .pure _

theorem tiles_text (source : Source) :
    Tiles (.text fuel depth source m) m (Event.text fuel depth source m).parts
      (runText fuel depth source m).2 := by
  rcases fuel with _ | fuel
  · rw [runText]
    exact .done
  rcases depth with _ | depth
  · rw [runText]
    · exact .done
    · simp
  rw [runText]
  refine .look (.treeOf _) fun tree? ht => ?_
  cases tree? with
  | error d => exact .done
  | ok tree => exact .head (.single .program) (.tail (.program ht) rfl (settle_machine _ _).symm)

theorem tiles_file (path : String) :
    Tiles (.file fuel depth path m) m (Event.file fuel depth path m).parts
      (importText fuel depth path m).2 := by
  rcases fuel with _ | fuel
  · rw [importText]
    exact .done
  rcases depth with _ | depth
  · rw [importText]
    · exact .done
    · simp
  rw [importText]
  refine .look (.readFile _) fun content hf => ?_
  refine .look (.treeOf _) fun tree? ht => ?_
  cases tree? with
  | error d => exact .done
  | ok tree =>
    exact .head (.single (.module rfl rfl rfl))
      (.tail (.module hf ht rfl rfl rfl) rfl (settle_machine _ _).symm)

end

theorem tiles (e : Event) : Tiles e e.machine e.parts e.after := by
  cases e with
  | text fuel depth source m => exact tiles_text source
  | file fuel depth path m => exact tiles_file path
  | part a =>
    cases a with
    | call fuel depth r args m =>
      change Tiles _ m _ (call fuel depth r args m).2
      rcases fuel with _ | fuel
      · rw [call]
        exact .done
      rcases depth with _ | depth
      · rw [call]
        · exact .done
        · simp
      exact tiles_callee
    | inside depth context p =>
      obtain ⟨t, fuel, m⟩ := p
      cases fuel with
      | zero =>
        have hafter : (Event.part (.inside depth context ⟨t, 0, m⟩)).after = m := by
          cases t <;> dsimp only [after, Point.after]
          case node => rw [eval]; rfl
          case all => rw [evalAll]; rfl
          case cases => rw [evalCases]; rfl
          case forRounds => rw [repeatFor]; rfl
          case whileRounds => rw [repeatWhile]; rfl
        rw [hafter]
        exact .done
      | succ fuel => exact tiles_task t

theorem leads_iff {e f : Event} : Leads e f ↔ f ∈ e.parts :=
  ⟨Leads.mem_parts, (tiles e).mem⟩

theorem Acts.changes {e : Event} {m m' : Machine} (h : Acts e m m') :
    ReflTransGen Store.Change m.store m'.store := by
  cases h with
  | world => exact .refl
  | value h => exact .single (.value h.value)
  | data | function => exact .single (.value (.object _))
  | enter r => exact .single (.value (.enter r _))
  | name r => exact .single (.bind _ _ _)
  | assign => exact (ReflTransGen.single (.bind _ _ _)).tail (.bind _ _ _)
  | program => exact (ReflTransGen.single (.value (.object _))).tail (.bind _ _ _)
  | module hh hz hb =>
    cases hh
    cases hz
    cases hb
    exact ((ReflTransGen.single (.table _)).tail (.value (.object _))).tail (.bind _ _ _)
  | @entry _ _ r _ _ name _ _ _ hc ha =>
    have htables := (mute_callContext (m.store.object r) name m).changes
    rw [hc] at htables
    apply htables.trans
    refine ReflTransGen.lift Machine.store ?_ _ _ ha
    intro m₁ m₂ h
    cases h with
    | enter r => exact .value (.enter r _)
    | bind x r => exact .bind _ _ _

theorem Works.modest {e : Event} {m m' : Machine} (h : Works e m m') :
    ReflTransGen Store.ModestChange m.store m'.store := by
  cases h with
  | rest => exact .refl
  | list vs => exact .single (.list _)
  | binary hl hr => exact (modest_binary _ _ _ _ _).changes
  | unary hv => exact (modest_unary _ _ _ _).changes
  | perform hp hb he => exact (BuiltinCall.modest_perform _ _ _ _).changes

end Event

end Eval

end Think
