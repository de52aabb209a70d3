import Think.Proofs.Eval.LockstepBuiltins

/-! # Trees of the same shape evaluate alike

Evaluation does not depend on where in a text a tree was read, on where values are kept, or on
fuel that is left over: trees of the same shape, evaluated in twin contexts on machines that are
alike, go in step. Nor does it depend on names that are never read.
-/

namespace Think

inductive Node.SameShape : Node → Node → Prop
  | number {s s'} (v : Numeral) : SameShape (.number s v) (.number s' v)
  | text {s s'} (t : String) : SameShape (.text s t) (.text s' t)
  | list {s s' ns ns'} : Node.shapes ns' = Node.shapes ns → SameShape (.list s ns) (.list s' ns')
  | access {s s'} (name : String) : SameShape (.access s name) (.access s' name)
  | assign {s s' v v'} (name : String) : v'.shape = v.shape →
    SameShape (.assign s name v) (.assign s' name v')
  | binary {s s' l l' r r'} (op : BinaryOp) : l'.shape = l.shape → r'.shape = r.shape →
    SameShape (.binary s op l r) (.binary s' op l' r')
  | unary {s s' a a'} (op : UnaryOp) : a'.shape = a.shape →
    SameShape (.unary s op a) (.unary s' op a')
  | branch {s s' cs cs' f f'} : Node.caseShapes cs' = Node.caseShapes cs →
    Node.bodyShape f' = Node.bodyShape f → SameShape (.branch s cs f) (.branch s' cs' f')
  | forLoop {s s' x x' y y' z z' b b'} (name : String) (k : Bool) : x'.shape = x.shape →
    y'.shape = y.shape → Node.optionShape z' = Node.optionShape z → b'.shape = b.shape →
    SameShape (.forLoop s name x y z b k) (.forLoop s' name x' y' z' b' k)
  | whileLoop {s s' c c' b b'} (k : Bool) : c'.shape = c.shape → b'.shape = b.shape →
    SameShape (.whileLoop s c b k) (.whileLoop s' c' b' k)
  | function {s s' b b'} (name : Option String) (params : List String) (k : Bool) :
    b'.shape = b.shape → SameShape (.function s name params b k) (.function s' name params b' k)
  | call {s s' c c' args args'} : c'.shape = c.shape → Node.shapes args' = Node.shapes args →
    SameShape (.call s c args) (.call s' c' args')
  | ret {s s' v v'} : Node.optionShape v' = Node.optionShape v → SameShape (.ret s v) (.ret s' v')
  | think {s s' v v'} : Node.optionShape v' = Node.optionShape v →
    SameShape (.think s v) (.think s' v')
  | importFile {s s'} (path : String) : SameShape (.importFile s path) (.importFile s' path)
  | continueLoop {s s'} : SameShape (.continueLoop s) (.continueLoop s')
  | breakLoop {s s'} : SameShape (.breakLoop s) (.breakLoop s')

theorem Node.sameShape {n n' : Node} (h : n'.shape = n.shape) : SameShape n n' := by
  cases n <;> cases n' <;> simp only [Node.shape, reduceCtorEq] at h
  case number.number =>
    cases h
    exact .number _
  case text.text =>
    cases h
    exact .text _
  case list.list =>
    injection h with _ hns
    exact .list hns
  case access.access =>
    cases h
    exact .access _
  case assign.assign =>
    injection h with _ hname hv
    exact hname ▸ .assign _ hv
  case binary.binary =>
    injection h with _ hop hl hr
    exact hop ▸ .binary _ hl hr
  case unary.unary =>
    injection h with _ hop ha
    exact hop ▸ .unary _ ha
  case branch.branch =>
    injection h with _ hcs hf
    exact .branch hcs hf
  case forLoop.forLoop =>
    injection h with _ hname hx hy hz hb hk
    exact hname ▸ hk ▸ .forLoop _ _ hx hy hz hb
  case whileLoop.whileLoop =>
    injection h with _ hc hb hk
    exact hk ▸ .whileLoop _ hc hb
  case function.function =>
    injection h with _ hname hparams hb hk
    exact hname ▸ hparams ▸ hk ▸ .function _ _ _ hb
  case call.call =>
    injection h with _ hc hargs
    exact .call hc hargs
  case ret.ret =>
    injection h with _ hv
    exact .ret hv
  case think.think =>
    injection h with _ hv
    exact .think hv
  case importFile.importFile =>
    cases h
    exact .importFile _
  case continueLoop.continueLoop => exact .continueLoop
  case breakLoop.breakLoop => exact .breakLoop

theorem Context.Twin.symbols {c c' : Context} (h : Twin c c') : c'.symbols = c.symbols := by
  cases h <;> rfl

theorem Context.Twin.hidden {c c' : Context} (h : Twin c c') : c'.hidden = c.hidden := by
  cases h <;> rfl

/-- How a whole program ends, in both runs. -/
inductive Ending.Alike (ρ : Pairing) : Except Diagnostic Value → Except Diagnostic Value → Prop
  | ok {v w : Value} : Value.Alike ρ v w → Alike ρ (.ok v) (.ok w)
  | error {d d' : Diagnostic} : d'.message?.isSome = d.message?.isSome →
    Alike ρ (.error d) (.error d')

def Relates.ending : Relates (Except Diagnostic Value) := fun ρ _ => Ending.Alike ρ

/-- A name that is read in the context is found before one of the names in `A` is looked at. -/
structure Store.Clear (s : Store) (A : TableRef → String → Prop) (c : Context) (x : String) :
    Prop where
  symbols : ∀ t ∈ c.symbols :: (s.table c.symbols).ancestors, ¬ A t x
  hidden : s.lookup c.symbols x = .absent →
    ∀ t ∈ c.hidden :: (s.table c.hidden).ancestors, ¬ A t x

namespace Eval

open BuiltinCall (nullValue plainNumber looks_plainNumber inStep_null)
open Relation (ReflTransGen)

namespace Event

variable {A : TableRef → String → Prop} {e f : Event}

def Clear (A : TableRef → String → Prop) : Event → Prop
  | .part (.inside _ c ⟨.node (.access _ x), _ + 1, m⟩) => m.store.Clear A c x
  | _ => True

/-- None of the names is looked at in the course of the event. -/
def AllClear (A : TableRef → String → Prop) (e : Event) : Prop :=
  ∀ f, ReflTransGen Leads e f → f.Clear A

theorem AllClear.leads (h : AllClear A e) (hl : Leads e f) : AllClear A f := fun g hg =>
  h g (.head hl hg)

theorem AllClear.enters {depth : Nat} {c : Context} {p q : Point}
    (h : AllClear A (.part (.inside depth c p))) (he : Enters depth c p q) :
    AllClear A (.part (.inside depth c q)) :=
  h.leads (.part (.enters he))

theorem AllClear.grown {ρ ρ' : Pairing} {s s' t t' : Store} (h : AllClear ρ.apart e)
    (hg : ρ.Grows s s' ρ' t t') : AllClear ρ'.apart e :=
  hg.apart ▸ h

theorem allClear (h : ∀ t x, ¬ A t x) (e : Event) : AllClear A e := by
  intro f _
  unfold Clear
  split
  · exact ⟨fun t _ => h t _, fun _ t _ => h t _⟩
  · trivial

end Event

variable {ρ : Pairing} {m m' : Machine} {c c' : Context} {v w : Value}

theorem inStep_allocateAt {p p' : Payload} (span span' : Span) (hp : Payload.Alike ρ p p')
    (hc : Context.Alike m.store.tables.size c c') :
    InStep ρ Relates.value (allocateAt p span c) (allocateAt p' span' c') m m' :=
  .allocateValue (((Object.Alike.fresh hp).within (.some hc)).placed span span')

theorem inStep_listAt {vs ws : List Value} (span span' : Span)
    (hvs : List.Forall₂ (Value.Alike ρ) vs ws) (hc : Context.Alike m.store.tables.size c c') :
    InStep ρ Relates.value (listAt vs span c) (listAt ws span' c') m m' := by
  apply InStep.bind (InStep.allocateList hvs)
  intro ρ' cells cells' t t' hg hcells
  exact inStep_allocateAt span span' (.list hcells) (hc.mono hg.tables)

theorem inStep_access (span span' : Span) {name : String}
    (hc : Context.Alike m.store.tables.size c c') (hclear : m.store.Clear ρ.apart c name) :
    InStep ρ Relates.value (access c span name) (access c' span' name) m m' := by
  have hcopy {r q : ObjectRef}
      (hp : Payload.Alike ρ (m.store.object r).payload (m'.store.object q).payload) :
      InStep ρ Relates.value (do return .object (← copyTo r span c))
        (do return .object (← copyTo q span' c')) m m' := by
    apply InStep.bind (InStep.copyTo span span' hp hc)
    intro ρ' r q t t' _ hr
    exact .pure (.object hr)
  unfold access
  rw [hc.twin.symbols, hc.twin.hidden]
  apply InStep.lookFrom (Looks.lookup hclear.symbols)
  intro found found' hsymbols hfound
  cases hfound with
  | absent =>
    have hnone : m.store.lookup c.symbols name = .absent :=
      Except.ok.inj (congrArg Prod.fst hsymbols)
    apply InStep.look (Looks.lookup (hclear.hidden hnone))
    intro other other' hother
    cases hother with
    | absent => exact .of_looks (.error rfl rfl (.some hc))
    | bare t => exact .fault _
    | object _ _ hp => exact hcopy hp
  | bare t => exact .fault _
  | object _ _ hp => exact hcopy hp

theorem inStep_placed {a a' : Answer} (span span' : Span) (h : Answer.Alike ρ a a') :
    InStep ρ Relates.value (placed span a) (placed span' a') m m' := by
  cases h with
  | truth b => exact .fault _
  | value hv =>
    apply InStep.look (Looks.objectOf hv)
    rintro ⟨r, o⟩ ⟨q, o'⟩ ⟨-, -, hr, -⟩
    apply InStep.bind (InStep.place hr span span')
    intro ρ' _ _ t t' hg _
    exact .pure (hv.mono hg.toSub)

theorem inStep_binary {v' w' : Value} (op : BinaryOp) (span span' : Span)
    (hv : Value.Alike ρ v w) (hv' : Value.Alike ρ v' w') :
    InStep ρ Relates.value (binary op span v v') (binary op span' w w') m m' := by
  apply InStep.look (Looks.objectOf hv)
  rintro ⟨r, o⟩ ⟨q, o'⟩ ⟨-, -, hr, -⟩
  apply InStep.bind (Operator.inStep_binary op hr hv')
  intro ρ' a a' t t' _ ha
  exact inStep_placed span span' ha

theorem inStep_unary (op : UnaryOp) (span span' : Span) (hv : Value.Alike ρ v w) :
    InStep ρ Relates.value (unary op span v) (unary op span' w) m m' := by
  apply InStep.look (Looks.objectOf hv)
  rintro ⟨r, o⟩ ⟨q, o'⟩ ⟨-, -, hr, -⟩
  cases op with
  | plus => exact inStep_placed span span' (.value hv)
  | minus =>
    apply InStep.bind (InStep.make (.number _))
    intro ρ' a a' t t' hg ha
    apply InStep.bind (Operator.inStep_binary .mul (hg.objects hr) ha)
    intro ρ'' b b' u u' _ hb
    exact inStep_placed span span' hb
  | not =>
    apply InStep.bind (Operator.inStep_negate hr)
    intro ρ' a a' t t' _ ha
    exact inStep_placed span span' ha

theorem inStep_callContext {o o' : Object} (name : String)
    (ho : Object.Alike ρ m.store.tables.size o o') :
    InStep ρ Relates.context (callContext o name) (callContext o' name) m m' := by
  obtain ⟨p, start, stop, outer⟩ := o
  obtain ⟨p', start', stop', outer'⟩ := o'
  obtain ⟨-, hstart, -, houter⟩ := ho
  dsimp only at hstart houter
  cases houter with
  | none => exact .fault _
  | @some outer outer' houter =>
    unfold callContext
    dsimp only
    rw [houter.twin.symbols, houter.twin.hidden]
    apply InStep.bind (InStep.childTable outer.symbols)
    rintro ρ' symbols _ t t' hg ⟨rfl, hsymbols⟩
    apply InStep.bind (InStep.childTable outer.hidden)
    rintro ρ'' hidden _ u u' hg' ⟨rfl, hhidden⟩
    exact .pure ⟨.inner houter.twin hstart, Nat.lt_of_lt_of_le hsymbols hg'.tables, hhidden⟩

theorem looks_checkCount {r q : ObjectRef} {o o' : Object} (params : List String)
    {args args' : List Value} (hr : ρ.objects r q) {n : Nat} (ho : Object.Alike ρ n o o')
    (hargs : List.Forall₂ (Value.Alike ρ) args args') :
    Looks ρ Eq (checkCount r o params args) (checkCount q o' params args') m m' := by
  have hreport (count : Nat) (which : String) {P : Unit → Unit → Prop} : Looks ρ P
      (do
        let whole ← written (.object r)
        error o.start o.stop s!"{count} too {which} args passed into {whole}" o.context)
      (do
        let whole ← written (.object q)
        error o'.start o'.stop s!"{count} too {which} args passed into {whole}" o'.context)
      m m' := by
    apply Looks.bind (Looks.written (.object hr))
    rintro whole _ rfl
    exact .error ho.start ho.stop ho.context
  unfold checkCount
  rw [← hargs.length_eq]
  dsimp only
  split
  · apply Looks.bind (hreport _ _ (P := Eq))
    rintro ⟨⟩ ⟨⟩ -
    split
    · exact hreport _ _
    · exact .pure rfl
  · split
    · exact hreport _ _
    · exact .pure rfl

theorem inStep_bindArgs (params : List String) {args args' : List Value}
    (hc : Context.Alike m.store.tables.size c c')
    (hargs : List.Forall₂ (Value.Alike ρ) args args') :
    InStep ρ Relates.objects (bindArgs c params args) (bindArgs c' params args') m m' := by
  induction params generalizing ρ args args' m m' with
  | nil => exact .pure .nil
  | cons p params ih =>
    cases hargs with
    | nil => exact .pure .nil
    | cons hv hargs =>
      unfold bindArgs
      rw [hc.twin.symbols]
      apply InStep.look (Looks.objectOf hv)
      rintro ⟨r, o⟩ ⟨q, o'⟩ ⟨-, -, hr, -⟩
      apply InStep.bind (InStep.enter hr (.some hc))
      intro ρ' _ _ t t' hg _
      apply InStep.bind (InStep.bindName c.symbols p (hv.mono hg.toSub))
      intro ρ'' _ _ u u' hg' _
      have hgrown := hg.trans hg'
      apply InStep.bind (ih (hc.mono hgrown.tables) (Value.alike_mono hargs hgrown.toSub))
      intro ρ₃ refs refs' x x' hg₃ hrefs
      exact .pure (.cons (hg₃.objects (hgrown.objects hr)) hrefs)

theorem inStep_enterFunction {r q : ObjectRef} {o o' : Object} (name : String)
    (params : List String) {args args' : List Value} (hr : ρ.objects r q)
    (ho : Object.Alike ρ m.store.tables.size o o')
    (hargs : List.Forall₂ (Value.Alike ρ) args args') :
    InStep ρ Relates.context (enterFunction r o name params args)
      (enterFunction q o' name params args') m m' := by
  apply InStep.bind (inStep_callContext name ho)
  intro ρ' context context' t t' hg hcontext
  have hargs' := Value.alike_mono hargs hg.toSub
  apply InStep.lookSame
    (looks_checkCount params (hg.objects hr) (ho.mono hg.toSub hg.tables) hargs')
  intro _
  apply InStep.bind (inStep_bindArgs params hcontext hargs')
  intro ρ'' refs refs' u u' hg' _
  exact .pure (hcontext.mono hg'.tables)

theorem inStep_calleeAt (span span' : Span) (hv : Value.Alike ρ v w) :
    InStep ρ Relates.object (calleeAt span v) (calleeAt span' w) m m' := by
  apply InStep.look (Looks.objectOf hv)
  rintro ⟨r, o⟩ ⟨q, o'⟩ ⟨-, -, hr, -⟩
  apply InStep.bind (Operator.inStep_copy hr)
  intro ρ' f f' t t' _ hf
  apply InStep.bind (InStep.place hf span span')
  intro ρ'' _ _ u u' hg _
  exact .pure (hg.objects hf)

theorem inStep_resultAt (span span' : Span) (hc : Context.Alike m.store.tables.size c c')
    (hv : Value.Alike ρ v w) :
    InStep ρ Relates.value (resultAt span c v) (resultAt span' c' w) m m' := by
  apply InStep.intro
  intro hm
  apply InStep.look (Looks.objectOf hv)
  rintro ⟨r, o⟩ ⟨q, o'⟩ ⟨-, -, hr, -⟩
  apply InStep.bind (InStep.copyTo span span' (hm.store.objects hr).2.2.payload hc)
  intro ρ' f f' t t' _ hf
  exact .pure (.object hf)

theorem looks_loopStart {v' w' : Value} (hv : Value.Alike ρ v w) (hv' : Value.Alike ρ v' w') :
    Looks ρ Eq (loopStart v v') (loopStart w w') m m' := by
  apply Looks.bind (looks_plainNumber hv)
  rintro i _ rfl
  apply Looks.bind (looks_plainNumber hv')
  rintro j _ rfl
  apply Looks.bind (Looks.lift _)
  rintro up _ rfl
  exact .pure rfl

theorem inStep_startRound (name : String) (i by_ : Number) (up : Bool)
    (hc : Context.Alike m.store.tables.size c c') (hv : Value.Alike ρ v w) :
    InStep ρ Relates.same (startRound c name i by_ up v) (startRound c' name i by_ up w) m m' := by
  unfold startRound
  rw [hc.twin.symbols]
  apply InStep.lookSame (looks_plainNumber hv)
  intro bound
  apply InStep.lookSame (Looks.lift _)
  intro more
  split
  · apply InStep.bind (InStep.make (.number i))
    intro ρ' a a' t t' _ ha
    apply InStep.bind (InStep.bindName c.symbols name ha)
    intro ρ'' _ _ u u' _ _
    apply InStep.lookSame (Looks.lift _)
    intro next
    exact .pure rfl
  · exact .pure rfl

theorem inStep_functionResult (isExpression : Bool) (hv : Value.Alike ρ v w) :
    InStep ρ Relates.value (functionResult isExpression v) (functionResult isExpression w)
      m m' := by
  apply InStep.look (Looks.isSomething hv)
  intro s s' hs
  rw [hs]
  split
  · exact .pure hv
  · exact inStep_null

theorem inStep_returnValue (hv : Value.Alike ρ v w) :
    InStep ρ Relates.value (returnValue v) (returnValue w) m m' := by
  apply InStep.look (Looks.isSomething hv)
  intro s s' hs
  rw [hs]
  split
  · exact .throw (.returned hv)
  · exact .pure .absent

theorem inStep_programValue (hv : Value.Alike ρ v w) :
    InStep ρ Relates.value (programValue v) (programValue w) m m' := by
  apply InStep.lookSame (Looks.written hv)
  intro t
  apply InStep.pure
  split
  · exact .bare ""
  · exact hv

theorem inStep_settle {x y : Eval Value} (h : InStep ρ Relates.value x y m m') :
    InStep ρ Relates.ending (settle x) (settle y) m m' := by
  have hshown : InStep ρ Relates.value (x >>= programValue) (y >>= programValue) m m' := by
    apply InStep.bind h
    intro ρ' a b t t' _ hab
    exact inStep_programValue hab
  apply InStep.handle hshown
  · intro ρ' a b t t' _ hab
    exact .pure (.ok hab)
  · intro ρ' e e' t t' _ he
    cases he with
    | fault f =>
      cases f with
      | interrupted => exact .pure (.error rfl)
      | _ => exact .fault _
    | error hd => exact .pure (.error hd)
    | returned _ => exact .pure (.ok .absent)
    | continued => exact .pure (.ok .absent)
    | broke => exact .pure (.ok .absent)
  · exact fun _ => rfl

theorem looks_treeOf (source : Source) : Looks ρ Eq (treeOf source) (treeOf source) m m' := by
  unfold treeOf
  split
  · exact .pure rfl
  · exact .fault _
  · split
    · exact .pure rfl
    · exact .pure rfl
    · exact .fault _

theorem looks_readFile (path : String) : Looks ρ Eq (readFile path) (readFile path) m m' := by
  apply Looks.bind Looks.world
  rintro w _ rfl
  split
  · exact .pure rfl
  · exact .fault _

theorem looks_importFile (span span' : Span) (path : String) {n : Nat} (hc : Context.Alike n c c') :
    Looks ρ Eq (importFile c span path) (importFile c' span' path) m m' := by
  apply Looks.bind Looks.world
  rintro w _ rfl
  split
  · exact .pure rfl
  · dsimp only
    generalize (if w.files.isAbsolute path then path else w.libraryPath ++ "/" ++ path) = shared
    split
    · exact .pure rfl
    · exact .error rfl rfl (.some hc)

theorem inStep_askModel (hv : Value.Alike ρ v w) :
    InStep ρ Relates.same (askModel v) (askModel w) m m' := by
  apply InStep.lookSame (Looks.written hv)
  intro request
  apply InStep.bind (InStep.modifyWorld _)
  intro ρ' _ _ t t' _ _
  apply InStep.lookSame Looks.world
  intro world
  apply InStep.lookSame (Looks.lift _)
  intro prompt
  apply InStep.bind (InStep.modifyWorld _)
  intro ρ'' _ _ u u' _ _
  apply InStep.lookSame Looks.world
  intro world
  apply InStep.bind (InStep.modifyWorld _)
  intro ρ₃ _ _ x x' _ _
  exact .pure rfl

/-- All parts of the evaluator go in step, with the first amount of fuel and with the second. -/
structure Simulated (n n' : Nat) : Prop where
  eval : ∀ {ρ depth c c' node node' m m'}, Context.Alike m.store.tables.size c c' →
    node'.shape = node.shape → (Event.inside n depth c m (.node node)).AllClear ρ.apart →
    InStep ρ Relates.value (eval n depth c node) (eval n' depth c' node') m m'
  evalAll : ∀ {ρ depth c c' nodes nodes' m m'}, Context.Alike m.store.tables.size c c' →
    Node.shapes nodes' = Node.shapes nodes →
    (Event.inside n depth c m (.all nodes)).AllClear ρ.apart →
    InStep ρ Relates.values (evalAll n depth c nodes) (evalAll n' depth c' nodes') m m'
  evalCases : ∀ {ρ depth c c' cs cs' f f' m m'}, Context.Alike m.store.tables.size c c' →
    Node.caseShapes cs' = Node.caseShapes cs → Node.bodyShape f' = Node.bodyShape f →
    (Event.inside n depth c m (.cases cs f)).AllClear ρ.apart →
    InStep ρ Relates.value (evalCases n depth c cs f) (evalCases n' depth c' cs' f') m m'
  repeatFor : ∀ {ρ depth c c' name i by_ up last last' body body' done done' m m'},
    Context.Alike m.store.tables.size c c' → Value.Alike ρ last last' →
    body'.shape = body.shape → List.Forall₂ (Value.Alike ρ) done done' →
    (Event.inside n depth c m (.forRounds name i by_ up last body done)).AllClear ρ.apart →
    InStep ρ Relates.values (repeatFor n depth c name i by_ up last body done)
      (repeatFor n' depth c' name i by_ up last' body' done') m m'
  repeatWhile : ∀ {ρ depth c c' condition condition' body body' done done' m m'},
    Context.Alike m.store.tables.size c c' → condition'.shape = condition.shape →
    body'.shape = body.shape → List.Forall₂ (Value.Alike ρ) done done' →
    (Event.inside n depth c m (.whileRounds condition body done)).AllClear ρ.apart →
    InStep ρ Relates.values (repeatWhile n depth c condition body done)
      (repeatWhile n' depth c' condition' body' done') m m'
  call : ∀ {ρ depth r q args args' m m'}, ρ.objects r q →
    List.Forall₂ (Value.Alike ρ) args args' →
    (Event.part (.call n depth r args m)).AllClear ρ.apart →
    InStep ρ Relates.value (call n depth r args) (call n' depth q args') m m'
  runFile : ∀ {ρ depth c c' r q} {m m' : Machine},
    BuiltinCall.Alike ρ m.store.tables.size c c' → ρ.objects r q →
    (∀ k path text, n = k + 1 →
      c.textArg r "Second argument must be string" m = (.ok path, m) →
      m.world.readText path = .ok text →
      (Event.text k depth ⟨path, text⟩ m).AllClear ρ.apart) →
    InStep ρ Relates.value (runFile n depth c r) (runFile n' depth c' q) m m'
  runText : ∀ {ρ depth source m m'}, (Event.text n depth source m).AllClear ρ.apart →
    InStep ρ Relates.ending (runText n depth source) (runText n' depth source) m m'
  importText : ∀ {ρ depth path m m'}, (Event.file n depth path m).AllClear ρ.apart →
    InStep ρ Relates.ending (importText n depth path) (importText n' depth path) m m'

namespace Simulated

theorem zero (n' : Nat) : Simulated 0 n' := by
  constructor
  all_goals
    intros
    simp only [Eval.eval, Eval.evalAll, Eval.evalCases, Eval.repeatFor, Eval.repeatWhile,
      Eval.call, Eval.runFile, Eval.runText, Eval.importText]
    exact .outOfFuel _

variable {n n' depth : Nat} (ih : Simulated n n')

include ih

theorem evalAll_succ {nodes nodes' : List Node} (hc : Context.Alike m.store.tables.size c c')
    (h : Node.shapes nodes' = Node.shapes nodes)
    (hall : (Event.inside (n + 1) depth c m (.all nodes)).AllClear ρ.apart) :
    InStep ρ Relates.values (Eval.evalAll (n + 1) depth c nodes)
      (Eval.evalAll (n' + 1) depth c' nodes') m m' := by
  cases nodes with
  | nil =>
    cases nodes' with
    | nil =>
      rw [Eval.evalAll, Eval.evalAll]
      exact .pure .nil
    | cons => cases h
  | cons node nodes =>
    cases nodes' with
    | nil => cases h
    | cons node' nodes' =>
      injection h with hnode hnodes
      rw [Eval.evalAll, Eval.evalAll]
      apply InStep.bindFrom (ih.eval hc hnode (hall.enters .first))
      intro ρ' v w t t' hn hg hv
      apply InStep.bind (ih.evalAll (hc.mono hg.tables) hnodes ((hall.enters (.next hn)).grown hg))
      intro ρ'' vs ws u u' hg' hvs
      exact .pure (.cons (hv.mono hg'.toSub) hvs)

theorem body_succ {body body' : Node} (block : Bool)
    (hc : Context.Alike m.store.tables.size c c') (h : body'.shape = body.shape)
    (hall : (Event.inside n depth c m (.node body)).AllClear ρ.apart) :
    InStep ρ Relates.value
      (do let v ← Eval.eval n depth c body; return if block then nullValue else v)
      (do let v ← Eval.eval n' depth c' body'; return if block then nullValue else v) m m' := by
  apply InStep.bind (ih.eval hc h hall)
  intro ρ' v w t t' _ hv
  cases block with
  | false => exact .pure hv
  | true => exact inStep_null

theorem evalCases_succ {cs cs' : List (Node × Node × Bool)} {f f' : Option (Node × Bool)}
    (hc : Context.Alike m.store.tables.size c c') (hcs : Node.caseShapes cs' = Node.caseShapes cs)
    (hf : Node.bodyShape f' = Node.bodyShape f)
    (hall : (Event.inside (n + 1) depth c m (.cases cs f)).AllClear ρ.apart) :
    InStep ρ Relates.value (Eval.evalCases (n + 1) depth c cs f)
      (Eval.evalCases (n' + 1) depth c' cs' f') m m' := by
  match cs, cs', f, f' with
  | [], [], none, none =>
    rw [Eval.evalCases, Eval.evalCases]
    exact inStep_null
  | [], [], some (body, block), some (body', block') =>
    simp only [Node.bodyShape, Option.some.injEq, Prod.mk.injEq] at hf
    obtain ⟨hbody, rfl⟩ := hf
    rw [Eval.evalCases, Eval.evalCases]
    exact ih.body_succ _ hc hbody (hall.enters .fallback)
  | (condition, body, block) :: rest, (condition', body', block') :: rest', f, f' =>
    simp only [Node.caseShapes, List.cons.injEq, Prod.mk.injEq] at hcs
    obtain ⟨⟨hcondition, hbody, rfl⟩, hrest⟩ := hcs
    rw [Eval.evalCases, Eval.evalCases]
    apply InStep.bindFrom (ih.eval hc hcondition (hall.enters .condition))
    intro ρ' v w t t' hvalue hg hv
    apply InStep.lookSameFrom (Looks.isTrue hv)
    intro holds hholds
    cases holds with
    | true =>
      exact ih.body_succ _ (hc.mono hg.tables) hbody
        ((hall.enters (.consequence hvalue hholds)).grown hg)
    | false =>
      exact ih.evalCases (hc.mono hg.tables) hrest hf
        ((hall.enters (.otherCases hvalue hholds)).grown hg)
  | [], _ :: _, _, _ => cases hcs
  | _ :: _, [], _, _ => cases hcs
  | [], [], none, some _ => cases hf
  | [], [], some _, none => cases hf

theorem repeatFor_succ {name : String} {i by_ : Number} {up : Bool} {last last' : Value}
    {body body' : Node} {done done' : List Value} (hc : Context.Alike m.store.tables.size c c')
    (hlast : Value.Alike ρ last last') (hbody : body'.shape = body.shape)
    (hdone : List.Forall₂ (Value.Alike ρ) done done')
    (hall : (Event.inside (n + 1) depth c m (.forRounds name i by_ up last body done)).AllClear
      ρ.apart) :
    InStep ρ Relates.values (Eval.repeatFor (n + 1) depth c name i by_ up last body done)
      (Eval.repeatFor (n' + 1) depth c' name i by_ up last' body' done') m m' := by
  rw [Eval.repeatFor, Eval.repeatFor]
  apply InStep.bindFrom (inStep_startRound name i by_ up hc hlast)
  rintro ρ' next _ t t' hround hg rfl
  cases next with
  | none => exact .pure (List.rel_reverse (Value.alike_mono hdone hg.toSub))
  | some next =>
    apply InStep.handleFrom (ih.eval (hc.mono hg.tables) hbody
      ((hall.enters (.forBody hround)).grown hg))
    · intro ρ'' v w u u' hvalue hg' hv
      have hgrown := hg.trans hg'
      exact ih.repeatFor (hc.mono hgrown.tables) (hlast.mono hgrown.toSub) hbody
        (.cons hv (Value.alike_mono hdone hgrown.toSub))
        ((hall.enters (.forNext hround hvalue)).grown hgrown)
    · intro ρ'' e e' u u' hend hg' he
      have hgrown := hg.trans hg'
      have hdone' := Value.alike_mono hdone hgrown.toSub
      cases he with
      | continued =>
        exact ih.repeatFor (hc.mono hgrown.tables) (hlast.mono hgrown.toSub) hbody hdone'
          ((hall.enters (.forContinue hround hend)).grown hgrown)
      | broke => exact .pure (List.rel_reverse hdone')
      | fault f => exact .fault f
      | error hd => exact .throw (.error hd)
      | returned hv => exact .throw (.returned hv)
    · exact fun _ => rfl

theorem repeatWhile_succ {condition condition' body body' : Node} {done done' : List Value}
    (hc : Context.Alike m.store.tables.size c c') (hcondition : condition'.shape = condition.shape)
    (hbody : body'.shape = body.shape) (hdone : List.Forall₂ (Value.Alike ρ) done done')
    (hall : (Event.inside (n + 1) depth c m (.whileRounds condition body done)).AllClear ρ.apart) :
    InStep ρ Relates.values (Eval.repeatWhile (n + 1) depth c condition body done)
      (Eval.repeatWhile (n' + 1) depth c' condition' body' done') m m' := by
  rw [Eval.repeatWhile, Eval.repeatWhile]
  apply InStep.bindFrom (ih.eval hc hcondition (hall.enters .whileCondition))
  intro ρ' v w t t' hvalue hg hv
  apply InStep.lookSameFrom (Looks.isTrue hv)
  intro holds hholds
  cases holds with
  | false => exact .pure (List.rel_reverse (Value.alike_mono hdone hg.toSub))
  | true =>
    apply InStep.handleFrom (ih.eval (hc.mono hg.tables) hbody
      ((hall.enters (.whileBody hvalue hholds)).grown hg))
    · intro ρ'' v w u u' hround hg' hv
      have hgrown := hg.trans hg'
      exact ih.repeatWhile (hc.mono hgrown.tables) hcondition hbody
        (.cons hv (Value.alike_mono hdone hgrown.toSub))
        ((hall.enters (.whileNext hvalue hholds hround)).grown hgrown)
    · intro ρ'' e e' u u' hend hg' he
      have hgrown := hg.trans hg'
      have hdone' := Value.alike_mono hdone hgrown.toSub
      cases he with
      | continued =>
        exact ih.repeatWhile (hc.mono hgrown.tables) hcondition hbody hdone'
          ((hall.enters (.whileContinue hvalue hholds hend)).grown hgrown)
      | broke => exact .pure (List.rel_reverse hdone')
      | fault f => exact .fault f
      | error hd => exact .throw (.error hd)
      | returned hv => exact .throw (.returned hv)
    · exact fun _ => rfl

theorem runFile_succ {b b' : BuiltinCall} {r q : ObjectRef}
    (hb : BuiltinCall.Alike ρ m.store.tables.size b b') (hr : ρ.objects r q)
    (hall : ∀ k path text, n + 1 = k + 1 →
      b.textArg r "Second argument must be string" m = (.ok path, m) →
      m.world.readText path = .ok text →
      (Event.text k depth ⟨path, text⟩ m).AllClear ρ.apart) :
    InStep ρ Relates.value (Eval.runFile (n + 1) depth b r) (Eval.runFile (n' + 1) depth b' q)
      m m' := by
  rw [Eval.runFile, Eval.runFile]
  apply InStep.lookSameFrom (BuiltinCall.looks_textArg hb hr _)
  intro path hpath
  apply InStep.lookSameFrom Looks.world
  intro w hw
  cases htext : w.readText path with
  | error e => exact BuiltinCall.inStep_fail hb _ _
  | ok text =>
    cases hw
    apply InStep.bind (ih.runText (hall n path text rfl hpath htext))
    intro ρ' ending ending' t t' hg hending
    cases hending with
    | ok _ => exact inStep_null
    | @error d d' hd =>
      dsimp only
      cases hmessage : d.message? with
      | none =>
        rw [hmessage, Option.isSome_none, Option.isSome_eq_false_iff,
          Option.isNone_iff_eq_none] at hd
        rw [hd]
        exact .fault _
      | some text =>
        rw [hmessage] at hd
        obtain ⟨text', htext'⟩ := Option.isSome_iff_exists.mp hd
        rw [htext']
        exact BuiltinCall.inStep_fail (hb.mono hg.toSub hg.tables) _ _

theorem runText_succ {source : Source}
    (hall : (Event.text (n + 1) depth source m).AllClear ρ.apart) :
    InStep ρ Relates.ending (Eval.runText (n + 1) depth source)
      (Eval.runText (n' + 1) depth source) m m' := by
  cases depth with
  | zero =>
    rw [Eval.runText, Eval.runText]
    · exact .fault _
    · simp
    · simp
  | succ depth =>
    rw [Eval.runText, Eval.runText]
    apply InStep.lookSameFrom (looks_treeOf source)
    intro tree htree
    cases tree with
    | error d => exact .pure (.error rfl)
    | ok tree =>
      apply InStep.intro
      intro hm
      apply InStep.bindFrom (InStep.make (.number _))
      intro ρ' one one' t t' hmake hg hone
      apply InStep.bindFrom (InStep.bindName programNames "is_main" hone)
      intro ρ'' _ _ u u' hbind hg' _
      have hroots := Nat.lt_of_lt_of_le hm.store.roots (hg.trans hg').tables
      cases hmake
      cases hbind
      apply inStep_settle (ih.eval _ rfl ((hall.leads (.program htree)).grown (hg.trans hg')))
      exact ⟨.outermost rfl, Nat.lt_of_succ_lt hroots, hroots⟩

theorem importText_succ {path : String}
    (hall : (Event.file (n + 1) depth path m).AllClear ρ.apart) :
    InStep ρ Relates.ending (Eval.importText (n + 1) depth path)
      (Eval.importText (n' + 1) depth path) m m' := by
  cases depth with
  | zero =>
    rw [Eval.importText, Eval.importText]
    · exact .fault _
    · simp
    · simp
  | succ depth =>
    rw [Eval.importText, Eval.importText]
    apply InStep.lookSameFrom (looks_readFile path)
    intro text htext
    apply InStep.lookSameFrom (looks_treeOf _)
    intro tree htree
    cases tree with
    | error d => exact .pure (.error rfl)
    | ok tree =>
      apply InStep.intro
      intro hm
      apply InStep.bindFrom InStep.newTable
      rintro ρ' hidden _ t t' htable hg ⟨rfl, hhidden⟩
      apply InStep.bindFrom (InStep.make (.number _))
      intro ρ'' zero zero' u u' hmake hg' hzero
      apply InStep.bindFrom (InStep.bindName hidden "is_main" hzero)
      intro ρ₃ _ _ x x' hbind hg₃ _
      have hgrown := (hg.trans hg').trans hg₃
      have hroots := Nat.lt_of_lt_of_le hm.store.roots hgrown.tables
      apply inStep_settle (ih.eval _ rfl
        ((hall.leads (.module htext htree htable hmake hbind)).grown hgrown))
      exact ⟨.outermost rfl, Nat.lt_of_succ_lt hroots,
        Nat.lt_of_lt_of_le hhidden (hg'.trans hg₃).tables⟩

theorem call_succ {r q : ObjectRef} {args args' : List Value} (hr : ρ.objects r q)
    (hargs : List.Forall₂ (Value.Alike ρ) args args')
    (hall : (Event.part (.call (n + 1) depth r args m)).AllClear ρ.apart) :
    InStep ρ Relates.value (Eval.call (n + 1) depth r args) (Eval.call (n' + 1) depth q args')
      m m' := by
  cases depth with
  | zero =>
    rw [Eval.call, Eval.call]
    · exact .fault _
    · simp
    · simp
  | succ depth =>
    rw [Eval.call, Eval.call]
    apply InStep.lookFrom (Looks.object hr)
    intro callee callee' hobject hcallee
    cases hobject
    have hp := hcallee.payload
    have hunknown : InStep ρ Relates.value (Operator.unknown r .absent)
        (Operator.unknown q .absent) m m' := .of_looks (Operator.looks_unknown hr .absent)
    generalize hpayload : (m.store.object r).payload = p at hp ⊢
    generalize callee'.payload = p' at hp ⊢
    cases hp with
    | @function name params body body' isExpression hbody =>
      apply InStep.bindFrom (inStep_enterFunction name params hr hcallee hargs)
      intro ρ' context context' t t' henter hg hcontext
      apply InStep.handle (ih.eval hcontext hbody
        ((hall.leads (.part (.body hpayload henter))).grown hg))
      · intro ρ'' v w u u' _ hv
        exact inStep_functionResult isExpression hv
      · intro ρ'' e e' u u' _ he
        cases he with
        | returned hv => exact .pure hv
        | fault f => exact .fault f
        | error hd => exact .throw (.error hd)
        | continued => exact .throw .continued
        | broke => exact .throw .broke
      · exact fun _ => rfl
    | builtin name =>
      apply InStep.bindFrom (inStep_callContext name hcallee)
      intro ρ' context context' t t' hentry hg hcontext
      cases hname : Builtin.ofName? name with
      | none => exact .fault _
      | some b =>
        have hargs' := Value.alike_mono hargs hg.toSub
        have hcallee' := hcallee.mono hg.toSub hg.tables
        apply InStep.lookSameFrom (looks_checkCount b.params (hg.objects hr) hcallee' hargs')
        intro _ hcount
        apply InStep.bindFrom (inStep_bindArgs b.params hcontext hargs')
        intro ρ'' refs refs' u u' hbound hg' hrefs
        have hb : BuiltinCall.Alike ρ'' u.store.tables.size ⟨m.store.object r, context⟩
            ⟨callee', context'⟩ :=
          ⟨hcallee'.mono hg'.toSub hg'.tables, hcontext.mono hg'.tables⟩
        have hperform : InStep ρ'' Relates.value
            ((⟨m.store.object r, context⟩ : BuiltinCall).perform b refs)
            ((⟨callee', context'⟩ : BuiltinCall).perform b refs') u u' :=
          BuiltinCall.inStep_perform hb b hrefs
        by_cases hrun : b = .run
        · subst hrun
          rcases hrefs with _ | ⟨hfile, _ | _⟩
          · exact hperform
          · refine ih.runFile hb hfile fun k path text hk hpath htext => ?_
            subst hk
            obtain rfl := bindArgs_eq_ok hbound (checkCount_eq_ok hcount)
            have henter : enterFunction r (m.store.object r) name Builtin.run.params _ m =
                (.ok context, u) :=
              (bind_ok hentry).trans ((bind_ok hcount).trans (bind_ok hbound))
            exact (hall.leads (.run hpayload hname henter hpath htext)).grown (hg.trans hg')
          · exact hperform
        · cases b with
          | run => exact (hrun rfl).elim
          | _ => exact hperform
    | _ => exact hunknown

theorem stepValue_succ {z z' : Option Node} (hc : Context.Alike m.store.tables.size c c')
    (h : Node.optionShape z' = Node.optionShape z)
    (hall : ∀ e, z = some e → (Event.inside n depth c m (.node e)).AllClear ρ.apart) :
    InStep ρ Relates.value (stepValue n depth c z) (stepValue n' depth c' z') m m' := by
  match z, z' with
  | none, none => exact .make (.number _)
  | some e, some e' => exact ih.eval hc (Option.some.inj h) (hall e rfl)
  | none, some _ => cases h
  | some _, none => cases h

theorem operand_succ {z z' : Option Node} (hc : Context.Alike m.store.tables.size c c')
    (h : Node.optionShape z' = Node.optionShape z)
    (hall : ∀ e, z = some e → (Event.inside n depth c m (.node e)).AllClear ρ.apart) :
    InStep ρ Relates.value (operandValue n depth c z) (operandValue n' depth c' z') m m' := by
  match z, z' with
  | none, none => exact inStep_null
  | some e, some e' => exact ih.eval hc (Option.some.inj h) (hall e rfl)
  | none, some _ => cases h
  | some _, none => cases h

omit ih in
/-- The values of a loop's rounds, or null if its body is a block. -/
theorem rounds_succ {vs ws : List Value} (span span' : Span) (block : Bool)
    (hc : Context.Alike m.store.tables.size c c') (hvs : List.Forall₂ (Value.Alike ρ) vs ws) :
    InStep ρ Relates.value (if block then pure nullValue else listAt vs span c)
      (if block then pure nullValue else listAt ws span' c') m m' := by
  cases block with
  | false => exact inStep_listAt span span' hvs hc
  | true => exact inStep_null

theorem eval_succ {node node' : Node} (hc : Context.Alike m.store.tables.size c c')
    (h : node'.shape = node.shape)
    (hall : (Event.inside (n + 1) depth c m (.node node)).AllClear ρ.apart) :
    InStep ρ Relates.value (Eval.eval (n + 1) depth c node) (Eval.eval (n' + 1) depth c' node')
      m m' := by
  cases Node.sameShape h with
  | @number s s' v =>
    cases v with
    | int i =>
      rw [Eval.eval, Eval.eval]
      exact inStep_allocateAt s s' (.number _) hc
    | float x =>
      rw [Eval.eval, Eval.eval]
      exact inStep_allocateAt s s' (.number _) hc
  | @text s s' t =>
    rw [Eval.eval, Eval.eval]
    exact inStep_allocateAt s s' (.text t) hc
  | @list s s' ns ns' hns =>
    rw [Eval.eval, Eval.eval]
    apply InStep.bind (ih.evalAll hc hns (hall.enters .list))
    intro ρ' vs ws t t' hg hvs
    exact inStep_listAt s s' hvs (hc.mono hg.tables)
  | @access s s' name =>
    rw [Eval.eval, Eval.eval]
    exact inStep_access s s' hc (hall _ .refl)
  | assign name hv =>
    rw [Eval.eval, Eval.eval, hc.twin.symbols, hc.twin.hidden]
    apply InStep.bind (ih.eval hc hv (hall.enters .assign))
    intro ρ' v w t t' _ hvw
    apply InStep.bind (InStep.bindName c.symbols name hvw)
    intro ρ'' _ _ u u' hg _
    apply InStep.bind (InStep.bindName c.hidden name (hvw.mono hg.toSub))
    intro ρ₃ _ _ x x' hg' _
    exact .pure (hvw.mono (hg.trans hg').toSub)
  | @binary s s' _ _ _ _ op hl hr =>
    rw [Eval.eval, Eval.eval]
    apply InStep.bindFrom (ih.eval hc hl (hall.enters .left))
    intro ρ' v w t t' hvalue hg hv
    apply InStep.bind (ih.eval (hc.mono hg.tables) hr ((hall.enters (.right hvalue)).grown hg))
    intro ρ'' v' w' u u' hg' hv'
    exact inStep_binary op s s' (hv.mono hg'.toSub) hv'
  | @unary s s' _ _ op ha =>
    rw [Eval.eval, Eval.eval]
    apply InStep.bind (ih.eval hc ha (hall.enters .operand))
    intro ρ' v w t t' _ hv
    exact inStep_unary op s s' hv
  | branch hcs hf =>
    rw [Eval.eval, Eval.eval]
    exact ih.evalCases hc hcs hf (hall.enters .branch)
  | @forLoop s s' _ _ _ _ _ _ _ _ name block hx hy hz hb =>
    rw [eval_forLoop, eval_forLoop]
    apply InStep.bindFrom (ih.eval hc hx (hall.enters .forFirst))
    intro ρ₁ first first' t₁ t₁' heval₁ hg₁ hfirst
    have hc₁ := hc.mono hg₁.tables
    apply InStep.bindFrom (ih.eval hc₁ hy ((hall.enters (.forLast heval₁)).grown hg₁))
    intro ρ₂ last last' t₂ t₂' heval₂ hg₂ hlast
    have hc₂ := hc₁.mono hg₂.tables
    refine InStep.bindFrom (ih.stepValue_succ hc₂ hz ?_) ?_
    · rintro e rfl
      exact (hall.enters (.forStep heval₁ heval₂)).grown (hg₁.trans hg₂)
    intro ρ₃ step step' t₃ t₃' heval₃ hg₃ hstep
    have hc₃ := hc₂.mono hg₃.tables
    apply InStep.lookSameFrom (looks_loopStart (hfirst.mono (hg₂.trans hg₃).toSub) hstep)
    rintro ⟨i, by_, up⟩ hstart
    have hrounds := hall.enters (.forRounds heval₁ heval₂ heval₃ hstart)
    apply InStep.bind (ih.repeatFor hc₃ (hlast.mono hg₃.toSub) hb .nil
      (hrounds.grown ((hg₁.trans hg₂).trans hg₃)))
    intro ρ₄ vs ws t₄ t₄' hg₄ hvs
    exact rounds_succ s s' block (hc₃.mono hg₄.tables) hvs
  | @whileLoop s s' _ _ _ _ block hcondition hb =>
    rw [Eval.eval, Eval.eval]
    apply InStep.bind (ih.repeatWhile hc hcondition hb .nil (hall.enters .whileRounds))
    intro ρ' vs ws t t' hg hvs
    exact rounds_succ s s' block (hc.mono hg.tables) hvs
  | @function s s' _ _ name params isExpression hb =>
    rw [Eval.eval, Eval.eval, hc.twin.symbols]
    apply InStep.bind (inStep_allocateAt s s' (.function hb) hc)
    intro ρ' f f' t t' _ hf
    cases name with
    | none => exact .pure hf
    | some name =>
      apply InStep.bind (InStep.bindName c.symbols name hf)
      intro ρ'' _ _ u u' hg _
      exact .pure (hf.mono hg.toSub)
  | @call s s' _ _ _ _ hcallee hargs =>
    rw [Eval.eval, Eval.eval]
    apply InStep.bindFrom (ih.eval hc hcallee (hall.enters .callee))
    intro ρ₁ v w t₁ t₁' hvalue hg₁ hv
    apply InStep.bindFrom (inStep_calleeAt s s' hv)
    intro ρ₂ f f' t₂ t₂' hfunction hg₂ hf
    have hgrown := hg₁.trans hg₂
    have hc₂ := hc.mono hgrown.tables
    apply InStep.bindFrom (ih.evalAll hc₂ hargs
      ((hall.enters (.args hvalue hfunction)).grown hgrown))
    intro ρ₃ vs ws t₃ t₃' hvalues hg₃ hvs
    have hc₃ := hc₂.mono hg₃.tables
    have hcall := hall.leads (.part (.call hvalue hfunction hvalues))
    apply InStep.bind (ih.call (hg₃.objects hf) hvs (hcall.grown (hgrown.trans hg₃)))
    intro ρ₄ x x' t₄ t₄' hg₄ hx
    exact inStep_resultAt s s' (hc₃.mono hg₄.tables) hx
  | ret hv =>
    rw [eval_ret, eval_ret]
    refine InStep.bind (ih.operand_succ hc hv ?_) ?_
    · rintro e rfl
      exact hall.enters .returned
    intro ρ' v w t t' _ hvw
    exact inStep_returnValue hvw
  | think hv =>
    rw [eval_think, eval_think]
    refine InStep.bindFrom (ih.operand_succ hc hv ?_) ?_
    · rintro e rfl
      exact hall.enters .thought
    intro ρ' v w t t' hvalue hg hvw
    apply InStep.bindFrom (inStep_askModel hvw)
    rintro ρ'' code _ u u' hcode hg' rfl
    apply InStep.bind (ih.runText ((hall.leads (.think hvalue hcode)).grown (hg.trans hg')))
    intro ρ₃ ending ending' x x' _ _
    exact .pure (.bare code)
  | @importFile s s' path =>
    rw [Eval.eval, Eval.eval]
    apply InStep.lookSameFrom (looks_importFile s s' path hc)
    intro file hfile
    apply InStep.bind (ih.importText (hall.leads (.importFile hfile)))
    intro ρ' ending ending' t t' _ hending
    cases hending with
    | ok hv => exact .pure hv
    | error hd => exact .throw (.error hd)
  | continueLoop =>
    rw [Eval.eval, Eval.eval]
    exact .throw .continued
  | breakLoop =>
    rw [Eval.eval, Eval.eval]
    exact .throw .broke

theorem succ : Simulated (n + 1) (n' + 1) where
  eval := ih.eval_succ
  evalAll := ih.evalAll_succ
  evalCases := ih.evalCases_succ
  repeatFor := ih.repeatFor_succ
  repeatWhile := ih.repeatWhile_succ
  call := ih.call_succ
  runFile := ih.runFile_succ
  runText := ih.runText_succ
  importText := ih.importText_succ

end Simulated

/-- More fuel does not make a difference to an evaluation that ends with less. -/
theorem simulated {n n' : Nat} (h : n ≤ n') : Simulated n n' := by
  induction n generalizing n' with
  | zero => exact .zero n'
  | succ n ih =>
    obtain ⟨k, rfl⟩ : ∃ k, n' = k + 1 := ⟨n' - 1, by omega⟩
    exact (ih (by omega)).succ

end Eval

end Think
