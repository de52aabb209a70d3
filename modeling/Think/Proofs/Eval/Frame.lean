import Think.Proofs.Eval.Reach
import Think.Session

/-! # Tables, and what goes on in a call

Which names the evaluation of a tree binds in its own context, what is left of the tables by changes
that bind names only in some places, and what an activation, a call or a whole program comes to.
-/

namespace Think

mutual

/-- The names that an evaluation of the tree binds in its own context. The body of a function has
a context of its own. -/
def Node.assigned : Node → List String
  | .number _ _ | .text _ _ | .access _ _ | .importFile _ _ | .continueLoop _ | .breakLoop _ => []
  | .list _ ns => Node.assignedAll ns
  | .assign _ name v => name :: v.assigned
  | .binary _ _ l r => l.assigned ++ r.assigned
  | .unary _ _ a => a.assigned
  | .branch _ cs f => Node.assignedCases cs ++ Node.assignedBody f
  | .forLoop _ name x y z b _ =>
    name :: (x.assigned ++ y.assigned ++ Node.assignedOption z ++ b.assigned)
  | .whileLoop _ c b _ => c.assigned ++ b.assigned
  | .function _ name _ _ _ => name.toList
  | .call _ c args => c.assigned ++ Node.assignedAll args
  | .ret _ v | .think _ v => Node.assignedOption v

def Node.assignedAll : List Node → List String
  | [] => []
  | n :: ns => n.assigned ++ Node.assignedAll ns

def Node.assignedOption : Option Node → List String
  | none => []
  | some n => n.assigned

def Node.assignedBody : Option (Node × Bool) → List String
  | none => []
  | some (n, _) => n.assigned

def Node.assignedCases : List (Node × Node × Bool) → List String
  | [] => []
  | (c, b, _) :: cs => c.assigned ++ b.assigned ++ Node.assignedCases cs

end

namespace Store

/-- A change that binds a name only where `W` allows it. -/
inductive Write (W : TableRef → String → Prop) (s : Store) : Store → Prop
  | value {s' : Store} (h : s.ValueChange s') : Write W s s'
  | table (t : Table) : Write W s (s.allocateTable t).2
  | bind {t : TableRef} {name : String} (v : Value) (h : W t name) : Write W s (s.bind t name v)

variable {W : TableRef → String → Prop} {s s' : Store} {t : TableRef} {name : String}

theorem ValueChange.tables (h : s.ValueChange s') : s'.tables = s.tables := by
  cases h <;> rfl

theorem lookup_setIn (name x : String) (v : Value) (entries : List (String × Value)) :
    (Table.setIn name v entries).lookup x = if x = name then some v else entries.lookup x := by
  induction entries with
  | nil =>
    by_cases hx : x = name
    · simp [Table.setIn, hx]
    · simp [Table.setIn, List.lookup_cons, beq_false_of_ne hx, hx]
  | cons e entries ih =>
    obtain ⟨n, w⟩ := e
    rw [Table.setIn]
    split
    · next hn =>
      subst hn
      by_cases hx : x = n
      · simp [hx]
      · simp [List.lookup_cons, beq_false_of_ne hx, hx]
    · next hn =>
      by_cases hx : x = n
      · subst hx
        simp [hn]
      · simp only [List.lookup_cons, beq_false_of_ne hx, ih]

theorem table_bind (s : Store) (t r : TableRef) (name : String) (v : Value) :
    (s.bind t name v).table r =
      if t = r ∧ r.index < s.tables.size then (s.table r).set name v else s.table r := by
  obtain ⟨i⟩ := t
  obtain ⟨j⟩ := r
  by_cases hj : j < s.tables.size
  · by_cases hi : i = j
    · simp [Store.bind, Store.table, Array.getElem_modify, hi, hj]
    · simp [Store.bind, Store.table, Array.getElem?_modify, hi]
  · simp [Store.bind, Store.table, hj]

/-- What a change leaves of the tables that are there. -/
structure Kept (W : TableRef → String → Prop) (s s' : Store) : Prop where
  size : s.tables.size ≤ s'.tables.size
  ancestors : ∀ t : TableRef, t.index < s.tables.size →
    (s'.table t).ancestors = (s.table t).ancestors
  entries : ∀ t : TableRef, t.index < s.tables.size → (∀ x, ¬ W t x) →
    (s'.table t).entries = (s.table t).entries
  entry : ∀ (t : TableRef) (x : String), t.index < s.tables.size → ¬ W t x →
    (s'.table t).entries.lookup x = (s.table t).entries.lookup x

theorem Kept.refl (s : Store) : Kept W s s :=
  ⟨Nat.le_refl _, fun _ _ => rfl, fun _ _ _ => rfl, fun _ _ _ _ => rfl⟩

theorem Kept.trans {s'' : Store} (h : Kept W s s') (h' : Kept W s' s'') : Kept W s s'' where
  size := Nat.le_trans h.size h'.size
  ancestors t ht := (h'.ancestors t (Nat.lt_of_lt_of_le ht h.size)).trans (h.ancestors t ht)
  entries t ht hw := (h'.entries t (Nat.lt_of_lt_of_le ht h.size) hw).trans (h.entries t ht hw)
  entry t x ht hw := (h'.entry t x (Nat.lt_of_lt_of_le ht h.size) hw).trans (h.entry t x ht hw)

theorem Kept.of_table (hsize : s.tables.size ≤ s'.tables.size)
    (h : ∀ t : TableRef, t.index < s.tables.size → s'.table t = s.table t) : Kept W s s' where
  size := hsize
  ancestors t ht := by rw [h t ht]
  entries t ht _ := by rw [h t ht]
  entry t x ht _ := by rw [h t ht]

theorem Write.kept (h : s.Write W s') : Kept W s s' := by
  cases h with
  | value h =>
    refine .of_table (Nat.le_of_eq (by rw [h.tables])) fun t _ => ?_
    rw [Store.table, Store.table, h.tables]
  | table t =>
    refine .of_table (by simp [allocateTable]) fun r hr => ?_
    simp [Store.table, allocateTable, Array.getElem?_push, Nat.ne_of_lt hr]
  | @bind t name v hw =>
    constructor
    · simp [Store.bind]
    · intro r hr
      rw [table_bind]
      split <;> rfl
    · intro r hr hfree
      rw [table_bind, if_neg]
      rintro ⟨rfl, -⟩
      exact hfree name hw
    · intro r x hr hfree
      rw [table_bind]
      split
      · next hif =>
        have hx : x ≠ name := by
          rintro rfl
          exact hfree (hif.1 ▸ hw)
        rw [Table.set, lookup_setIn, if_neg hx]
      · rfl

theorem kept_of_writes (h : Relation.ReflTransGen (Write W) s s') : Kept W s s' := by
  induction h with
  | refl => exact .refl s
  | tail _ hw ih => exact ih.trans hw.kept

end Store

namespace Eval

/-- Something that is under way: an activation at a point, or a call. -/
inductive Activity
  | inside (depth : Nat) (context : Context) (point : Point)
  | call (fuel depth : Nat) (callee : ObjectRef) (args : List Value) (machine : Machine)

namespace Activity

/-- One activity comes to another as a part of it. -/
inductive Leads : Activity → Activity → Prop
  | enters {depth context p q} : Enters depth context p q →
    Leads (.inside depth context p) (.inside depth context q)
  | call {fuel depth context span f args m v m₁ r m₂ vs m₃}
    (hf : eval fuel depth context f m = (.ok v, m₁))
    (hr : calleeAt span v m₁ = (.ok r, m₂))
    (hvs : evalAll fuel depth context args m₂ = (.ok vs, m₃)) :
    Leads (.inside depth context ⟨.node (.call span f args), fuel + 1, m⟩)
      (.call fuel depth r vs m₃)
  | body {fuel depth r args m name params body isExpression context m'}
    (hp : (m.store.object r).payload = .function name params body isExpression)
    (he : enterFunction r (m.store.object r) name params args m = (.ok context, m')) :
    Leads (.call (fuel + 1) (depth + 1) r args m) (.inside depth context ⟨.node body, fuel, m'⟩)

/-- The activity starts a program: it is an import, a `think`, or a call of `run`. -/
inductive Starts : Activity → Prop
  | importFile {depth context span path fuel m} :
    Starts (.inside depth context ⟨.node (.importFile span path), fuel, m⟩)
  | think {depth context span value fuel m} :
    Starts (.inside depth context ⟨.node (.think span value), fuel, m⟩)
  | run {fuel depth r v m name} (hp : (m.store.object r).payload = .builtin name)
    (hn : Builtin.ofName? name = some .run) : Starts (.call fuel depth r [v] m)

/-- No program is started in the course of the activity. -/
def Quiet (a : Activity) : Prop := ∀ b, Relation.ReflTransGen Leads a b → ¬ b.Starts

theorem quiet_of_closed {P : Activity → Prop} {a : Activity} (ha : P a)
    (hleads : ∀ b c, P b → Leads b c → P c) (hstarts : ∀ b, P b → ¬ b.Starts) : a.Quiet := by
  intro b hb
  have hP : P b := by
    induction hb with
    | refl => exact ha
    | tail _ hl ih => exact hleads _ _ ih hl
  exact hstarts b hP

theorem Quiet.leads {a b : Activity} (h : a.Quiet) (hl : Leads a b) : b.Quiet := fun c hc =>
  h c (.head hl hc)

end Activity

section

variable {m m' : Machine} {context : Context} {callee : Object} {name : String}

/-- A call gets two new tables, in front of those that the function carries. -/
theorem callContext_eq_ok (h : callContext callee name m = (.ok context, m')) :
    ∃ outer, callee.context = some outer ∧
      context = ⟨name, some outer, callee.start, ⟨m.store.tables.size⟩,
        ⟨m.store.tables.size + 1⟩⟩ ∧
      m' = ⟨((m.store.childOf outer.symbols).2.childOf outer.hidden).2, m.world⟩ := by
  unfold callContext at h
  cases hc : callee.context with
  | none =>
    rw [hc] at h
    cases h
  | some outer =>
    rw [hc] at h
    cases h
    refine ⟨outer, rfl, ?_, rfl⟩
    simp

theorem enterFunction_eq_ok {ref : ObjectRef} {params : List String} {args : List Value}
    (h : enterFunction ref callee name params args m = (.ok context, m')) :
    ∃ m₁ m₂ refs, callContext callee name m = (.ok context, m₁) ∧
      checkCount ref callee params args m₁ = (.ok (), m₂) ∧
      bindArgs context params args m₂ = (.ok refs, m') := by
  obtain ⟨c, m₁, hc, h⟩ := bind_eq_ok h
  obtain ⟨u, m₂, hcount, h⟩ := bind_eq_ok h
  obtain ⟨refs, m₃, hargs, h⟩ := bind_eq_ok h
  cases h
  exact ⟨m₁, m₂, refs, hc, hcount, hargs⟩

theorem checkCount_eq_ok {ref : ObjectRef} {params : List String} {args : List Value} {u : Unit}
    (h : checkCount ref callee params args m = (.ok u, m')) : args.length = params.length := by
  unfold checkCount at h
  dsimp only at h
  split at h
  · obtain ⟨u, m₁, hreport, -⟩ := bind_eq_ok h
    obtain ⟨t, m₂, -, herror⟩ := bind_eq_ok hreport
    cases herror
  · split at h
    · obtain ⟨t, m₂, -, herror⟩ := bind_eq_ok h
      cases herror
    · omega

/-- Arguments that are bound to as many parameters are objects. -/
theorem bindArgs_eq_ok {params : List String} {args : List Value} {refs : List ObjectRef}
    (h : bindArgs context params args m = (.ok refs, m'))
    (hlength : args.length = params.length) : args = refs.map .object := by
  fun_induction bindArgs context params args generalizing refs m with
  | case1 p params v args ih =>
    obtain ⟨⟨q, o⟩, m₁, hq, h⟩ := bind_eq_ok h
    obtain ⟨_, m₂, -, h⟩ := bind_eq_ok h
    obtain ⟨_, m₃, -, h⟩ := bind_eq_ok h
    obtain ⟨qs, m₄, hqs, h⟩ := bind_eq_ok h
    cases h
    cases v with
    | object q' =>
      cases hq
      rw [ih hqs (by simpa using hlength)]
      rfl
    | absent | bare => cases hq
  | case2 params args hnone =>
    cases h
    cases args with
    | nil => rfl
    | cons v args =>
      cases params with
      | nil => cases hlength
      | cons p params => exact (hnone p params v args rfl rfl).elim

end

def moduleContext (path : String) (hidden : TableRef) : Context :=
  ⟨s!"<{moduleName path}>", none, none, globals, hidden⟩

/-- What happens in a session: a text is run, a file is imported, or a part of a program is
evaluated. -/
inductive Event
  | text (fuel depth : Nat) (source : Source) (machine : Machine)
  | file (fuel depth : Nat) (path : String) (machine : Machine)
  | part (activity : Activity)

namespace Event

/-- One event comes to another. A program may run texts and import files in its turn. -/
inductive Leads : Event → Event → Prop
  | program {fuel depth source m tree} (ht : treeOf source m = (.ok (.ok tree), m)) :
    Leads (.text (fuel + 1) (depth + 1) source m)
      (.part (.inside depth (programContext source.name) ⟨.node tree, fuel, mainMachine m⟩))
  | module {fuel depth path m text tree hidden m₁ zero m₂ m₃}
    (hf : readFile path m = (.ok text, m)) (ht : treeOf ⟨path, text⟩ m = (.ok (.ok tree), m))
    (hh : newTable m = (.ok hidden, m₁)) (hz : make (.number (.int 0)) m₁ = (.ok zero, m₂))
    (hb : bind hidden "is_main" zero m₂ = (.ok (), m₃)) :
    Leads (.file (fuel + 1) (depth + 1) path m)
      (.part (.inside depth (moduleContext path hidden) ⟨.node tree, fuel, m₃⟩))
  | part {a b} (h : Activity.Leads a b) : Leads (.part a) (.part b)
  | think {fuel depth context span value m v m₁ code m₂}
    (hv : operandValue fuel depth context value m = (.ok v, m₁))
    (hcode : askModel v m₁ = (.ok code, m₂)) :
    Leads (.part (.inside depth context ⟨.node (.think span value), fuel + 1, m⟩))
      (.text fuel depth ⟨"<stdin>", code⟩ m₂)
  | importFile {fuel depth context span path m file}
    (hf : importFile context span path m = (.ok file, m)) :
    Leads (.part (.inside depth context ⟨.node (.importFile span path), fuel + 1, m⟩))
      (.file fuel depth file m)
  | run {fuel depth r file m name context m₁ path text}
    (hp : (m.store.object r).payload = .builtin name) (hn : Builtin.ofName? name = some .run)
    (he : enterFunction r (m.store.object r) name Builtin.run.params [.object file] m =
      (.ok context, m₁))
    (hpath : (⟨m.store.object r, context⟩ : BuiltinCall).textArg file
      "Second argument must be string" m₁ = (.ok path, m₁))
    (htext : m₁.world.readText path = .ok text) :
    Leads (.part (.call (fuel + 2) (depth + 1) r [.object file] m))
      (.text fuel depth ⟨path, text⟩ m₁)

abbrev inside (fuel depth : Nat) (context : Context) (m : Machine) (t : Task) : Event :=
  .part (.inside depth context ⟨t, fuel, m⟩)

end Event

def Calm (P : Prop) (a : Activity) : Prop := a.Quiet ∨ P

section

variable {P : Prop}

theorem Calm.leads {a b : Activity} (h : Calm P a) (hl : Activity.Leads a b) : Calm P b :=
  h.imp (fun hq => hq.leads hl) id

theorem Calm.enters {depth : Nat} {context : Context} {p q : Point}
    (h : Calm P (.inside depth context p)) (he : Enters depth context p q) :
    Calm P (.inside depth context q) :=
  h.leads (.enters he)

theorem Calm.starts {a : Activity} (h : Calm P a) (hs : a.Starts) : P :=
  h.resolve_left fun hq => hq a .refl hs

end

end Eval

end Think
