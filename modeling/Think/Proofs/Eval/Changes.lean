import Mathlib.Logic.Relation
import Think.Builtin.Perform
import Think.Proofs.Eval.Basic

/-! # What an evaluation may do

The changes that a store can undergo, one at a time, and evaluations that make no others and stop
in no other ways than allowed. Operators and the functions of the language change values only, and
stop with faults and errors only.
-/

namespace Think

@[simp]
abbrev Payload.IsData (p : Payload) : Prop :=
  ∀ name params body isExpression, p ≠ .function name params body isExpression

namespace Store

/-- A change to the values. An object may move, but what it is stays. -/
inductive ValueChange (s : Store) : Store → Prop
  | object (o : Object) : ValueChange s (s.allocate o).2
  | place (r : ObjectRef) (span : Span) : ValueChange s (s.update r (·.placed span))
  | enter (r : ObjectRef) (context : Option Context) : ValueChange s (s.update r (·.within context))
  | list (vs : Array Value) : ValueChange s (s.allocateList vs).2
  | elements (cells : ListRef) (f : Array Value → Array Value) :
    ValueChange s (s.updateList cells f)

/-- A change to the values that brings in no function and no context: a new object arises from
nothing, beside another object, or as a copy of one. -/
inductive ModestChange (s : Store) : Store → Prop
  | fresh (p : Payload) (hp : p.IsData) : ModestChange s (s.allocate (.fresh p)).2
  | beside (r : ObjectRef) (p : Payload) (hp : p.IsData) :
    ModestChange s (s.allocate ((Object.fresh p).within (s.object r).context)).2
  | copy (r : ObjectRef) : ModestChange s (s.allocate (s.object r)).2
  | place (r : ObjectRef) (span : Span) : ModestChange s (s.update r (·.placed span))
  | list (vs : Array Value) : ModestChange s (s.allocateList vs).2
  | elements (cells : ListRef) (f : Array Value → Array Value) :
    ModestChange s (s.updateList cells f)

/-- A change to the values or to the tables of names. -/
inductive Change (s : Store) : Store → Prop
  | value {s' : Store} (h : s.ValueChange s') : Change s s'
  | table (t : Table) : Change s (s.allocateTable t).2
  | bind (t : TableRef) (name : String) (v : Value) : Change s (s.bind t name v)

variable {s s' : Store} {r : ObjectRef}

theorem ModestChange.value (h : s.ModestChange s') : s.ValueChange s' := by
  cases h with
  | fresh | beside | copy => exact .object _
  | place r span => exact .place r span
  | list vs => exact .list vs
  | elements cells f => exact .elements cells f

theorem payload_update (s : Store) (r q : ObjectRef) {f : Object → Object}
    (hf : ∀ o, (f o).payload = o.payload) :
    ((s.update r f).object q).payload = (s.object q).payload := by
  by_cases hq : r.index = q.index
  · rcases h : s.objects[q.index]? with _ | o <;>
      simp [update, object, Array.getElem?_modify, hq, h, hf]
  · simp [update, object, Array.getElem?_modify, hq]

/-- No change takes an object away or makes it something else. -/
theorem Change.payload (h : s.Change s') :
    s.objects.size ≤ s'.objects.size ∧
      ∀ r : ObjectRef, r.index < s.objects.size → (s'.object r).payload = (s.object r).payload := by
  rcases h with h | _ | _
  · rcases h with o | ⟨r, span⟩ | ⟨r, context⟩ | _ | _
    · have hgrows := Grows.allocate s o
      exact ⟨hgrows.size, fun r hr => by rw [hgrows.objects r hr]⟩
    · exact ⟨by simp [update], fun q _ => payload_update s r q fun _ => rfl⟩
    · exact ⟨by simp [update], fun q _ => payload_update s r q fun _ => rfl⟩
    · exact ⟨Nat.le_refl _, fun _ _ => rfl⟩
    · exact ⟨Nat.le_refl _, fun _ _ => rfl⟩
  · exact ⟨Nat.le_refl _, fun _ _ => rfl⟩
  · exact ⟨Nat.le_refl _, fun _ _ => rfl⟩

theorem size_of_changes (h : Relation.ReflTransGen Change s s') :
    s.objects.size ≤ s'.objects.size := by
  induction h with
  | refl => exact Nat.le_refl _
  | tail _ hc ih => exact Nat.le_trans ih hc.payload.1

theorem payload_of_changes (h : Relation.ReflTransGen Change s s') (hr : r.index < s.objects.size) :
    (s'.object r).payload = (s.object r).payload := by
  induction h with
  | refl => rfl
  | tail h hc ih =>
    exact (hc.payload.2 r (Nat.lt_of_lt_of_le hr (size_of_changes h))).trans ih

end Store

namespace Stop

def IsFailure : Stop → Prop
  | fault _ | error _ => True
  | _ => False

def ForLoop : Stop → Prop
  | continued | broke => True
  | _ => False

/-- Whether this is a fault, or an error that `E` allows. -/
def Within (E : Diagnostic → Store → Prop) : Stop → Store → Prop
  | fault _, _ => True
  | error d, s => E d s
  | _, _ => False

section

variable {E E' : Diagnostic → Store → Prop} {e : Stop} {s : Store}

theorem isFailure_of_not_signal (hloop : ¬ e.ForLoop) (hreturned : ∀ v, e ≠ .returned v) :
    e.IsFailure := by
  cases e with
  | fault | error => trivial
  | returned v => exact hreturned v rfl
  | continued | broke => exact hloop trivial

theorem Within.isFailure (h : e.Within E s) : e.IsFailure := by
  cases e with
  | fault | error => trivial
  | returned | continued | broke => exact h

theorem Within.mono (h : e.Within E s) (hE : ∀ d, E d s → E' d s) : e.Within E' s := by
  cases e with
  | error d => exact hE d h
  | _ => exact h

end

end Stop

/-- From `m` on, the evaluation makes changes of the kind `C` only, and if it stops, `S` holds. -/
structure ObeysAt (C : Store → Store → Prop) (S : Stop → Store → Prop) {α : Type} (x : Eval α)
    (m : Machine) : Prop where
  changes : Relation.ReflTransGen C m.store (x m).2.store
  stops : ∀ e, (x m).1 = .error e → S e (x m).2.store

def Obeys (C : Store → Store → Prop) (S : Stop → Store → Prop) {α : Type} (x : Eval α) : Prop :=
  ∀ m, ObeysAt C S x m

section

open Eval Relation

variable {α β : Type} {C C' : Store → Store → Prop} {S S' : Stop → Store → Prop} {x : Eval α}
  {k : α → Eval β} {m m' : Machine}

namespace ObeysAt

theorem of_ok {a : α} (h : x m = (.ok a, m')) (hC : ReflTransGen C m.store m'.store) :
    ObeysAt C S x m where
  changes := by rwa [h]
  stops e he := by
    rw [h] at he
    cases he

theorem of_error {e : Stop} (h : x m = (.error e, m')) (hC : ReflTransGen C m.store m'.store)
    (hS : S e m'.store) : ObeysAt C S x m where
  changes := by rwa [h]
  stops e' he := by
    rw [h] at he ⊢
    cases he
    exact hS

theorem throw {e : Stop} (h : S e m.store) : ObeysAt C S (throw e : Eval α) m :=
  .of_error rfl .refl h

end ObeysAt

namespace Obeys

theorem mono (h : Obeys C S x) (hC : ∀ s s', C s s' → C' s s') (hS : ∀ e s, S e s → S' e s) :
    Obeys C' S' x := fun m =>
  ⟨ReflTransGen.mono hC _ _ (h m).changes, fun e he => hS e _ ((h m).stops e he)⟩

theorem stop {e : Stop} (h : Obeys C S x) (hm : x m = (.error e, m')) : S e m'.store := by
  have hstop := (h m).stops e (by rw [hm])
  rwa [hm] at hstop

@[simp]
theorem pure (a : α) : Obeys C S (Pure.pure a) := fun _ => .of_ok rfl .refl

@[simp]
theorem bind (hx : Obeys C S x) (hk : ∀ a, Obeys C S (k a)) : Obeys C S (x >>= k) := by
  intro m
  obtain ⟨hchanges, hstops⟩ := hx m
  rcases hm : x m with ⟨_ | a, m'⟩ <;> rw [hm] at hchanges hstops
  · constructor <;> rw [bind_error hm]
    · exact hchanges
    · intro e he
      cases he
      exact hstops _ rfl
  · constructor <;> rw [bind_ok hm]
    · exact hchanges.trans (hk a m').changes
    · exact (hk a m').stops

@[simp]
theorem map (hx : Obeys C S x) (f : α → β) : Obeys C S (f <$> x) := by
  rw [← bind_pure_comp]
  exact hx.bind fun a => .pure (f a)

/-- What comes after an outcome may make use of how it stopped. -/
theorem handle {k : Except Stop α → Eval β} (hx : Obeys C S x) (hok : ∀ a, Obeys C S' (k (.ok a)))
    (herror : ∀ e m, S e m.store → ObeysAt C S' (k (.error e)) m) :
    Obeys C S' (outcome x >>= k) := by
  intro m
  obtain ⟨hchanges, hstops⟩ := hx m
  have hk : ObeysAt C S' (k (x m).1) (x m).2 := by
    rcases hm : (x m).1 with e | a
    · exact herror e _ (hstops e hm)
    · exact hok a _
  constructor <;> rw [bind_ok (outcome_apply x m)]
  · exact hchanges.trans hk.changes
  · exact hk.stops

theorem throw {e : Stop} (h : ∀ s, S e s) : Obeys C S (throw e : Eval α) := fun m =>
  .throw (h m.store)

theorem look {f : Machine → α} (h : ∀ m, x m = (.ok (f m), m)) : Obeys C S x := fun m =>
  .of_ok (h m) .refl

theorem step {f : Machine → α} {g : Machine → Machine} (h : ∀ m, x m = (.ok (f m), g m))
    (hg : ∀ m, C m.store (g m).store) : Obeys C S x := fun m => .of_ok (h m) (.single (hg m))

@[simp]
theorem mapM {f : α → Eval β} (hf : ∀ a, Obeys C S (f a)) (as : List α) :
    Obeys C S (as.mapM f) := by
  induction as with
  | nil => simp
  | cons a as ih => simp [hf, ih]

@[simp]
theorem store : Obeys C S Eval.store := .look fun _ => rfl

@[simp]
theorem world : Obeys C S Eval.world := .look fun _ => rfl

@[simp]
theorem modifyWorld (f : World → World) : Obeys C S (Eval.modifyWorld f) := fun _ =>
  .of_ok rfl .refl

@[simp]
theorem object (r : ObjectRef) : Obeys C S (Eval.object r) := .look fun _ => rfl

@[simp]
theorem elements (cells : ListRef) : Obeys C S (Eval.elements cells) := .look fun _ => rfl

@[simp]
theorem lookup (t : TableRef) (name : String) : Obeys C S (Eval.lookup t name) :=
  .look fun _ => rfl

@[simp]
theorem snapshot (v : Value) : Obeys C S (Eval.snapshot v) := .look fun _ => rfl

@[simp]
theorem allocateList (vs : Array Value) : Obeys Store.ModestChange S (Eval.allocateList vs) :=
  .step (fun _ => rfl) fun _ => .list vs

@[simp]
theorem updateList (cells : ListRef) (f : Array Value → Array Value) :
    Obeys Store.ModestChange S (modifyStore (·.updateList cells f)) :=
  .step (fun _ => rfl) fun _ => .elements cells f

@[simp]
theorem make {p : Payload} (hp : p.IsData) : Obeys Store.ModestChange S (Eval.make p) :=
  .step (fun _ => rfl) fun _ => .fresh p hp

end Obeys

end

abbrev Plain {α : Type} (x : Eval α) : Prop := Obeys Store.ValueChange (fun e _ => e.IsFailure) x

abbrev PlainWithin (E : Diagnostic → Store → Prop) {α : Type} (x : Eval α) : Prop :=
  Obeys Store.ValueChange (Stop.Within E) x

abbrev Civil (E : Diagnostic → Store → Prop) {α : Type} (x : Eval α) : Prop :=
  Obeys Store.ModestChange (fun e s => ∃ d, e = .error d ∧ E d s) x

abbrev Modest (E : Diagnostic → Store → Prop) {α : Type} (x : Eval α) : Prop :=
  Obeys Store.ModestChange (Stop.Within E) x

theorem Civil.modest {α : Type} {E : Diagnostic → Store → Prop} {x : Eval α} (h : Civil E x) :
    Modest E x := by
  apply h.mono (fun _ _ hc => hc)
  rintro e s ⟨d, rfl, hd⟩
  exact hd

namespace Modest

open Eval

variable {α : Type} {E : Diagnostic → Store → Prop} {x : Eval α}

theorem within (h : Modest E x) : PlainWithin E x :=
  h.mono (fun _ _ => Store.ModestChange.value) fun _ _ h => h

theorem plain (h : Modest E x) : Plain x :=
  h.within.mono (fun _ _ h => h) fun _ _ => Stop.Within.isFailure

theorem weaken {E' : Diagnostic → Store → Prop} (h : Modest E x) (hE : ∀ d s, E d s → E' d s) :
    Modest E' x :=
  h.mono (fun _ _ h => h) fun _ s h => h.mono fun d => hE d s

@[simp]
theorem fault (f : Fault) : Modest E (Eval.fault f : Eval α) := .throw fun _ => trivial

@[simp]
theorem lift (r : Except Fault α) : Modest E (Eval.lift r) := by
  cases r <;> simp [Eval.lift]

theorem allocateList (vs : Array Value) : Modest E (Eval.allocateList vs) :=
  Obeys.allocateList vs

@[simp]
theorem place (r : ObjectRef) (span : Span) : Modest E (Eval.place r span) :=
  .step (fun _ => rfl) fun _ => .place r span

@[simp]
theorem objectOf (v : Value) : Modest E (Eval.objectOf v) := by
  cases v <;> simp [Eval.objectOf]

@[simp]
theorem copy (r : ObjectRef) : Modest E (Eval.copy r) := by
  intro m
  cases h : (m.store.object r).payload with
  | plain => exact .of_error (copy_plain h) .refl trivial
  | _ => exact .of_ok (copy_eq (by simp [h])) (.single (.copy r))

@[simp]
theorem written (v : Value) : Modest E (Eval.written v) := by
  simp [Eval.written]

@[simp]
theorem shown (v : Value) : Modest E (Eval.shown v) := by
  simp [Eval.shown]

@[simp]
theorem isTrue (v : Value) : Modest E (Eval.isTrue v) := by
  apply Obeys.bind (objectOf v)
  rintro ⟨_, o⟩
  dsimp only
  split <;> simp

@[simp]
theorem kindName (v : Value) : Modest E (Eval.kindName v) := by
  apply Obeys.bind (objectOf v)
  rintro ⟨_, o⟩
  dsimp only
  split <;> simp

end Modest

namespace PlainWithin

open Eval

variable {α : Type} {E : Diagnostic → Store → Prop} {x : Eval α}

theorem plain (h : PlainWithin E x) : Plain x :=
  h.mono (fun _ _ h => h) fun _ _ => Stop.Within.isFailure

theorem allocate (o : Object) : PlainWithin E (Eval.allocate o) :=
  .step (fun _ => rfl) fun _ => .object o

@[simp]
theorem enter (r : ObjectRef) (context : Option Context) : PlainWithin E (Eval.enter r context) :=
  .step (fun _ => rfl) fun _ => .enter r context

@[simp]
theorem copyTo (r : ObjectRef) (span : Span) (context : Context) :
    PlainWithin E (Eval.copyTo r span context) := by
  apply Obeys.bind (Modest.copy r).within
  intro c
  apply Obeys.bind (Modest.place c span).within
  simp

end PlainWithin

namespace Plain

open Eval

variable {α : Type}

theorem fault (f : Fault) : Plain (Eval.fault f : Eval α) := .throw fun _ => trivial

theorem make (p : Payload) : Plain (Eval.make p) :=
  .step (fun _ => rfl) fun _ => .object (.fresh p)

theorem isTrue (v : Value) : Plain (Eval.isTrue v) :=
  (Modest.isTrue (E := fun _ _ => False) v).plain

end Plain

namespace Operator

structure Reported (left : ObjectRef) (right : Value) (d : Diagnostic) (s : Store) : Prop where
  context : d.context = (s.object left).context
  start : d.start = (s.object left).start ∨ ∃ r, right = .object r ∧ d.start = (s.object r).start
  stop : (s.isSomething right = false ∧ d.stop = (s.object left).stop) ∨
    ∃ r, right = .object r ∧ d.stop = (s.object r).stop

variable {α : Type} {E : Diagnostic → Store → Prop} (left : ObjectRef) (right : Value)

theorem illegal_object {m : Machine} {r : ObjectRef} (reason : String)
    (h : m.store.isSomething (.object r) = true) :
    (illegal left (.object r) reason : Eval α) m =
      (.error (.error ⟨.runtime, "Illegal operation -> " ++ reason, (m.store.object left).start,
        (m.store.object r).stop, (m.store.object left).context⟩), m) := by
  refine (Eval.bind_ok (Eval.object_apply left m)).trans ?_
  refine (Eval.bind_ok (show Eval.store m = (.ok m.store, m) from rfl)).trans ?_
  rw [if_pos h]
  rfl

theorem illegal_nothing {right : Value} {m : Machine} (reason : String)
    (h : m.store.isSomething right = false) :
    (illegal left right reason : Eval α) m =
      (.error (.error ⟨.runtime, "Illegal operation -> " ++ reason, (m.store.object left).start,
        (m.store.object left).stop, (m.store.object left).context⟩), m) := by
  refine (Eval.bind_ok (Eval.object_apply left m)).trans ?_
  refine (Eval.bind_ok (show Eval.store m = (.ok m.store, m) from rfl)).trans ?_
  rw [if_neg (by simp [h])]
  rfl

theorem illegal_bare {t : String} {m : Machine} (reason : String) (h : t.isEmpty = false) :
    (illegal left (.bare t) reason : Eval α) m = (.error (.fault .noSuchPart), m) := by
  refine (Eval.bind_ok (Eval.object_apply left m)).trans ?_
  refine (Eval.bind_ok (show Eval.store m = (.ok m.store, m) from rfl)).trans ?_
  rw [if_pos (by simp [Store.isSomething, h])]
  rfl

@[simp]
theorem modest_illegal (reason : String) :
    Modest (Reported left right) (illegal left right reason : Eval α) := by
  intro m
  cases h : m.store.isSomething right with
  | false => exact .of_error (illegal_nothing left reason h) .refl ⟨rfl, .inl rfl, .inl ⟨h, rfl⟩⟩
  | true =>
    cases right with
    | object r =>
      exact .of_error (illegal_object left reason h) .refl ⟨rfl, .inl rfl, .inr ⟨r, rfl, rfl⟩⟩
    | bare t =>
      have ht : t.isEmpty = false := by simpa [Store.isSomething] using h
      exact .of_error (illegal_bare left reason ht) .refl trivial
    | absent => simp [Store.isSomething] at h

@[simp]
theorem modest_unknown : Modest (Reported left right) (unknown left right : Eval α) :=
  modest_illegal left right _

@[simp]
theorem modest_illegalKind (action : String) :
    Modest (Reported left right) (illegalKind left right action : Eval α) := by
  simp [illegalKind]

@[simp]
theorem modest_result {p : Payload} (hp : p.IsData) : Modest E (result left p) :=
  .step (fun _ => rfl) fun _ => .beside left p hp

@[simp]
theorem modest_payload? : Modest E (payload? right) := by
  cases right <;> simp [payload?]

@[simp]
theorem modest_errorAtRight (details : String) :
    Modest (Reported left right) (errorAtRight left right details : Eval α) := by
  intro m
  cases right with
  | object r => exact .of_error rfl .refl ⟨rfl, .inr ⟨r, rfl, rfl⟩, .inr ⟨r, rfl, rfl⟩⟩
  | absent | bare => exact .of_error rfl .refl trivial

theorem modest_onNumber (op : BinaryOp) (a : Number) :
    Modest (Reported left right) (onNumber op left a right) := by
  apply Obeys.bind (modest_payload? right)
  intro p
  split
  · split <;> simp
  · simp

theorem modest_onText (op : BinaryOp) (a : String) :
    Modest (Reported left right) (onText op left a right) := by
  apply Obeys.bind (modest_payload? right)
  intro p
  split <;> try simp
  split <;> simp

@[simp]
theorem obeys_takeElement {S : Stop → Store → Prop} (cells : ListRef) (n : Number) :
    Obeys Store.ModestChange S (takeElement cells n) := by
  apply Obeys.bind (Obeys.elements cells)
  intro vs
  dsimp only
  split <;> simp

theorem modest_onList (op : BinaryOp) (cells : ListRef) :
    Modest (Reported left right) (onList op left cells right) := by
  apply Obeys.bind (modest_payload? right)
  intro p
  split <;> try simp
  · apply Obeys.bind (Modest.copy left)
    intro c
    apply Obeys.bind (obeys_takeElement cells _)
    intro taken
    split <;> simp
  · apply Obeys.bind (Modest.copy left)
    simp
  · apply Obeys.bind (Obeys.elements cells)
    intro vs
    split <;> simp

theorem modest_onFile (op : BinaryOp) (path : String) :
    Modest (Reported left right) (onFile op left path right) := by
  unfold onFile
  split
  · apply Obeys.bind (modest_payload? right)
    intro p
    split <;> simp
  · simp

@[simp]
theorem modest_binary (op : BinaryOp) : Modest (Reported left right) (binary op left right) := by
  apply Obeys.bind (Obeys.object left)
  intro o
  split
  · apply modest_onNumber
  · apply modest_onText
  · apply modest_onList
  · apply modest_onFile
  · split <;> simp
  · simp

@[simp]
theorem modest_negate (arg : ObjectRef) : Modest E (negate arg) := by
  apply Obeys.bind (Obeys.object arg)
  intro o
  split <;> simp

end Operator

end Think
