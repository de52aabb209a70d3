import Think.Proofs.Eval.Alike
import Think.Proofs.Eval.Return

/-! # Evaluations in step

Two evaluations that start on machines that are alike go in step if they end alike, on machines
that are alike again. The first one may run out of fuel, which says nothing. What an evaluation
does in step with another cannot depend on where values are kept or where in a text they arose.
-/

namespace Think

/-- Reports need not be the same, but either both can be shown or none. -/
inductive Stop.Alike (ρ : Pairing) : Stop → Stop → Prop
  | fault (f : Fault) : Alike ρ (.fault f) (.fault f)
  | error {d d' : Diagnostic} : d'.message?.isSome = d.message?.isSome →
    Alike ρ (.error d) (.error d')
  | returned {v w : Value} : Value.Alike ρ v w → Alike ρ (.returned v) (.returned w)
  | continued : Alike ρ .continued .continued
  | broke : Alike ρ .broke .broke

theorem Diagnostic.isSome_traceback? (c : Context) (p : Option Position) :
    (traceback? (some c) p).isSome = (p.isSome && (traceback? c.parent c.entry).isSome) := by
  obtain ⟨name, parent, entry, symbols, hidden⟩ := c
  cases p with
  | none => simp [traceback?]
  | some p => cases h : traceback? parent entry <;> simp [traceback?, h]

theorem Context.Twin.traceback {c c' : Context} (h : Twin c c') {p p' : Option Position}
    (hp : p'.isSome = p.isSome) :
    (Diagnostic.traceback? (some c') p').isSome = (Diagnostic.traceback? (some c) p).isSome := by
  rw [Diagnostic.isSome_traceback?, Diagnostic.isSome_traceback?, hp]
  induction h generalizing p p' with
  | outermost _ => simp [Diagnostic.traceback?]
  | inner _ he ih =>
    dsimp only
    rw [Diagnostic.isSome_traceback?, Diagnostic.isSome_traceback?, he, ih he]

theorem Context.rel_traceback {n : Nat} {c c' : Option Context}
    (h : Option.Rel (Context.Alike n) c c') {p p' : Option Position} (hp : p'.isSome = p.isSome) :
    (Diagnostic.traceback? c' p').isSome = (Diagnostic.traceback? c p).isSome := by
  cases h with
  | some h => exact h.twin.traceback hp
  | none => simp [Diagnostic.traceback?]

theorem Diagnostic.isSome_message? (d : Diagnostic) :
    d.message?.isSome = (d.start.isSome && d.stop.isSome &&
      (d.kind != .runtime || (traceback? d.context d.start).isSome)) := by
  obtain ⟨kind, details, start, stop, context⟩ := d
  cases start with
  | none => rfl
  | some start =>
    cases stop with
    | none => rfl
    | some stop =>
      cases kind with
      | runtime =>
        cases h : traceback? context (some start) <;> simp [message?, h]
      | _ => rfl

inductive EndsAlike (ρ : Pairing) {α : Type} (R : α → α → Prop) :
    Except Stop α → Except Stop α → Prop
  | ok {a b : α} : R a b → EndsAlike ρ R (.ok a) (.ok b)
  | error {e e' : Stop} : Stop.Alike ρ e e' → EndsAlike ρ R (.error e) (.error e')

/-- How results are related, given which values are paired and how many tables there are. -/
abbrev Relates (α : Type) := Pairing → Nat → α → α → Prop

namespace Relates

def same {α : Type} : Relates α := fun _ _ a b => a = b

def value : Relates Value := fun ρ _ => Value.Alike ρ

def values : Relates (List Value) := fun ρ _ => List.Forall₂ (Value.Alike ρ)

def object : Relates ObjectRef := fun ρ _ => ρ.objects

def objects : Relates (List ObjectRef) := fun ρ _ => List.Forall₂ ρ.objects

def cells : Relates ListRef := fun ρ _ => ρ.lists

def context : Relates Context := fun _ n => Context.Alike n

end Relates

open Eval

/-- From `m` and `m'` on, the evaluations go in step. -/
def InStep (ρ : Pairing) {α : Type} (R : Relates α) (x y : Eval α) (m m' : Machine) : Prop :=
  Machine.Alike ρ m m' → (x m).1 = .error (.fault .outOfFuel) ∨
    ∃ ρ', ρ.Grows m.store m'.store ρ' (x m).2.store (y m').2.store ∧
      Machine.Alike ρ' (x m).2 (y m').2 ∧
      EndsAlike ρ' (R ρ' (x m).2.store.tables.size) (x m).1 (y m').1

/-- The evaluations only look at the machines, and find what is related by `P` or stop alike. -/
def Looks (ρ : Pairing) {α : Type} (P : α → α → Prop) (x y : Eval α) (m m' : Machine) : Prop :=
  Machine.Alike ρ m m' → ∃ r r', x m = (r, m) ∧ y m' = (r', m') ∧ EndsAlike ρ P r r'

section

variable {α β : Type} {ρ : Pairing} {R : Relates α} {Q : Relates β} {P : α → α → Prop}
  {P' : β → β → Prop} {x y : Eval α} {f g : α → Eval β} {m m' : Machine}

namespace Looks

theorem pure {a b : α} (h : P a b) : Looks ρ P (Pure.pure a) (Pure.pure b) m m' := fun _ =>
  ⟨_, _, rfl, rfl, .ok h⟩

theorem throw {e e' : Stop} (h : Stop.Alike ρ e e') :
    Looks ρ P (throw e : Eval α) (throw e' : Eval α) m m' := fun _ => ⟨_, _, rfl, rfl, .error h⟩

theorem fault (e : Fault) : Looks ρ P (fault e : Eval α) (fault e : Eval α) m m' :=
  .throw (.fault e)

theorem bind (hx : Looks ρ P x y m m') (hf : ∀ a b, P a b → Looks ρ P' (f a) (g b) m m') :
    Looks ρ P' (x >>= f) (y >>= g) m m' := by
  intro hm
  obtain ⟨r, r', hr, hr', hend⟩ := hx hm
  cases hend with
  | ok hab =>
    obtain ⟨u, u', hu, hu', hend⟩ := hf _ _ hab hm
    exact ⟨u, u', (bind_ok hr).trans hu, (bind_ok hr').trans hu', hend⟩
  | error he => exact ⟨_, _, bind_error hr, bind_error hr', .error he⟩

theorem lift (r : Except Fault α) : Looks ρ Eq (lift r) (lift r) m m' := by
  cases r with
  | ok a => exact .pure rfl
  | error e => exact .fault e

end Looks

namespace InStep

/-- That the machines are alike may be used to tell how things are related. -/
theorem intro (h : Machine.Alike ρ m m' → InStep ρ R x y m m') : InStep ρ R x y m m' :=
  fun hm => h hm hm

theorem pure {a b : α} (h : R ρ m.store.tables.size a b) :
    InStep ρ R (Pure.pure a) (Pure.pure b) m m' := fun hm =>
  .inr ⟨ρ, .refl _ _ _, hm, .ok h⟩

theorem throw {e e' : Stop} (h : Stop.Alike ρ e e') :
    InStep ρ R (throw e : Eval α) (throw e' : Eval α) m m' := fun hm =>
  .inr ⟨ρ, .refl _ _ _, hm, .error h⟩

theorem fault (e : Fault) : InStep ρ R (fault e : Eval α) (fault e : Eval α) m m' :=
  .throw (.fault e)

theorem outOfFuel (y : Eval α) : InStep ρ R (Eval.fault .outOfFuel) y m m' := fun _ => .inl rfl

/-- What comes next may depend on how the first evaluation got there. -/
theorem bindFrom (hx : InStep ρ R x y m m')
    (hf : ∀ ρ' a b t t', x m = (.ok a, t) → ρ.Grows m.store m'.store ρ' t.store t'.store →
      R ρ' t.store.tables.size a b → InStep ρ' Q (f a) (g b) t t') :
    InStep ρ Q (x >>= f) (y >>= g) m m' := by
  intro hm
  rcases hx hm with hfuel | ⟨ρ', hg, ht, hend⟩
  · left
    rcases hxm : x m with ⟨r, t⟩
    rw [hxm] at hfuel
    cases hfuel
    rw [bind_error hxm]
  · rcases hxm : x m with ⟨r, t⟩
    rcases hym : y m' with ⟨r', t'⟩
    rw [hxm, hym] at hg ht hend
    cases hend with
    | ok hab =>
      rw [bind_ok hxm, bind_ok hym]
      rcases hf ρ' _ _ t t' hxm hg hab ht with hfuel | ⟨ρ'', hg', hu, hend⟩
      · exact .inl hfuel
      · exact .inr ⟨ρ'', hg.trans hg', hu, hend⟩
    | error he =>
      rw [bind_error hxm, bind_error hym]
      exact .inr ⟨ρ', hg, ht, .error he⟩

theorem bind (hx : InStep ρ R x y m m')
    (hf : ∀ ρ' a b t t', ρ.Grows m.store m'.store ρ' t.store t'.store →
      R ρ' t.store.tables.size a b → InStep ρ' Q (f a) (g b) t t') :
    InStep ρ Q (x >>= f) (y >>= g) m m' :=
  bindFrom hx fun ρ' a b t t' _ => hf ρ' a b t t'

theorem lookFrom (hx : Looks ρ P x y m m')
    (hf : ∀ a b, x m = (.ok a, m) → P a b → InStep ρ Q (f a) (g b) m m') :
    InStep ρ Q (x >>= f) (y >>= g) m m' := by
  intro hm
  obtain ⟨r, r', hr, hr', hend⟩ := hx hm
  cases hend with
  | ok hab =>
    rw [bind_ok hr, bind_ok hr']
    exact hf _ _ hr hab hm
  | error he =>
    rw [bind_error hr, bind_error hr']
    exact .inr ⟨ρ, .refl _ _ _, hm, .error he⟩

theorem look (hx : Looks ρ P x y m m') (hf : ∀ a b, P a b → InStep ρ Q (f a) (g b) m m') :
    InStep ρ Q (x >>= f) (y >>= g) m m' :=
  lookFrom hx fun a b _ => hf a b

theorem lookSameFrom (hx : Looks ρ Eq x y m m')
    (hf : ∀ a, x m = (.ok a, m) → InStep ρ Q (f a) (g a) m m') :
    InStep ρ Q (x >>= f) (y >>= g) m m' := by
  apply lookFrom hx
  rintro a _ ha rfl
  exact hf a ha

theorem lookSame (hx : Looks ρ Eq x y m m') (hf : ∀ a, InStep ρ Q (f a) (g a) m m') :
    InStep ρ Q (x >>= f) (y >>= g) m m' :=
  lookSameFrom hx fun a _ => hf a

theorem of_looks (hx : Looks ρ (R ρ m.store.tables.size) x y m m') : InStep ρ R x y m m' := by
  intro hm
  obtain ⟨r, r', hr, hr', hend⟩ := hx hm
  rw [hr, hr']
  exact .inr ⟨ρ, .refl _ _ _, hm, hend⟩

/-- What comes after an outcome goes on in step, and passes on that fuel ran out. -/
theorem handleFrom {f g : Except Stop α → Eval β} (hx : InStep ρ R x y m m')
    (hok : ∀ ρ' a b t t', x m = (.ok a, t) → ρ.Grows m.store m'.store ρ' t.store t'.store →
      R ρ' t.store.tables.size a b → InStep ρ' Q (f (.ok a)) (g (.ok b)) t t')
    (herror : ∀ ρ' e e' t t', x m = (.error e, t) →
      ρ.Grows m.store m'.store ρ' t.store t'.store → Stop.Alike ρ' e e' →
      InStep ρ' Q (f (.error e)) (g (.error e')) t t')
    (hfuel : ∀ t, (f (.error (.fault .outOfFuel)) t).1 = .error (.fault .outOfFuel)) :
    InStep ρ Q (outcome x >>= f) (outcome y >>= g) m m' := by
  intro hm
  rw [bind_ok (outcome_apply x m), bind_ok (outcome_apply y m')]
  rcases hx hm with h | ⟨ρ', hg, ht, hend⟩
  · rw [h]
    exact .inl (hfuel _)
  · rcases hxm : x m with ⟨r, t⟩
    rcases hym : y m' with ⟨r', t'⟩
    rw [hxm, hym] at hg ht hend
    have hnext : InStep ρ' Q (f r) (g r') t t' := by
      cases hend with
      | ok hab => exact hok ρ' _ _ _ _ hxm hg hab
      | error he => exact herror ρ' _ _ _ _ hxm hg he
    rcases hnext ht with h | ⟨ρ'', hg', hu, hend⟩
    · exact .inl h
    · exact .inr ⟨ρ'', hg.trans hg', hu, hend⟩

theorem handle {f g : Except Stop α → Eval β} (hx : InStep ρ R x y m m')
    (hok : ∀ ρ' a b t t', ρ.Grows m.store m'.store ρ' t.store t'.store →
      R ρ' t.store.tables.size a b → InStep ρ' Q (f (.ok a)) (g (.ok b)) t t')
    (herror : ∀ ρ' e e' t t', ρ.Grows m.store m'.store ρ' t.store t'.store →
      Stop.Alike ρ' e e' → InStep ρ' Q (f (.error e)) (g (.error e')) t t')
    (hfuel : ∀ t, (f (.error (.fault .outOfFuel)) t).1 = .error (.fault .outOfFuel)) :
    InStep ρ Q (outcome x >>= f) (outcome y >>= g) m m' :=
  handleFrom hx (fun ρ' a b t t' _ => hok ρ' a b t t') (fun ρ' e e' t t' _ => herror ρ' e e' t t')
    hfuel

end InStep

end

namespace Looks

variable {α : Type} {ρ : Pairing} {P : α → α → Prop} {m m' : Machine} {r q : ObjectRef}
  {v w : Value}

theorem error {start start' stop stop' : Option Position} {details details' : String}
    {c c' : Option Context} {n : Nat} (hstart : start'.isSome = start.isSome)
    (hstop : stop'.isSome = stop.isSome) (hc : Option.Rel (Context.Alike n) c c') :
    Looks ρ P (Eval.error start stop details c : Eval α) (Eval.error start' stop' details' c')
      m m' := by
  apply throw
  apply Stop.Alike.error
  rw [Diagnostic.isSome_message?, Diagnostic.isSome_message?]
  dsimp only
  rw [hstart, hstop, Context.rel_traceback hc hstart]

theorem world : Looks ρ Eq Eval.world Eval.world m m' := fun hm =>
  ⟨_, _, rfl, rfl, .ok hm.world.symm⟩

theorem object (h : ρ.objects r q) :
    Looks ρ (Object.Alike ρ m.store.tables.size) (Eval.object r) (Eval.object q) m m' := fun hm =>
  ⟨_, _, rfl, rfl, .ok (hm.store.objects h).2.2⟩

theorem elements {c d : ListRef} (h : ρ.lists c d) :
    Looks ρ (fun vs ws => List.Forall₂ (Value.Alike ρ) vs.toList ws.toList) (Eval.elements c)
      (Eval.elements d) m m' := fun hm =>
  ⟨_, _, rfl, rfl, .ok (hm.store.lists h).2.2⟩

theorem lookup {t : TableRef} {name : String}
    (h : ∀ u ∈ t :: (m.store.table t).ancestors, ¬ ρ.apart u name) :
    Looks ρ (Store.EntryAlike ρ m.store m'.store) (Eval.lookup t name) (Eval.lookup t name) m m' :=
  fun hm => ⟨_, _, rfl, rfl, .ok (hm.store.lookup h)⟩

theorem isSomething (h : Value.Alike ρ v w) :
    Looks ρ (fun s s' => s'.isSomething w = s.isSomething v) Eval.store Eval.store m m' := fun hm =>
  ⟨_, _, rfl, rfl, .ok (hm.store.isSomething h)⟩

theorem snapshot (h : Value.Alike ρ v w) :
    Looks ρ Eq (Eval.snapshot v) (Eval.snapshot w) m m' := fun hm =>
  ⟨_, _, rfl, rfl, .ok (hm.store.snapshot h).symm⟩

theorem written (h : Value.Alike ρ v w) : Looks ρ Eq (Eval.written v) (Eval.written w) m m' := by
  apply bind (snapshot h)
  rintro s _ rfl
  exact lift _

theorem shown (h : Value.Alike ρ v w) : Looks ρ Eq (Eval.shown v) (Eval.shown w) m m' := by
  apply bind (snapshot h)
  rintro s _ rfl
  exact lift _

/-- The parts of alike values: paired references and alike objects. -/
theorem objectOf (h : Value.Alike ρ v w) :
    Looks ρ (fun p p' => v = .object p.1 ∧ w = .object p'.1 ∧ ρ.objects p.1 p'.1 ∧
      Object.Alike ρ m.store.tables.size p.2 p'.2) (Eval.objectOf v) (Eval.objectOf w) m m' := by
  cases h with
  | object h =>
    apply bind (object h)
    intro o o' ho
    exact pure ⟨rfl, rfl, h, ho⟩
  | absent => exact fault _
  | bare t => exact fault _

theorem isTrue (h : Value.Alike ρ v w) : Looks ρ Eq (Eval.isTrue v) (Eval.isTrue w) m m' := by
  apply bind (objectOf h)
  rintro ⟨r, p, start, stop, c⟩ ⟨q, p', start', stop', c'⟩ ⟨-, -, -, hp, -, -, -⟩
  dsimp only at hp ⊢
  cases hp with
  | list hc =>
    apply bind (elements hc)
    intro vs ws hvs
    apply pure
    rw [← Array.isEmpty_toList, ← Array.isEmpty_toList]
    generalize vs.toList = vs at hvs ⊢
    generalize ws.toList = ws at hvs ⊢
    cases hvs <;> rfl
  | _ => exact pure rfl

theorem kindName (h : Value.Alike ρ v w) :
    Looks ρ Eq (Eval.kindName v) (Eval.kindName w) m m' := by
  apply bind (objectOf h)
  rintro ⟨r, p, start, stop, c⟩ ⟨q, p', start', stop', c'⟩ ⟨-, -, -, hp, -, -, -⟩
  dsimp only at hp ⊢
  cases hp with
  | number n => exact lift _
  | _ => exact pure rfl

end Looks

theorem Object.Alike.placed {ρ : Pairing} {n : Nat} {o o' : Object} (h : Alike ρ n o o')
    (span span' : Span) : Alike ρ n (o.placed span) (o'.placed span') :=
  ⟨h.payload, rfl, rfl, h.context⟩

theorem Object.Alike.within {ρ : Pairing} {n : Nat} {o o' : Object} {c c' : Option Context}
    (h : Alike ρ n o o') (hc : Option.Rel (Context.Alike n) c c') :
    Alike ρ n (o.within c) (o'.within c') :=
  ⟨h.payload, h.start, h.stop, hc⟩

theorem Object.Alike.fresh {ρ : Pairing} {n : Nat} {p p' : Payload} (h : Payload.Alike ρ p p') :
    Alike ρ n (.fresh p) (.fresh p') :=
  ⟨h, rfl, rfl, .none⟩

namespace InStep

variable {ρ : Pairing} {m m' : Machine} {r q : ObjectRef} {v w : Value}

theorem allocate {o o' : Object} (h : Object.Alike ρ m.store.tables.size o o') :
    InStep ρ Relates.object (Eval.allocate o) (Eval.allocate o') m m' := by
  intro hm
  obtain ⟨ρ', hg, hs, hr⟩ := hm.store.allocate h
  exact .inr ⟨ρ', hg, ⟨hs, hm.world⟩, .ok hr⟩

theorem allocateList {vs ws : Array Value}
    (h : List.Forall₂ (Value.Alike ρ) vs.toList ws.toList) :
    InStep ρ Relates.cells (Eval.allocateList vs) (Eval.allocateList ws) m m' := by
  intro hm
  obtain ⟨ρ', hg, hs, hc⟩ := hm.store.allocateList h
  exact .inr ⟨ρ', hg, ⟨hs, hm.world⟩, .ok hc⟩

theorem allocateValue {o o' : Object} (h : Object.Alike ρ m.store.tables.size o o') :
    InStep ρ Relates.value (do return .object (← Eval.allocate o))
      (do return .object (← Eval.allocate o')) m m' := by
  apply bind (allocate h)
  intro ρ' r q t t' _ hr
  exact pure (.object hr)

theorem make {p p' : Payload} (h : Payload.Alike ρ p p') :
    InStep ρ Relates.value (Eval.make p) (Eval.make p') m m' :=
  allocateValue (.fresh h)

theorem place (h : ρ.objects r q) (span span' : Span) :
    InStep ρ Relates.same (Eval.place r span) (Eval.place q span') m m' := by
  intro hm
  obtain ⟨hg, hs⟩ := hm.store.update h (.place r span) (.place q span') fun o o' ho =>
    ho.placed span span'
  exact .inr ⟨ρ, hg, ⟨hs, hm.world⟩, .ok rfl⟩

theorem enter {c c' : Option Context} (h : ρ.objects r q)
    (hc : Option.Rel (Context.Alike m.store.tables.size) c c') :
    InStep ρ Relates.same (Eval.enter r c) (Eval.enter q c') m m' := by
  intro hm
  obtain ⟨hg, hs⟩ := hm.store.update h (.enter r c) (.enter q c') fun o o' ho => ho.within hc
  exact .inr ⟨ρ, hg, ⟨hs, hm.world⟩, .ok rfl⟩

theorem updateList {c d : ListRef} {f f' : Array Value → Array Value} (h : ρ.lists c d)
    (hf : ∀ vs ws, List.Forall₂ (Value.Alike ρ) vs.toList ws.toList →
      List.Forall₂ (Value.Alike ρ) (f vs).toList (f' ws).toList) :
    InStep ρ Relates.same (modifyStore (·.updateList c f)) (modifyStore (·.updateList d f'))
      m m' := by
  intro hm
  obtain ⟨hg, hs⟩ := hm.store.updateList h hf
  exact .inr ⟨ρ, hg, ⟨hs, hm.world⟩, .ok rfl⟩

theorem modifyWorld (f : World → World) :
    InStep ρ Relates.same (Eval.modifyWorld f) (Eval.modifyWorld f) m m' := by
  intro hm
  exact .inr ⟨ρ, .refl _ _ _, ⟨hm.store, congrArg f hm.world⟩, .ok rfl⟩

theorem bindName (t : TableRef) (name : String) (h : Value.Alike ρ v w) :
    InStep ρ Relates.same (Eval.bind t name v) (Eval.bind t name w) m m' := by
  intro hm
  obtain ⟨hg, hs⟩ := hm.store.bind t name h
  exact .inr ⟨ρ, hg, ⟨hs, hm.world⟩, .ok rfl⟩

theorem newTable :
    InStep ρ (fun _ n t t' => t' = t ∧ t.index < n) Eval.newTable Eval.newTable m m' := by
  intro hm
  obtain ⟨hg, hs⟩ := hm.store.allocateTable []
  refine .inr ⟨ρ, hg, ⟨hs, hm.world⟩, .ok ⟨congrArg TableRef.mk hm.store.tables, ?_⟩⟩
  simp [Eval.newTable, Store.allocateTable]

theorem childTable (t : TableRef) :
    InStep ρ (fun _ n t t' => t' = t ∧ t.index < n) (Eval.childTable t) (Eval.childTable t)
      m m' := by
  intro hm
  obtain ⟨hg, hs⟩ := hm.store.childOf t
  refine .inr ⟨ρ, hg, ⟨hs, hm.world⟩, .ok ⟨congrArg TableRef.mk hm.store.tables, ?_⟩⟩
  simp [Eval.childTable, Store.childOf, Store.allocateTable]

theorem copyTo {c c' : Context} (span span' : Span)
    (h : Payload.Alike ρ (m.store.object r).payload (m'.store.object q).payload)
    (hc : Context.Alike m.store.tables.size c c') :
    InStep ρ Relates.object (Eval.copyTo r span c) (Eval.copyTo q span' c') m m' := by
  by_cases hplain : (m.store.object r).payload = .plain
  · have hplain' : (m'.store.object q).payload = .plain := by
      rw [hplain] at h
      generalize (m'.store.object q).payload = p at h ⊢
      cases h
      rfl
    intro hm
    rw [show Eval.copyTo r span c m = _ from bind_error (copy_plain hplain),
      show Eval.copyTo q span' c' m' = _ from bind_error (copy_plain hplain')]
    exact .inr ⟨ρ, .refl _ _ _, hm, .error (.fault _)⟩
  · have hplain' : (m'.store.object q).payload ≠ .plain := by
      intro hp
      rw [hp] at h
      generalize (m.store.object r).payload = p at h hplain
      cases h
      exact hplain rfl
    have hcopy : InStep ρ Relates.object
        (Eval.allocate (((m.store.object r).placed span).within (some c)))
        (Eval.allocate (((m'.store.object q).placed span').within (some c'))) m m' :=
      allocate ⟨h, rfl, rfl, .some hc⟩
    unfold InStep at hcopy ⊢
    rwa [copyTo_eq span c hplain, copyTo_eq span' c' hplain']

end InStep

end Think
