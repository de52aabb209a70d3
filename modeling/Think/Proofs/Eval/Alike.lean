import Mathlib.Data.List.Forall2
import Mathlib.Data.List.Nodup
import Mathlib.Data.List.Perm.Subperm
import Think.Proofs.Eval.Frame
import Think.Proofs.Parse.Printing

/-! # Machines that are alike

Two machines are alike if they hold the same tables of names and the same world, and their values
differ only in where they are kept and where in a text they arose. A pairing tells which objects
and which list storages stand for each other, and which names are left out of the comparison.
-/

namespace Think

/-- Objects and list storages of two stores that stand for each other, one to one. -/
structure Pairing where
  objects : ObjectRef → ObjectRef → Prop
  lists : ListRef → ListRef → Prop
  /-- The names of tables that are not compared. -/
  apart : TableRef → String → Prop
  object_right : ∀ {r q q'}, objects r q → objects r q' → q = q'
  object_left : ∀ {r r' q}, objects r q → objects r' q → r = r'
  list_right : ∀ {c d d'}, lists c d → lists c d' → d = d'
  list_left : ∀ {c c' d}, lists c d → lists c' d → c = c'

inductive Value.Alike (ρ : Pairing) : Value → Value → Prop
  | object {r q : ObjectRef} : ρ.objects r q → Alike ρ (.object r) (.object q)
  | absent : Alike ρ .absent .absent
  | bare (t : String) : Alike ρ (.bare t) (.bare t)

inductive Payload.Alike (ρ : Pairing) : Payload → Payload → Prop
  | number (n : Number) : Alike ρ (.number n) (.number n)
  | text (t : String) : Alike ρ (.text t) (.text t)
  | list {c d : ListRef} : ρ.lists c d → Alike ρ (.list c) (.list d)
  | null : Alike ρ .null .null
  | function {name params body body' e} : Node.shape body' = Node.shape body →
    Alike ρ (.function name params body e) (.function name params body' e)
  | builtin (name : String) : Alike ρ (.builtin name) (.builtin name)
  | file (name path : String) : Alike ρ (.file name path) (.file name path)
  | plain : Alike ρ .plain .plain

/-- The contexts differ only in their names and in where they were entered. -/
inductive Context.Twin : Context → Context → Prop
  | outermost {name name' entry entry' symbols hidden} : entry'.isSome = entry.isSome →
    Twin ⟨name, none, entry, symbols, hidden⟩ ⟨name', none, entry', symbols, hidden⟩
  | inner {name name' c c' entry entry' symbols hidden} : Twin c c' →
    entry'.isSome = entry.isSome →
    Twin ⟨name, some c, entry, symbols, hidden⟩ ⟨name', some c', entry', symbols, hidden⟩

/-- Twin contexts whose names are looked up in two of the first `n` tables. -/
structure Context.Alike (n : Nat) (c c' : Context) : Prop where
  twin : Twin c c'
  symbols : c.symbols.index < n
  hidden : c.hidden.index < n

structure Object.Alike (ρ : Pairing) (n : Nat) (o o' : Object) : Prop where
  payload : Payload.Alike ρ o.payload o'.payload
  start : o'.start.isSome = o.start.isSome
  stop : o'.stop.isSome = o.stop.isSome
  context : Option.Rel (Context.Alike n) o.context o'.context

/-- What a name means in both stores: nothing, or objects that hold alike. A name can only be read
as a copy, so which object it is bound to plays no part. -/
inductive Store.EntryAlike (ρ : Pairing) (s s' : Store) : Value → Value → Prop
  | object {r q : ObjectRef} : r.index < s.objects.size → q.index < s'.objects.size →
    Payload.Alike ρ (s.object r).payload (s'.object q).payload →
    EntryAlike ρ s s' (.object r) (.object q)
  | absent : EntryAlike ρ s s' .absent .absent
  | bare (t : String) : EntryAlike ρ s s' (.bare t) (.bare t)

structure Store.Alike (ρ : Pairing) (s s' : Store) : Prop where
  objects : ∀ {r q}, ρ.objects r q → r.index < s.objects.size ∧ q.index < s'.objects.size ∧
    Object.Alike ρ s.tables.size (s.object r) (s'.object q)
  lists : ∀ {c d}, ρ.lists c d → c.index < s.lists.size ∧ d.index < s'.lists.size ∧
    List.Forall₂ (Value.Alike ρ) (s.elements c).toList (s'.elements d).toList
  tables : s'.tables.size = s.tables.size
  ancestors : ∀ t, (s'.table t).ancestors = (s.table t).ancestors
  entries : ∀ t x, ¬ ρ.apart t x → EntryAlike ρ s s' ((s.table t).get x) ((s'.table t).get x)
  /-- Null, zero, false and true stand for themselves. -/
  shared : ∀ i < 4, ρ.objects ⟨i⟩ ⟨i⟩
  /-- There are tables for the global names and for those of whole programs. -/
  roots : 1 < s.tables.size

structure Machine.Alike (ρ : Pairing) (m m' : Machine) : Prop where
  store : Store.Alike ρ m.store m'.store
  world : m'.world = m.world

namespace Pairing

structure Sub (ρ ρ' : Pairing) : Prop where
  objects : ∀ {r q}, ρ.objects r q → ρ'.objects r q
  lists : ∀ {c d}, ρ.lists c d → ρ'.lists c d

structure Full (ρ : Pairing) (s s' : Store) : Prop where
  objectCount : s'.objects.size = s.objects.size
  listCount : s'.lists.size = s.lists.size
  objects : ∀ r : ObjectRef, r.index < s.objects.size → ρ.objects r r
  lists : ∀ c : ListRef, c.index < s.lists.size → ρ.lists c c
  names : ∀ t x, ¬ ρ.apart t x

/-- How two stores and their pairing may go on: pairs stay, new ones are made of new objects, and
what is not paired in the first store is left alone. -/
structure Grows (ρ : Pairing) (s s' : Store) (ρ' : Pairing) (t t' : Store) : Prop
    extends Sub ρ ρ' where
  apart : ρ'.apart = ρ.apart
  fresh : ∀ {r q}, ρ'.objects r q → ρ.objects r q ∨ s.objects.size ≤ r.index
  kept : ∀ r : ObjectRef, r.index < s.objects.size → (∀ q, ¬ ρ.objects r q) →
    t.object r = s.object r
  objectCount : s.objects.size ≤ t.objects.size
  tables : s.tables.size ≤ t.tables.size
  full : Full ρ s s' → Full ρ' t t'

variable {ρ ρ' ρ'' : Pairing} {s s' t t' u u' : Store}

theorem Sub.refl (ρ : Pairing) : Sub ρ ρ := ⟨id, id⟩

theorem Grows.refl (ρ : Pairing) (s s' : Store) : Grows ρ s s' ρ s s' where
  toSub := .refl ρ
  apart := rfl
  fresh h := .inl h
  kept _ _ _ := rfl
  objectCount := Nat.le_refl _
  tables := Nat.le_refl _
  full h := h

theorem Grows.trans (h : Grows ρ s s' ρ' t t') (h' : Grows ρ' t t' ρ'' u u') :
    Grows ρ s s' ρ'' u u' where
  objects hr := h'.objects (h.objects hr)
  lists hc := h'.lists (h.lists hc)
  apart := h'.apart.trans h.apart
  fresh hr := by
    rcases h'.fresh hr with hr | hr
    · exact h.fresh hr
    · exact .inr (Nat.le_trans h.objectCount hr)
  kept r hr hfree := by
    have hfree' : ∀ q, ¬ ρ'.objects r q := by
      intro q hq
      rcases h.fresh hq with hq | hle
      · exact hfree q hq
      · omega
    rw [h'.kept r (Nat.lt_of_lt_of_le hr h.objectCount) hfree', h.kept r hr hfree]
  objectCount := Nat.le_trans h.objectCount h'.objectCount
  tables := Nat.le_trans h.tables h'.tables
  full hf := h'.full (h.full hf)

def insertObject (ρ : Pairing) (r q : ObjectRef) (hr : ∀ q', ¬ ρ.objects r q')
    (hq : ∀ r', ¬ ρ.objects r' q) : Pairing where
  objects a b := ρ.objects a b ∨ a = r ∧ b = q
  lists := ρ.lists
  apart := ρ.apart
  object_right := by
    rintro a b b' (h | ⟨rfl, rfl⟩) (h' | ⟨ha, rfl⟩)
    · exact ρ.object_right h h'
    · exact (hr _ (ha ▸ h)).elim
    · exact (hr _ h').elim
    · rfl
  object_left := by
    rintro a a' b (h | ⟨rfl, rfl⟩) (h' | ⟨rfl, hb⟩)
    · exact ρ.object_left h h'
    · exact (hq _ (hb ▸ h)).elim
    · exact (hq _ h').elim
    · rfl
  list_right := ρ.list_right
  list_left := ρ.list_left

def insertList (ρ : Pairing) (c d : ListRef) (hc : ∀ d', ¬ ρ.lists c d')
    (hd : ∀ c', ¬ ρ.lists c' d) : Pairing where
  objects := ρ.objects
  lists a b := ρ.lists a b ∨ a = c ∧ b = d
  apart := ρ.apart
  object_right := ρ.object_right
  object_left := ρ.object_left
  list_right := by
    rintro a b b' (h | ⟨rfl, rfl⟩) (h' | ⟨ha, rfl⟩)
    · exact ρ.list_right h h'
    · exact (hc _ (ha ▸ h)).elim
    · exact (hc _ h').elim
    · rfl
  list_left := by
    rintro a a' b (h | ⟨rfl, rfl⟩) (h' | ⟨rfl, hb⟩)
    · exact ρ.list_left h h'
    · exact (hd _ (hb ▸ h)).elim
    · exact (hd _ h').elim
    · rfl

end Pairing

section Mono

variable {ρ ρ' : Pairing} {n k : Nat}

theorem Value.Alike.mono {v w : Value} (h : Alike ρ v w) (hs : ρ.Sub ρ') : Alike ρ' v w := by
  cases h with
  | object h => exact .object (hs.objects h)
  | absent => exact .absent
  | bare t => exact .bare t

theorem Value.alike_mono {vs ws : List Value} (h : List.Forall₂ (Alike ρ) vs ws)
    (hs : ρ.Sub ρ') : List.Forall₂ (Alike ρ') vs ws :=
  h.imp fun _ _ h => h.mono hs

theorem Payload.Alike.mono {p q : Payload} (h : Alike ρ p q) (hs : ρ.Sub ρ') : Alike ρ' p q := by
  cases h with
  | list h => exact .list (hs.lists h)
  | function h => exact .function h
  | number | text | null | builtin | file | plain => constructor

theorem Context.Alike.mono {c c' : Context} (h : Alike n c c') (hk : n ≤ k) : Alike k c c' :=
  ⟨h.twin, Nat.lt_of_lt_of_le h.symbols hk, Nat.lt_of_lt_of_le h.hidden hk⟩

theorem Context.rel_mono {c c' : Option Context} (h : Option.Rel (Alike n) c c') (hk : n ≤ k) :
    Option.Rel (Alike k) c c' := by
  cases h with
  | some h => exact .some (h.mono hk)
  | none => exact .none

theorem Object.Alike.mono {o o' : Object} (h : Alike ρ n o o') (hs : ρ.Sub ρ') (hk : n ≤ k) :
    Alike ρ' k o o' :=
  ⟨h.payload.mono hs, h.start, h.stop, Context.rel_mono h.context hk⟩

end Mono

namespace Store

theorem elements_allocateList (s : Store) (vs : Array Value) (c : ListRef) :
    (s.allocateList vs).2.elements c = if c.index = s.lists.size then vs else s.elements c := by
  by_cases hc : c.index = s.lists.size
  · simp [allocateList, elements, hc]
  · simp [allocateList, elements, Array.getElem?_push, hc]

theorem elements_updateList (s : Store) (c d : ListRef) (f : Array Value → Array Value) :
    (s.updateList c f).elements d =
      if c = d ∧ d.index < s.lists.size then f (s.elements d) else s.elements d := by
  obtain ⟨i⟩ := c
  obtain ⟨j⟩ := d
  by_cases hj : j < s.lists.size
  · by_cases hi : i = j
    · simp [updateList, elements, Array.getElem_modify, hi, hj]
    · simp [updateList, elements, Array.getElem?_modify, hi]
  · simp [updateList, elements, hj]

theorem table_allocateTable (s : Store) (t : Table) (r : TableRef) :
    (s.allocateTable t).2.table r = if r.index = s.tables.size then t else s.table r := by
  by_cases hr : r.index = s.tables.size
  · simp [allocateTable, table, hr]
  · simp [allocateTable, table, Array.getElem?_push, hr]

theorem get_set (t : Table) (name x : String) (v : Value) :
    (t.set name v).get x = if x = name then v else t.get x := by
  rw [Table.get, Table.set, lookup_setIn]
  split <;> rfl

/-- The tables are the same, and objects are still what they were. -/
structure Persists (s t : Store) : Prop where
  tables : t.tables = s.tables
  size : s.objects.size ≤ t.objects.size
  payload : ∀ r : ObjectRef, r.index < s.objects.size →
    (t.object r).payload = (s.object r).payload

variable {ρ ρ' : Pairing} {s s' t t' : Store}

theorem Persists.refl (s : Store) : Persists s s := ⟨rfl, Nat.le_refl _, fun _ _ => rfl⟩

theorem ValueChange.persists (h : s.ValueChange t) : Persists s t :=
  ⟨h.tables, (Change.value h).payload.1, (Change.value h).payload.2⟩

theorem Persists.table (h : Persists s t) (r : TableRef) : t.table r = s.table r := by
  rw [Store.table, Store.table, h.tables]

theorem EntryAlike.mono {v w : Value} (h : EntryAlike ρ s s' v w) (hs : ρ.Sub ρ')
    (ht : Persists s t) (ht' : Persists s' t') : EntryAlike ρ' t t' v w := by
  cases h with
  | object hr hq hp =>
    refine .object (Nat.lt_of_lt_of_le hr ht.size) (Nat.lt_of_lt_of_le hq ht'.size) ?_
    rw [ht.payload _ hr, ht'.payload _ hq]
    exact hp.mono hs
  | absent => exact .absent
  | bare t => exact .bare t

theorem EntryAlike.of_objects {v w : Value} (h : EntryAlike ρ s s' v w)
    (ht : t.objects = s.objects) (ht' : t'.objects = s'.objects) : EntryAlike ρ t t' v w := by
  cases h with
  | object hr hq hp =>
    refine .object (ht ▸ hr) (ht' ▸ hq) ?_
    rwa [Store.object, Store.object, ht, ht']
  | absent => exact .absent
  | bare t => exact .bare t

namespace Alike

/-- Stores stay alike when values change, if what is paired stays alike. -/
theorem of_persists (h : Alike ρ s s') (hs : ρ.Sub ρ')
    (hapart : ∀ t x, ρ.apart t x → ρ'.apart t x) (ht : Persists s t) (ht' : Persists s' t')
    (hobjects : ∀ {r q}, ρ'.objects r q → r.index < t.objects.size ∧ q.index < t'.objects.size ∧
      Object.Alike ρ' s.tables.size (t.object r) (t'.object q))
    (hlists : ∀ {c d}, ρ'.lists c d → c.index < t.lists.size ∧ d.index < t'.lists.size ∧
      List.Forall₂ (Value.Alike ρ') (t.elements c).toList (t'.elements d).toList) :
    Alike ρ' t t' where
  objects := by
    rw [ht.tables]
    exact hobjects
  lists := hlists
  tables := by rw [ht.tables, ht'.tables, h.tables]
  ancestors r := by rw [ht.table, ht'.table, h.ancestors]
  entries r x hx := by
    rw [ht.table, ht'.table]
    exact (h.entries r x fun hold => hx (hapart r x hold)).mono hs ht ht'
  shared i hi := hs.objects (h.shared i hi)
  roots := by
    rw [ht.tables]
    exact h.roots

theorem lists_mono (h : Alike ρ s s') (hs : ρ.Sub ρ') {c d : ListRef} (hc : ρ.lists c d) :
    c.index < s.lists.size ∧ d.index < s'.lists.size ∧
      List.Forall₂ (Value.Alike ρ') (s.elements c).toList (s'.elements d).toList :=
  ⟨(h.lists hc).1, (h.lists hc).2.1, Value.alike_mono (h.lists hc).2.2 hs⟩

/-- More names may be left out of the comparison. -/
theorem leaveOut (h : Alike ρ s s') {A : TableRef → String → Prop}
    (hA : ∀ t x, ρ.apart t x → A t x) : Alike { ρ with apart := A } s s' := by
  have hs : ρ.Sub { ρ with apart := A } := ⟨id, id⟩
  refine h.of_persists hs hA (.refl s) (.refl s') ?_ (h.lists_mono hs)
  intro r q hr
  obtain ⟨hlt, hlt', halike⟩ := h.objects hr
  exact ⟨hlt, hlt', halike.mono hs (Nat.le_refl _)⟩

theorem fresh_left (h : Alike ρ s s') (q : ObjectRef) : ¬ ρ.objects ⟨s.objects.size⟩ q :=
  fun hq => Nat.lt_irrefl _ (h.objects hq).1

theorem fresh_right (h : Alike ρ s s') (r : ObjectRef) : ¬ ρ.objects r ⟨s'.objects.size⟩ :=
  fun hr => Nat.lt_irrefl _ (h.objects hr).2.1

theorem freshList_left (h : Alike ρ s s') (d : ListRef) : ¬ ρ.lists ⟨s.lists.size⟩ d :=
  fun hd => Nat.lt_irrefl _ (h.lists hd).1

theorem freshList_right (h : Alike ρ s s') (c : ListRef) : ¬ ρ.lists c ⟨s'.lists.size⟩ :=
  fun hc => Nat.lt_irrefl _ (h.lists hc).2.1

theorem allocate {o o' : Object} (h : Alike ρ s s') (ho : Object.Alike ρ s.tables.size o o') :
    ∃ ρ', ρ.Grows s s' ρ' (s.allocate o).2 (s'.allocate o').2 ∧
      Alike ρ' (s.allocate o).2 (s'.allocate o').2 ∧
      ρ'.objects (s.allocate o).1 (s'.allocate o').1 := by
  let ρ' := ρ.insertObject ⟨s.objects.size⟩ ⟨s'.objects.size⟩ h.fresh_left h.fresh_right
  have hs : ρ.Sub ρ' := ⟨.inl, id⟩
  have hsize : (s.allocate o).2.objects.size = s.objects.size + 1 := by simp [Store.allocate]
  have hsize' : (s'.allocate o').2.objects.size = s'.objects.size + 1 := by simp [Store.allocate]
  refine ⟨ρ', ?_, ?_, .inr ⟨rfl, rfl⟩⟩
  · constructor
    · exact hs
    · rfl
    · rintro r q (hr | ⟨rfl, rfl⟩)
      · exact .inl hr
      · exact .inr (Nat.le_refl _)
    · intro r hr _
      rw [object_allocate, if_neg (Nat.ne_of_lt hr)]
    · omega
    · exact Nat.le_refl _
    · intro hf
      refine ⟨by have := hf.objectCount; omega, hf.listCount, fun r hr => ?_, hf.lists, hf.names⟩
      by_cases hnew : r.index < s.objects.size
      · exact .inl (hf.objects r hnew)
      · obtain rfl : r = ⟨s.objects.size⟩ := congrArg ObjectRef.mk (by omega : r.index = _)
        exact .inr ⟨rfl, congrArg ObjectRef.mk hf.objectCount.symm⟩
  · refine h.of_persists hs (fun _ _ => id) (ValueChange.object o).persists
      (ValueChange.object o').persists ?_ (h.lists_mono hs)
    rintro r q (hr | ⟨rfl, rfl⟩)
    · obtain ⟨hlt, hlt', halike⟩ := h.objects hr
      rw [object_allocate, if_neg (Nat.ne_of_lt hlt), object_allocate, if_neg (Nat.ne_of_lt hlt')]
      exact ⟨by omega, by omega, halike.mono hs (Nat.le_refl _)⟩
    · rw [object_push, object_push]
      exact ⟨by simp [Store.allocate], by simp [Store.allocate], ho.mono hs (Nat.le_refl _)⟩

/-- An object that nothing is paired with may be added on the left. -/
theorem allocate_left (h : Alike ρ s s') (o : Object) : Alike ρ (s.allocate o).2 s' := by
  refine h.of_persists (.refl ρ) (fun _ _ => id) (ValueChange.object o).persists (.refl s') ?_
    h.lists
  intro r q hr
  obtain ⟨hlt, hlt', halike⟩ := h.objects hr
  rw [object_allocate, if_neg (Nat.ne_of_lt hlt)]
  exact ⟨Nat.lt_of_lt_of_le hlt (by simp [Store.allocate]), hlt', halike⟩

theorem allocate_right (h : Alike ρ s s') (o : Object) : Alike ρ s (s'.allocate o).2 := by
  refine h.of_persists (.refl ρ) (fun _ _ => id) (.refl s) (ValueChange.object o).persists ?_
    h.lists
  intro r q hr
  obtain ⟨hlt, hlt', halike⟩ := h.objects hr
  rw [object_allocate, if_neg (Nat.ne_of_lt hlt')]
  exact ⟨hlt, Nat.lt_of_lt_of_le hlt' (by simp [Store.allocate]), halike⟩

theorem allocateList {vs ws : Array Value} (h : Alike ρ s s')
    (hv : List.Forall₂ (Value.Alike ρ) vs.toList ws.toList) :
    ∃ ρ', ρ.Grows s s' ρ' (s.allocateList vs).2 (s'.allocateList ws).2 ∧
      Alike ρ' (s.allocateList vs).2 (s'.allocateList ws).2 ∧
      ρ'.lists (s.allocateList vs).1 (s'.allocateList ws).1 := by
  let ρ' := ρ.insertList ⟨s.lists.size⟩ ⟨s'.lists.size⟩ h.freshList_left h.freshList_right
  have hs : ρ.Sub ρ' := ⟨id, .inl⟩
  have hsize : (s.allocateList vs).2.lists.size = s.lists.size + 1 := by simp [Store.allocateList]
  have hsize' : (s'.allocateList ws).2.lists.size = s'.lists.size + 1 := by
    simp [Store.allocateList]
  refine ⟨ρ', ?_, ?_, .inr ⟨rfl, rfl⟩⟩
  · constructor
    · exact hs
    · rfl
    · exact .inl
    · exact fun _ _ _ => rfl
    · exact Nat.le_refl _
    · exact Nat.le_refl _
    · intro hf
      refine ⟨hf.objectCount, by have := hf.listCount; omega, hf.objects, fun c hc => ?_, hf.names⟩
      by_cases hnew : c.index < s.lists.size
      · exact .inl (hf.lists c hnew)
      · obtain rfl : c = ⟨s.lists.size⟩ := congrArg ListRef.mk (by omega : c.index = _)
        exact .inr ⟨rfl, congrArg ListRef.mk hf.listCount.symm⟩
  · refine h.of_persists hs (fun _ _ => id) (ValueChange.list vs).persists
      (ValueChange.list ws).persists ?_ ?_
    · intro r q hr
      obtain ⟨hlt, hlt', halike⟩ := h.objects hr
      exact ⟨hlt, hlt', halike.mono hs (Nat.le_refl _)⟩
    · rintro c d (hc | ⟨rfl, rfl⟩)
      · obtain ⟨hlt, hlt', halike⟩ := h.lists_mono hs hc
        rw [elements_allocateList, if_neg (Nat.ne_of_lt hlt), elements_allocateList,
          if_neg (Nat.ne_of_lt hlt')]
        exact ⟨by omega, by omega, halike⟩
      · rw [elements_allocateList, if_pos rfl, elements_allocateList, if_pos rfl]
        exact ⟨by simp [Store.allocateList], by simp [Store.allocateList],
          Value.alike_mono hv hs⟩

theorem allocateList_left (h : Alike ρ s s') (vs : Array Value) :
    Alike ρ (s.allocateList vs).2 s' := by
  refine h.of_persists (.refl ρ) (fun _ _ => id) (ValueChange.list vs).persists (.refl s')
    h.objects ?_
  intro c d hc
  obtain ⟨hlt, hlt', halike⟩ := h.lists hc
  rw [elements_allocateList, if_neg (Nat.ne_of_lt hlt)]
  exact ⟨Nat.lt_of_lt_of_le hlt (by simp [Store.allocateList]), hlt', halike⟩

theorem allocateList_right (h : Alike ρ s s') (vs : Array Value) :
    Alike ρ s (s'.allocateList vs).2 := by
  refine h.of_persists (.refl ρ) (fun _ _ => id) (.refl s) (ValueChange.list vs).persists
    h.objects ?_
  intro c d hc
  obtain ⟨hlt, hlt', halike⟩ := h.lists hc
  rw [elements_allocateList, if_neg (Nat.ne_of_lt hlt')]
  exact ⟨hlt, Nat.lt_of_lt_of_le hlt' (by simp [Store.allocateList]), halike⟩

theorem update {r q : ObjectRef} {f f' : Object → Object} (h : Alike ρ s s')
    (hr : ρ.objects r q)
    (ht : s.ValueChange (s.update r f)) (ht' : s'.ValueChange (s'.update q f'))
    (hf : ∀ o o', Object.Alike ρ s.tables.size o o' →
      Object.Alike ρ s.tables.size (f o) (f' o')) :
    ρ.Grows s s' ρ (s.update r f) (s'.update q f') ∧
      Alike ρ (s.update r f) (s'.update q f') := by
  have hsize (s : Store) (r : ObjectRef) (f : Object → Object) :
      (s.update r f).objects.size = s.objects.size := by simp [Store.update]
  constructor
  · constructor
    · exact .refl ρ
    · rfl
    · exact .inl
    · intro r' _ hfree
      rw [object_update_eq, if_neg]
      rintro ⟨rfl, -⟩
      exact hfree q hr
    · exact Nat.le_of_eq (hsize s r f).symm
    · exact Nat.le_refl _
    · intro hfull
      refine ⟨?_, hfull.listCount, fun a ha => ?_, hfull.lists, hfull.names⟩
      · rw [hsize, hsize, hfull.objectCount]
      · exact hfull.objects a (by rwa [hsize] at ha)
  · refine h.of_persists (.refl ρ) (fun _ _ => id) ht.persists ht'.persists ?_ h.lists
    intro a b hab
    obtain ⟨hlt, hlt', halike⟩ := h.objects hab
    rw [hsize, hsize, object_update_eq, object_update_eq]
    refine ⟨hlt, hlt', ?_⟩
    -- Pairs are one to one, so either both objects are the ones that move or none is.
    by_cases ha : r = a
    · subst ha
      rw [if_pos ⟨rfl, hlt⟩, if_pos ⟨ρ.object_right hr hab, hlt'⟩]
      exact hf _ _ halike
    · rw [if_neg fun hif => ha hif.1, if_neg]
      · exact halike
      · rintro ⟨rfl, -⟩
        exact ha (ρ.object_left hr hab)

theorem updateList {c d : ListRef} {f f' : Array Value → Array Value} (h : Alike ρ s s')
    (hc : ρ.lists c d)
    (hf : ∀ vs ws, List.Forall₂ (Value.Alike ρ) vs.toList ws.toList →
      List.Forall₂ (Value.Alike ρ) (f vs).toList (f' ws).toList) :
    ρ.Grows s s' ρ (s.updateList c f) (s'.updateList d f') ∧
      Alike ρ (s.updateList c f) (s'.updateList d f') := by
  have hsize (s : Store) (c : ListRef) (f : Array Value → Array Value) :
      (s.updateList c f).lists.size = s.lists.size := by simp [Store.updateList]
  constructor
  · refine ⟨.refl ρ, rfl, .inl, fun _ _ _ => rfl, Nat.le_refl _, Nat.le_refl _,
      fun hfull => ?_⟩
    refine ⟨hfull.objectCount, ?_, hfull.objects, fun a ha => ?_, hfull.names⟩
    · rw [hsize, hsize, hfull.listCount]
    · exact hfull.lists a (by rwa [hsize] at ha)
  · refine h.of_persists (.refl ρ) (fun _ _ => id) (ValueChange.elements c f).persists
      (ValueChange.elements d f').persists h.objects ?_
    intro a b hab
    obtain ⟨hlt, hlt', halike⟩ := h.lists hab
    rw [hsize, hsize, elements_updateList, elements_updateList]
    refine ⟨hlt, hlt', ?_⟩
    by_cases ha : c = a
    · subst ha
      rw [if_pos ⟨rfl, hlt⟩, if_pos ⟨ρ.list_right hc hab, hlt'⟩]
      exact hf _ _ halike
    · rw [if_neg fun hif => ha hif.1, if_neg]
      · exact halike
      · rintro ⟨rfl, -⟩
        exact ha (ρ.list_left hc hab)

theorem allocateTable (h : Alike ρ s s') (as : List TableRef) :
    ρ.Grows s s' ρ (s.allocateTable ⟨[], as⟩).2 (s'.allocateTable ⟨[], as⟩).2 ∧
      Alike ρ (s.allocateTable ⟨[], as⟩).2 (s'.allocateTable ⟨[], as⟩).2 := by
  have hsize (s : Store) : (s.allocateTable ⟨[], as⟩).2.tables.size = s.tables.size + 1 := by
    simp [Store.allocateTable]
  have hle : s.tables.size ≤ s.tables.size + 1 := Nat.le_succ _
  constructor
  · refine ⟨.refl ρ, rfl, .inl, fun _ _ _ => rfl, Nat.le_refl _, ?_,
      fun hf => ⟨hf.1, hf.2, hf.3, hf.4, hf.5⟩⟩
    rw [hsize]
    exact hle
  · constructor
    · intro r q hr
      obtain ⟨hlt, hlt', halike⟩ := h.objects hr
      rw [hsize]
      exact ⟨hlt, hlt', halike.mono (.refl ρ) hle⟩
    · exact h.lists
    · rw [hsize, hsize, h.tables]
    · intro t
      rw [table_allocateTable, table_allocateTable, h.tables]
      split
      · rfl
      · exact h.ancestors t
    · intro t x hx
      rw [table_allocateTable, table_allocateTable, h.tables]
      split
      · exact .absent
      · exact (h.entries t x hx).of_objects rfl rfl
    · exact h.shared
    · rw [hsize]
      exact Nat.lt_succ_of_lt h.roots

theorem childOf (h : Alike ρ s s') (t : TableRef) :
    ρ.Grows s s' ρ (s.childOf t).2 (s'.childOf t).2 ∧
      Alike ρ (s.childOf t).2 (s'.childOf t).2 := by
  rw [Store.childOf, Store.childOf, h.ancestors]
  exact h.allocateTable _

theorem entry (h : Alike ρ s s') {v w : Value} (hv : Value.Alike ρ v w) :
    EntryAlike ρ s s' v w := by
  cases hv with
  | object hr =>
    obtain ⟨hlt, hlt', halike⟩ := h.objects hr
    exact .object hlt hlt' halike.payload
  | absent => exact .absent
  | bare t => exact .bare t

theorem bindEntry (h : Alike ρ s s') (t : TableRef) (name : String) {v w : Value}
    (hv : EntryAlike ρ s s' v w) : Alike ρ (s.bind t name v) (s'.bind t name w) where
  objects hr := by
    have hsize : (s.bind t name v).tables.size = s.tables.size := by simp [Store.bind]
    rw [hsize]
    exact h.objects hr
  lists := h.lists
  tables := by simpa [Store.bind] using h.tables
  ancestors r := by
    rw [table_bind, table_bind, h.tables]
    split
    · exact h.ancestors r
    · exact h.ancestors r
  entries r x hx := by
    rw [table_bind, table_bind, h.tables]
    split
    · rw [get_set, get_set]
      split
      · exact hv.of_objects rfl rfl
      · exact (h.entries r x hx).of_objects rfl rfl
    · exact (h.entries r x hx).of_objects rfl rfl
  shared := h.shared
  roots := by simpa [Store.bind] using h.roots

/-- A name may be bound on the right to what it means on the left. -/
theorem bindEntry_right (h : Alike ρ s s') (t : TableRef) (name : String) {w : Value}
    (hw : ¬ ρ.apart t name → EntryAlike ρ s s' ((s.table t).get name) w) :
    Alike ρ s (s'.bind t name w) where
  objects := h.objects
  lists := h.lists
  tables := by simpa [Store.bind] using h.tables
  ancestors r := by
    rw [table_bind]
    split
    · exact h.ancestors r
    · exact h.ancestors r
  entries r x hx := by
    rw [table_bind]
    split
    · next hr =>
      rw [get_set]
      split
      · next hname =>
        obtain ⟨rfl, -⟩ := hr
        subst hname
        exact (hw hx).of_objects rfl rfl
      · exact (h.entries r x hx).of_objects rfl rfl
    · exact (h.entries r x hx).of_objects rfl rfl
  shared := h.shared
  roots := h.roots

theorem bind (h : Alike ρ s s') (t : TableRef) (name : String) {v w : Value}
    (hv : Value.Alike ρ v w) :
    ρ.Grows s s' ρ (s.bind t name v) (s'.bind t name w) ∧
      Alike ρ (s.bind t name v) (s'.bind t name w) := by
  refine ⟨⟨.refl ρ, rfl, .inl, fun _ _ _ => rfl, Nat.le_refl _, ?_,
      fun hf => ⟨hf.1, hf.2, hf.3, hf.4, hf.5⟩⟩,
    h.bindEntry t name (h.entry hv)⟩
  simp [Store.bind]

theorem search (h : Alike ρ s s') {name : String} {ts : List TableRef}
    (hts : ∀ t ∈ ts, ¬ ρ.apart t name) :
    EntryAlike ρ s s' (s.search name ts) (s'.search name ts) := by
  induction ts with
  | nil => exact .absent
  | cons t ts ih =>
    rw [Store.search, Store.search]
    have ht := h.entries t name (hts t List.mem_cons_self)
    generalize (s.table t).get name = v at ht
    generalize (s'.table t).get name = w at ht
    cases ht with
    | object hr hq hp => exact .object hr hq hp
    | absent => exact ih fun u hu => hts u (List.mem_cons_of_mem t hu)
    | bare t => exact .bare t

theorem lookup (h : Alike ρ s s') {t : TableRef} {name : String}
    (ht : ∀ u ∈ t :: (s.table t).ancestors, ¬ ρ.apart u name) :
    EntryAlike ρ s s' (s.lookup t name) (s'.lookup t name) := by
  rw [Store.lookup, Store.lookup, h.ancestors]
  exact h.search ht

theorem isSomething (h : Alike ρ s s') {v w : Value} (hv : Value.Alike ρ v w) :
    s'.isSomething w = s.isSomething v := by
  cases hv with
  | object hr =>
    have hp := (h.objects hr).2.2.payload
    rw [Store.isSomething, Store.isSomething]
    generalize (s.object _).payload = p at hp ⊢
    generalize (s'.object _).payload = p' at hp ⊢
    cases hp <;> rfl
  | absent => rfl
  | bare t => rfl

end Alike

/-- A path that misses a storage is shorter than their number. -/
theorem length_lt_of_notMem {path : List ListRef} {c : ListRef} {n : Nat} (hpath : path.Nodup)
    (hlt : ∀ d ∈ path, d.index < n) (hc : c.index < n) (hnot : c ∉ path) : path.length < n := by
  have hnodup : ((c :: path).map ListRef.index).Nodup := by
    apply List.Nodup.map
    · rintro ⟨i⟩ ⟨j⟩ rfl
      rfl
    · exact List.nodup_cons.mpr ⟨hnot, hpath⟩
  have hsub : (c :: path).map ListRef.index ⊆ List.range n := by
    intro i hi
    obtain ⟨d, hd, rfl⟩ := List.mem_map.mp hi
    rcases List.mem_cons.mp hd with rfl | hd
    · exact List.mem_range.mpr hc
    · exact List.mem_range.mpr (hlt d hd)
  have hlength := (hnodup.subperm hsub).length_le
  simp only [List.map_cons, List.length_cons, List.length_map, List.length_range] at hlength
  exact hlength

structure PathAlike (ρ : Pairing) (path path' : List ListRef) : Prop where
  pairs : List.Forall₂ ρ.lists path path'
  left : path.Nodup
  right : path'.Nodup

theorem PathAlike.mem_iff {path path' : List ListRef} {c d : ListRef}
    (h : PathAlike ρ path path') (hc : ρ.lists c d) : d ∈ path' ↔ c ∈ path := by
  have hpairs := h.pairs
  clear h
  induction hpairs with
  | nil => simp
  | @cons a b _ _ hab _ ih =>
    have heq : d = b ↔ c = a :=
      ⟨fun e => ρ.list_left hc (e ▸ hab), fun e => ρ.list_right hc (e ▸ hab)⟩
    rw [List.mem_cons, List.mem_cons]
    exact or_congr heq ih

theorem PathAlike.cons {path path' : List ListRef} {c d : ListRef} (h : PathAlike ρ path path')
    (hc : ρ.lists c d) (hnot : c ∉ path) : PathAlike ρ (c :: path) (d :: path') where
  pairs := .cons hc h.pairs
  left := List.nodup_cons.mpr ⟨hnot, h.left⟩
  right := List.nodup_cons.mpr ⟨fun hd => hnot ((h.mem_iff hc).mp hd), h.right⟩

theorem PathAlike.lt {path path' : List ListRef} (h : PathAlike ρ path path') (hs : Alike ρ s s') :
    (∀ c ∈ path, c.index < s.lists.size) ∧ ∀ d ∈ path', d.index < s'.lists.size := by
  have hpairs := h.pairs
  clear h
  induction hpairs with
  | nil => simp
  | cons hab _ ih =>
    obtain ⟨hlt, hlt', -⟩ := hs.lists hab
    exact ⟨List.forall_mem_cons.mpr ⟨hlt, ih.1⟩, List.forall_mem_cons.mpr ⟨hlt', ih.2⟩⟩

/-- Alike values hold the same. How deep the walk may go on either side does not matter, as a
path cannot be longer than the number of storages there. -/
theorem Alike.snapshotBelow (h : Alike ρ s s') {d d' : Nat} {path path' : List ListRef}
    {v w : Value} (hv : EntryAlike ρ s s' v w) (hpath : PathAlike ρ path path')
    (hd : s.lists.size ≤ d + path.length) (hd' : s'.lists.size ≤ d' + path'.length) :
    s'.snapshotBelow d' path' w = s.snapshotBelow d path v := by
  induction d using Nat.strongRecOn generalizing d' path path' v w with
  | ind d ih =>
  cases hv with
  | absent => simp only [Store.snapshotBelow]
  | bare t => simp only [Store.snapshotBelow]
  | @object r q _ _ hp =>
    rw [Store.snapshotBelow, Store.snapshotBelow]
    generalize (s.object r).payload = p at hp ⊢
    generalize (s'.object q).payload = p' at hp ⊢
    cases hp with
    | @list a b hab =>
      dsimp only
      have hcontains : path'.contains b = path.contains a := by
        rw [Bool.eq_iff_iff, List.contains_iff_mem, List.contains_iff_mem, hpath.mem_iff hab]
      rw [hcontains]
      split
      · rfl
      · next hnot =>
        rw [List.contains_iff_mem] at hnot
        obtain ⟨hlt, hlt', helements⟩ := h.lists hab
        have hshort := length_lt_of_notMem hpath.left (hpath.lt h).1 hlt hnot
        have hshort' := length_lt_of_notMem hpath.right (hpath.lt h).2 hlt'
          fun hb => hnot ((hpath.mem_iff hab).mp hb)
        obtain ⟨e, rfl⟩ : ∃ e, d = e + 1 := ⟨d - 1, by omega⟩
        obtain ⟨e', rfl⟩ : ∃ e', d' = e' + 1 := ⟨d' - 1, by omega⟩
        have hmap : (s'.elements b).toList.map (s'.snapshotBelow e' (b :: path')) =
            (s.elements a).toList.map (s.snapshotBelow e (a :: path)) := by
          generalize (s.elements a).toList = xs at helements ⊢
          generalize (s'.elements b).toList = ys at helements ⊢
          induction helements with
          | nil => rfl
          | cons hxy _ ihs =>
            rw [List.map_cons, List.map_cons, ihs]
            congr 1
            apply ih e (Nat.lt_succ_self e) (h.entry hxy) (hpath.cons hab hnot)
            · rw [List.length_cons]
              omega
            · rw [List.length_cons]
              omega
        dsimp only
        rw [hmap]
    | _ => rfl

theorem Alike.snapshot_entry (h : Alike ρ s s') {v w : Value} (hv : EntryAlike ρ s s' v w) :
    s'.snapshot w = s.snapshot v :=
  h.snapshotBelow hv ⟨.nil, .nil, .nil⟩ (Nat.le_refl _) (Nat.le_refl _)

theorem Alike.snapshot (h : Alike ρ s s') {v w : Value} (hv : Value.Alike ρ v w) :
    s'.snapshot w = s.snapshot v := h.snapshot_entry (h.entry hv)

end Store

end Think
