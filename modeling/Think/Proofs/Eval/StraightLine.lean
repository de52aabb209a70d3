import Mathlib.Logic.Function.Basic
import Think.Proofs.Eval.Counting
import Think.Proofs.Eval.Pieces

/-! # Straight-line programs

What is known of the names in a context decides what simple expressions are worth there. Assignments
and function definitions add to what is known, and a fresh session knows the functions of the
language. Trees are taken up to their places in the text.
-/

namespace Think

namespace Node

variable {n x y z b : Node} {ns : List Node}

theorem eq_text {t : String} (h : n.shape = .text default t) : ∃ s, n = .text s t := by
  cases n <;> simp_all [shape]

theorem eq_number {v : Numeral} (h : n.shape = .number default v) : ∃ s, n = .number s v := by
  cases n <;> simp_all [shape]

theorem eq_access {name : String} (h : n.shape = .access default name) :
    ∃ s, n = .access s name := by
  cases n <;> simp_all [shape]

theorem eq_unary {op : UnaryOp} (h : n.shape = .unary default op x) :
    ∃ s x', n = .unary s op x' ∧ x'.shape = x := by
  cases n <;> simp_all [shape]

theorem eq_binary {op : BinaryOp} (h : n.shape = .binary default op x y) :
    ∃ s x' y', n = .binary s op x' y' ∧ x'.shape = x ∧ y'.shape = y := by
  cases n <;> simp_all [shape]

theorem eq_assign {name : String} (h : n.shape = .assign default name x) :
    ∃ s x', n = .assign s name x' ∧ x'.shape = x := by
  cases n <;> simp_all [shape]

theorem eq_list (h : n.shape = .list default ns) : ∃ s ns', n = .list s ns' ∧ shapes ns' = ns := by
  cases n <;> simp_all [shape]

theorem eq_call (h : n.shape = .call default x ns) :
    ∃ s x' ns', n = .call s x' ns' ∧ x'.shape = x ∧ shapes ns' = ns := by
  cases n <;> simp_all [shape]

theorem eq_function {name : Option String} {params : List String} {e : Bool}
    (h : n.shape = .function default name params b e) :
    ∃ s b', n = .function s name params b' e ∧ b'.shape = b := by
  cases n <;> simp_all [shape]

theorem eq_ret (h : n.shape = .ret default (some x)) :
    ∃ s x', n = .ret s (some x') ∧ x'.shape = x := by
  cases n with
  | ret s v => cases v <;> simp_all [shape, optionShape]
  | _ => cases h

theorem eq_forLoop {name : String} {k : Bool}
    (h : n.shape = .forLoop default name x y (some z) b k) :
    ∃ s x' y' z' b', n = .forLoop s name x' y' (some z') b' k ∧ x'.shape = x ∧ y'.shape = y ∧
      z'.shape = z ∧ b'.shape = b := by
  cases n with
  | forLoop s i x' y' v b' k' => cases v <;> simp_all [shape, optionShape]
  | _ => cases h

theorem eq_forLoop_none {name : String} {k : Bool}
    (h : n.shape = .forLoop default name x y none b k) :
    ∃ s x' y' b', n = .forLoop s name x' y' none b' k ∧ x'.shape = x ∧ y'.shape = y ∧
      b'.shape = b := by
  cases n with
  | forLoop s i x' y' v b' k' => cases v <;> simp_all [shape, optionShape]
  | _ => cases h

theorem eq_branch {j k : Bool} (h : n.shape = .branch default [(x, y, j)] (some (z, k))) :
    ∃ s x' y' z', n = .branch s [(x', y', j)] (some (z', k)) ∧ x'.shape = x ∧ y'.shape = y ∧
      z'.shape = z := by
  cases n with
  | branch s cs f =>
    rw [shape] at h
    injection h with _ hcs hf
    rcases cs with _ | ⟨⟨x', y', j'⟩, _ | ⟨_, _⟩⟩ <;> rcases f with _ | ⟨z', k'⟩ <;>
      simp_all [caseShapes, bodyShape]
  | _ => cases h

theorem eq_importFile {path : String} (h : n.shape = .importFile default path) :
    ∃ s, n = .importFile s path := by
  cases n <;> simp_all [shape]

theorem shapes_eq_cons {xs : List Node} (h : shapes ns = x :: xs) :
    ∃ x' xs', ns = x' :: xs' ∧ x'.shape = x ∧ shapes xs' = xs := by
  cases ns <;> simp_all [shapes]

theorem shapes_eq_nil (h : shapes ns = []) : ns = [] := by
  cases ns <;> simp_all [shapes]

theorem shapes_eq_single (h : shapes ns = [x]) : ∃ x', ns = [x'] ∧ x'.shape = x := by
  obtain ⟨x', xs, rfl, hx, hxs⟩ := shapes_eq_cons h
  obtain rfl := shapes_eq_nil hxs
  exact ⟨x', rfl, hx⟩

end Node

namespace Payload

/-- What is carried, without the places in the body of a function. -/
def shape : Payload → Payload
  | .function name params body isExpression => .function name params body.shape isExpression
  | p => p

variable {p : Payload}

@[simp]
theorem shape_eq_plain : p.shape = .plain ↔ p = .plain := by
  cases p <;> simp [shape]

theorem ne_plain {q : Payload} (h : q.shape = p) (hp : p ≠ .plain) : q ≠ .plain := by
  rwa [ne_eq, ← shape_eq_plain, h]

@[simp]
theorem shape_eq_text {t : String} : p.shape = .text t ↔ p = .text t := by
  cases p <;> simp [shape]

@[simp]
theorem shape_eq_number {n : Number} : p.shape = .number n ↔ p = .number n := by
  cases p <;> simp [shape]

@[simp]
theorem shape_eq_builtin {name : String} : p.shape = .builtin name ↔ p = .builtin name := by
  cases p <;> simp [shape]

@[simp]
theorem shape_eq_list {cells : ListRef} : p.shape = .list cells ↔ p = .list cells := by
  cases p <;> simp [shape]

theorem exists_of_shape_function {name : String} {params : List String} {body : Node} {e : Bool}
    (h : p.shape = .function name params body e) :
    ∃ body', p = .function name params body' e ∧ body'.shape = body := by
  cases p with
  | function =>
    rw [shape] at h
    injection h with hname hparams hbody he
    subst hname hparams he
    exact ⟨_, rfl, hbody⟩
  | _ => cases h

end Payload

namespace Store

variable {s s' s'' : Store} {r : ObjectRef} {t u : TableRef} {x y : String} {v : Value}
  {p : Payload}

/-- The objects are still what they were. -/
structure KeepsObjects (s s' : Store) : Prop where
  objectsSize : s.objects.size ≤ s'.objects.size
  object : ∀ r : ObjectRef, r.index < s.objects.size → s'.object r = s.object r

/-- The objects, lists and tables are still what they were; others may have been added. -/
structure Extends (s s' : Store) : Prop extends KeepsObjects s s' where
  listsSize : s.lists.size ≤ s'.lists.size
  elements : ∀ r : ListRef, r.index < s.lists.size → s'.elements r = s.elements r
  tablesSize : s.tables.size ≤ s'.tables.size
  table : ∀ t : TableRef, t.index < s.tables.size → s'.table t = s.table t

theorem KeepsObjects.trans (h : s.KeepsObjects s') (h' : s'.KeepsObjects s'') :
    s.KeepsObjects s'' where
  objectsSize := Nat.le_trans h.objectsSize h'.objectsSize
  object r hr := (h'.object r (Nat.lt_of_lt_of_le hr h.objectsSize)).trans (h.object r hr)

theorem KeepsObjects.bind (s : Store) (t : TableRef) (x : String) (v : Value) :
    s.KeepsObjects (s.bind t x v) :=
  ⟨Nat.le_refl _, fun _ _ => rfl⟩

namespace Extends

theorem trans (h : s.Extends s') (h' : s'.Extends s'') : s.Extends s'' where
  toKeepsObjects := h.toKeepsObjects.trans h'.toKeepsObjects
  listsSize := Nat.le_trans h.listsSize h'.listsSize
  elements r hr := (h'.elements r (Nat.lt_of_lt_of_le hr h.listsSize)).trans (h.elements r hr)
  tablesSize := Nat.le_trans h.tablesSize h'.tablesSize
  table t ht := (h'.table t (Nat.lt_of_lt_of_le ht h.tablesSize)).trans (h.table t ht)

theorem of_grows (h : s.Grows s') : s.Extends s' where
  objectsSize := h.size
  object := h.objects
  listsSize := Nat.le_of_eq (by rw [h.lists])
  elements r _ := by rw [Store.elements, h.lists, Store.elements]
  tablesSize := Nat.le_of_eq (by rw [h.tables])
  table t _ := by rw [Store.table, h.tables, Store.table]

theorem allocate (s : Store) (o : Object) : s.Extends (s.allocate o).2 :=
  of_grows (.allocate s o)

theorem allocateList (s : Store) (vs : Array Value) : s.Extends (s.allocateList vs).2 where
  objectsSize := Nat.le_refl _
  object _ _ := rfl
  listsSize := by simp [Store.allocateList]
  elements r hr := by
    simp [Store.allocateList, Store.elements, Array.getElem?_push, Nat.ne_of_lt hr]
  tablesSize := Nat.le_refl _
  table _ _ := rfl

theorem allocateTable (s : Store) (new : Table) : s.Extends (s.allocateTable new).2 where
  objectsSize := Nat.le_refl _
  object _ _ := rfl
  listsSize := Nat.le_refl _
  elements _ _ := rfl
  tablesSize := by simp [Store.allocateTable]
  table u hu := by rw [table_allocateTable, if_neg (Nat.ne_of_lt hu)]

theorem childOf (s : Store) (t : TableRef) : s.Extends (s.childOf t).2 := allocateTable s _

theorem update (h : s.Extends s') (hr : s.objects.size ≤ r.index) (f : Object → Object) :
    s.Extends (s'.update r f) where
  objectsSize := by simpa [Store.update] using h.objectsSize
  object q hq := by
    rw [object_update_eq, if_neg, h.object q hq]
    rintro ⟨rfl, -⟩
    omega
  listsSize := h.listsSize
  elements := h.elements
  tablesSize := h.tablesSize
  table := h.table

theorem updateList (h : s.Extends s') {cells : ListRef} (hcells : s.lists.size ≤ cells.index)
    (f : Array Value → Array Value) : s.Extends (s'.updateList cells f) where
  objectsSize := h.objectsSize
  object := h.object
  listsSize := by simpa [Store.updateList] using h.listsSize
  elements r hr := by
    have hne : cells.index ≠ r.index := by omega
    rw [← h.elements r hr]
    simp [Store.updateList, Store.elements, Array.getElem?_modify, hne]
  tablesSize := h.tablesSize
  table := h.table

theorem bind (h : s.Extends s') (ht : s.tables.size ≤ t.index) (x : String) (v : Value) :
    s.Extends (s'.bind t x v) where
  objectsSize := h.objectsSize
  object := h.object
  listsSize := h.listsSize
  elements := h.elements
  tablesSize := by simpa [Store.bind] using h.tablesSize
  table u hu := by
    rw [table_bind, if_neg, h.table u hu]
    rintro ⟨rfl, -⟩
    omega

end Extends

theorem search_congr (x : String) {us : List TableRef} (h : ∀ u ∈ us, s'.table u = s.table u) :
    s'.search x us = s.search x us := by
  induction us with
  | nil => rfl
  | cons u us ih => rw [search, search, h u (by simp), ih fun u' hu' => h u' (by simp [hu'])]

/-- In the table `t` and those behind it the names hold what is known of them. Null is there too. -/
structure Offers (s : Store) (t : TableRef) (known : String → Option Payload) : Prop where
  range : ∀ u ∈ t :: (s.table t).ancestors, u.index < s.tables.size
  null : (s.object ⟨0⟩).payload = .null
  holds : ∀ x p, known x = some p →
    ∃ r, s.lookup t x = .object r ∧ r.index < s.objects.size ∧ (s.object r).payload.shape = p

namespace Offers

variable {known : String → Option Payload}

theorem index_lt (h : s.Offers t known) : t.index < s.tables.size := h.range t (by simp)

theorem null_lt (h : s.Offers t known) : 0 < s.objects.size :=
  Store.index_lt (r := ⟨0⟩) (by simp [h.null])

theorem extend (h : s.Offers t known) (hs : s.Extends s') : s'.Offers t known := by
  have htable : s'.table t = s.table t := hs.table t h.index_lt
  constructor
  · intro u hu
    rw [htable] at hu
    exact Nat.lt_of_lt_of_le (h.range u hu) hs.tablesSize
  · rw [hs.object _ h.null_lt, h.null]
  · intro x p hx
    obtain ⟨r, hlookup, hr, hp⟩ := h.holds x p hx
    refine ⟨r, ?_, Nat.lt_of_lt_of_le hr hs.objectsSize, ?_⟩
    · rw [lookup, htable, search_congr x fun u hu => hs.table u (h.range u hu)]
      exact hlookup
    · rw [hs.object r hr, hp]

theorem range_bind (h : s.Offers t known) (u : TableRef) (y : String) (v : Value) :
    ∀ u' ∈ t :: ((s.bind u y v).table t).ancestors, u'.index < (s.bind u y v).tables.size := by
  have hancestors : ((s.bind u y v).table t).ancestors = (s.table t).ancestors := by
    rw [table_bind]
    split <;> rfl
  have hsize : (s.bind u y v).tables.size = s.tables.size := by simp [Store.bind]
  rw [hancestors, hsize]
  exact h.range

theorem of_bind (h : s.Offers t known) (hy : ((s.bind u y v).table t).get y = .object r)
    (hr : r.index < s.objects.size) (hp : (s.object r).payload.shape = p) :
    (s.bind u y v).Offers t (Function.update known y (some p)) := by
  refine ⟨h.range_bind u y v, h.null, fun x q hx => ?_⟩
  by_cases hxy : x = y
  · subst hxy
    rw [Function.update_self] at hx
    cases hx
    exact ⟨r, Eval.lookup_of_get hy, hr, hp⟩
  · rw [Function.update_of_ne hxy] at hx
    rw [Eval.lookup_bind_of_ne hxy]
    exact h.holds x q hx

theorem bind (h : s.Offers t known) (y : String) (hr : r.index < s.objects.size)
    (hp : (s.object r).payload.shape = p) :
    (s.bind t y (.object r)).Offers t (Function.update known y (some p)) := by
  refine h.of_bind ?_ hr hp
  rw [get_bind, if_pos ⟨⟨rfl, h.index_lt⟩, rfl⟩]

theorem assign (h : s.Offers t known) (u : TableRef) (y : String) (hr : r.index < s.objects.size)
    (hp : (s.object r).payload.shape = p) :
    ((s.bind t y (.object r)).bind u y (.object r)).Offers t
      (Function.update known y (some p)) := by
  have hget : (((s.bind t y (.object r)).bind u y (.object r)).table t).get y = .object r := by
    have hfirst : ((s.bind t y (.object r)).table t).get y = .object r := by
      rw [get_bind, if_pos ⟨⟨rfl, h.index_lt⟩, rfl⟩]
    rw [get_bind, hfirst, ite_self]
  have hboth := (h.bind y hr hp).of_bind hget hr hp
  rwa [Function.update_idem] at hboth

theorem bind_unknown (h : s.Offers t known) (hy : known y = none) (u : TableRef) (v : Value) :
    (s.bind u y v).Offers t known := by
  refine ⟨h.range_bind u y v, h.null, fun x q hx => ?_⟩
  have hxy : x ≠ y := by
    rintro rfl
    simp [hy] at hx
  rw [Eval.lookup_bind_of_ne hxy]
  exact h.holds x q hx

theorem update (h : s.Offers t known) {f : Object → Object}
    (hf : ∀ o, (f o).payload = o.payload) (q : ObjectRef) : (s.update q f).Offers t known := by
  have hpayload (r : ObjectRef) : ((s.update q f).object r).payload = (s.object r).payload :=
    payload_update s q r hf
  refine ⟨h.range, (hpayload _).trans h.null, fun x p hx => ?_⟩
  obtain ⟨r, hlookup, hr, hp⟩ := h.holds x p hx
  have hsearch : (s.update q f).lookup t x = s.lookup t x := search_congr x fun _ _ => rfl
  refine ⟨r, hsearch.trans hlookup, ?_, by rw [hpayload, hp]⟩
  simpa [Store.update] using hr

theorem updateList (h : s.Offers t known) (cells : ListRef) (f : Array Value → Array Value) :
    (s.updateList cells f).Offers t known := by
  refine ⟨h.range, h.null, fun x p hx => ?_⟩
  have hsearch : (s.updateList cells f).lookup t x = s.lookup t x := search_congr x fun _ _ => rfl
  rw [hsearch]
  exact h.holds x p hx

/-- What is known in a table is known in a new one in front of it. -/
theorem childOf (h : s.Offers t known) : (s.childOf t).2.Offers ⟨s.tables.size⟩ known := by
  have hs := Extends.childOf s t
  have htable : (s.childOf t).2.table ⟨s.tables.size⟩ = ⟨[], t :: (s.table t).ancestors⟩ := by
    rw [Store.childOf, table_allocateTable, if_pos rfl]
  have hsize : (s.childOf t).2.tables.size = s.tables.size + 1 := by
    simp [Store.childOf, allocateTable]
  refine ⟨?_, h.null, fun x p hx => ?_⟩
  · rw [htable, hsize]
    intro u hu
    obtain rfl | hu := List.mem_cons.mp hu
    · exact Nat.lt_succ_self _
    · exact Nat.lt_succ_of_lt (h.range u hu)
  · obtain ⟨r, hlookup, hr, hp⟩ := h.holds x p hx
    refine ⟨r, ?_, hr, hp⟩
    rw [← hlookup, lookup, htable, search, htable]
    exact search_congr x fun u hu => hs.table u (h.range u hu)

end Offers

structure NewObject (s s' : Store) (r : ObjectRef) (p : Payload) : Prop extends s.Extends s' where
  isNew : s.objects.size ≤ r.index
  isThere : r.index < s'.objects.size
  carries : (s'.object r).payload.shape = p

namespace NewObject

theorem allocate (s : Store) {o : Object} (ho : o.payload.shape = p) :
    NewObject s (s.allocate o).2 ⟨s.objects.size⟩ p where
  toExtends := .allocate s o
  isNew := Nat.le_refl _
  isThere := by simp [Store.allocate]
  carries := by rw [object_push, ho]

theorem of_number {n : Int} (h : NewNumber s s' r n) : NewObject s s' r (.number (.int n)) where
  toExtends := .of_grows h.grows
  isNew := h.isNew
  isThere := h.isThere
  carries := by rw [h.payload]; rfl

theorem after (h : s.Extends s') (h' : NewObject s' s'' r p) : NewObject s s'' r p where
  toExtends := h.trans h'.toExtends
  isNew := Nat.le_trans h.objectsSize h'.isNew
  isThere := h'.isThere
  carries := h'.carries

theorem keep (h : NewObject s s' r p) (h' : s'.Extends s'') : (s''.object r).payload.shape = p := by
  rw [h'.object r h.isThere, h.carries]

theorem placed (h : NewObject s s' r p) (span : Span) :
    NewObject s (s'.update r (·.placed span)) r p where
  toExtends := h.toExtends.update h.isNew _
  isNew := h.isNew
  isThere := by simpa [Store.update] using h.isThere
  carries := by
    rw [object_update h.isThere]
    exact h.carries

end NewObject

end Store

structure Machine.Makes (m m' : Machine) (r : ObjectRef) (p : Payload) : Prop
    extends m.store.NewObject m'.store r p where
  world : m'.world = m.world

namespace Machine.Makes

variable {m m' m'' : Machine} {l r : ObjectRef} {p q : Payload}

theorem allocate (m : Machine) {o : Object} (ho : o.payload.shape = p) :
    m.Makes ⟨(m.store.allocate o).2, m.world⟩ ⟨m.store.objects.size⟩ p where
  toNewObject := .allocate m.store ho
  world := rfl

theorem andThen (h : m.Makes m' l p) (h' : m'.Makes m'' r q) : m.Makes m'' r q where
  toNewObject := .after h.toExtends h'.toNewObject
  world := h'.world.trans h.world

end Machine.Makes

/-- What an expression is worth, by what is known of the names in it. The number bounds the steps
in depth. -/
inductive Worth (known : String → Option Payload) : Nat → Node → Payload → Prop
  | text {k t} : Worth known (k + 1) (.text default t) (.text t)
  | int {k n} : Worth known (k + 1) (.number default (.int n)) (.number (.int n))
  | float {k x} : Worth known (k + 1) (.number default (.float x)) (.number (.float x))
  | name {k x p} : known x = some p → p ≠ .plain → Worth known (k + 1) (.access default x) p
  | concat {k x y a b} : Worth known k x (.text a) → Worth known k y (.text b) →
      Worth known (k + 1) (.binary default .add x y) (.text (a ++ b))
  | same {k x y a b} : Worth known k x (.text a) → Worth known k y (.text b) →
      Worth known (k + 1) (.binary default .eq x y) (.number (.ofBool (a == b)))
  | sub {k x y} {a b : Int} : Worth known k x (.number (.int a)) →
      Worth known k y (.number (.int b)) →
      Worth known (k + 1) (.binary default .sub x y) (.number (.int (a - b)))
  | minus {k x} {a : Int} : Worth known k x (.number (.int a)) →
      Worth known (k + 1) (.unary default .minus x) (.number (.int (-a)))
  | length {k f x t} : known f = some (.builtin "len") → Worth known (k + 1) x (.text t) →
      Worth known (k + 3) (.call default (.access default f) [x]) (.number (.int t.length))

namespace Worth

variable {known : String → Option Payload} {j k : Nat} {e : Node} {p : Payload}

theorem succ (h : Worth known k e p) : Worth known (k + 1) e p := by
  induction h with
  | text => exact .text
  | int => exact .int
  | float => exact .float
  | name hx hp => exact .name hx hp
  | concat _ _ ihx ihy => exact .concat ihx ihy
  | same _ _ ihx ihy => exact .same ihx ihy
  | sub _ _ ihx ihy => exact .sub ihx ihy
  | minus _ ih => exact .minus ih
  | length hf _ ih => exact .length hf ih

theorem mono (h : Worth known j e p) (hk : j ≤ k) : Worth known k e p := by
  induction hk with
  | refl => exact h
  | step _ ih => exact ih.succ

end Worth

namespace Eval

open Store

open BuiltinCall (nullValue)

variable {m : Machine} {c : Context} {span : Span} {known : String → Option Payload} {x : String}
  {p : Payload} {l r : ObjectRef} {a b : String} {k d : Nat}

theorem access_known (hm : m.store.Offers c.symbols known) (hx : known x = some p)
    (hp : p ≠ .plain) (span : Span) : ∃ o,
      access c span x m =
        (.ok (.object ⟨m.store.objects.size⟩), ⟨(m.store.allocate o).2, m.world⟩) ∧
      o.payload.shape = p ∧ o.context = some c := by
  obtain ⟨r, hlookup, -, hshape⟩ := hm.holds x p hx
  have hplain : (m.store.object r).payload ≠ .plain := Payload.ne_plain hshape hp
  refine ⟨((m.store.object r).placed span).within (some c), ?_, hshape, rfl⟩
  rw [access_eq, meaning_of_lookup hlookup, valueRead, bind_ok (copyTo_eq span c hplain)]
  rfl

/-- What an operator makes of an object and another is put into its place. -/
theorem binary_result {op : BinaryOp} {r : Value}
    (h : Operator.binary op l r m = Operator.result l p m) (hp : p.shape = p) (span : Span) :
    ∃ q m', binary op span (.object l) r m = (.ok (.object q), m') ∧ m.Makes m' q p := by
  let o : Object := (Object.fresh p).within (m.store.object l).context
  have hnew : NewObject m.store (m.store.allocate o).2 ⟨m.store.objects.size⟩ p :=
    .allocate m.store hp
  have hleft : objectOf (.object l) m = (.ok (l, m.store.object l), m) := rfl
  refine ⟨_, ⟨_, m.world⟩, ?_, hnew.placed span, rfl⟩
  exact (bind_ok hleft).trans ((bind_ok h).trans rfl)

theorem binary_text {op : BinaryOp} (hl : (m.store.object l).payload = .text a)
    (hr : (m.store.object r).payload = .text b) :
    (op = .add → Operator.binary op l (.object r) m = Operator.result l (.text (a ++ b)) m) ∧
    (op = .eq → Operator.binary op l (.object r) m =
      Operator.result l (.number (.ofBool (a == b))) m) := by
  have hother : Operator.payload? (.object r) m = (.ok (some (.text b)), m) := by
    rw [← hr]
    rfl
  rw [Operator.binary, bind_ok (object_apply l m), hl]
  constructor <;> (rintro rfl; exact (bind_ok hother).trans rfl)

theorem evalAll_nil : evalAll (k + 1) d c [] m = (.ok [], m) := by
  rw [evalAll]
  rfl

theorem evalAll_single {n : Node} {v : Value} {m' : Machine}
    (h : eval (k + 1) d c n m = (.ok v, m')) : evalAll (k + 2) d c [n] m = (.ok [v], m') := by
  rw [evalAll, bind_ok h, evalAll]
  rfl

theorem evalAll_pair {n n' : Node} {v w : Value} {m₁ m₂ : Machine}
    (h : eval (k + 2) d c n m = (.ok v, m₁)) (h' : eval (k + 1) d c n' m₁ = (.ok w, m₂)) :
    evalAll (k + 3) d c [n, n'] m = (.ok [v, w], m₂) := by
  rw [evalAll, bind_ok h, bind_ok (evalAll_single h')]
  rfl

theorem evalAll_head_error {n : Node} {ns : List Node} {e : Stop} {m' : Machine}
    (h : eval k d c n m = (.error e, m')) : evalAll (k + 1) d c (n :: ns) m = (.error e, m') := by
  rw [evalAll, bind_error h]

theorem evalAll_tail_error {n : Node} {ns : List Node} {e : Stop} {v : Value} {m₁ m' : Machine}
    (h : eval k d c n m = (.ok v, m₁)) (h' : evalAll k d c ns m₁ = (.error e, m')) :
    evalAll (k + 1) d c (n :: ns) m = (.error e, m') := by
  rw [evalAll, bind_ok h, bind_error h']

/-- What a name stands for is returned, unless it counts as nothing. -/
theorem eval_ret_known {n : Node} (hn : n.shape = .ret default (some (.access default x)))
    (hm : m.store.Offers c.symbols known) (hx : known x = some p) (hp : p ≠ .plain) :
    ∃ r m', m.Makes m' r p ∧ eval (k + 2) (d + 1) c n m =
      if m'.store.isSomething (.object r) then (.error (.returned (.object r)), m')
      else (.ok .absent, m') := by
  obtain ⟨span, e, rfl, he⟩ := Node.eq_ret hn
  obtain ⟨place, rfl⟩ := Node.eq_access he
  obtain ⟨o, haccess, hshape, -⟩ := access_known hm hx hp place
  let m' : Machine := ⟨(m.store.allocate o).2, m.world⟩
  have hvalue : operandValue (k + 1) (d + 1) c (some (.access place x)) m =
      (.ok (.object ⟨m.store.objects.size⟩), m') := by
    rw [operandValue, eval, haccess]
  refine ⟨_, m', .allocate m hshape, ?_⟩
  have hstore : store m' = (.ok m'.store, m') := rfl
  rw [eval_ret, bind_ok hvalue, returnValue, bind_ok hstore]
  split <;> rfl

/-- A function that is called by its name is found before the arguments are evaluated. -/
theorem eval_call_known (hm : m.store.Offers c.symbols known) (hx : known x = some p)
    (hp : p ≠ .plain) (k d : Nat) (place span : Span) (args : List Node) : ∃ f m₁,
      m.Makes m₁ f p ∧ (m₁.store.object f).context = some c ∧
      eval (k + 2) d c (.call span (.access place x) args) m = (do
        let vs ← evalAll (k + 1) d c args
        let v ← call (k + 1) d f vs
        resultAt span c v : Eval Value) m₁ := by
  obtain ⟨o, haccess, hshape, hcontext⟩ := access_known hm hx hp place
  let s := (m.store.allocate o).2
  have ho : s.object ⟨m.store.objects.size⟩ = o := object_push m.store o
  have hplain : (s.object ⟨m.store.objects.size⟩).payload ≠ .plain := by
    rw [ho]
    exact Payload.ne_plain hshape hp
  have hfirst : m.Makes ⟨s, m.world⟩ ⟨m.store.objects.size⟩ p := .allocate m hshape
  have hcallee := calleeAt_eq (m := ⟨s, m.world⟩) span hplain
  rw [ho] at hcallee
  refine ⟨⟨s.objects.size⟩, ⟨(s.allocate (o.placed span)).2, m.world⟩,
    hfirst.andThen (.allocate _ hshape), ?_, ?_⟩
  · rw [object_push]
    exact hcontext
  · rw [eval, eval, bind_ok haccess]
    exact bind_ok hcallee

theorem resultAt_new (h : (m.store.object r).payload.shape = p) (hp : p ≠ .plain) (span : Span)
    (c : Context) : ∃ q m', resultAt span c (.object r) m = (.ok (.object q), m') ∧
      m.Makes m' q p := by
  have hplain : (m.store.object r).payload ≠ .plain := Payload.ne_plain h hp
  have hr : objectOf (.object r) m = (.ok (r, m.store.object r), m) := rfl
  have hshape : (((m.store.object r).placed span).within (some c)).payload.shape = p := h
  refine ⟨_, _, ?_, .allocate m hshape⟩
  exact (bind_ok hr).trans (bind_ok (copyTo_eq span c hplain))

structure HandsOver (refs : List ObjectRef) (m m' : Machine) : Prop
    extends m.store.SameValues m'.store where
  world : m'.world = m.world
  objectsSize : m'.store.objects.size = m.store.objects.size
  keeps : ∀ {s : Store}, s.Extends m.store → (∀ r ∈ refs, s.objects.size ≤ r.index) →
    s.Extends m'.store

def learn (known : String → Option Payload) : List (String × Payload) → String → Option Payload
  | [] => known
  | (x, p) :: rest => learn (Function.update known x (some p)) rest

theorem objectsSize_bound (pairs : List (String × ObjectRef)) :
    (bound c m pairs).store.objects.size = m.store.objects.size := by
  induction pairs generalizing m with
  | nil => rfl
  | cons pair pairs ih => exact ih.trans (by simp [Store.bind, Store.update])

theorem extends_bound {s : Store} (hs : s.Extends m.store) (hc : s.tables.size ≤ c.symbols.index)
    {pairs : List (String × ObjectRef)} (hnew : ∀ pair ∈ pairs, s.objects.size ≤ pair.2.index) :
    s.Extends (bound c m pairs).store := by
  induction pairs generalizing m with
  | nil => exact hs
  | cons pair pairs ih =>
    obtain ⟨hpair, hpairs⟩ := List.forall_mem_cons.mp hnew
    exact ih ((hs.update hpair _).bind hc _ _) hpairs

theorem offers_bound (hm : m.store.Offers c.symbols known) (params : List String)
    {refs : List ObjectRef} {ps : List Payload} (hrefs : ∀ r ∈ refs, r.index < m.store.objects.size)
    (hps : refs.map (fun r => (m.store.object r).payload.shape) = ps) :
    (bound c m (params.zip refs)).store.Offers c.symbols (learn known (params.zip ps)) := by
  induction params generalizing m known refs ps with
  | nil => exact hm
  | cons x params ih =>
    subst hps
    cases refs with
    | nil => exact hm
    | cons r refs =>
      obtain ⟨hr, hrefs⟩ := List.forall_mem_cons.mp hrefs
      let s := m.store.update r (·.within (some c))
      have hpayload (q : ObjectRef) : (s.object q).payload = (m.store.object q).payload :=
        payload_update m.store r q fun _ => rfl
      have hsize : s.objects.size = m.store.objects.size := by simp [s, Store.update]
      have hmoved : s.Offers c.symbols known :=
        hm.update (f := (·.within (some c))) (fun _ => rfl) r
      have hbound := hmoved.bind x (by rwa [hsize]) (congrArg Payload.shape (hpayload r))
      refine ih (m := ⟨s.bind c.symbols x (.object r), m.world⟩) hbound ?_ ?_
      · intro q hq
        exact Nat.lt_of_lt_of_eq (hrefs q hq) hsize.symm
      · exact List.map_congr_left fun q _ => congrArg Payload.shape (hpayload q)

theorem enterFunction_handsOver {f : ObjectRef} {callee : Object} {outer : Context}
    {params : List String} {refs : List ObjectRef} (hcontext : callee.context = some outer)
    (name : String) (hlength : refs.length = params.length) :
    ∃ m₁, enterFunction f callee name params (refs.map .object) m =
        (.ok (contextFrom m callee name outer), m₁) ∧ HandsOver refs m m₁ ∧
      ∀ known ps, m.store.Offers outer.symbols known →
        (∀ r ∈ refs, r.index < m.store.objects.size) →
        refs.map (fun r => (m.store.object r).payload.shape) = ps →
        m₁.store.Offers ⟨m.store.tables.size⟩ (learn known (params.zip ps)) := by
  have henter := enterFunction_objects (m := m) (r := f) hcontext name hlength
  refine ⟨_, henter, ⟨Event.sameValues_of_enterFunction henter, Event.world_of_enterFunction henter,
    objectsSize_bound _, fun hs hnew => ?_⟩, fun known ps hm hrefs hps => ?_⟩
  · have htables := (hs.trans (.childOf _ outer.symbols)).trans (.childOf _ outer.hidden)
    refine extends_bound htables hs.tablesSize fun pair hpair => hnew _ ?_
    exact (List.of_mem_zip hpair).2
  · have htables := hm.childOf.extend (.childOf _ outer.hidden)
    exact offers_bound (c := contextFrom m callee name outer) (m := withTables m outer) htables
      params hrefs hps

/-- A function of the language is performed on the objects that it is called with. -/
theorem call_performs {f : ObjectRef} {b : Builtin} {refs : List ObjectRef} (hb : b ≠ .run)
    (hf : (m.store.object f).payload = .builtin b.name)
    (hcontext : (m.store.object f).context = some c) (hlength : refs.length = b.params.length)
    (fuel depth : Nat) : ∃ inner m₁, HandsOver refs m m₁ ∧
      call (fuel + 1) (depth + 1) f (refs.map .object) m =
        (⟨m.store.object f, inner⟩ : BuiltinCall).perform b refs m₁ := by
  obtain ⟨m₁, henter, hgiven, -⟩ :=
    enterFunction_handsOver (f := f) (m := m) hcontext b.name hlength
  rcases Event.call_builtin_cases fuel depth (refs.map .object) hf b.ofName?_name with
    ⟨stop, m', hfails, -⟩ | ⟨context, m', refs', hok, hrefs, hcall⟩
  · cases henter.symm.trans hfails
  · cases henter.symm.trans hok
    obtain rfl : refs = refs' := List.map_injective_iff.mpr (fun _ _ h => by cases h; rfl) hrefs
    exact ⟨_, m₁, hgiven, hcall.trans (by rw [Event.performed_eq hb])⟩

theorem bind_of_eq {α β : Type} {x y : Eval α} {m' : Machine} (h : x m = y m') (f : α → Eval β) :
    (x >>= f) m = (y >>= f) m' := by
  change ExceptT.bindCont f (x m).1 (x m).2 = ExceptT.bindCont f (y m').1 (y m').2
  rw [h]

/-- What a call of a function of the language comes to, once its arguments are evaluated. -/
theorem eval_call_performs {b : Builtin} (hb : b ≠ .run) (hm : m.store.Offers c.symbols known)
    (hx : known x = some (.builtin b.name)) (k d : Nat) (place span : Span) (args : List Node) :
    ∃ m₁, m.store.Extends m₁.store ∧ m₁.world = m.world ∧
      ∀ (refs : List ObjectRef) (m₂ : Machine),
        evalAll (k + 1) (d + 1) c args m₁ = (.ok (refs.map .object), m₂) →
        m₁.store.KeepsObjects m₂.store → refs.length = b.params.length →
        ∃ (call : BuiltinCall) (m₃ : Machine), HandsOver refs m₂ m₃ ∧
          eval (k + 2) (d + 1) c (.call span (.access place x) args) m =
            (call.perform b refs >>= resultAt span c) m₃ := by
  obtain ⟨f, m₁, hnew, hcontext, heval⟩ := eval_call_known hm hx (by simp) k (d + 1) place span args
  refine ⟨m₁, hnew.toExtends, hnew.world, fun refs m₂ hargs hkeeps hlength => ?_⟩
  have hobject : m₂.store.object f = m₁.store.object f := hkeeps.object f hnew.isThere
  have hf : (m₂.store.object f).payload = .builtin b.name := by
    rw [hobject]
    exact Payload.shape_eq_builtin.mp hnew.carries
  obtain ⟨inner, m₃, hgiven, hcall⟩ :=
    call_performs hb hf (by rw [hobject, hcontext]) hlength k d
  refine ⟨⟨m₂.store.object f, inner⟩, m₃, hgiven, ?_⟩
  rw [heval, bind_ok hargs]
  exact bind_of_eq hcall _

theorem perform_len (call : BuiltinCall) {t : String} (h : (m.store.object r).payload = .text t) :
    ∃ q m', call.perform .len [r] m = (.ok (.object q), m') ∧
      m.Makes m' q (.number (.int t.length)) := by
  refine ⟨_, ⟨_, m.world⟩, ?_, .allocate m (o := .fresh (.number (.int t.length))) rfl⟩
  rw [BuiltinCall.perform, BuiltinCall.len, bind_ok (object_apply r m), h]
  rfl

/-- A call of a function evaluates the body where the parameters are known too. Without a value that
is returned, the call gives null. -/
theorem call_evaluates {f : ObjectRef} {name : String} {params : List String} {body : Node}
    {refs : List ObjectRef} {ps : List Payload}
    (hf : (m.store.object f).payload.shape = .function name params body false)
    (hcontext : (m.store.object f).context = some c) (hm : m.store.Offers c.symbols known)
    (hlength : refs.length = params.length) (hrefs : ∀ r ∈ refs, r.index < m.store.objects.size)
    (hps : refs.map (fun r => (m.store.object r).payload.shape) = ps) :
    ∃ inner body' m₁, inner.name = name ∧ inner.symbols = ⟨m.store.tables.size⟩ ∧
      inner.hidden = ⟨m.store.tables.size + 1⟩ ∧ body'.shape = body ∧ HandsOver refs m m₁ ∧
      m₁.store.Offers inner.symbols (learn known (params.zip ps)) ∧
      (∀ v m', eval k d inner body' m₁ = (.ok v, m') →
        call (k + 1) (d + 1) f (refs.map .object) m = (.ok nullValue, m')) ∧
      (∀ v m', eval k d inner body' m₁ = (.error (.returned v), m') →
        call (k + 1) (d + 1) f (refs.map .object) m = (.ok v, m')) ∧
      ∀ report m', eval k d inner body' m₁ = (.error (.error report), m') →
        call (k + 1) (d + 1) f (refs.map .object) m = (.error (.error report), m') := by
  obtain ⟨body', hpayload, hbody⟩ := Payload.exists_of_shape_function hf
  obtain ⟨m₁, henter, hgiven, hoffers⟩ := enterFunction_handsOver (f := f) (m := m) hcontext name
    hlength
  refine ⟨contextFrom m (m.store.object f) name c, body', m₁, rfl, rfl, rfl, hbody, hgiven,
    hoffers known ps hm hrefs hps, ?_⟩
  rw [call, bind_ok (object_apply f m), hpayload]
  refine ⟨fun v m' hv => ?_, fun v m' hv => ?_, fun report m' hv => ?_⟩ <;>
  · refine (bind_ok henter).trans ?_
    rw [bind_ok (outcome_apply _ _), hv]
    rfl

theorem call_single {f arg : ObjectRef} {name param : String} {body : Node}
    (hf : (m.store.object f).payload.shape = .function name [param] body false)
    (hcontext : (m.store.object f).context = some c) (hm : m.store.Offers c.symbols known)
    (harg : arg.index < m.store.objects.size) (hp : (m.store.object arg).payload.shape = p) :
    ∃ inner body' m₁, inner.name = name ∧ body'.shape = body ∧
      m₁.store.Offers inner.symbols (Function.update known param (some p)) ∧
      (∀ v m', eval k d inner body' m₁ = (.ok v, m') →
        call (k + 1) (d + 1) f [.object arg] m = (.ok nullValue, m')) ∧
      ∀ report m', eval k d inner body' m₁ = (.error (.error report), m') →
        call (k + 1) (d + 1) f [.object arg] m = (.error (.error report), m') := by
  have hlength : [arg].length = [param].length := rfl
  obtain ⟨inner, body', m₁, hname, -, -, hbody, -, hoffers, hgives, -, hstops⟩ :=
    call_evaluates (k := k) (d := d) hf hcontext hm hlength (by simpa using harg) rfl
  rw [List.map_singleton, hp] at hoffers
  exact ⟨inner, body', m₁, hname, hbody, hoffers, hgives, hstops⟩

end Eval

/-- Evaluating an expression makes an object of what it is worth, and changes nothing else. -/
theorem Worth.eval {known : String → Option Payload} {k : Nat} {e : Node} {p : Payload}
    (h : Worth known k e p) {n : Node} (hn : n.shape = e) {c : Context} {m : Machine}
    (hm : m.store.Offers c.symbols known) (d : Nat) :
    ∃ r m', Eval.eval k (d + 1) c n m = (.ok (.object r), m') ∧ m.Makes m' r p := by
  induction h generalizing n m with
  | text =>
    obtain ⟨span, rfl⟩ := Node.eq_text hn
    rw [Eval.eval]
    exact ⟨_, _, rfl, .allocate m rfl⟩
  | int | float =>
    obtain ⟨span, rfl⟩ := Node.eq_number hn
    rw [Eval.eval]
    exact ⟨_, _, rfl, .allocate m rfl⟩
  | name hx hp =>
    obtain ⟨span, rfl⟩ := Node.eq_access hn
    obtain ⟨o, haccess, hshape, -⟩ := Eval.access_known hm hx hp span
    rw [Eval.eval]
    exact ⟨_, _, haccess, .allocate m hshape⟩
  | concat _ _ ihx ihy =>
    obtain ⟨span, x, y, rfl, hx, hy⟩ := Node.eq_binary hn
    obtain ⟨l, m₁, hl, hnewl⟩ := ihx hx hm
    obtain ⟨r, m₂, hr, hnewr⟩ := ihy hy (hm.extend hnewl.toExtends)
    obtain ⟨q, m₃, hq, hnew⟩ := Eval.binary_result ((Eval.binary_text
      (Payload.shape_eq_text.mp (hnewl.keep hnewr.toExtends))
      (Payload.shape_eq_text.mp hnewr.carries)).1 rfl) rfl span
    refine ⟨q, m₃, ?_, hnewl.andThen (hnewr.andThen hnew)⟩
    rw [Eval.eval, Eval.bind_ok hl, Eval.bind_ok hr, hq]
  | same _ _ ihx ihy =>
    obtain ⟨span, x, y, rfl, hx, hy⟩ := Node.eq_binary hn
    obtain ⟨l, m₁, hl, hnewl⟩ := ihx hx hm
    obtain ⟨r, m₂, hr, hnewr⟩ := ihy hy (hm.extend hnewl.toExtends)
    obtain ⟨q, m₃, hq, hnew⟩ := Eval.binary_result ((Eval.binary_text
      (Payload.shape_eq_text.mp (hnewl.keep hnewr.toExtends))
      (Payload.shape_eq_text.mp hnewr.carries)).2 rfl) rfl span
    refine ⟨q, m₃, ?_, hnewl.andThen (hnewr.andThen hnew)⟩
    rw [Eval.eval, Eval.bind_ok hl, Eval.bind_ok hr, hq]
  | sub _ _ ihx ihy =>
    obtain ⟨span, x, y, rfl, hx, hy⟩ := Node.eq_binary hn
    obtain ⟨l, m₁, hl, hnewl⟩ := ihx hx hm
    obtain ⟨r, m₂, hr, hnewr⟩ := ihy hy (hm.extend hnewl.toExtends)
    obtain ⟨s, q, hq, hnew⟩ := Eval.binary_number (w := m₂.world) .sub span
      (Payload.shape_eq_number.mp (hnewl.keep hnewr.toExtends))
      (Payload.shape_eq_number.mp hnewr.carries)
    refine ⟨q, ⟨s, m₂.world⟩, ?_, hnewl.andThen (hnewr.andThen ⟨.of_number hnew, rfl⟩)⟩
    rw [Eval.eval, Eval.bind_ok hl, Eval.bind_ok hr]
    exact hq
  | minus _ ih =>
    obtain ⟨span, x, rfl, hx⟩ := Node.eq_unary hn
    obtain ⟨r, m₁, hr, hnewr⟩ := ih hx hm
    obtain ⟨s, q, hq, hnew⟩ := Eval.unary_minus (w := m₁.world) span
      (Payload.shape_eq_number.mp hnewr.carries)
    refine ⟨q, ⟨s, m₁.world⟩, ?_, hnewr.andThen ⟨.of_number hnew, rfl⟩⟩
    rw [Eval.eval, Eval.bind_ok hr]
    exact hq
  | @length k f x t hf _ ih =>
    obtain ⟨span, callee, args, rfl, hcallee, hargs⟩ := Node.eq_call hn
    obtain ⟨place, rfl⟩ := Node.eq_access hcallee
    obtain ⟨arg, rfl, harg⟩ := Node.shapes_eq_single hargs
    obtain ⟨m₁, hext₁, hworld₁, hperforms⟩ :=
      Eval.eval_call_performs (b := .len) (by decide) hm hf (k + 1) d place span [arg]
    obtain ⟨r, m₂, hr, hnewr⟩ := ih harg (hm.extend hext₁)
    obtain ⟨call, m₃, hgiven, heval⟩ :=
      hperforms [r] m₂ (Eval.evalAll_single hr) hnewr.toKeepsObjects rfl
    have hext₃ : m.store.Extends m₃.store := hgiven.keeps (hext₁.trans hnewr.toExtends)
      (by simpa using Nat.le_trans hext₁.objectsSize hnewr.isNew)
    have hworld₃ : m₃.world = m.world := hgiven.world.trans (hnewr.world.trans hworld₁)
    have htext : (m₃.store.object r).payload = .text t := by
      rw [hgiven.payload]
      exact Payload.shape_eq_text.mp hnewr.carries
    obtain ⟨q, m₄, hq, hnewq⟩ := Eval.perform_len call htext
    obtain ⟨q', m₅, hresult, hnew⟩ := Eval.resultAt_new hnewq.carries (by simp) span c
    have hlast := hnewq.andThen hnew
    refine ⟨q', m₅, ?_, .after hext₃ hlast.toNewObject, hlast.world.trans hworld₃⟩
    rw [heval, Eval.bind_ok hq, hresult]

def Payload.leaf? : Payload → Option Snapshot
  | .number n => some (.number n)
  | .text t => some (.text t)
  | .null => some .null
  | .function name params _ isExpression => some (.function name params isExpression)
  | .builtin name => some (.builtin name)
  | .file name path => some (.file name path)
  | .plain => some .plain
  | .list _ => none

namespace Store

variable {s : Store} {r : ObjectRef} {rs : List ObjectRef} {x : Snapshot} {xs : List Snapshot}
  {cells : ListRef} {depth : Nat} {path : List ListRef}

theorem snapshotBelow_leaf (h : (s.object r).payload.shape.leaf? = some x) :
    s.snapshotBelow depth path (.object r) = x := by
  cases hp : (s.object r).payload <;> rw [hp] at h <;> cases h <;> simp [snapshotBelow, hp]

theorem map_snapshotBelow_leaves
    (h : (rs.map fun q => (s.object q).payload.shape).map Payload.leaf? = xs.map some) :
    (rs.map .object).map (s.snapshotBelow depth path) = xs := by
  induction rs generalizing xs with
  | nil => simpa using h
  | cons q rs ih =>
    obtain _ | ⟨x, xs⟩ := xs
    · simp at h
    · obtain ⟨hq, hrs⟩ := List.cons.inj h
      rw [List.map_cons, List.map_cons, snapshotBelow_leaf hq, ih hrs]

theorem snapshotBelow_list {vs : List Value} (hr : (s.object r).payload = .list cells)
    (hpath : cells ∉ path) (hvs : s.elements cells = vs.toArray) :
    s.snapshotBelow (depth + 1) path (.object r) =
      .list (vs.map (s.snapshotBelow depth (cells :: path))) := by
  simp [snapshotBelow, hr, hpath, hvs]

/-- The object is the newest list, and its values, which are no lists, show `xs`. -/
structure ShowsLeaves (s : Store) (r : ObjectRef) (lists : Array (Array Value))
    (rs : List ObjectRef) (xs : List Snapshot) : Prop where
  carries : (s.object r).payload = .list ⟨lists.size⟩
  listsEq : s.lists = lists.push (rs.map .object).toArray
  range : ∀ q ∈ rs, q.index < s.objects.size
  leaves : (rs.map fun q => (s.object q).payload.shape).map Payload.leaf? = xs.map some

namespace ShowsLeaves

variable {lists : Array (Array Value)}

theorem snapshot (h : s.ShowsLeaves r lists rs xs) : s.snapshot (.object r) = .list xs := by
  have hsize : s.lists.size = lists.size + 1 := by simp [h.listsEq]
  have hvs : s.elements ⟨lists.size⟩ = (rs.map .object).toArray := by simp [elements, h.listsEq]
  rw [Store.snapshot, hsize, snapshotBelow_list h.carries (by simp) hvs,
    map_snapshotBelow_leaves h.leaves]

theorem snapshot_single (h : s.ShowsLeaves r lists rs xs) {s' : Store} {q : ObjectRef}
    (hs : s.Extends s') (hq : (s'.object q).payload = .list ⟨s.lists.size⟩)
    (hlists : s'.lists = s.lists.push #[.object r]) :
    s'.snapshot (.object q) = .list [.list xs] := by
  have hsize : s.lists.size = lists.size + 1 := by simp [h.listsEq]
  have hr : (s'.object r).payload = .list ⟨lists.size⟩ := by
    rw [hs.object r (index_lt (by simp [h.carries])), h.carries]
  have hleaves : (rs.map fun q => (s'.object q).payload.shape).map Payload.leaf? = xs.map some := by
    rw [← h.leaves]
    congr 1
    exact List.map_congr_left fun q hq => by rw [hs.object q (h.range q hq)]
  have houter : s'.elements ⟨s.lists.size⟩ = [Value.object r].toArray := by
    simp [elements, hlists]
  have hinner : s'.elements ⟨lists.size⟩ = (rs.map .object).toArray := by
    rw [elements, hlists, h.listsEq, Array.getElem?_push, if_neg (by simp), Array.getElem?_push,
      if_pos rfl]
    rfl
  rw [Store.snapshot, hlists, Array.size_push, snapshotBelow_list hq (by simp) houter, hsize,
    List.map_singleton, snapshotBelow_list hr (by simp) hinner, map_snapshotBelow_leaves hleaves]

end ShowsLeaves

end Store

theorem Eval.eval_list {k d : Nat} {c : Context} {ns : List Node} {m m₁ : Machine}
    {vs : List Value} (h : evalAll k d c ns m = (.ok vs, m₁)) (span : Span) :
    ∃ r m', eval (k + 1) d c (.list span ns) m = (.ok (.object r), m') ∧
      m₁.store.Extends m'.store ∧ m'.world = m₁.world ∧
      (m'.store.object r).payload = .list ⟨m₁.store.lists.size⟩ ∧
      m'.store.lists = m₁.store.lists.push vs.toArray := by
  rw [eval, bind_ok h]
  refine ⟨⟨m₁.store.objects.size⟩, _, rfl,
    (Store.Extends.allocateList m₁.store _).trans (.allocate _ _), rfl, ?_, rfl⟩
  exact congrArg Object.payload (Store.object_push _ _)

theorem Eval.eval_leaves {k d : Nat} {c : Context} {ns : List Node} {m m₁ : Machine}
    {rs : List ObjectRef} {xs : List Snapshot} (h : evalAll k d c ns m = (.ok (rs.map .object), m₁))
    (hrs : ∀ q ∈ rs, q.index < m₁.store.objects.size)
    (hxs : (rs.map fun q => (m₁.store.object q).payload.shape).map Payload.leaf? = xs.map some)
    (span : Span) : ∃ r m', eval (k + 1) d c (.list span ns) m = (.ok (.object r), m') ∧
      m₁.store.Extends m'.store ∧ m'.world = m₁.world ∧
      m'.store.ShowsLeaves r m₁.store.lists rs xs := by
  obtain ⟨r, m', hr, hext, hworld, hpayload, hlists⟩ := eval_list h span
  refine ⟨r, m', hr, hext, hworld, hpayload, hlists, ?_, ?_⟩
  · exact fun q hq => Nat.lt_of_lt_of_le (hrs q hq) hext.objectsSize
  · rw [← hxs]
    congr 1
    exact List.map_congr_left fun q hq => by rw [hext.object q (hrs q hq)]

/-- What a statement gives, and what is known after it. -/
inductive Does : Nat → (String → Option Payload) → Node → Payload → (String → Option Payload) → Prop
  | assign {k known x e p} : Worth known k e p →
      Does (k + 1) known (.assign default x e) p (Function.update known x (some p))
  | function {k known f params body isExpression} :
      Does (k + 1) known (.function default (some f) params body isExpression)
        (.function f params body isExpression)
        (Function.update known f (some (.function f params body isExpression)))

inductive DoesAll :
    Nat → (String → Option Payload) → List Node → List Payload → (String → Option Payload) → Prop
  | nil {k known} : DoesAll (k + 1) known [] [] known
  | cons {k known n p known' ns ps known''} : Does k known n p known' →
      DoesAll k known' ns ps known'' → DoesAll (k + 1) known (n :: ns) (p :: ps) known''

section

variable {known known' : String → Option Payload} {k : Nat} {c : Context} {m : Machine}

theorem Does.eval {e : Node} {p : Payload} (h : Does k known e p known') {n : Node}
    (hn : n.shape = e) (hm : m.store.Offers c.symbols known) (d : Nat) :
    ∃ r m', Eval.eval k (d + 1) c n m = (.ok (.object r), m') ∧ r.index < m'.store.objects.size ∧
      (m'.store.object r).payload.shape = p ∧ m'.store.Offers c.symbols known' ∧
      m.store.KeepsObjects m'.store ∧ m'.world = m.world := by
  cases h with
  | @assign k _ x _ _ he =>
    obtain ⟨span, value, rfl, hvalue⟩ := Node.eq_assign hn
    obtain ⟨r, m₁, hr, hnew⟩ := he.eval hvalue hm d
    let s := (m₁.store.bind c.symbols x (.object r)).bind c.hidden x (.object r)
    refine ⟨r, ⟨s, m₁.world⟩, ?_, hnew.isThere, hnew.carries,
      (hm.extend hnew.toExtends).assign c.hidden x hnew.isThere hnew.carries, ?_, hnew.world⟩
    · rw [Eval.eval, Eval.bind_ok hr]
      rfl
    · exact hnew.toKeepsObjects.trans ((Store.KeepsObjects.bind ..).trans (.bind ..))
  | @function k _ f params body isExpression =>
    obtain ⟨span, body, rfl, hbody⟩ := Node.eq_function hn
    let o : Object :=
      ((Object.fresh (.function f params body isExpression)).within (some c)).placed span
    have hnew : Store.NewObject m.store (m.store.allocate o).2 ⟨m.store.objects.size⟩
        (.function f params body.shape isExpression) := .allocate m.store rfl
    rw [hbody] at hnew
    refine ⟨_, ⟨(m.store.allocate o).2.bind c.symbols f (.object _), m.world⟩, ?_, hnew.isThere,
      hnew.carries, (hm.extend hnew.toExtends).bind f hnew.isThere hnew.carries, ?_, rfl⟩
    · rw [Eval.eval]
      rfl
    · exact hnew.toKeepsObjects.trans (.bind ..)

theorem DoesAll.evalAll {es : List Node} {ps : List Payload} (h : DoesAll k known es ps known')
    {ns : List Node} (hns : Node.shapes ns = es) (hm : m.store.Offers c.symbols known) (d : Nat) :
    ∃ (rs : List ObjectRef) (m' : Machine),
      Eval.evalAll k (d + 1) c ns m = (.ok (rs.map .object), m') ∧
      (∀ r ∈ rs, r.index < m'.store.objects.size) ∧
      rs.map (fun r => (m'.store.object r).payload.shape) = ps ∧
      m'.store.Offers c.symbols known' ∧ m.store.KeepsObjects m'.store ∧ m'.world = m.world := by
  induction h generalizing ns m with
  | nil =>
    obtain rfl := Node.shapes_eq_nil hns
    refine ⟨[], m, ?_, by simp, rfl, hm, ⟨Nat.le_refl _, fun _ _ => rfl⟩, rfl⟩
    rw [Eval.evalAll]
    rfl
  | cons hn _ ih =>
    obtain ⟨n, ns, rfl, hshape, hns⟩ := Node.shapes_eq_cons hns
    obtain ⟨r, m₁, hr, hthere, hp, hm₁, hkeeps₁, hworld₁⟩ := hn.eval hshape hm d
    obtain ⟨rs, m₂, hrs, hall, hps, hm₂, hkeeps₂, hworld₂⟩ := ih hns hm₁
    have hkept : m₂.store.object r = m₁.store.object r := hkeeps₂.object r hthere
    refine ⟨r :: rs, m₂, ?_, ?_, ?_, hm₂, hkeeps₁.trans hkeeps₂, hworld₂.trans hworld₁⟩
    · rw [Eval.evalAll, Eval.bind_ok hr, Eval.bind_ok hrs]
      rfl
    · rintro q (_ | ⟨_, hq⟩)
      · exact Nat.lt_of_lt_of_le hthere hkeeps₂.objectsSize
      · exact hall q hq
    · rw [List.map_cons, hkept, hp, hps]

end

/-- What is known of the functions of the language. -/
def Builtin.known (x : String) : Option Payload := (ofName? x).map fun b => .builtin b.name

def Payload.builtinName? : Payload → Option String
  | .builtin name => some name
  | _ => none

theorem Payload.builtinName?_eq_some {p : Payload} {name : String} :
    p.builtinName? = some name ↔ p = .builtin name := by
  cases p <;> simp [builtinName?]

theorem Payload.text?_eq_some {p : Payload} {t : String} : p.text? = some t ↔ p = .text t := by
  cases p <;> simp [text?]

namespace Store

variable {s : Store} {t : TableRef}

theorem exists_of_lookup {x name : String} {part : Payload → Option String} {p : Payload}
    (h : (s.payload? (s.lookup t x)).bind part = some name) (hp : ∀ q, part q = some name → q = p)
    (hplain : p ≠ .plain) :
    ∃ r, s.lookup t x = .object r ∧ r.index < s.objects.size ∧
      (s.object r).payload.shape = p.shape := by
  obtain ⟨q, hq, hname⟩ := Option.bind_eq_some_iff.mp h
  obtain rfl := hp q hname
  cases hlookup : s.lookup t x with
  | object r =>
    rw [hlookup] at hq
    have hpayload : (s.object r).payload = q := Option.some.inj hq
    exact ⟨r, rfl, index_lt (by rwa [hpayload]), by rw [hpayload]⟩
  | absent => simp [hlookup, payload?] at hq
  | bare => simp [hlookup, payload?] at hq

theorem Offers.or {known known' : String → Option Payload} (h : s.Offers t known)
    (h' : s.Offers t known') : s.Offers t fun x => (known x).or (known' x) := by
  refine ⟨h.range, h.null, fun x p hx => ?_⟩
  obtain hp | ⟨-, hp⟩ := Option.or_eq_some_iff.mp hx
  · exact h.holds x p hp
  · exact h'.holds x p hp

end Store

namespace Machine

/-- A fresh session has the functions of the language under their names. -/
theorem offers_start (w : World) : (start w).store.Offers Eval.globals Builtin.known := by
  have hancestors : (freshStore.table Eval.globals).ancestors = [] := by decide +kernel
  have hsize : freshStore.tables.size = 2 := by decide +kernel
  have hnull : (freshStore.object ⟨0⟩).payload = .null := InSession.null (m := start w) .refl
  have hall : ∀ b ∈ Builtin.all, (freshStore.payload? (freshStore.lookup Eval.globals b.name)).bind
      Payload.builtinName? = some b.name := by decide +kernel
  change freshStore.Offers Eval.globals Builtin.known
  refine ⟨?_, hnull, fun x p hx => ?_⟩
  · rw [hancestors, hsize]
    decide
  · obtain ⟨b, hb, rfl⟩ := Option.map_eq_some_iff.mp hx
    obtain rfl : b.name = x := by simpa using List.find?_some hb
    exact Store.exists_of_lookup (hall b (List.mem_of_find?_eq_some hb))
      (fun _ => Payload.builtinName?_eq_some.mp) (by simp)

def knownKinds (x : String) : Option Payload := (kindNames.lookup x).map .text

theorem offers_kinds (w : World) : (start w).store.Offers Eval.globals knownKinds := by
  have hstart := offers_start w
  have hall : ∀ e ∈ kindNames, (freshStore.payload? (freshStore.lookup Eval.globals e.1)).bind
      Payload.text? = some e.2 := by decide +kernel
  refine ⟨hstart.range, hstart.null, fun x p hx => ?_⟩
  obtain ⟨t, ht, rfl⟩ := Option.map_eq_some_iff.mp hx
  obtain ⟨l₁, l₂, hsplit, -⟩ := List.lookup_eq_some_iff.mp ht
  have hmem : (x, t) ∈ kindNames := by simp [hsplit]
  exact Store.exists_of_lookup (hall _ hmem) (fun _ => Payload.text?_eq_some.mp) (by simp)

def knownNames (x : String) : Option Payload := (Builtin.known x).or (knownKinds x)

theorem offers_names (w : World) : (start w).store.Offers Eval.globals knownNames :=
  (offers_start w).or (offers_kinds w)

end Machine

theorem Eval.offers_mainMachine {m : Machine} {known : String → Option Payload}
    (hm : m.store.Offers globals known) (hmain : known "is_main" = none) :
    (mainMachine m).store.Offers globals known :=
  (hm.extend (.allocate m.store _)).bind_unknown hmain _ _

end Think
