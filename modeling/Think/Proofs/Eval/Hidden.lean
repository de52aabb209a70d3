import Think.Proofs.Eval.Invariant
import Think.Proofs.Eval.Scope

/-! # Hidden names

Every context has two tables. A name that is in none of the open tables is looked for in the hidden
ones. Only `is_main` is ever bound in a hidden table alone, so the hidden tables are of use for it
only. It takes an assignment of nothing to make another hidden name count: it hides the open one.
-/

namespace Think

open Eval (globals programNames)
open Relation (ReflTransGen)

namespace Store

def IsHidden (s : Store) (t : TableRef) : Prop := globals ∉ t :: (s.table t).ancestors

/-- The open table beside a hidden one: the globals, or the table that was made just before. -/
def mate (s : Store) (t : TableRef) : TableRef :=
  if (s.table t).ancestors = [] then globals else ⟨t.index - 1⟩

/-- The tables behind the mate are the mates of those behind the table, and what has a value here
has one there, if it is one of the names in `X`. -/
structure Matched (s : Store) (X : String → Prop) (t : TableRef) : Prop where
  lt : (s.mate t).index < s.tables.size
  shown : ¬ s.IsHidden (s.mate t)
  ancestors : (s.table (s.mate t)).ancestors = (s.table t).ancestors.map s.mate
  behind : ∀ u ∈ (s.table t).ancestors, u.index < s.tables.size ∧ s.IsHidden u
  covered : ∀ x, X x → (s.table t).get x ≠ .absent → (s.table (s.mate t)).get x ≠ .absent

structure Mated (s : Store) (X : String → Prop) : Prop where
  size : 1 < s.tables.size
  outermost : (s.table globals).ancestors = []
  outermostHidden : (s.table programNames).ancestors = []
  matched : ∀ t : TableRef, t.index < s.tables.size → s.IsHidden t → s.Matched X t

abbrev KeepsTables (s s' : Store) : Prop := Kept (fun _ _ => True) s s'

variable {X : String → Prop} {s s' : Store} {t : TableRef} {x : String} {v : Value} {c : Context}

theorem keepsTables_of_changes (h : ReflTransGen Change s s') : KeepsTables s s' := by
  apply kept_of_writes
  refine ReflTransGen.mono ?_ _ _ h
  intro s₁ s₂ hc
  cases hc with
  | value h => exact .value h
  | table T => exact .table T
  | bind t x v => exact .bind v trivial

theorem Kept.isHidden_iff (h : KeepsTables s s') (ht : t.index < s.tables.size) :
    s'.IsHidden t ↔ s.IsHidden t := by
  rw [IsHidden, IsHidden, h.ancestors t ht]

theorem Kept.mate_eq (h : KeepsTables s s') (ht : t.index < s.tables.size) :
    s'.mate t = s.mate t := by
  rw [mate, mate, h.ancestors t ht]

theorem not_isHidden_globals (s : Store) : ¬ s.IsHidden globals := by
  simp [IsHidden]

namespace Mated

theorem isHidden_programNames (h : s.Mated X) : s.IsHidden programNames := by
  rw [IsHidden, h.outermostHidden]
  decide

theorem mate_programNames (h : s.Mated X) : s.mate programNames = globals := by
  simp [mate, h.outermostHidden]

theorem mate_ne (h : s.Mated X) (ht : t.index < s.tables.size) (hhidden : s.IsHidden t) :
    s.mate t ≠ programNames := fun heq =>
  (h.matched t ht hhidden).shown (heq ▸ h.isHidden_programNames)

/-- What has a value in one of some hidden tables has one in their mates. -/
theorem search_ne_absent (h : s.Mated X) (hx : X x) {ts : List TableRef}
    (hts : ∀ u ∈ ts, u.index < s.tables.size ∧ s.IsHidden u) (hfound : s.search x ts ≠ .absent) :
    s.search x (ts.map s.mate) ≠ .absent := by
  induction ts with
  | nil => exact absurd rfl hfound
  | cons u ts ih =>
    obtain ⟨hlt, hhidden⟩ := hts u List.mem_cons_self
    have hcovered := (h.matched u hlt hhidden).covered x hx
    have hrest := ih fun w hw => hts w (List.mem_cons_of_mem u hw)
    rw [List.map_cons, search]
    cases hm : (s.table (s.mate u)).get x with
    | absent =>
      apply hrest
      have hu : (s.table u).get x = .absent := by
        by_contra hne
        exact hcovered hne hm
      rwa [search, hu] at hfound
    | bare | object => simp

theorem lookup_mate_ne_absent (h : s.Mated X) (ht : t.index < s.tables.size)
    (hhidden : s.IsHidden t) (hx : X x) (hfound : s.lookup t x ≠ .absent) :
    s.lookup (s.mate t) x ≠ .absent := by
  have hmatched := h.matched t ht hhidden
  rw [lookup, hmatched.ancestors]
  refine h.search_ne_absent hx ?_ hfound
  intro u hu
  rcases List.mem_cons.mp hu with rfl | hu
  · exact ⟨ht, hhidden⟩
  · exact hmatched.behind u hu

theorem of_kept (h : s.Mated X) (hk : KeepsTables s s')
    (hcovered : ∀ u : TableRef, u.index < s.tables.size → s.IsHidden u → ∀ x, X x →
      (s'.table u).get x ≠ .absent → (s'.table (s.mate u)).get x ≠ .absent)
    (hnew : ∀ u : TableRef, s.tables.size ≤ u.index → u.index < s'.tables.size → s'.IsHidden u →
      s'.Matched X u) : s'.Mated X where
  size := Nat.lt_of_lt_of_le h.size hk.size
  outermost := (hk.ancestors _ (Nat.lt_trans Nat.zero_lt_one h.size)).trans h.outermost
  outermostHidden := (hk.ancestors _ h.size).trans h.outermostHidden
  matched u hu hhidden := by
    by_cases hlt : u.index < s.tables.size
    · have hold := (hk.isHidden_iff hlt).mp hhidden
      have hmatched := h.matched u hlt hold
      have hmate := hk.mate_eq hlt
      constructor
      · rw [hmate]
        exact Nat.lt_of_lt_of_le hmatched.lt hk.size
      · rw [hmate, hk.isHidden_iff hmatched.lt]
        exact hmatched.shown
      · rw [hmate, hk.ancestors _ hmatched.lt, hk.ancestors u hlt, hmatched.ancestors]
        apply List.map_congr_left
        intro w hw
        exact (hk.mate_eq (hmatched.behind w hw).1).symm
      · rw [hk.ancestors u hlt]
        intro w hw
        obtain ⟨hwlt, hwhidden⟩ := hmatched.behind w hw
        exact ⟨Nat.lt_of_lt_of_le hwlt hk.size, (hk.isHidden_iff hwlt).mpr hwhidden⟩
      · rw [hmate]
        exact hcovered u hlt hold
    · exact hnew u (Nat.le_of_not_lt hlt) hu hhidden

theorem of_tables (h : s.Mated X) (ht : s'.tables = s.tables) : s'.Mated X := by
  have htable (u : TableRef) : s'.table u = s.table u := by rw [table, table, ht]
  apply h.of_kept (.of_table (Nat.le_of_eq (by rw [ht])) fun u _ => htable u)
  · intro u hu hhidden x hx
    rw [htable, htable]
    exact (h.matched u hu hhidden).covered x hx
  · intro u hu hu'
    rw [ht] at hu'
    omega

end Mated

theorem get_bind (s : Store) (t u : TableRef) (x y : String) (v : Value) :
    ((s.bind t x v).table u).get y =
      if (t = u ∧ u.index < s.tables.size) ∧ y = x then v else (s.table u).get y := by
  rw [table_bind]
  by_cases hu : t = u ∧ u.index < s.tables.size
  · rw [if_pos hu, get_set]
    simp [hu]
  · rw [if_neg hu]
    simp [hu]

/-- Binding a name in an open table, or in a hidden one beside a table that has the name. -/
theorem Mated.bind (h : s.Mated X) (hshown : ¬ s.IsHidden t → X x → v ≠ .absent)
    (hhidden : s.IsHidden t → X x → (s.table (s.mate t)).get x ≠ .absent) :
    (s.bind t x v).Mated X := by
  have hsize : (s.bind t x v).tables.size = s.tables.size := by simp [Store.bind]
  apply h.of_kept (keepsTables_of_changes (.single (.bind t x v)))
  · intro u hu hu' y hy
    have hmatched := h.matched u hu hu'
    rw [get_bind, get_bind]
    by_cases hmate : (t = s.mate u ∧ (s.mate u).index < s.tables.size) ∧ y = x
    · obtain ⟨⟨rfl, -⟩, rfl⟩ := hmate
      intro _
      rw [if_pos ⟨⟨rfl, hmatched.lt⟩, rfl⟩]
      exact hshown hmatched.shown hy
    · rw [if_neg hmate]
      by_cases hself : (t = u ∧ u.index < s.tables.size) ∧ y = x
      · obtain ⟨⟨rfl, -⟩, rfl⟩ := hself
        exact fun _ => hhidden hu' hy
      · rw [if_neg hself]
        exact hmatched.covered y hy
  · intro u hu hu'
    omega

section

variable {h : TableRef}

theorem table_childOf_of_lt {a b u : TableRef} (hu : u.index < s.tables.size) :
    ((s.childOf a).2.childOf b).2.table u = s.table u := by
  have hsize : (s.childOf a).2.tables.size = s.tables.size + 1 := by simp [childOf, allocateTable]
  rw [childOf, table_allocateTable, if_neg (by omega), childOf, table_allocateTable,
    if_neg (by omega)]

theorem Mated.children (hs : s.Mated X) (hlt : h.index < s.tables.size) (hh : s.IsHidden h) :
    let s₁ := ((s.childOf (s.mate h)).2.childOf h).2
    s₁.Mated X ∧ s₁.IsHidden ⟨s.tables.size + 1⟩ ∧
      s₁.mate ⟨s.tables.size + 1⟩ = ⟨s.tables.size⟩ := by
  intro s₁
  have hmatched := hs.matched h hlt hh
  obtain ⟨hsize, hopen, hhidden⟩ := table_children (s := s) hmatched.lt hlt
  change s₁.tables.size = s.tables.size + 2 at hsize
  change s₁.table ⟨s.tables.size⟩ = _ at hopen
  change s₁.table ⟨s.tables.size + 1⟩ = _ at hhidden
  have hkept : KeepsTables s s₁ :=
    keepsTables_of_changes ((ReflTransGen.single (.table _)).tail (.table _))
  rw [hkept.ancestors _ hmatched.lt] at hopen
  rw [hkept.ancestors h hlt] at hhidden
  have hshown : ¬ s₁.IsHidden ⟨s.tables.size⟩ := by
    have hmem := not_not.mp hmatched.shown
    rw [IsHidden, hopen, not_not]
    exact List.mem_cons_of_mem _ hmem
  have hishidden : s₁.IsHidden ⟨s.tables.size + 1⟩ := by
    rw [IsHidden, hhidden, List.mem_cons, not_or]
    exact ⟨by simp [globals], hh⟩
  have hmate : s₁.mate ⟨s.tables.size + 1⟩ = ⟨s.tables.size⟩ := by
    simp [mate, hhidden]
  refine ⟨hs.of_kept hkept ?_ ?_, hishidden, hmate⟩
  · intro u hu hu' x hx
    rw [table_childOf_of_lt hu, table_childOf_of_lt (hs.matched u hu hu').lt]
    exact (hs.matched u hu hu').covered x hx
  · rintro ⟨i⟩ hi hi' hu
    obtain rfl | rfl : i = s.tables.size ∨ i = s.tables.size + 1 := by
      dsimp only at hi hi'
      omega
    · exact absurd hu hshown
    · constructor
      · rw [hmate, hsize]
        exact Nat.lt_succ_of_lt (Nat.lt_succ_self _)
      · rwa [hmate]
      · rw [hmate, hopen, hhidden, hmatched.ancestors, List.map_cons, hkept.mate_eq hlt]
        dsimp only
        congr 1
        apply List.map_congr_left
        intro w hw
        exact (hkept.mate_eq (hmatched.behind w hw).1).symm
      · rw [hhidden]
        intro w hw
        have hw' : w.index < s.tables.size ∧ s.IsHidden w := by
          rcases List.mem_cons.mp hw with rfl | hw
          · exact ⟨hlt, hh⟩
          · exact hmatched.behind w hw
        exact ⟨Nat.lt_of_lt_of_le hw'.1 hkept.size, (hkept.isHidden_iff hw'.1).mpr hw'.2⟩
      · intro x _ hx
        rw [hhidden] at hx
        exact absurd rfl hx

end

theorem Mated.newTable (hs : s.Mated X) :
    let s₁ := (s.allocateTable ⟨[], []⟩).2
    s₁.Mated X ∧ s₁.IsHidden ⟨s.tables.size⟩ ∧ s₁.mate ⟨s.tables.size⟩ = globals := by
  intro s₁
  have hsize : s₁.tables.size = s.tables.size + 1 := by simp [s₁, allocateTable]
  have htable (u : TableRef) :
      s₁.table u = if u.index = s.tables.size then ⟨[], []⟩ else s.table u :=
    table_allocateTable s _ u
  have hold {u : TableRef} (hu : u.index < s.tables.size) : s₁.table u = s.table u := by
    rw [htable, if_neg (Nat.ne_of_lt hu)]
  have hnew : s₁.table ⟨s.tables.size⟩ = ⟨[], []⟩ := by rw [htable, if_pos rfl]
  have hkept : KeepsTables s s₁ := keepsTables_of_changes (.single (.table _))
  have hpos := hs.size
  have hhidden : s₁.IsHidden ⟨s.tables.size⟩ := by
    rw [IsHidden, hnew, List.mem_singleton]
    intro heq
    have hindex : 0 = s.tables.size := congrArg TableRef.index heq
    omega
  have hmate : s₁.mate ⟨s.tables.size⟩ = globals := by simp [mate, hnew]
  refine ⟨hs.of_kept hkept ?_ ?_, hhidden, hmate⟩
  · intro u hu hu' x hx
    rw [hold hu, hold (hs.matched u hu hu').lt]
    exact (hs.matched u hu hu').covered x hx
  · rintro ⟨i⟩ hi hi' hu
    obtain rfl : i = s.tables.size := by
      dsimp only at hi hi'
      omega
    constructor
    · rw [hmate, hsize]
      exact Nat.succ_pos _
    · rw [hmate]
      exact not_isHidden_globals s₁
    · rw [hmate, hnew, hkept.ancestors globals (Nat.lt_trans Nat.zero_lt_one hpos), hs.outermost]
      rfl
    · simp [hnew]
    · intro x _ hx
      rw [hnew] at hx
      exact absurd rfl hx

end Store

inductive Context.Mated (s : Store) : Context → Prop
  | intro {c : Context} (lt : c.hidden.index < s.tables.size) (hidden : s.IsHidden c.hidden)
    (mate : c.symbols = s.mate c.hidden) (outer : ∀ k, c.parent = some k → Mated s k) : Mated s c

variable {X : String → Prop} {s s' : Store} {c : Context} {t : TableRef} {x : String} {v : Value}

namespace Context.Mated

theorem mono (h : c.Mated s) (hk : s.KeepsTables s') : c.Mated s' := by
  induction h with
  | intro lt hidden mate _ ih =>
    refine .intro (Nat.lt_of_lt_of_le lt hk.size) ((hk.isHidden_iff lt).mpr hidden) ?_ ih
    rw [mate, hk.mate_eq lt]

theorem programContext (h : s.Mated X) (name : String) : (Eval.programContext name).Mated s :=
  .intro h.size h.isHidden_programNames h.mate_programNames.symm (by simp [Eval.programContext])

theorem symbols_eq (h : c.Mated s) (hs : s.Mated X) (hc : c.hidden = programNames) :
    c.symbols = globals := by
  obtain ⟨-, -, mate, -⟩ := h
  rw [mate, hc, hs.mate_programNames]

/-- The names of whole programs are not among the open ones. -/
theorem ne_programNames (h : c.Mated s) (hs : s.Mated X)
    (ht : t ∈ c.symbols :: (s.table c.symbols).ancestors) : t ≠ programNames := by
  obtain ⟨lt, hidden, mate, -⟩ := h
  have hmatched := hs.matched _ lt hidden
  rw [mate, hmatched.ancestors] at ht
  rcases List.mem_cons.mp ht with rfl | ht
  · exact hs.mate_ne lt hidden
  · obtain ⟨u, hu, rfl⟩ := List.mem_map.mp ht
    obtain ⟨hlt, hhidden⟩ := hmatched.behind u hu
    exact hs.mate_ne hlt hhidden

end Context.Mated

structure Store.Paired (s : Store) (X : String → Prop) : Prop where
  tables : s.Mated X
  contexts : ∀ r c, (s.object r).context = some c → c.Mated s

namespace Store.Paired

theorem of_contexts (h : s.Paired X) (ht : s'.tables = s.tables)
    (hc : ∀ r c, (s'.object r).context = some c → c.Mated s) : s'.Paired X where
  tables := h.tables.of_tables ht
  contexts r c hr := by
    apply (hc r c hr).mono
    refine .of_table (Nat.le_of_eq (by rw [ht])) fun u _ => ?_
    rw [table, table, ht]

theorem allocate {o : Object} (h : s.Paired X) (ho : ∀ c, o.context = some c → c.Mated s) :
    (s.allocate o).2.Paired X := by
  refine h.of_contexts rfl ?_
  intro r c hc
  rw [object_allocate] at hc
  split at hc
  · exact ho c hc
  · exact h.contexts r c hc

theorem enter (h : s.Paired X) (r : ObjectRef) (hc : c.Mated s) :
    (s.update r (·.within (some c))).Paired X := by
  refine h.of_contexts rfl ?_
  intro q k hk
  rw [object_update_eq] at hk
  split at hk
  · cases hk
    exact hc
  · exact h.contexts q k hk

theorem of_tables (h : s.Paired X) (hk : s.KeepsTables s') (ho : s'.objects = s.objects)
    (hs : s'.Mated X) : s'.Paired X where
  tables := hs
  contexts r c hr := by
    rw [object, ho] at hr
    exact (h.contexts r c hr).mono hk

theorem bind (h : s.Paired X) (hs : (s.bind t x v).Mated X) :
    (s.bind t x v).Paired X :=
  h.of_tables (keepsTables_of_changes (.single (.bind t x v))) rfl hs

theorem bindOpen (h : s.Paired X) (hc : c.Mated s) (hv : X x → v ≠ .absent) :
    (s.bind c.symbols x v).Paired X := by
  obtain ⟨lt, hidden, mate, -⟩ := hc
  apply h.bind (h.tables.bind (fun _ => hv) _)
  rw [mate]
  exact fun hshown => absurd hshown (h.tables.matched _ lt hidden).shown

theorem bindBoth (h : s.Paired X) (hc : c.Mated s) (hv : X x → v ≠ .absent) :
    ((s.bind c.symbols x v).bind c.hidden x v).Paired X := by
  have hopen := h.bindOpen (x := x) hc hv
  have hc' := hc.mono (keepsTables_of_changes (.single (.bind c.symbols x v)))
  obtain ⟨lt, -, mate, -⟩ := hc'
  obtain ⟨lt', hidden, mate', -⟩ := hc
  apply hopen.bind (hopen.tables.bind (fun _ => hv) _)
  intro _ hx
  rw [← mate, get_bind, if_pos]
  · exact hv hx
  · rw [mate']
    exact ⟨⟨rfl, (h.tables.matched _ lt' hidden).lt⟩, rfl⟩

theorem modest (h : s.Paired X) (hm : s.ModestChange s') : s'.Paired X := by
  cases hm with
  | fresh p => exact h.allocate (by simp [Object.fresh])
  | beside r p => exact h.allocate fun c hc => h.contexts r c hc
  | copy r => exact h.allocate fun c hc => h.contexts r c hc
  | place r span =>
    refine h.of_contexts rfl ?_
    intro q k hk
    rw [object_update_eq] at hk
    split at hk
    · exact h.contexts q k hk
    · exact h.contexts q k hk
  | list vs => exact h.of_contexts rfl h.contexts
  | elements cells f => exact h.of_contexts rfl h.contexts

theorem modests (h : s.Paired X) (hm : ReflTransGen ModestChange s s') : s'.Paired X := by
  induction hm with
  | refl => exact h
  | tail _ hc ih => exact ih.modest hc

/-- The tables of a call lie beside each other if those of the function do. -/
theorem callContext {callee : Object} {name : String} {m m' : Machine} (h : m.store.Paired X)
    (hcallee : ∀ c, callee.context = some c → c.Mated m.store)
    (hc : Eval.callContext callee name m = (.ok c, m')) : m'.store.Paired X ∧ c.Mated m'.store := by
  have hchanges := (Eval.mute_callContext callee name m).changes
  rw [hc] at hchanges
  have hkept := keepsTables_of_changes hchanges
  obtain ⟨outer, houter, rfl, rfl⟩ := Eval.callContext_eq_ok hc
  have hmated := hcallee outer houter
  obtain ⟨lt, hidden, mate, -⟩ := hcallee outer houter
  rw [mate] at hkept ⊢
  obtain ⟨htables, hnew, hmate⟩ := h.tables.children lt hidden
  refine ⟨h.of_tables hkept rfl htables, .intro ?_ hnew hmate.symm ?_⟩
  · simp [childOf, allocateTable]
  · rintro k ⟨⟩
    exact hmated.mono hkept

theorem receives {m m' : Machine} (h : m.store.Paired X) (hc : c.Mated m.store)
    (hr : Eval.Receives c m m') : m'.store.Paired X ∧ c.Mated m'.store := by
  cases hr with
  | enter r =>
    exact ⟨h.enter r hc, hc.mono (keepsTables_of_changes (.single (.value (.enter r _))))⟩
  | bind x r =>
    exact ⟨h.bindOpen hc (by simp), hc.mono (keepsTables_of_changes (.single (.bind _ _ _)))⟩

theorem entry {callee : Object} {name : String} {m m₁ m' : Machine} (h : m.store.Paired X)
    (hcallee : ∀ c, callee.context = some c → c.Mated m.store)
    (hc : Eval.callContext callee name m = (.ok c, m₁))
    (ha : ReflTransGen (Eval.Receives c) m₁ m') : m'.store.Paired X ∧ c.Mated m'.store := by
  induction ha with
  | refl => exact h.callContext hcallee hc
  | tail _ hr ih => exact ih.1.receives ih.2 hr

theorem bindMain (h : s.Paired X) (hX : ¬ X "is_main") (r : ObjectRef) :
    (s.bind t "is_main" (.object r)).Paired X := by
  apply h.bind (h.tables.bind (by simp) _)
  exact fun _ hx => absurd hx hX

theorem mainMachine {m : Machine} (h : m.store.Paired X) (hX : ¬ X "is_main") :
    (Eval.mainMachine m).store.Paired X :=
  Store.Paired.bindMain (h.allocate (by simp [Object.fresh])) hX _

theorem module {m m₁ m₂ m₃ : Machine} {hidden : TableRef} {zero : Value} (h : m.store.Paired X)
    (hX : ¬ X "is_main")
    (hh : Eval.newTable m = (.ok hidden, m₁))
    (hz : Eval.make (.number (.int 0)) m₁ = (.ok zero, m₂))
    (hb : Eval.bind hidden "is_main" zero m₂ = (.ok (), m₃)) (path : String) :
    m₃.store.Paired X ∧ (Eval.moduleContext path hidden).Mated m₃.store := by
  cases hh
  cases hz
  cases hb
  obtain ⟨htables, hhidden, hmate⟩ := h.tables.newTable
  have htable := h.of_tables (keepsTables_of_changes (.single (.table ⟨[], []⟩))) rfl htables
  refine ⟨Store.Paired.bindMain (htable.allocate (by simp [Object.fresh])) hX _, ?_⟩
  have hcontext : (Eval.moduleContext path ⟨m.store.tables.size⟩).Mated
      (m.store.allocateTable ⟨[], []⟩).2 := by
    refine .intro ?_ hhidden hmate.symm (by simp [Eval.moduleContext])
    simp [Eval.moduleContext, allocateTable]
  exact hcontext.mono (keepsTables_of_changes
    ((ReflTransGen.single (.value (.object _))).tail (.bind _ _ _)))

end Store.Paired

/-- A fresh session has no hidden names but `is_main`, and no contexts. -/
theorem Machine.paired_freshStore (hX : ¬ X "is_main") : freshStore.Paired X := by
  have hsize : freshStore.tables.size = 2 := by decide +kernel
  have houtermost : (freshStore.table globals).ancestors = [] := by decide +kernel
  have hhidden : (freshStore.table programNames).ancestors = [] := by decide +kernel
  have hnames : (freshStore.table programNames).entries.map (·.1) = ["is_main"] := by
    decide +kernel
  have hmate : freshStore.mate programNames = globals := by simp [Store.mate, hhidden]
  constructor
  · refine ⟨by omega, houtermost, hhidden, ?_⟩
    rintro ⟨i⟩ hi ht
    obtain rfl | rfl : i = 0 ∨ i = 1 := by
      dsimp only at hi
      omega
    · exact absurd ht (Store.not_isHidden_globals _)
    · change freshStore.Matched X programNames
      refine ⟨?_, ?_, ?_, ?_, ?_⟩
      · rw [hmate, hsize]
        decide
      · rw [hmate]
        exact Store.not_isHidden_globals _
      · rw [hmate, houtermost, hhidden]
        rfl
      · simp [hhidden]
      · intro x hx hget
        have hne : x ≠ "is_main" := fun heq => hX (heq ▸ hx)
        refine absurd ?_ hget
        obtain ⟨⟨name, v⟩, hentries, hname⟩ := List.map_eq_singleton_iff.mp hnames
        have hname : name = "is_main" := hname
        rw [Table.get, hentries, List.lookup_cons, hname, beq_false_of_ne hne]
        rfl
  · intro r c hc
    have hnone : freshStore.objects.all (·.context.isNone) = true := by decide +kernel
    rw [Store.object] at hc
    rcases ho : freshStore.objects[r.index]? with _ | o <;> rw [ho] at hc
    · cases hc
    · have hfresh := Array.all_eq_true_iff_forall_mem.mp hnone o (Array.mem_of_getElem? ho)
      rw [Option.getD_some] at hc
      rw [hc] at hfresh
      cases hfresh

namespace Eval

theorem exists_receives {r : ObjectRef} {callee : Object} {name : String} {params : List String}
    {args : List Value} {m m' : Machine}
    (h : enterFunction r callee name params args m = (.ok c, m')) :
    ∃ m₁, callContext callee name m = (.ok c, m₁) ∧ ReflTransGen (Receives c) m₁ m' := by
  obtain ⟨m₁, m₂, refs, hc, hcount, hargs⟩ := enterFunction_eq_ok h
  obtain rfl := (Still.checkCount _ _ _ _).eq hcount
  have hreceives := receives_bindArgs c params args m₂
  rw [hargs] at hreceives
  exact ⟨m₂, hc, hreceives⟩

namespace Event

/-- The event is an assignment of nothing. -/
def assignsNothing : Event → Bool
  | .part (.inside depth context ⟨.node (.assign _ _ value), fuel + 1, m⟩) =>
    match eval fuel depth context value m with
    | (.ok .absent, _) => true
    | _ => false
  | _ => false

/-- Whatever the event assigns is a value. -/
abbrev AssignsValues (e : Event) : Prop := e.assignsNothing = false

/-- The name that the event binds in a table of its context, if it is of this kind. -/
def bindsHere (x : String) : Event → Bool
  | .part (.inside _ _ ⟨.node (.assign _ y _), _, _⟩)
  | .part (.inside _ _ ⟨.node (.function _ (some y) _ _ _), _, _⟩)
  | .part (.inside _ _ ⟨.forRounds y _ _ _ _ _ _, _, _⟩) => y == x
  | _ => false

/-- The event assigns nothing to the name. -/
def unbinds (x : String) (e : Event) : Bool := e.assignsNothing && e.bindsHere x

def Paired (X : String → Prop) : Event → Prop
  | .part (.inside _ c p) => p.machine.store.Paired X ∧ c.Mated p.machine.store
  | .part (.call _ _ _ _ m) | .text _ _ _ m | .file _ _ _ m => m.store.Paired X

theorem Paired.store {e : Event} (h : e.Paired X) : e.machine.store.Paired X := by
  rcases e with _ | _ | (_ | _)
  · exact h
  · exact h
  · exact h.1
  · exact h

def KeepsPaired (X : String → Prop) (m m' : Machine) : Prop :=
  (m.store.Paired X → m'.store.Paired X) ∧ m.store.KeepsTables m'.store

theorem keepsPaired_act {e : Event} {m m' : Machine} (hX : ¬ X "is_main")
    (hP : ∀ x, X x → e.unbinds x = false) (he : e.Paired X) (hm : KeepsPaired X e.machine m)
    (h : Acts e m m') : KeepsPaired X m m' := by
  refine ⟨fun _ => ?_, Store.keepsTables_of_changes h.changes⟩
  have hstore := hm.1 he.store
  cases h with
  | world => exact hstore
  | value h => exact hstore.modest h
  | data hc | function hc =>
    refine hstore.allocate fun k hk => ?_
    cases hc.symm.trans hk
    exact he.2.mono hm.2
  | enter r => exact hstore.enter r (he.2.mono hm.2)
  | name r => exact hstore.bindOpen (he.2.mono hm.2) (by simp)
  | @assign depth context fuel span x value m₀ v m hv =>
    refine hstore.bindBoth (he.2.mono hm.2) ?_
    rintro hx rfl
    have hvalue := hP x hx
    simp [unbinds, bindsHere, assignsNothing, hv] at hvalue
  | entry hc ha => exact (he.entry (he.contexts _) hc ha).1
  | program => exact Store.Paired.mainMachine he hX
  | module hh hz hb => exact (Store.Paired.module he hX hh hz hb "").1

theorem keepsPaired_part {e f : Event} (hX : ¬ X "is_main") (he : e.Paired X)
    (hf : KeepsPaired X e.machine f.machine) (h : Leads e f) : f.Paired X := by
  have hstore := hf.1 he.store
  cases h with
  | program ht => exact ⟨hstore, .programContext hstore.tables _⟩
  | module _ _ hh hz hb => exact Store.Paired.module he hX hh hz hb _
  | think | importFile | run => exact hstore
  | part h =>
    cases h with
    | enters => exact ⟨hstore, he.2.mono hf.2⟩
    | call => exact hstore
    | body hp henter =>
      obtain ⟨m₁, hc, ha⟩ := exists_receives henter
      exact Store.Paired.entry he (he.contexts _) hc ha

theorem invariant_paired {P : Event → Prop} (hX : ¬ X "is_main")
    (hP : ∀ e x, P e → X x → e.unbinds x = false) : Invariant P (Paired X) (KeepsPaired X) where
  trans h h' := ⟨fun hm => h'.1 (h.1 hm), h.2.trans h'.2⟩
  modest h := by
    refine ⟨fun hm => hm.modests h, Store.keepsTables_of_changes ?_⟩
    exact ReflTransGen.mono (fun _ _ hc => .value hc.value) _ _ h
  act he := keepsPaired_act hX (hP _ · he)
  part _ := keepsPaired_part hX

theorem invariant_assignsValues :
    Invariant AssignsValues (Paired (· ≠ "is_main")) (KeepsPaired (· ≠ "is_main")) :=
  invariant_paired (not_not.mpr rfl) fun e x he _ => by simp [unbinds, he]

variable {e : Event}

theorem OccursIn.paired (h : OccursIn AssignsValues e) : e.Paired (· ≠ "is_main") := by
  refine invariant_assignsValues.occursIn (J := fun m => m.store.Paired (· ≠ "is_main")) ?_ ?_ ?_
    ?_ h
  · exact fun _ => Machine.paired_freshStore (not_not.mpr rfl)
  · exact fun _ _ hm => hm
  · intro e he hm
    cases e with
    | text | file => exact hm
    | part => cases he
  · exact fun _ _ hm hR => hR.1 hm

/-- The contexts of a session when the event happens: those of the activations that are under way,
those that objects carry, and those around them. -/
inductive Knows (P : Event → Prop) (e : Event) : Context → Prop
  | active {depth c p} (hp : OccursIn P (.part (.inside depth c p)))
    (h : ReflTransGen Leads (.part (.inside depth c p)) e) : Knows P e c
  | carried {r c} (h : (e.machine.store.object r).context = some c) : Knows P e c
  | outer {c k} (h : Knows P e c) (hk : c.parent = some k) : Knows P e k

theorem Knows.mated (h : OccursIn AssignsValues e)
    (hc : e.Knows AssignsValues c) : c.Mated e.machine.store := by
  induction hc with
  | active hp hl =>
    have hreach := invariant_assignsValues.reaches (fun _ hf => hp.reaches hf) hp.paired hl
    exact hp.paired.2.mono hreach.1.2
  | carried hr => exact h.paired.store.contexts _ _ hr
  | outer _ hk ih =>
    obtain ⟨-, -, -, houter⟩ := ih
    exact houter _ hk

/-- In a session in which nothing is ever assigned to a name, every name but `is_main` is what the
open tables say: it is not defined if they have no value for it, and otherwise it is theirs. -/
theorem OccursIn.access_open (h : OccursIn AssignsValues e)
    (hc : e.Knows AssignsValues c) (hx : x ≠ "is_main") (fuel depth : Nat)
    (span : Span) :
    eval (fuel + 1) depth c (.access span x) e.machine =
        valueRead c span x (e.machine.store.lookup c.symbols x) e.machine ∧
      (eval (fuel + 1) depth c (.access span x) e.machine =
          (.error (.error ⟨.runtime, s!"'{x}' is not defined", some span.start, some span.stop,
            some c⟩), e.machine) ↔
        e.machine.store.lookup c.symbols x = .absent) ∧
      (e.machine.store.lookup c.hidden x ≠ .absent →
        e.machine.store.lookup c.symbols x ≠ .absent) := by
  obtain ⟨lt, hidden, mate, -⟩ := hc.mated h
  have hcovered : e.machine.store.lookup c.hidden x ≠ .absent →
      e.machine.store.lookup c.symbols x ≠ .absent := by
    rw [mate]
    exact h.paired.store.tables.lookup_mate_ne_absent lt hidden hx
  have hmeaning : e.machine.store.meaning c x = e.machine.store.lookup c.symbols x := by
    rw [Store.meaning]
    split
    · next hnone =>
      rw [hnone]
      by_contra hne
      exact hcovered hne hnone
    · rfl
  refine ⟨by rw [eval, access_eq, hmeaning], ?_, hcovered⟩
  rw [eval, access_eq, hmeaning]
  constructor
  · intro herror
    cases hv : e.machine.store.lookup c.symbols x with
    | absent => rfl
    | bare t =>
      rw [hv] at herror
      cases herror
    | object r =>
      rw [hv] at herror
      have hread : PlainWithin (fun _ _ => False) (valueRead c span x (.object r)) :=
        (PlainWithin.copyTo r span c).bind fun _ => .pure _
      exact (hread.stop herror).elim
  · intro hnone
    rw [hnone]
    rfl

def readsGlobal : Event :=
  .text 14 9 ⟨"<stdin>", "x = 1\nfunc f() -> x\nf()"⟩ (Machine.start (.start ⟨"/home", []⟩))

def readsInCall : Event → Bool
  | .part (.inside _ c ⟨.node (.access _ "x"), _ + 1, m⟩) =>
    c.parent.isSome && m.store.lookup c.hidden "x" ≠ .absent
  | _ => false

/-- The body of the function reads the open name. -/
theorem OccursIn.access_open_call : ∃ e c fuel depth span, OccursIn AssignsValues e ∧
    e.Knows AssignsValues c ∧ c.parent.isSome = true ∧
    e.machine.store.lookup c.hidden "x" ≠ .absent ∧
    e.machine.store.lookup c.symbols "x" ≠ .absent ∧
    eval (fuel + 1) depth c (.access span "x") e.machine =
      valueRead c span "x" (e.machine.store.lookup c.symbols "x") e.machine := by
  have hvalues : ∀ f ∈ reached 15 readsGlobal, f.AssignsValues := by
    have hall : (reached 15 readsGlobal).all (!·.assignsNothing) = true := by decide +kernel
    simpa using hall
  have hany : (reached 15 readsGlobal).any readsInCall = true := by decide +kernel
  obtain ⟨e, he, hread⟩ := List.any_eq_true.mp hany
  have hoccurs : OccursIn AssignsValues e := .of_reached (.start _) rfl (by decide) hvalues he
  unfold readsInCall at hread
  split at hread
  · next depth c span fuel m =>
    rw [Bool.and_eq_true, decide_eq_true_eq] at hread
    have hknows := Knows.active hoccurs .refl
    obtain ⟨hvalue, -, hcovered⟩ := hoccurs.access_open hknows (by decide : "x" ≠ "is_main") fuel
      depth span
    exact ⟨_, c, fuel, depth, span, hoccurs, hknows, hread.1, hread.2, hcovered hread.2, hvalue⟩
  · cases hread

end Event

end Eval

end Think
