import Think.Proofs.Eval.Hidden

/-! # The main program

A text that is run finds `is_main` among the hidden names of all programs, where every run sets it
to one. A file that is imported finds it in a hidden table of its own, where it is zero. Once a
program has bound it to a value for all, nobody looks at what it is for whole programs.
-/

namespace Think

open Eval (globals programNames)
open Relation (ReflTransGen)

namespace Store

/-- In the table `is_main` is the number `n`. -/
def Flag (s : Store) (t : TableRef) (n : Int) : Prop :=
  ∃ r, (s.table t).get "is_main" = .object r ∧ r.index < s.objects.size ∧
    (s.object r).payload = .number (.int n)

structure Unmarked (s : Store) : Prop where
  size : 1 < s.tables.size
  outermost : (s.table globals).ancestors = []
  absent : (s.table globals).get "is_main" = .absent

/-- The name stays what it is, but for whole programs, where it may become one. -/
structure KeepsFlags (s s' : Store) : Prop where
  tables : s.KeepsTables s'
  unmarked : s.Unmarked → s'.Unmarked
  flag : ∀ (t : TableRef) (n : Int), (t = programNames → n = 1) → s.Flag t n → s'.Flag t n

variable {s s' : Store} {t : TableRef} {n : Int}

theorem lt_of_get_ne_absent {x : String} (h : (s.table t).get x ≠ .absent) :
    t.index < s.tables.size := by
  by_contra hlt
  have htable : s.table t = ⟨[], []⟩ := by simp [table, hlt]
  rw [htable] at h
  exact h rfl

theorem Flag.lt (h : s.Flag t n) : t.index < s.tables.size := by
  obtain ⟨r, hr, -⟩ := h
  apply lt_of_get_ne_absent
  rw [hr]
  simp

theorem Flag.of_changes (h : s.Flag t n) (hc : ReflTransGen Change s s')
    (hget : (s'.table t).get "is_main" = (s.table t).get "is_main") : s'.Flag t n := by
  obtain ⟨r, hr, hlt, hpayload⟩ := h
  refine ⟨r, hget.trans hr, ?_, (payload_of_changes hc hlt).trans hpayload⟩
  exact Nat.lt_of_lt_of_le hlt (size_of_changes hc)

theorem flag_bind (s : Store) (n : Int) (ht : t.index < s.tables.size) :
    ((s.allocate (.fresh (.number (.int n)))).2.bind t "is_main"
      (.object ⟨s.objects.size⟩)).Flag t n := by
  refine ⟨⟨s.objects.size⟩, ?_, ?_, ?_⟩
  · rw [get_bind, if_pos ⟨⟨rfl, ht⟩, rfl⟩]
  · simp [Store.bind, allocate]
  · exact congrArg Object.payload (object_push s _)

theorem changes_of_writes {W : TableRef → String → Prop} (h : ReflTransGen (Write W) s s') :
    ReflTransGen Change s s' := by
  refine ReflTransGen.mono ?_ _ _ h
  intro s₁ s₂ hw
  cases hw with
  | value hv => exact .value hv
  | table T => exact .table T
  | bind v _ => exact .bind _ _ v

/-- Nothing is bound but other names and in tables that are new. -/
abbrev SparesMain (s s' : Store) : Prop :=
  ReflTransGen (Write fun t x => x ≠ "is_main" ∨ s.tables.size ≤ t.index) s s'

theorem SparesMain.of_modest (h : ReflTransGen ModestChange s s') : s.SparesMain s' :=
  ReflTransGen.mono (fun _ _ hc => .value hc.value) _ _ h

theorem SparesMain.get_eq (h : s.SparesMain s') (ht : t.index < s.tables.size) :
    (s'.table t).get "is_main" = (s.table t).get "is_main" := by
  rw [Table.get, Table.get, (kept_of_writes h).entry t "is_main" ht]
  simpa using ht

theorem get_mainMachine (m : Machine) (ht : t ≠ programNames) :
    ((Eval.mainMachine m).store.table t).get "is_main" = (m.store.table t).get "is_main" := by
  rw [Eval.mainMachine, get_bind, if_neg]
  · rfl
  · rintro ⟨⟨rfl, -⟩, -⟩
    exact ht rfl

namespace KeepsFlags

theorem trans {s'' : Store} (h : s.KeepsFlags s') (h' : s'.KeepsFlags s'') : s.KeepsFlags s'' where
  tables := h.tables.trans h'.tables
  unmarked hs := h'.unmarked (h.unmarked hs)
  flag t n hn hs := h'.flag t n hn (h.flag t n hn hs)

theorem of_changes (hc : ReflTransGen Change s s')
    (hglobals : s.Unmarked → (s'.table globals).get "is_main" = (s.table globals).get "is_main")
    (hflag : ∀ (t : TableRef) (n : Int), (t = programNames → n = 1) → s.Flag t n → s'.Flag t n) :
    s.KeepsFlags s' where
  tables := keepsTables_of_changes hc
  unmarked hs := by
    have hkept := keepsTables_of_changes hc
    refine ⟨Nat.lt_of_lt_of_le hs.size hkept.size, ?_, (hglobals hs).trans hs.absent⟩
    exact (hkept.ancestors _ (Nat.lt_trans Nat.zero_lt_one hs.size)).trans hs.outermost
  flag := hflag

theorem of_sparesMain (h : s.SparesMain s') : s.KeepsFlags s' := by
  apply of_changes (changes_of_writes h)
  · exact fun hs => h.get_eq (Nat.lt_trans Nat.zero_lt_one hs.size)
  · exact fun t n _ hflag => hflag.of_changes (changes_of_writes h) (h.get_eq hflag.lt)

theorem mainMachine (m : Machine) : m.store.KeepsFlags (Eval.mainMachine m).store := by
  have hchanges : ReflTransGen Change m.store (Eval.mainMachine m).store :=
    (ReflTransGen.single (.value (.object _))).tail (.bind _ _ _)
  apply of_changes hchanges
  · exact fun _ => get_mainMachine m (by decide)
  · intro t n hn hflag
    by_cases hprogram : t = programNames
    · obtain rfl := hn hprogram
      subst hprogram
      exact flag_bind m.store 1 hflag.lt
    · exact hflag.of_changes hchanges (get_mainMachine m hprogram)

end KeepsFlags

theorem sparesMain_module {m m₁ m₂ m₃ : Machine} {hidden : TableRef} {zero : Value}
    (hh : Eval.newTable m = (.ok hidden, m₁))
    (hz : Eval.make (.number (.int 0)) m₁ = (.ok zero, m₂))
    (hb : Eval.bind hidden "is_main" zero m₂ = (.ok (), m₃)) :
    m.store.SparesMain m₃.store ∧ hidden = ⟨m.store.tables.size⟩ ∧ m₃.store.Flag hidden 0 := by
  cases hh
  cases hz
  cases hb
  refine ⟨?_, rfl, ?_⟩
  · refine ((ReflTransGen.single (.table _)).tail (.value (.object _))).tail (.bind _ (.inr ?_))
    exact Nat.le_refl _
  · apply flag_bind
    simp

/-- The globals have a value for `is_main`, which hides the one of whole programs. -/
def HidesMain (s : Store) : Prop := (s.table globals).get "is_main" ≠ .absent

/-- What `is_main` is for whole programs is hidden, or it is one. -/
def KnowsMain (s : Store) : Prop := s.HidesMain ∨ s.Flag programNames 1

/-- The name of whole programs, if it is hidden. -/
def MainHidden (s : Store) (t : TableRef) (x : String) : Prop :=
  t = programNames ∧ x = "is_main" ∧ s.HidesMain

structure KeepsMain (s s' : Store) : Prop where
  hides : s.HidesMain → s'.HidesMain
  known : s.KnowsMain → s'.KnowsMain

namespace KeepsMain

theorem trans {s'' : Store} (h : s.KeepsMain s') (h' : s'.KeepsMain s'') : s.KeepsMain s'' where
  hides hs := h'.hides (h.hides hs)
  known hs := h'.known (h.known hs)

theorem of_sparesMain (h : s.SparesMain s') : s.KeepsMain s' := by
  have hhides (hs : s.HidesMain) : s'.HidesMain := by
    rw [HidesMain, h.get_eq (lt_of_get_ne_absent hs)]
    exact hs
  refine ⟨hhides, fun hs => hs.imp hhides fun hflag => ?_⟩
  exact hflag.of_changes (changes_of_writes h) (h.get_eq hflag.lt)

theorem mainMachine (m : Machine) : m.store.KeepsMain (Eval.mainMachine m).store := by
  have hhides (hs : m.store.HidesMain) : (Eval.mainMachine m).store.HidesMain := by
    rw [HidesMain, get_mainMachine m (by decide)]
    exact hs
  exact ⟨hhides, fun hs => hs.imp hhides fun hflag => flag_bind m.store 1 hflag.lt⟩

/-- A value may be bound for all, and for whole programs once it is hidden what they get. -/
theorem bind {v : Value} (hv : v ≠ .absent) (ht : t = programNames → s.HidesMain) :
    s.KeepsMain (s.bind t "is_main" v) := by
  have hhides (hs : s.HidesMain) : (s.bind t "is_main" v).HidesMain := by
    rw [HidesMain, get_bind]
    split
    · exact hv
    · exact hs
  refine ⟨hhides, fun hs => ?_⟩
  by_cases hprogram : t = programNames
  · exact .inl (hhides (ht hprogram))
  · refine hs.imp hhides fun hflag => hflag.of_changes (.single (.bind _ _ _)) ?_
    rw [get_bind, if_neg fun hif => hprogram hif.1.1]

end KeepsMain

theorem search_ne_absent_of_mem {x : String} {ts : List TableRef} (ht : t ∈ ts)
    (h : (s.table t).get x ≠ .absent) : s.search x ts ≠ .absent := by
  induction ts with
  | nil => cases ht
  | cons u ts ih =>
    rw [search]
    split
    · next hu =>
      rcases List.mem_cons.mp ht with rfl | ht
      · exact absurd hu h
      · exact ih ht
    · next hu => exact hu

/-- A global `is_main` is found before that of whole programs. -/
theorem HidesMain.clear {X : String → Prop} {A : TableRef → String → Prop} {c : Context}
    (h : s.HidesMain) (hs : s.Mated X) (hc : c.Mated s)
    (hA : ∀ t x, A t x → t = programNames ∧ x = "is_main") (x : String) : s.Clear A c x where
  symbols t ht hx := hc.ne_programNames hs ht (hA t x hx).1
  hidden hnone t _ hx := by
    obtain ⟨rfl, rfl⟩ := hA t x hx
    obtain ⟨lt, hidden, mate, -⟩ := hc
    have hmem := not_not.mp (hs.matched _ lt hidden).shown
    rw [← mate] at hmem
    exact search_ne_absent_of_mem hmem h hnone

end Store

theorem Machine.unmarked_freshStore : freshStore.Unmarked :=
  ⟨by decide +kernel, by decide +kernel, by decide +kernel⟩

namespace Eval

namespace Event

/-- The event does not bind `is_main`. -/
abbrev LeavesMain (e : Event) : Prop := e.bindsHere "is_main" = false

structure Flagged (s : Store) (c : Context) : Prop where
  symbols : c.symbols = globals
  flag : s.Flag c.hidden (if c.hidden = programNames then 1 else 0)

def MainKnown : Event → Prop
  | .part (.inside _ c p) =>
    p.machine.store.Unmarked ∧ (c.parent = none → Flagged p.machine.store c)
  | .part (.call _ _ _ _ m) | .text _ _ _ m | .file _ _ _ m => m.store.Unmarked

theorem MainKnown.store {e : Event} (h : e.MainKnown) : e.machine.store.Unmarked := by
  rcases e with _ | _ | (_ | _)
  · exact h
  · exact h
  · exact h.1
  · exact h

/-- The act binds `is_main` in the context of the event. -/
inductive BindsMain (e : Event) (c : Context) (s : Store) : Store → Prop
  | symbols (r : ObjectRef) : BindsMain e c s (s.bind c.symbols "is_main" (.object r))
  | both {v : Value} (hv : v = .absent → e.assignsNothing = true) :
    BindsMain e c s ((s.bind c.symbols "is_main" v).bind c.hidden "is_main" v)

theorem Acts.main_cases {e : Event} {m m' : Machine} (h : Acts e m m') :
    m' = mainMachine m ∨ m.store.SparesMain m'.store ∨ e.bindsHere "is_main" = true ∧
      ∃ depth c p, e = .part (.inside depth c p) ∧ BindsMain e c m.store m'.store := by
  cases h with
  | world => exact .inr (.inl .refl)
  | value h => exact .inr (.inl (.single (.value h.value)))
  | data | function => exact .inr (.inl (.single (.value (.object _))))
  | enter r => exact .inr (.inl (.single (.value (.enter r _))))
  | @name _ _ p _ x r hx =>
    by_cases hmain : x = "is_main"
    · subst hmain
      refine .inr (.inr ⟨?_, _, _, _, rfl, .symbols r⟩)
      obtain ⟨task, fuel, m₀⟩ := p
      cases hx <;> simp [bindsHere]
    · exact .inr (.inl (.single (.bind _ (.inl hmain))))
  | @assign _ _ _ _ x _ _ v _ hv =>
    by_cases hmain : x = "is_main"
    · subst hmain
      refine .inr (.inr ⟨by simp [bindsHere], _, _, _, rfl, .both ?_⟩)
      rintro rfl
      simp [assignsNothing, hv]
    · exact .inr (.inl ((ReflTransGen.single (.bind _ (.inl hmain))).tail (.bind _ (.inl hmain))))
  | entry hc ha =>
    obtain ⟨outer, -, rfl, rfl⟩ := callContext_eq_ok hc
    have hreceives := ReflTransGen.lift (p := Store.Write fun t x =>
      x ≠ "is_main" ∨ m.store.tables.size ≤ t.index) Machine.store ?_ _ _ ha
    · exact .inr (.inl (((ReflTransGen.single (.table _)).tail (.table _)).trans hreceives))
    · intro m₁ m₂ hr
      cases hr with
      | enter r => exact .value (.enter r _)
      | bind x r => exact .bind _ (.inr (Nat.le_refl _))
  | program => exact .inl rfl
  | module hh hz hb => exact .inr (.inl (Store.sparesMain_module hh hz hb).1)

theorem keepsFlags_act {e : Event} {m m' : Machine} (hP : e.LeavesMain) (h : Acts e m m') :
    m.store.KeepsFlags m'.store := by
  rcases h.main_cases with rfl | hspares | ⟨hbinds, -⟩
  · exact .mainMachine m
  · exact .of_sparesMain hspares
  · rw [hP] at hbinds
    cases hbinds

/-- The event does not bind `is_main` to nothing. -/
abbrev KeepsMainBound (e : Event) : Prop := e.unbinds "is_main" = false

theorem keepsMain_act {e : Event} {m m' : Machine} {X : String → Prop} (hP : e.KeepsMainBound)
    (he : e.Paired X) (hm : KeepsPaired X e.machine m) (h : Acts e m m') :
    m.store.KeepsMain m'.store := by
  rcases h.main_cases with rfl | hspares | ⟨hbinds, depth, c, p, rfl, hbound⟩
  · exact .mainMachine m
  · exact .of_sparesMain hspares
  · have hstore := (hm.1 he.store).tables
    have hc := he.2.mono hm.2
    have hsymbols : c.symbols ≠ programNames := hc.ne_programNames hstore List.mem_cons_self
    generalize m'.store = s' at hbound
    cases hbound with
    | symbols r => exact .bind (by simp) fun heq => absurd heq hsymbols
    | @both v hv =>
      have hvalue : v ≠ .absent := by
        intro hnone
        simp [KeepsMainBound, unbinds, hbinds, hv hnone] at hP
      refine Store.KeepsMain.trans (.bind hvalue fun heq => absurd heq hsymbols) (.bind hvalue ?_)
      -- Where whole programs have their names, the open ones are the globals.
      intro hhidden
      have hlt : globals.index < m.store.tables.size := Nat.lt_trans Nat.zero_lt_one hstore.size
      rw [hc.symbols_eq hstore hhidden, Store.HidesMain, Store.get_bind, if_pos ⟨⟨rfl, hlt⟩, rfl⟩]
      exact hvalue

theorem invariant_keepsMain : Invariant KeepsMainBound (Paired fun _ => False)
    fun m m' => KeepsPaired (fun _ => False) m m' ∧ m.store.KeepsMain m'.store := by
  have hpaired : Invariant KeepsMainBound (Paired fun _ => False) (KeepsPaired fun _ => False) :=
    invariant_paired id fun _ _ _ hx => hx.elim
  constructor
  · exact fun h h' => ⟨hpaired.trans h.1 h'.1, h.2.trans h'.2⟩
  · intro m m' h
    exact ⟨hpaired.modest h, .of_sparesMain (.of_modest h)⟩
  · exact fun hP he hm h => ⟨hpaired.act hP he hm.1 h, keepsMain_act hP he hm.1 h⟩
  · exact fun hP he hf h => hpaired.part hP he hf.1 h

/-- Nobody looks at what `is_main` is for whole programs while it is hidden, and it stays so. -/
theorem allClear_of_mainHidden {e : Event} {A : TableRef → String → Prop}
    (hP : ∀ f, ReflTransGen Leads e f → f.KeepsMainBound) (he : e.Paired fun _ => False)
    (hA : ∀ t x, A t x → e.machine.store.MainHidden t x) : e.AllClear A := by
  by_cases hhides : e.machine.store.HidesMain
  · intro f hf
    obtain ⟨⟨-, hkeeps⟩, hpaired⟩ := invariant_keepsMain.reaches hP he hf
    unfold Clear
    split
    · exact (hkeeps.hides hhides).clear hpaired.1.tables hpaired.2
        (fun t x hx => ⟨(hA t x hx).1, (hA t x hx).2.1⟩) _
    · trivial
  · exact allClear (fun t x hx => hhides (hA t x hx).2.2) e

/-- The table a module gets for its flag is never that of the programs. -/
theorem flagged_module_iff {s s' : Store} {path : String} (h : s.Unmarked) :
    Flagged s' (moduleContext path ⟨s.tables.size⟩) ↔ s'.Flag ⟨s.tables.size⟩ 0 := by
  have hne : (moduleContext path ⟨s.tables.size⟩).hidden ≠ programNames := by
    intro heq
    have hindex : s.tables.size = 1 := congrArg TableRef.index heq
    have hsize := h.size
    omega
  constructor
  · rintro ⟨-, hflag⟩
    rwa [if_neg hne] at hflag
  · intro hflag
    exact ⟨rfl, by rwa [if_neg hne]⟩

theorem keepsFlags_part {e f : Event} (he : e.MainKnown)
    (hf : e.machine.store.KeepsFlags f.machine.store) (h : Leads e f) : f.MainKnown := by
  have hstore := hf.unmarked he.store
  cases h with
  | program ht =>
    exact ⟨hstore, fun _ => ⟨rfl, Store.flag_bind _ 1 he.store.size⟩⟩
  | module _ _ hh hz hb =>
    obtain ⟨-, rfl, hflag⟩ := Store.sparesMain_module hh hz hb
    exact ⟨hstore, fun _ => (flagged_module_iff he.store).2 hflag⟩
  | think | importFile | run => exact hstore
  | part h =>
    cases h with
    | enters =>
      refine ⟨hstore, fun hc => ?_⟩
      obtain ⟨hsymbols, hflag⟩ := he.2 hc
      exact ⟨hsymbols, hf.flag _ _ (fun heq => if_pos heq) hflag⟩
    | call => exact hstore
    | body hp henter =>
      obtain ⟨m₁, hc, -⟩ := exists_receives henter
      obtain ⟨outer, -, rfl, -⟩ := callContext_eq_ok hc
      exact ⟨hstore, by simp⟩

theorem invariant_mainKnown :
    Invariant LeavesMain MainKnown fun m m' => m.store.KeepsFlags m'.store where
  trans h h' := h.trans h'
  modest h := .of_sparesMain (.of_modest h)
  act hP _ _ := keepsFlags_act hP
  part _ := keepsFlags_part

variable {e : Event}

theorem OccursIn.mainKnown (h : OccursIn LeavesMain e) : e.MainKnown := by
  refine invariant_mainKnown.occursIn (J := fun m => m.store.Unmarked) ?_ ?_ ?_ ?_ h
  · exact fun _ => Machine.unmarked_freshStore
  · exact fun _ _ hm => hm
  · intro e he hm
    cases e with
    | text | file => exact hm
    | part => cases he
  · exact fun _ _ hm hR => hR.unmarked hm

/-- What `is_main` is worth in a whole text or file. -/
def mainValue : Event → Int
  | .text _ _ _ _ => 1
  | _ => 0

/-- Whatever a program or module comes to in its own context finds the name as it is set for it. -/
theorem OccursIn.flag {depth : Nat} {c : Context} {p q : Point} (h : OccursIn LeavesMain e)
    (he : e.isProgram = true) (hl : Leads e (.part (.inside depth c p)))
    (hq : Reaches depth c p q) :
    q.machine.store.Unmarked ∧ c.symbols = globals ∧ q.machine.store.Flag c.hidden e.mainValue := by
  obtain ⟨hunmarked, hflagged⟩ := ((OccursIn.leads h hl).trans (leads_of_reaches hq)).mainKnown
  have hmain := h.mainKnown.store
  cases hl with
  | program ht =>
    obtain ⟨hsymbols, hflag⟩ := hflagged rfl
    exact ⟨hunmarked, hsymbols, hflag⟩
  | module _ _ hh hz hb =>
    obtain ⟨-, rfl, -⟩ := Store.sparesMain_module hh hz hb
    exact ⟨hunmarked, rfl, (flagged_module_iff hmain).1 (hflagged rfl)⟩
  | part => cases he

/-- In sessions whose programs do not bind `is_main`, wherever the top level of a text that is run
reads it, it gives one, and wherever that of a file that is imported reads it, it gives zero. -/
theorem OccursIn.eval_isMain {depth fuel : Nat} {c : Context} {p : Point} {span : Span}
    {m : Machine} (h : OccursIn LeavesMain e) (he : e.isProgram = true)
    (hl : Leads e (.part (.inside depth c p)))
    (hq : Reaches depth c p ⟨.node (.access span "is_main"), fuel + 1, m⟩) :
    ∃ r m', eval (fuel + 1) depth c (.access span "is_main") m = (.ok (.object r), m') ∧
      (m'.store.object r).payload = .number (.int e.mainValue) := by
  obtain ⟨hunmarked, hsymbols, r, hr, -, hpayload⟩ := h.flag he hl hq
  have hmeaning : m.store.meaning c "is_main" = .object r := by
    have hglobals : m.store.lookup c.symbols "is_main" = .absent := by
      rw [hsymbols, Store.lookup, hunmarked.outermost, Store.search, hunmarked.absent]
      rfl
    rw [Store.meaning, if_pos hglobals, Store.lookup, Store.search, hr]
  rw [eval, access_eq, hmeaning]
  refine ⟨_, _, bind_ok (copyTo_eq span c (by simp [hpayload])), ?_⟩
  exact (congrArg Object.payload (Store.object_push _ _)).trans hpayload

def isInside : Event → Bool
  | .part (.inside _ _ _) => true
  | _ => false

/-- What an event comes to in its own context, down to `n` levels. -/
def within : Nat → Event → List Event
  | 0, _ => []
  | n + 1, e => e :: (e.parts.filter isInside).flatMap (within n)

theorem reaches_of_mem_within {n depth : Nat} {c : Context} {p : Point} {f : Event}
    (h : f ∈ within n (.part (.inside depth c p))) :
    ∃ q, f = .part (.inside depth c q) ∧ Reaches depth c p q := by
  induction n generalizing p with
  | zero => cases h
  | succ n ih =>
    rcases List.mem_cons.mp h with rfl | h
    · exact ⟨p, rfl, .refl⟩
    · obtain ⟨g, hg, hf⟩ := List.mem_flatMap.mp h
      obtain ⟨hg, hinside⟩ := List.mem_filter.mp hg
      cases leads_iff.mpr hg with
      | think | importFile => cases hinside
      | part hl =>
        cases hl with
        | call => cases hinside
        | enters hstep =>
          obtain ⟨q, rfl, hq⟩ := ih hf
          exact ⟨q, rfl, .head hstep hq⟩

def readsMain : Event → Bool
  | .part (.inside _ _ ⟨.node (.access _ "is_main"), _ + 1, _⟩) => true
  | _ => false

def readsMainSoon (n : Nat) (e : Event) : Bool :=
  (e.parts.filter isInside).any fun f => (within n f).any readsMain

theorem exists_of_readsMainSoon {n : Nat} (h : e.readsMainSoon n = true) :
    ∃ depth c p fuel span m, Leads e (.part (.inside depth c p)) ∧
      Reaches depth c p ⟨.node (.access span "is_main"), fuel + 1, m⟩ := by
  obtain ⟨f, hf, h⟩ := List.any_eq_true.mp h
  obtain ⟨g, hg, hreads⟩ := List.any_eq_true.mp h
  obtain ⟨hf, hinside⟩ := List.mem_filter.mp hf
  rcases f with _ | _ | (⟨depth, c, p⟩ | _)
  · cases hinside
  · cases hinside
  · obtain ⟨q, rfl, hq⟩ := reaches_of_mem_within hg
    unfold readsMain at hreads
    split at hreads
    · next hread =>
      cases hread
      exact ⟨depth, c, p, _, _, _, leads_iff.mpr hf, hq⟩
    · cases hreads
  · cases hinside

def GivesMain (e : Event) (n : Int) : Prop :=
  ∃ depth c p fuel span m r m', Leads e (.part (.inside depth c p)) ∧
    Reaches depth c p ⟨.node (.access span "is_main"), fuel + 1, m⟩ ∧
    eval (fuel + 1) depth c (.access span "is_main") m = (.ok (.object r), m') ∧
    (m'.store.object r).payload = .number (.int n)

def importsReader : Event :=
  .text 15 9 ⟨"<stdin>", "import \"m\"\nis_main"⟩
    (Machine.start (.start (FileTree.place ⟨"/home", []⟩ ["home"] "m.think" "is_main")))

/-- The same name gives zero in the file and one in the text. -/
theorem OccursIn.eval_isMain_import : OccursIn LeavesMain importsReader ∧
    importsReader.GivesMain 1 ∧
    ∃ e, ReflTransGen Leads importsReader e ∧ OccursIn LeavesMain e ∧ e.GivesMain 0 := by
  have hleaves : ∀ f ∈ reached 16 importsReader, f.LeavesMain := by
    have hall : (reached 16 importsReader).all (!·.bindsHere "is_main") = true := by decide +kernel
    simpa using hall
  have hoccurs {e : Event} (he : e ∈ reached 16 importsReader) : OccursIn LeavesMain e :=
    .of_reached (.start _) rfl (by decide) hleaves he
  have hgives {e : Event} (he : OccursIn LeavesMain e) (hprogram : e.isProgram = true)
      (hreads : e.readsMainSoon 16 = true) : e.GivesMain e.mainValue := by
    obtain ⟨depth, c, p, fuel, span, m, hl, hq⟩ := exists_of_readsMainSoon hreads
    obtain ⟨r, m', hr, hpayload⟩ := he.eval_isMain hprogram hl hq
    exact ⟨depth, c, p, fuel, span, m, r, m', hl, hq, hr, hpayload⟩
  have htext := hoccurs List.mem_cons_self
  have hany : (reached 16 importsReader).any (fun e => e.isProgram && e.mainValue == 0 &&
      e.readsMainSoon 16) = true := by decide +kernel
  obtain ⟨e, he, hfile⟩ := List.any_eq_true.mp hany
  simp only [Bool.and_eq_true, beq_iff_eq] at hfile
  obtain ⟨⟨hprogram, hvalue⟩, hreads⟩ := hfile
  refine ⟨htext, hgives htext rfl (by decide +kernel), e, leads_of_mem_reached he, hoccurs he, ?_⟩
  exact hvalue ▸ hgives (hoccurs he) hprogram hreads

end Event

end Eval

end Think
