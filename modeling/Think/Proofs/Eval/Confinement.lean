import Think.Proofs.Eval.Invariant

/-! # Where an evaluation writes

An evaluation binds names in the two tables of its own context and in tables that it makes itself.
Only programs that it starts, by an import, `run` or `think`, bind global names. So a call that
starts none leaves every table as it was, whatever functions it calls in turn.
-/

namespace Think

open Relation (ReflTransGen)
open Store (Write)

namespace Eval

section

variable {W : TableRef → String → Prop} {k depth : Nat} {context : Context} {p q : Point}
  {e f : Event} {m m' m₁ : Machine}

def Allows (W : TableRef → String → Prop) (context : Context) (names : List String) : Prop :=
  ∀ x ∈ names, W context.symbols x ∧ W context.hidden x

abbrev Global (W : TableRef → String → Prop) : Prop :=
  ∀ x, W globals x ∧ W programNames x

theorem Allows.sub {names names' : List String} (h : Allows W context names)
    (hsub : names' ⊆ names) : Allows W context names' := fun x hx => h x (hsub hx)

def Task.assigned : Task → List String
  | .node n => n.assigned
  | .all ns => Node.assignedAll ns
  | .cases cs fallback => Node.assignedCases cs ++ Node.assignedBody fallback
  | .forRounds name _ _ _ _ b _ => name :: b.assigned
  | .whileRounds c b _ => c.assigned ++ b.assigned

theorem Enters.assigned (h : Enters depth context p q) : q.task.assigned ⊆ p.task.assigned := by
  intro x hx
  cases h
  case forRounds =>
    rcases List.mem_cons.mp hx with rfl | hx
    · exact List.mem_cons_self
    · simp [Task.assigned, Node.assigned, hx]
  all_goals
    simp_all [Task.assigned, Node.assigned, Node.assignedAll, Node.assignedCases,
      Node.assignedBody, Node.assignedOption]

theorem Task.Names.mem_assigned {t : Task} {x : String} (h : t.Names x) : x ∈ t.assigned := by
  cases h <;> simp [Task.assigned, Node.assigned]

theorem writes_bindArgs (params : List String) (args : List Value) (hc : Allows W context params)
    (m : Machine) : ReflTransGen (Write W) m.store (bindArgs context params args m).2.store := by
  have hpath : ReflTransGen (fun m m' => Write W m.store m'.store) m
      (bindArgs context params args m).2 := by
    fun_induction bindArgs context params args generalizing m with
    | case1 p params v args ih =>
      refine path_bind (path_still (.objectOf v)) fun r m₁ _ => ?_
      refine path_bind (.single (.value (.enter r.1 _))) fun _ m₂ _ => ?_
      refine path_bind (.single (.bind v (hc p List.mem_cons_self).1)) fun _ m₃ _ => ?_
      exact path_bind (ih (hc.sub (List.subset_cons_self _ _)) m₃) fun _ _ _ => .refl
    | case2 => exact .refl
  exact hpath.lift Machine.store fun _ _ h => h

namespace Event

def Allowed (W : TableRef → String → Prop) : Event → Prop
  | .part (.inside _ context p) => Allows W context p.task.assigned
  | .part (.call _ _ _ _ _) => True
  | .text _ _ _ _ | .file _ _ _ _ => Global W

def Starts : Event → Prop
  | .part a => a.Starts
  | _ => False

/-- New tables, of which there were `k` or more, may be written. -/
theorem Acts.writes (hW : ∀ t x, k ≤ t.index → W t x) (hk : k ≤ m.store.tables.size)
    (he : e.Allowed W) (h : Acts e m m') : ReflTransGen (Write W) m.store m'.store := by
  cases h with
  | world => exact .refl
  | value h => exact .single (.value h.value)
  | data | function => exact .single (.value (.object _))
  | enter r => exact .single (.value (.enter r _))
  | name r hx => exact .single (.bind _ (he _ hx.mem_assigned).1)
  | assign =>
    obtain ⟨hsymbols, hhidden⟩ := he _ List.mem_cons_self
    exact (ReflTransGen.single (.bind _ hsymbols)).tail (.bind _ hhidden)
  | program => exact (ReflTransGen.single (.value (.object _))).tail (.bind _ (he _).2)
  | module hh hz hb =>
    cases hh
    cases hz
    cases hb
    exact ((ReflTransGen.single (.table _)).tail (.value (.object _))).tail (.bind _ (hW _ _ hk))
  | entry hc ha =>
    obtain ⟨outer, -, rfl, rfl⟩ := callContext_eq_ok hc
    refine ((ReflTransGen.single (.table _)).tail (.table _)).trans (ha.lift Machine.store ?_)
    intro m₁ m₂ h
    cases h with
    | enter r => exact .value (.enter r _)
    | bind x r => exact .bind _ (hW _ _ hk)

theorem Leads.allowed (hW : ∀ t x, k ≤ t.index → W t x) (hk : k ≤ e.machine.store.tables.size)
    (hstarts : e.Starts → Global W) (he : e.Allowed W) (hl : Leads e f) : f.Allowed W := by
  cases hl with
  | program => exact fun x _ => he x
  | module hf ht hh =>
    cases hh
    exact fun x _ => ⟨(he x).1, hW _ x hk⟩
  | think => exact hstarts .think
  | importFile => exact hstarts .importFile
  | run hp hn => exact hstarts (.run hp hn)
  | part hl =>
    cases hl with
    | enters h => exact he.sub h.assigned
    | call => trivial
    | body hp h =>
      obtain ⟨m₁, m₂, refs, hc, -, -⟩ := enterFunction_eq_ok h
      obtain ⟨outer, -, rfl, -⟩ := callContext_eq_ok hc
      exact fun x _ => ⟨hW _ x hk, hW _ x (Nat.le_succ_of_le hk)⟩

/-- Names are bound only where `W` allows it, unless a program is started. -/
theorem confined (hW : ∀ t x, k ≤ t.index → W t x) :
    Invariant (fun e => e.Starts → Global W)
      (fun e => k ≤ e.machine.store.tables.size ∧ e.Allowed W)
      fun m m' => ReflTransGen (Write W) m.store m'.store where
  trans h h' := h.trans h'
  modest h := ReflTransGen.mono (fun _ _ hc => .value hc.value) _ _ h
  act _ hI hm h := h.writes hW (Nat.le_trans hI.1 (Store.kept_of_writes hm).size) hI.2
  part hP hI hm hl :=
    ⟨Nat.le_trans hI.1 (Store.kept_of_writes hm).size, hl.allowed hW hI.1 hP hI.2⟩

theorem not_starts_of_quiet {a : Activity} (h : a.Quiet) (hf : ReflTransGen Leads (.part a) f) :
    ¬ f.Starts := by
  have hpart : ∃ b, f = .part b ∧ ReflTransGen Activity.Leads a b := by
    induction hf with
    | refl => exact ⟨a, rfl, .refl⟩
    | tail _ hl ih =>
      obtain ⟨b, rfl, hab⟩ := ih
      cases hl with
      | part hl => exact ⟨_, rfl, hab.tail hl⟩
      | think => exact (h _ hab .think).elim
      | importFile => exact (h _ hab .importFile).elim
      | run hp hn => exact (h _ hab (.run hp hn)).elim
  obtain ⟨b, rfl, hab⟩ := hpart
  exact h b hab

end Event

/-- On the way to a point that evaluation gets to, names are bound only where `W` allows it. -/
theorem Reaches.kept (h : Reaches depth context p q) (hW : ∀ t x, k ≤ t.index → W t x)
    (hg : ∀ x, W globals x ∧ W programNames x) (ha : Allows W context p.task.assigned)
    (hk : k ≤ p.machine.store.tables.size) : Store.Kept W p.machine.store q.machine.store :=
  Store.kept_of_writes ((Event.confined hW).reaches (e := .part (.inside depth context p))
    (fun _ _ _ => hg) ⟨hk, ha⟩ (Event.leads_of_reaches h)).1

end

/-- A call that starts no program, however it ends, leaves all tables that were there as they were:
their names, their values and the tables behind them. -/
theorem call_keeps_tables (fuel depth : Nat) (callee : ObjectRef) (args : List Value) (m : Machine)
    (hquiet : (Activity.call fuel depth callee args m).Quiet) :
    m.store.tables.size ≤ (call fuel depth callee args m).2.store.tables.size ∧
      ∀ t : TableRef, t.index < m.store.tables.size →
        (call fuel depth callee args m).2.store.table t = m.store.table t := by
  let W : TableRef → String → Prop := fun t _ => m.store.tables.size ≤ t.index
  have hwrites : ReflTransGen (Write W) m.store (call fuel depth callee args m).2.store :=
    (Event.confined fun _ _ h => h).after (e := .part (.call fuel depth callee args m))
      (fun f hf hs => (Event.not_starts_of_quiet hquiet hf hs).elim) ⟨Nat.le_refl _, trivial⟩
  have hkept := Store.kept_of_writes hwrites
  refine ⟨hkept.size, fun t ht => ?_⟩
  have hentries := hkept.entries t ht fun _ => Nat.not_le_of_lt ht
  have hancestors := hkept.ancestors t ht
  cases hold : m.store.table t
  cases hnew : (call fuel depth callee args m).2.store.table t
  simp_all

def shadowing : Node := .list default [.assign default "null" (.access default "n")]

def shadowMachine : Machine :=
  let f : Object := .fresh (.function "f" ["n"] shadowing false)
  ⟨(Machine.freshStore.allocate (f.within (some (programContext "program")))).2,
    .start ⟨"/home", []⟩⟩

def shadowFunction : ObjectRef := ⟨Machine.freshStore.objects.size⟩

theorem quiet_shadow :
    (Activity.call 9 1 shadowFunction [BuiltinCall.zeroValue] shadowMachine).Quiet := by
  let P : Activity → Prop
    | .call _ _ r _ m => (m.store.object r).payload = .function "f" ["n"] shadowing false
    | .inside _ _ p => p.task ∈
      [.node shadowing, .all [.assign default "null" (.access default "n")],
        .all [], .node (.assign default "null" (.access default "n")), .node (.access default "n")]
  have hcall : P (.call 9 1 shadowFunction [BuiltinCall.zeroValue] shadowMachine) :=
    congrArg Object.payload (Store.object_push _ _)
  apply Activity.quiet_of_closed hcall
  · rintro b c hb hl
    cases hl with
    | enters he => cases he <;> simp_all [P, shadowing]
    | call hf hr hvs => simp [P, shadowing] at hb
    | body hp he =>
      cases hp.symm.trans hb
      exact List.mem_cons_self
  · rintro b hb hs
    cases hs with
    | importFile => simp [P, shadowing] at hb
    | think => simp [P, shadowing] at hb
    | run hp _ => cases hp.symm.trans hb

/-- The call binds `null` in one of its two tables; the global `null` stays. -/
theorem call_keeps_tables_shadow :
    let after := (call 9 1 shadowFunction [BuiltinCall.zeroValue] shadowMachine).2
    (after.store.table ⟨2⟩).get "null" ≠ .absent ∧
      after.store.table globals = shadowMachine.store.table globals := by
  refine ⟨by decide +kernel, ?_⟩
  exact (call_keeps_tables 9 1 shadowFunction _ shadowMachine quiet_shadow).2 globals
    (by decide +kernel)

end Eval

end Think
