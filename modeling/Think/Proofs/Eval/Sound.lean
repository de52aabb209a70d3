import Think.Proofs.Eval.Simulation
import Think.Session

/-! # Sound stores

In a sound store everything that is referred to is there: the store is alike to itself with all its
objects and list storages paired. A fresh session is sound, and every evaluation keeps it so.
-/

namespace Think

namespace Store

def Sound (s : Store) : Prop := ∃ ρ : Pairing, ρ.Full s s ∧ Alike ρ s s

variable {s : Store} {t : TableRef} {name : String} {v : Value} {p : Payload}

namespace Sound

theorem bind (h : s.Sound) (hv : ∀ ρ : Pairing, ρ.Full s s → Alike ρ s s → EntryAlike ρ s s v v) :
    (s.bind t name v).Sound := by
  obtain ⟨ρ, hfull, halike⟩ := h
  refine ⟨ρ, ⟨rfl, rfl, ?_, ?_, hfull.names⟩, halike.bindEntry t name (hv ρ hfull halike)⟩
  · exact hfull.objects
  · exact hfull.lists

theorem bindShared (h : s.Sound) {i : Nat} (hi : i < 4) : (s.bind t name (.object ⟨i⟩)).Sound :=
  h.bind fun _ _ halike => halike.entry (.object (halike.shared i hi))

theorem bindLookup (h : s.Sound) (t' : TableRef) (name' : String) :
    (s.bind t name (s.lookup t' name')).Sound :=
  h.bind fun _ hfull halike => halike.lookup fun u _ => hfull.names u name'

theorem allocate (h : s.Sound) (hp : ∀ ρ, Payload.Alike ρ p p) :
    (s.allocate (.fresh p)).2.Sound := by
  obtain ⟨ρ, hfull, halike⟩ := h
  obtain ⟨ρ', hgrows, halike', -⟩ := halike.allocate (.fresh (hp ρ))
  exact ⟨ρ', hgrows.full hfull, halike'⟩

theorem bindNew (h : s.Sound) (hp : ∀ ρ, Payload.Alike ρ p p) :
    (Machine.bindNew s t name p).Sound := by
  apply (h.allocate hp).bind
  intro ρ hfull halike
  exact halike.entry (.object (hfull.objects _ (by simp [Store.allocate])))

theorem foldl {α : Type} {f : Store → α → Store} (xs : List α) (h : s.Sound)
    (hf : ∀ s : Store, ∀ x ∈ xs, s.Sound → (f s x).Sound) : (xs.foldl f s).Sound := by
  induction xs generalizing s with
  | nil => exact h
  | cons x xs ih =>
    apply ih (hf s x List.mem_cons_self h)
    exact fun s y hy => hf s y (List.mem_cons_of_mem x hy)

end Sound

end Store

namespace Machine

theorem sound_shared : (Store.mk sharedObjects #[] #[⟨[], []⟩, ⟨[], []⟩]).Sound := by
  have hobjects : sharedObjects = #[.fresh .null, .fresh (.number (.int 0)),
      .fresh (.number (.int 0)), .fresh (.number (.int 1))] := by simp [sharedObjects]
  rw [hobjects]
  let ρ : Pairing :=
    { objects := fun r q => r = q ∧ r.index < 4
      lists := fun _ _ => False
      apart := fun _ _ => False
      object_right := fun h h' => h.1.symm.trans h'.1
      object_left := fun h h' => h.1.trans h'.1.symm
      list_right := fun h => h.elim
      list_left := fun h => h.elim }
  refine ⟨ρ, ⟨rfl, rfl, fun r hr => ⟨rfl, hr⟩, fun c hc => ?_, fun _ _ => id⟩, ?_⟩
  · exact absurd hc (Nat.not_lt_zero _)
  · constructor
    · rintro ⟨i⟩ _ ⟨rfl, hi⟩
      refine ⟨hi, hi, ?_⟩
      match i, hi with
      | 0, _ => exact .fresh .null
      | 1, _ => exact .fresh (.number _)
      | 2, _ => exact .fresh (.number _)
      | 3, _ => exact .fresh (.number _)
    · exact fun h => h.elim
    · rfl
    · exact fun _ => rfl
    · rintro ⟨i⟩ x -
      match i with
      | 0 | 1 | i + 2 => exact .absent
    · exact fun i hi => ⟨rfl, hi⟩
    · exact Nat.lt_succ_self 1

theorem sound_freshStore : freshStore.Sound := by
  apply Store.Sound.bindNew
  · apply Store.Sound.bindLookup
    apply Store.Sound.foldl
    · apply Store.Sound.foldl
      · apply Store.Sound.foldl _ sound_shared
        rintro s ⟨name, i⟩ hmem h
        simp only [List.mem_cons, Prod.mk.injEq, List.not_mem_nil, or_false] at hmem
        exact h.bindShared (by omega)
      · rintro s ⟨name, t⟩ - h
        exact h.bindNew fun _ => .text t
    · rintro s b - h
      exact h.bindNew fun _ => .builtin _
  · exact fun _ => .number _

theorem sound_start (w : World) : (start w).store.Sound := sound_freshStore

end Machine

open Eval

/-- The pairing tells that what the machine and the context refer to is there. -/
structure SoundAt (ρ : Pairing) (c : Context) (m : Machine) : Prop where
  full : ρ.Full m.store m.store
  alike : Machine.Alike ρ m m
  context : Context.Alike m.store.tables.size c c

section

variable {α : Type} {R : Relates α} {P : α → α → Prop} {ρ : Pairing} {c : Context} {x : Eval α}
  {m m' : Machine} {r : Except Stop α} {a : α} {v : Value} {fuel depth : Nat} {n : Node}

theorem InStep.self (hx : InStep ρ R x x m m) (h : SoundAt ρ c m) (hm : x m = (r, m'))
    (hr : r ≠ .error (.fault .outOfFuel)) :
    ∃ ρ', ρ.Sub ρ' ∧ SoundAt ρ' c m' ∧ EndsAlike ρ' (R ρ' m'.store.tables.size) r r := by
  have hend := hx h.alike
  rw [hm] at hend
  rcases hend with hfuel | ⟨ρ', hg, halike, hend⟩
  · exact (hr hfuel).elim
  · exact ⟨ρ', hg.toSub, ⟨hg.full h.full, halike, h.context.mono hg.tables⟩, hend⟩

theorem InStep.self_ok (hx : InStep ρ R x x m m) (h : SoundAt ρ c m) (hm : x m = (.ok a, m')) :
    ∃ ρ', ρ.Sub ρ' ∧ SoundAt ρ' c m' ∧ R ρ' m'.store.tables.size a a := by
  obtain ⟨ρ', hs, hsound, hend⟩ := hx.self h hm nofun
  cases hend with
  | ok ha => exact ⟨ρ', hs, hsound, ha⟩

theorem Looks.machine_eq (hx : Looks ρ P x x m m) (h : SoundAt ρ c m) (hm : x m = (r, m')) :
    m' = m := by
  obtain ⟨r', _, hr, -⟩ := hx h.alike
  cases hr.symm.trans hm
  rfl

namespace SoundAt

theorem allClear (h : SoundAt ρ c m) (e : Eval.Event) : e.AllClear ρ.apart :=
  Eval.Event.allClear h.full.names e

theorem eval_ok (h : SoundAt ρ c m) (hm : eval fuel depth c n m = (.ok v, m')) :
    ∃ ρ', ρ.Sub ρ' ∧ SoundAt ρ' c m' ∧ Value.Alike ρ' v v :=
  ((simulated (Nat.le_refl fuel)).eval h.context rfl (h.allClear _)).self_ok h hm

theorem eval_continued (h : SoundAt ρ c m)
    (hm : eval fuel depth c n m = (.error .continued, m')) :
    ∃ ρ', ρ.Sub ρ' ∧ SoundAt ρ' c m' := by
  obtain ⟨ρ', hs, hsound, -⟩ :=
    ((simulated (Nat.le_refl fuel)).eval h.context rfl (h.allClear _)).self h hm nofun
  exact ⟨ρ', hs, hsound⟩

/-- A condition that held, and the machine it was found out on. -/
theorem eval_isTrue {b : Bool} {m'' : Machine} (h : SoundAt ρ c m)
    (hm : eval fuel depth c n m = (.ok v, m')) (ht : isTrue v m' = (.ok b, m'')) :
    ∃ ρ', ρ.Sub ρ' ∧ SoundAt ρ' c m'' := by
  obtain ⟨ρ', hs, hsound, hv⟩ := h.eval_ok hm
  rw [(Looks.isTrue hv).machine_eq hsound ht]
  exact ⟨ρ', hs, hsound⟩

end SoundAt

end

namespace Eval

def Task.SoundBy (ρ : Pairing) : Task → Prop
  | .forRounds _ _ _ _ last _ _ => Value.Alike ρ last last
  | _ => True

/-- What one point enters from another is sound if that one is. -/
theorem Enters.sound {ρ : Pairing} {depth : Nat} {c : Context} {p q : Point}
    (h : Enters depth c p q) (hp : SoundAt ρ c p.machine) (htask : p.task.SoundBy ρ) :
    ∃ ρ', SoundAt ρ' c q.machine ∧ q.task.SoundBy ρ' := by
  cases h
  case next hn =>
    obtain ⟨ρ', -, hsound, -⟩ := hp.eval_ok hn
    exact ⟨ρ', hsound, trivial⟩
  case right hl =>
    obtain ⟨ρ', -, hsound, -⟩ := hp.eval_ok hl
    exact ⟨ρ', hsound, trivial⟩
  case consequence hc ht | otherCases hc ht | whileBody hc ht =>
    obtain ⟨ρ', -, hsound⟩ := hp.eval_isTrue hc ht
    exact ⟨ρ', hsound, trivial⟩
  case forLast hx =>
    obtain ⟨ρ', -, hsound, -⟩ := hp.eval_ok hx
    exact ⟨ρ', hsound, trivial⟩
  case forStep hx hy =>
    obtain ⟨ρ₁, -, hsound₁, -⟩ := hp.eval_ok hx
    obtain ⟨ρ₂, -, hsound₂, -⟩ := hsound₁.eval_ok hy
    exact ⟨ρ₂, hsound₂, trivial⟩
  case forRounds hx hy hz hs =>
    obtain ⟨ρ₁, -, hsound₁, hfirst⟩ := hp.eval_ok hx
    obtain ⟨ρ₂, hs₂, hsound₂, hlast⟩ := hsound₁.eval_ok hy
    obtain ⟨ρ₃, hs₃, hsound₃, hstep⟩ :=
      ((simulated (Nat.le_refl _)).stepValue_succ hsound₂.context rfl
        fun _ _ => hsound₂.allClear _).self_ok hsound₂ hz
    rw [(looks_loopStart ((hfirst.mono hs₂).mono hs₃) hstep).machine_eq hsound₃ hs]
    exact ⟨ρ₃, hsound₃, hlast.mono hs₃⟩
  case forBody hr =>
    obtain ⟨ρ', -, hsound, -⟩ := (inStep_startRound _ _ _ _ hp.context htask).self_ok hp hr
    exact ⟨ρ', hsound, trivial⟩
  case forNext hr hb =>
    obtain ⟨ρ₁, hs₁, hsound₁, -⟩ := (inStep_startRound _ _ _ _ hp.context htask).self_ok hp hr
    obtain ⟨ρ₂, hs₂, hsound₂, -⟩ := hsound₁.eval_ok hb
    exact ⟨ρ₂, hsound₂, Value.Alike.mono (Value.Alike.mono htask hs₁) hs₂⟩
  case forContinue hr hb =>
    obtain ⟨ρ₁, hs₁, hsound₁, -⟩ := (inStep_startRound _ _ _ _ hp.context htask).self_ok hp hr
    obtain ⟨ρ₂, hs₂, hsound₂⟩ := hsound₁.eval_continued hb
    exact ⟨ρ₂, hsound₂, Value.Alike.mono (Value.Alike.mono htask hs₁) hs₂⟩
  case whileNext hc ht hb =>
    obtain ⟨ρ₁, -, hsound₁⟩ := hp.eval_isTrue hc ht
    obtain ⟨ρ₂, -, hsound₂, -⟩ := hsound₁.eval_ok hb
    exact ⟨ρ₂, hsound₂, trivial⟩
  case whileContinue hc ht hb =>
    obtain ⟨ρ₁, -, hsound₁⟩ := hp.eval_isTrue hc ht
    obtain ⟨ρ₂, -, hsound₂⟩ := hsound₁.eval_continued hb
    exact ⟨ρ₂, hsound₂, trivial⟩
  case args hf hr =>
    obtain ⟨ρ₁, -, hsound₁, hv⟩ := hp.eval_ok hf
    obtain ⟨ρ₂, -, hsound₂, -⟩ := (inStep_calleeAt _ _ hv).self_ok hsound₁ hr
    exact ⟨ρ₂, hsound₂, trivial⟩
  all_goals exact ⟨ρ, hp, trivial⟩

namespace Activity

def Sound : Activity → Prop
  | .inside _ c p => ∃ ρ, SoundAt ρ c p.machine ∧ p.task.SoundBy ρ
  | .call _ _ r args m => ∃ ρ : Pairing, ρ.Full m.store m.store ∧ Machine.Alike ρ m m ∧
    ρ.objects r r ∧ List.Forall₂ (Value.Alike ρ) args args

variable {a b : Activity}

theorem Sound.leads (h : a.Sound) (hl : Leads a b) : b.Sound := by
  cases hl with
  | enters he =>
    obtain ⟨ρ, hp, ht⟩ := h
    exact he.sound hp ht
  | call hf hr hvs =>
    obtain ⟨ρ, hp, -⟩ := h
    obtain ⟨ρ₁, -, hsound₁, hv⟩ := hp.eval_ok hf
    obtain ⟨ρ₂, -, hsound₂, hcallee⟩ := (inStep_calleeAt _ _ hv).self_ok hsound₁ hr
    obtain ⟨ρ₃, hs₃, hsound₃, hargs⟩ :=
      ((simulated (Nat.le_refl _)).evalAll hsound₂.context rfl (hsound₂.allClear _)).self_ok
        hsound₂ hvs
    exact ⟨ρ₃, hsound₃.full, hsound₃.alike, hs₃.objects hcallee, hargs⟩
  | @body _ _ _ _ _ name params _ _ _ _ _ he =>
    obtain ⟨ρ, hfull, halike, hr, hargs⟩ := h
    have hcallee := (halike.store.objects hr).2.2
    have hstep := inStep_enterFunction name params hr hcallee hargs halike
    rw [he] at hstep
    rcases hstep with hfuel | ⟨ρ', hg, halike', hend⟩
    · cases hfuel
    · cases hend with
      | ok hc => exact ⟨ρ', ⟨hg.full hfull, halike', hc⟩, trivial⟩

end Activity

end Eval

theorem Machine.alike_programContext {ρ : Pairing} {m m' : Machine} (h : Machine.Alike ρ m m')
    (name name' : String) :
    Context.Alike m.store.tables.size (programContext name) (programContext name') where
  twin := .outermost rfl
  symbols := Nat.lt_trans Nat.zero_lt_one h.store.roots
  hidden := h.store.roots

theorem Store.Sound.at_program {m : Machine} (h : m.store.Sound) (name : String) :
    ∃ ρ, SoundAt ρ (programContext name) m := by
  obtain ⟨ρ, hfull, halike⟩ := h
  exact ⟨ρ, hfull, ⟨halike, rfl⟩, Machine.alike_programContext ⟨halike, rfl⟩ name name⟩

theorem SoundAt.sound {ρ : Pairing} {c : Context} {m : Machine} (h : SoundAt ρ c m) :
    m.store.Sound :=
  ⟨ρ, h.full, h.alike.store⟩

theorem Store.Sound.mainMachine {m : Machine} (h : m.store.Sound) (name : String) :
    ∃ ρ, SoundAt ρ (programContext name) (mainMachine m) := by
  obtain ⟨ρ, hfull, halike⟩ := h
  obtain ⟨ρ', hg, halike', hnew⟩ := halike.allocate (.fresh (.number (.int 1)))
  obtain ⟨hg', hmain⟩ := halike'.bind programNames "is_main" (.object hnew)
  have hmachine : Machine.Alike ρ' (Eval.mainMachine m) (Eval.mainMachine m) := ⟨hmain, rfl⟩
  exact ⟨ρ', hg'.full (hg.full hfull), hmachine, Machine.alike_programContext hmachine name name⟩

/-- The machines that a session can have between its programs. What happens outside of them changes
the world alone, and a program that takes too many steps ends the session. -/
inductive Machine.Idle : Machine → Prop
  | start (w : World) : Idle (start w)
  | moved {m} (h : Idle m) (w : World) : Idle ⟨m.store, w⟩
  | text {m m' fuel depth source r} (h : Idle m)
    (hrun : runText fuel depth source m = (r, m')) (hr : r ≠ .error (.fault .outOfFuel)) :
    Idle m'
  | file {m m' fuel depth path r} (h : Idle m)
    (hrun : importText fuel depth path m = (r, m')) (hr : r ≠ .error (.fault .outOfFuel)) :
    Idle m'

theorem Machine.Idle.sound {m : Machine} (h : m.Idle) : m.store.Sound := by
  induction h with
  | start w => exact sound_start w
  | moved _ _ ih => exact ih
  | text _ hrun hr ih =>
    obtain ⟨ρ, hsound⟩ := ih.at_program ""
    obtain ⟨ρ', -, hsound', -⟩ :=
      ((simulated (Nat.le_refl _)).runText (hsound.allClear _)).self hsound hrun hr
    exact hsound'.sound
  | file _ hrun hr ih =>
    obtain ⟨ρ, hsound⟩ := ih.at_program ""
    obtain ⟨ρ', -, hsound', -⟩ :=
      ((simulated (Nat.le_refl _)).importText (hsound.allClear _)).self hsound hrun hr
    exact hsound'.sound

namespace Eval

namespace Event

def Sound : Event → Prop
  | .text _ _ _ m | .file _ _ _ m => m.store.Sound
  | .part a => a.Sound

theorem Sound.leads {e e' : Event} (h : e.Sound) (hl : Leads e e') : e'.Sound := by
  cases hl with
  | @program _ _ source =>
    obtain ⟨ρ, hsound⟩ := Store.Sound.mainMachine h source.name
    exact ⟨ρ, hsound, trivial⟩
  | @module _ _ path _ _ _ hidden m₁ _ _ _ hf ht hh hz hb =>
    obtain ⟨ρ, hsound⟩ := Store.Sound.at_program h ""
    obtain ⟨ρ₁, -, hsound₁, -, hhidden⟩ := InStep.newTable.self_ok hsound hh
    have hmodule : SoundAt ρ₁ (moduleContext path hidden) m₁ :=
      ⟨hsound₁.full, hsound₁.alike, .outermost rfl, hsound₁.context.symbols, hhidden⟩
    obtain ⟨ρ₂, -, hsound₂, hzero⟩ := (InStep.make (.number (.int 0))).self_ok hmodule hz
    obtain ⟨ρ₃, -, hsound₃, -⟩ := (InStep.bindName _ "is_main" hzero).self_ok hsound₂ hb
    exact ⟨ρ₃, hsound₃, trivial⟩
  | part hl => exact Activity.Sound.leads h hl
  | think hv hcode =>
    obtain ⟨ρ, hsound, -⟩ := h
    obtain ⟨ρ₁, -, hsound₁, hvalue⟩ :=
      ((simulated (Nat.le_refl _)).operand_succ hsound.context rfl
        fun _ _ => hsound.allClear _).self_ok hsound hv
    obtain ⟨ρ₂, -, hsound₂, -⟩ := (inStep_askModel hvalue).self_ok hsound₁ hcode
    exact hsound₂.sound
  | importFile =>
    obtain ⟨ρ, hsound, -⟩ := h
    exact hsound.sound
  | @run _ _ r _ m name _ _ _ _ hp hn he =>
    obtain ⟨ρ, hfull, halike, hr, hargs⟩ := h
    have hsound : SoundAt ρ (programContext "") m :=
      ⟨hfull, halike, Machine.alike_programContext halike "" ""⟩
    have hcallee := (halike.store.objects hr).2.2
    obtain ⟨ρ₁, -, hsound₁, -⟩ :=
      (inStep_enterFunction name Builtin.run.params hr hcallee hargs).self_ok hsound he
    exact hsound₁.sound

/-- The events of a session: what it runs and imports, and all that comes of it. -/
inductive Occurs : Event → Prop
  | text {m} (h : m.Idle) (fuel depth : Nat) (source : Source) :
    Occurs (.text fuel depth source m)
  | file {m} (h : m.Idle) (fuel depth : Nat) (path : String) :
    Occurs (.file fuel depth path m)
  | leads {e e'} (h : Occurs e) (hl : Leads e e') : Occurs e'

/-- Nothing that happens in a session refers to what is not there. -/
theorem Occurs.sound {e : Event} (h : Occurs e) : e.Sound := by
  induction h with
  | text h => exact Machine.Idle.sound h
  | file h => exact Machine.Idle.sound h
  | leads _ hl ih => exact ih.leads hl

end Event

end Eval

end Think
