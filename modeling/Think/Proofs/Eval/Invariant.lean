import Think.Proofs.Eval.Course

/-! # What holds throughout a session

What the acts of all events keep is kept by whole evaluations, since these take their course through
nothing else, and so it holds in every session. A law that all events of a session obey may be
assumed for it.
-/

namespace Think

open Relation (ReflTransGen)

namespace Eval

namespace Event

/-- If `P` holds of all events, `I` holds of what an event with `I` comes to, and its acts change
the machine in no other way than `R`. -/
structure Invariant (P I : Event → Prop) (R : Machine → Machine → Prop) : Prop where
  trans : ∀ {m m' m'' : Machine}, R m m' → R m' m'' → R m m''
  modest : ∀ {m m' : Machine}, ReflTransGen Store.ModestChange m.store m'.store → R m m'
  act : ∀ {e : Event} {m m' : Machine}, P e → I e → R e.machine m → Acts e m m' → R m m'
  part : ∀ {e f : Event}, P e → I e → R e.machine f.machine → Leads e f → I f

namespace Invariant

variable {P I : Event → Prop} {R : Machine → Machine → Prop} {e f : Event} {m m' : Machine}

theorem refl (h : Invariant P I R) (m : Machine) : R m m := h.modest .refl

theorem acts (h : Invariant P I R) (hP : P e) (hI : I e) (hm : R e.machine m)
    (hacts : ReflTransGen (Acts e) m m') : R e.machine m' := by
  induction hacts with
  | refl => exact hm
  | tail _ hact ih => exact h.trans ih (h.act hP hI ih hact)

/-- What the acts of an event do, it does as a whole if all that it comes to does. -/
theorem tiles (h : Invariant P I R) (hP : P e) (hI : I e) (hm : R e.machine m) {fs : List Event}
    (ht : Tiles e m fs m') (hfs : ∀ f ∈ fs, I f → R f.machine f.after) :
    R e.machine m' ∧ ∀ f ∈ fs, R e.machine f.machine ∧ I f := by
  induction ht with
  | last hacts hwork hacts' =>
    have hworked := h.trans (h.acts hP hI hm hacts) (h.modest hwork.modest)
    exact ⟨h.acts hP hI hworked hacts', by simp⟩
  | @part _ f fs m' hacts hl _ ih =>
    have hstart := h.acts hP hI hm hacts
    have hf : I f := h.part hP hI hstart hl
    have hafter := h.trans hstart (hfs f List.mem_cons_self hf)
    obtain ⟨hrest, hparts⟩ := ih hafter fun g hg => hfs g (List.mem_cons_of_mem f hg)
    refine ⟨hrest, fun g hg => ?_⟩
    rcases List.mem_cons.mp hg with rfl | hg
    · exact ⟨hstart, hf⟩
    · exact hparts g hg

/-- Whole evaluations change the machine in no other way than their acts. -/
theorem after (h : Invariant P I R) (hP : ∀ f, ReflTransGen Leads e f → P f) (hI : I e) :
    R e.machine e.after := by
  induction hn : e.fuel using Nat.strongRecOn generalizing e with
  | ind n ih =>
    refine (h.tiles (hP e .refl) hI (h.refl _) (Event.tiles e) fun f hf hIf => ?_).1
    have hl := leads_iff.mpr hf
    exact ih f.fuel (hn ▸ hl.fuel_lt) (fun g hg => hP g (.head hl hg)) hIf rfl

theorem leads (h : Invariant P I R) (hP : ∀ f, ReflTransGen Leads e f → P f) (hI : I e)
    (hl : Leads e f) : R e.machine f.machine ∧ I f := by
  refine (h.tiles (hP e .refl) hI (h.refl _) (Event.tiles e) fun g hg hIg => ?_).2 f
    (leads_iff.mp hl)
  have hg := leads_iff.mpr hg
  exact h.after (fun k hk => hP k (.head hg hk)) hIg

theorem reaches (h : Invariant P I R) (hP : ∀ f, ReflTransGen Leads e f → P f) (hI : I e)
    (hl : ReflTransGen Leads e f) : R e.machine f.machine ∧ I f := by
  induction hl with
  | refl => exact ⟨h.refl _, hI⟩
  | @tail f g hef hl ih =>
    obtain ⟨hR, hI'⟩ := h.leads (fun k hk => hP k (hef.trans hk)) ih.2 hl
    exact ⟨h.trans ih.1 hR, hI'⟩

end Invariant

theorem invariant_changes {J : Machine → Prop}
    (hJ : ∀ m m', J m → ReflTransGen Store.Change m.store m'.store → J m') :
    Invariant (fun _ => True) (fun e => J e.machine)
      fun m m' => ReflTransGen Store.Change m.store m'.store where
  trans h h' := h.trans h'
  modest h := ReflTransGen.mono (fun _ _ hc => .value hc.value) _ _ h
  act _ _ _ h := h.changes
  part _ he hR _ := hJ _ _ he hR

theorem changes (e : Event) : ReflTransGen Store.Change e.machine.store e.after.store :=
  (invariant_changes (J := fun _ => True) fun _ _ _ _ => trivial).after (fun _ _ => trivial) trivial

theorem leads_of_reaches {depth : Nat} {c : Context} {p q : Point} (h : Reaches depth c p q) :
    ReflTransGen Leads (.part (.inside depth c p)) (.part (.inside depth c q)) := by
  induction h with
  | refl => exact .refl
  | tail _ hstep ih => exact ih.tail (.part (.enters hstep))

/-- Whether the event is a whole text or file. -/
def isProgram : Event → Bool
  | .text _ _ _ _ | .file _ _ _ _ => true
  | .part _ => false

end Event

/-- The machines that a session can have between its programs if all that happens in these
satisfies `P`. -/
inductive IdleIn (P : Event → Prop) : Machine → Prop
  | start (w : World) : IdleIn P (Machine.start w)
  | moved {m} (h : IdleIn P m) (w : World) : IdleIn P ⟨m.store, w⟩
  | after {e} (h : IdleIn P e.machine) (he : e.isProgram = true)
    (hP : ∀ f, ReflTransGen Event.Leads e f → P f) : IdleIn P e.after

namespace Event

/-- The events of sessions in which all that happens satisfies `P`. -/
inductive OccursIn (P : Event → Prop) : Event → Prop
  | program {e} (h : IdleIn P e.machine) (he : e.isProgram = true)
    (hP : ∀ f, ReflTransGen Leads e f → P f) : OccursIn P e
  | leads {e f} (h : OccursIn P e) (hl : Leads e f) : OccursIn P f

variable {P I : Event → Prop} {R : Machine → Machine → Prop} {J : Machine → Prop} {e f : Event}

theorem OccursIn.reaches (h : OccursIn P e) (hf : ReflTransGen Leads e f) : P f := by
  induction h with
  | program _ _ hP => exact hP f hf
  | leads _ hl ih => exact ih (.head hl hf)

theorem OccursIn.trans (h : OccursIn P e) (hf : ReflTransGen Leads e f) : OccursIn P f := by
  induction hf with
  | refl => exact h
  | tail _ hl ih => exact .leads ih hl

/-- The event and all that it comes to, down to `n` levels. -/
def reached : Nat → Event → List Event
  | 0, _ => []
  | n + 1, e => e :: e.parts.flatMap (reached n)

theorem mem_reached_of_leads {n : Nat} (hn : e.fuel < n) (h : ReflTransGen Leads e f) :
    f ∈ reached n e := by
  induction h using ReflTransGen.head_induction_on generalizing n with
  | refl =>
    rcases n with _ | n
    · omega
    · exact List.mem_cons_self
  | @head e g hl _ ih =>
    rcases n with _ | n
    · omega
    · have hg := hl.fuel_lt
      exact List.mem_cons_of_mem e (List.mem_flatMap.mpr ⟨g, leads_iff.mp hl, ih (by omega)⟩)

theorem leads_of_mem_reached {n : Nat} (h : f ∈ reached n e) : ReflTransGen Leads e f := by
  induction n generalizing e with
  | zero => cases h
  | succ n ih =>
    rcases List.mem_cons.mp h with rfl | h
    · exact .refl
    · obtain ⟨g, hg, hf⟩ := List.mem_flatMap.mp h
      exact .head (leads_iff.mpr hg) (ih hf)

/-- What a whole program comes to, if it is found out that all of it satisfies `P`. -/
theorem OccursIn.of_reached {n : Nat} (h : IdleIn P e.machine) (he : e.isProgram = true)
    (hn : e.fuel < n) (hP : ∀ f ∈ reached n e, P f) (hf : f ∈ reached n e) : OccursIn P f := by
  have hprogram : OccursIn P e := .program h he fun g hg => hP g (mem_reached_of_leads hn hg)
  exact hprogram.trans (leads_of_mem_reached hf)

theorem Invariant.idleIn (h : Invariant P I R) (hstart : ∀ w, J (Machine.start w))
    (hmoved : ∀ m w, J m → J ⟨m.store, w⟩)
    (hprogram : ∀ e : Event, e.isProgram = true → J e.machine → I e)
    (hafter : ∀ m m', J m → R m m' → J m') {m : Machine} (hm : IdleIn P m) : J m := by
  induction hm with
  | start w => exact hstart w
  | moved _ w ih => exact hmoved _ w ih
  | after _ he hP ih => exact hafter _ _ ih (h.after hP (hprogram _ he ih))

theorem Invariant.occursIn (h : Invariant P I R) (hstart : ∀ w, J (Machine.start w))
    (hmoved : ∀ m w, J m → J ⟨m.store, w⟩)
    (hprogram : ∀ e : Event, e.isProgram = true → J e.machine → I e)
    (hafter : ∀ m m', J m → R m m' → J m') (he : OccursIn P e) : I e := by
  induction he with
  | program hm he hP => exact hprogram _ he (h.idleIn hstart hmoved hprogram hafter hm)
  | leads hocc hl ih => exact (h.leads (fun f hf => hocc.reaches hf) ih hl).2

theorem Occurs.occursIn (h : Occurs e) : OccursIn (fun _ => True) e := by
  have hidle {m : Machine} (hm : m.Idle) : IdleIn (fun _ => True) m := by
    induction hm with
    | start w => exact .start w
    | moved _ w ih => exact .moved ih w
    | @text m m' fuel depth source r _ hrun _ ih =>
      have hafter := IdleIn.after (e := .text fuel depth source m) ih rfl fun _ _ => trivial
      rwa [after, hrun] at hafter
    | @file m m' fuel depth path r _ hrun _ ih =>
      have hafter := IdleIn.after (e := .file fuel depth path m) ih rfl fun _ _ => trivial
      rwa [after, hrun] at hafter
  induction h with
  | text h => exact .program (hidle h) rfl fun _ _ => trivial
  | file h => exact .program (hidle h) rfl fun _ _ => trivial
  | leads _ hl ih => exact .leads ih hl

end Event

end Eval

end Think
