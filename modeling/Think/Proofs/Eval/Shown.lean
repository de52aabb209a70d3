import Think.Proofs.Eval.Course
import Think.Proofs.Eval.Operators
import Think.Proofs.Eval.Places
import Think.Proofs.Parse.Rejection

/-! # Errors that can be shown

An error can be shown if both of its ends are known. They are known but for three errors: one that
an operator reports at the number that a negation multiplies with, one that it reports at the null
that all programs share, and an interrupt, which is at no place at all.
-/

namespace Think

open Eval
open BuiltinCall (nullValue)
open Relation (ReflTransGen)

/-- In a traced context, every activation is shown with the place reached in it. -/
theorem Context.Traced.isSome_traceback? {c : Context} (h : c.Traced) {p : Option Position}
    (hp : p.isSome = true) : (Diagnostic.traceback? (some c) p).isSome = true := by
  induction h generalizing p with
  | outermost => simp [Diagnostic.isSome_traceback?, hp, Diagnostic.traceback?]
  | entered _ ih =>
    rw [Diagnostic.isSome_traceback?, hp, Bool.true_and]
    exact ih rfl

namespace Diagnostic

variable {d : Diagnostic}

/-- An error in a traced context can be shown if both ends are known. -/
theorem isSome_message?_of_traced (hc : ∀ c, d.context = some c → c.Traced)
    (hstart : d.start.isSome = true) (hstop : d.stop.isSome = true) : d.message?.isSome = true := by
  rw [isSome_message?, hstart, hstop, Bool.true_and, Bool.true_and, Bool.or_eq_true]
  refine .inr ?_
  cases hd : d.context with
  | none => simp [traceback?]
  | some c => exact (hc c hd).isSome_traceback? hstart

theorem isSome_of_message? (h : d.message?.isSome = true) :
    d.start.isSome = true ∧ d.stop.isSome = true := by
  rw [isSome_message?, Bool.and_eq_true, Bool.and_eq_true] at h
  exact h.1

end Diagnostic

namespace Eval

section

variable {N : Node → Prop} {d : Diagnostic} {s : Store} {context : Context} {span : Span}
  {callee : Object}

theorem PlaceReport.isSome_message? (h : PlaceReport context span d s) (hc : context.Traced) :
    d.message?.isSome = true := by
  obtain ⟨details, rfl⟩ := h
  apply Diagnostic.isSome_message?_of_traced _ rfl rfl
  rintro c ⟨⟩
  exact hc

theorem CalleeReport.isSome_message? (h : CalleeReport callee d s) (hfits : callee.Fits N)
    (hstart : callee.start.isSome = true) : d.message?.isSome = true := by
  obtain ⟨details, rfl⟩ := h
  exact Diagnostic.isSome_message?_of_traced (fun c hc => hfits.context hc) hstart
    (hfits.place ▸ hstart)

theorem CallReport.isSome_message? (h : CallReport callee d s) (hfits : callee.Fits N)
    (hstart : callee.start.isSome = true) : d.message?.isSome = true := by
  rcases h with h | ⟨inner, hparent, hentry, details, rfl⟩
  · exact h.isSome_message? hfits hstart
  · apply Diagnostic.isSome_message?_of_traced _ hstart (hfits.place ▸ hstart)
    rintro _ ⟨⟩
    obtain ⟨name, parent, entry, symbols, hidden⟩ := inner
    obtain ⟨place, hplace⟩ := Option.isSome_iff_exists.mp hstart
    cases hctx : callee.context with
    | none =>
      obtain rfl : parent = none := hparent.trans hctx
      exact .outermost
    | some outer =>
      obtain rfl : parent = some outer := hparent.trans hctx
      obtain rfl : entry = some place := hentry.trans hplace
      exact .entered (hfits.context hctx)

end

theorem fitting_all {n : Nat} : Fitting (fun _ => True) n := fitting (fun _ _ _ _ => trivial) n

theorem fits_eval {fuel depth : Nat} {context : Context} {n : Node} {r : Except Stop Value}
    {m m' : Machine} (h : eval fuel depth context n m = (r, m')) (hc : context.Traced)
    (hm : m.store.Fits fun _ => True) : m'.store.Fits fun _ => True :=
  (fitting_all.eval hc (fun _ _ => trivial) (.inr fun _ => trivial)).store h hm

namespace Event

def Fits : Event → Prop
  | .text _ _ _ m | .file _ _ _ m => m.store.Fits fun _ => True
  | .part a => a.Fits fun _ => True

theorem Fits.leads {e e' : Event} (h : e.Fits) (hl : Leads e e') : e'.Fits := by
  cases hl with
  | program ht => exact ⟨fits_mainMachine h, .outermost, fun _ _ => trivial⟩
  | module hf ht hh hz hb =>
    have htable := (FitsAfter.newTable).store hh h
    have hzero := (FitsAfter.of_mute (BuiltinCall.modest_number _)).store hz htable
    exact ⟨(FitsAfter.bindName _ _ _).store hb hzero, .outermost, fun _ _ => trivial⟩
  | part hl => exact Activity.Fits.leads (fun _ _ _ _ => trivial) h (.inr fun _ => trivial) hl
  | @think fuel depth context span value m v m₁ code m₂ hv hcode =>
    have hvalue : FitsAfter (fun _ => True) (operandValue fuel depth context value) m := by
      cases value with
      | none => exact .pure _
      | some e => exact fitting_all.eval h.2.1 (fun _ _ => trivial) (.inr fun _ => trivial)
    exact (FitsAfter.of_mute (modest_askModel v)).store hcode (hvalue.store hv h.1)
  | importFile => exact h.1
  | run hp hn he => exact (fits_enterFunction (h.1.object _) h.2.1).store he h.1

end Event

end Eval

theorem Machine.Idle.fits {m : Machine} (h : m.Idle) : m.store.Fits fun _ => True := by
  induction h with
  | start w => exact fits_freshStore
  | moved _ _ ih => exact ih
  | text _ hrun _ ih => exact (fitting_all.runText fun _ => trivial).store hrun ih
  | file _ hrun _ ih => exact (fitting_all.importText fun _ => trivial).store hrun ih

namespace Eval

namespace Event

theorem Occurs.fits {e : Event} (h : Occurs e) : e.Fits := by
  induction h with
  | text h => exact h.fits
  | file h => exact h.fits
  | leads _ hl ih => exact ih.leads hl

/-- The event ends with the error. -/
def Reports (d : Diagnostic) : Event → Prop
  | .text fuel depth source m => ∃ m', runText fuel depth source m = (.ok (.error d), m')
  | .file fuel depth path m => ∃ m', importText fuel depth path m = (.ok (.error d), m')
  | .part a => ∃ m', a.StopsWith (.error d) m'

end Event

/-- The activity is an operator that reports `d`, and an operand of it is at no place: the number
that a negation multiplies with, or the null that all programs share. -/
inductive Activity.Unplaced (d : Diagnostic) : Activity → Prop
  | negation {depth context span x fuel m v m₁ m'}
    (hv : eval fuel depth context x m = (.ok v, m₁))
    (h : unary .minus span v m₁ = (.error (.error d), m')) :
    Unplaced d (.inside depth context ⟨.node (.unary span .minus x), fuel + 1, m⟩)
  | null {depth context span op x y fuel m l m₁ r m₂ m'}
    (hl : eval fuel depth context x m = (.ok l, m₁))
    (hr : eval fuel depth context y m₁ = (.ok r, m₂)) (hnull : l = nullValue ∨ r = nullValue)
    (hplace : ¬ m₂.store.Placed ⟨0⟩) (h : binary op span l r m₂ = (.error (.error d), m')) :
    Unplaced d (.inside depth context ⟨.node (.binary span op x y), fuel + 1, m⟩)

end Eval

namespace Operator

variable {l r : ObjectRef} {m : Machine}

def Complains (l r : ObjectRef) (x : Eval Answer) (m : Machine) : Prop :=
  ∀ d m', x m = (.error (.error d), m') →
    ∃ reason, (illegal l (.object r) reason : Eval Answer) m = (.error (.error d), m')

namespace Complains

theorem illegal (reason : String) : Complains l r (illegal l (.object r) reason) m :=
  fun _ _ h => ⟨reason, h⟩

theorem silent {x : Eval Answer} (hx : Modest (fun _ _ => False) x) : Complains l r x m :=
  fun _ _ h => (hx.stop h).elim

theorem bind {α : Type} {y : Eval α} {a : α} {k : α → Eval Answer} (hy : y m = (.ok a, m))
    (hk : Complains l r (k a) m) : Complains l r (y >>= k) m := by
  intro d m' h
  rw [bind_ok hy] at h
  exact hk d m' h

theorem lift_bind {α : Type} {y : Except Fault α} {k : α → Eval Answer}
    (hk : ∀ a, Complains l r (k a) m) : Complains l r (lift y >>= k) m := by
  cases y with
  | ok a => exact bind rfl (hk a)
  | error f => exact fun d m' h => nomatch h

theorem illegalKind (action : String) : Complains l r (illegalKind l (.object r) action) m := by
  rcases exists_kindName_or_fault r m with ⟨kind, hkind⟩ | ⟨n, f, -, -, hkind⟩
  · exact bind hkind (illegal _)
  · exact fun d m' h => nomatch (bind_error hkind).symm.trans h

end Complains

theorem complains_onFile (op : BinaryOp) (path : String) :
    Complains l r (onFile op l path (.object r)) m := by
  unfold onFile
  split
  · apply Complains.bind (payload?_apply r m)
    cases (m.store.object r).payload with
    | file => exact .silent (.pure _)
    | _ => exact .illegalKind _
  · exact .illegal _

section

-- Only numbers are divisors and indices, and a multiplication has neither.
variable {op : BinaryOp} (hr : ∀ n, (m.store.object r).payload = .number n → op = .mul)
include hr

theorem complains_onNumber (a : Number) : Complains l r (onNumber op l a (.object r)) m := by
  apply Complains.bind (payload?_apply r m)
  cases hp : (m.store.object r).payload with
  | number b =>
    obtain rfl := hr b hp
    exact .silent ((Modest.lift _).bind fun _ => modest_result _ nofun)
  | _ => exact .illegalKind _

theorem complains_onText (a : String) : Complains l r (onText op l a (.object r)) m := by
  apply Complains.bind (payload?_apply r m)
  cases hp : (m.store.object r).payload with
  | number b =>
    obtain rfl := hr b hp
    cases b with
    | int n => exact .silent ((Modest.lift _).bind fun _ => modest_result _ nofun)
    | _ => exact .silent (Modest.fault _)
  | text b =>
    cases op with
    | add | eq | ne | dot => exact .silent (modest_result _ nofun)
    | mul => exact .illegalKind _
    | _ => exact .illegal _
  | _ =>
    cases op with
    | add | mul | eq | ne => exact .illegalKind _
    | dot => exact .lift_bind fun _ => .illegal _
    | _ => exact .illegal _

theorem complains_onList (cells : ListRef) : Complains l r (onList op l cells (.object r)) m := by
  apply Complains.bind (payload?_apply r m)
  cases op with
  | add => exact .silent ((Modest.copy l).bind fun _ => by simp)
  | mul =>
    cases (m.store.object r).payload with
    | list others => exact .silent ((Modest.copy l).bind fun _ => by simp)
    | _ => exact .illegalKind _
  | sub =>
    cases hp : (m.store.object r).payload with
    | number n => cases hr n hp
    | _ => exact .illegalKind _
  | gt =>
    cases hp : (m.store.object r).payload with
    | number n => cases hr n hp
    | _ => exact .illegal _
  | _ => exact .illegal _

theorem complains_binary : Complains l r (Operator.binary op l (.object r)) m := by
  apply Complains.bind (object_apply l m)
  cases (m.store.object l).payload with
  | number a => exact complains_onNumber hr a
  | text a => exact complains_onText hr a
  | list cells => exact complains_onList hr cells
  | file name path => exact complains_onFile op path
  | null =>
    dsimp only
    split
    · exact .silent (.pure _)
    · exact .illegal _
  | _ => exact .illegal _

theorem stop_of_binary {d : Diagnostic} {m' : Machine}
    (hsome : m.store.isSomething (.object r) = true)
    (h : Operator.binary op l (.object r) m = (.error (.error d), m')) :
    d.stop = (m.store.object r).stop := by
  obtain ⟨reason, h⟩ := complains_binary hr d m' h
  cases (illegal_object l reason hsome).symm.trans h
  rfl

end

theorem start_of_illegal {right : Value} {d : Diagnostic} {m' : Machine} {reason : String}
    (h : (illegal l right reason : Eval Answer) m = (.error (.error d), m')) :
    d.start = (m.store.object l).start := by
  cases hright : m.store.isSomething right with
  | false =>
    cases (illegal_nothing l reason hright).symm.trans h
    rfl
  | true =>
    cases right with
    | object r =>
      cases (illegal_object l reason hright).symm.trans h
      rfl
    | absent => cases hright
    | bare t =>
      have ht : t.isEmpty = false := by simpa [Store.isSomething] using hright
      cases (illegal_bare l reason ht).symm.trans h

theorem start_of_binary_null {op : BinaryOp} {right : Value} {d : Diagnostic}
    {m' : Machine} (hl : (m.store.object l).payload = .null)
    (h : Operator.binary op l right m = (.error (.error d), m')) :
    d.start = (m.store.object l).start := by
  rw [Operator.binary, bind_ok (object_apply l m), hl] at h
  dsimp only at h
  split at h
  · cases h
  · exact start_of_illegal h

end Operator

namespace Eval

section

variable {fuel depth : Nat} {context : Context} {span : Span} {d : Diagnostic} {l r v : Value}
  {m m₁ m₂ m' : Machine}

theorem bind_placed_eq_error {x : Eval Answer}
    (h : (x >>= placed span) m = (.error (.error d), m')) : x m = (.error (.error d), m') := by
  rcases bind_eq_error h with h | ⟨answer, m₁, -, h⟩
  · exact h
  · exact False.elim ((modest_placed (E := fun _ _ => False) span answer).stop h)

theorem binary_eq_error {op : BinaryOp} (h : binary op span l r m = (.error (.error d), m')) :
    ∃ q, l = .object q ∧ Operator.binary op q r m = (.error (.error d), m') := by
  cases l with
  | absent | bare => cases h
  | object q => exact ⟨q, rfl, bind_placed_eq_error h⟩

theorem minus_eq_error (h : unary .minus span v m = (.error (.error d), m')) :
    ∃ q, v = .object q ∧ Operator.binary .mul q (.object ⟨m.store.objects.size⟩)
      ⟨(m.store.allocate (.fresh (.number (.int (-1))))).2, m.world⟩ = (.error (.error d), m') := by
  cases v with
  | absent | bare => cases h
  | object q => exact ⟨q, rfl, bind_placed_eq_error h⟩

/-- If an operand is at no place, an end of the error is not known. -/
theorem Activity.Unplaced.not_ends {a : Activity} (h : a.Unplaced d)
    (hfits : a.Fits fun _ => True) : ¬ (d.start.isSome = true ∧ d.stop.isSome = true) := by
  rintro ⟨hstart, hstop⟩
  cases h with
  | @negation _ _ _ _ _ _ _ m₁ _ hv hminus =>
    obtain ⟨q, rfl, h⟩ := minus_eq_error hminus
    have hone := Store.object_push m₁.store (.fresh (.number (.int (-1))))
    have hsome : (m₁.store.allocate (.fresh (.number (.int (-1))))).2.isSomething
        (.object ⟨m₁.store.objects.size⟩) = true := by
      simp only [Store.isSomething, hone]
      rfl
    have hd := Operator.stop_of_binary (m := ⟨_, m₁.world⟩) (fun _ _ => rfl) hsome h
    rw [hd, hone] at hstop
    cases hstop
  | @null _ _ _ _ _ _ _ _ _ _ _ m₂ _ hl hr hnull hplace hbinary =>
    have hfits₂ := fits_eval hr hfits.2.1 (fits_eval hl hfits.2.1 hfits.1)
    have hpair := (hfits₂.object ⟨0⟩).place
    obtain ⟨q, rfl, h⟩ := binary_eq_error hbinary
    rcases hnull with hnull | rfl
    · cases hnull
      rw [Operator.start_of_binary_null hfits₂.2 h] at hstart
      exact hplace ⟨hstart, hpair ▸ hstart⟩
    · have hsome : m₂.store.isSomething nullValue = true := by
        simp only [Store.isSomething, nullValue, hfits₂.2]
      have hnumber (n : Number) : (m₂.store.object ⟨0⟩).payload ≠ .number n := by
        simp [hfits₂.2]
      rw [Operator.stop_of_binary (fun n hn => absurd hn (hnumber n)) hsome h] at hstop
      exact hplace ⟨hpair ▸ hstop, hstop⟩

theorem eq_null_of_not_placed {ρ : Pairing} {n : Node} {q : ObjectRef} (h : SoundAt ρ context m)
    (hn : eval fuel depth context n m = (.ok (.object q), m₁)) (hq : ¬ m₁.store.Placed q) :
    q = ⟨0⟩ := by
  obtain ⟨ρ', -, hsound, hv⟩ := h.eval_ok hn
  cases hv with
  | object hq' =>
    have hsize := (hsound.alike.store.objects hq').1
    exact ((locating fuel).eval depth context n m _ m₁ hn q rfl hsize).resolve_right hq

theorem binary_shown_or_unplaced {op : BinaryOp} {x y : Node} {ρ : Pairing}
    (hsound : SoundAt ρ context m) (hfits : m.store.Fits fun _ => True) (hc : context.Traced)
    (hl : eval fuel depth context x m = (.ok l, m₁))
    (hr : eval fuel depth context y m₁ = (.ok r, m₂))
    (h : binary op span l r m₂ = (.error (.error d), m')) :
    d.message?.isSome = true ∨
      (Activity.inside depth context ⟨.node (.binary span op x y), fuel + 1, m⟩).Unplaced d := by
  obtain ⟨q, rfl, hreported⟩ : BinaryReport l r d m'.store := (modest_binary op span l r).stop h
  obtain ⟨ρ₁, -, hsound₁, -⟩ := hsound.eval_ok hl
  have hfits' := (FitsAfter.of_modest (modest_binary op span _ r)).store h
    (fits_eval hr hc (fits_eval hl hc hfits))
  have hchanges := ((modest_binary op span (.object q) r).reports m₂).changes
  rw [h] at hchanges
  have hkept {q : ObjectRef} (hq : m₂.store.Placed q) : m'.store.Placed q := hq.changes hchanges
  by_cases hleft : m₂.store.Placed q
  · by_cases hright : ∃ q', r = .object q' ∧ ¬ m₂.store.Placed q'
    · obtain ⟨q', rfl, hq'⟩ := hright
      obtain rfl := eq_null_of_not_placed hsound₁ hr hq'
      exact .inr (.null hl hr (.inr rfl) hq' h)
    · have hplaced {q' : ObjectRef} (hr : r = .object q') : m'.store.Placed q' :=
        hkept (not_not.mp fun hq' => hright ⟨q', hr, hq'⟩)
      refine .inl (Diagnostic.isSome_message?_of_traced ?_ ?_ ?_)
      · intro c hcontext
        exact (hfits'.object q).context (hreported.context.symm.trans hcontext)
      · rcases hreported.start with hstart | ⟨q', hq', hstart⟩
        · exact hstart ▸ (hkept hleft).1
        · exact hstart ▸ (hplaced hq').1
      · rcases hreported.stop with ⟨-, hstop⟩ | ⟨q', hq', hstop⟩
        · exact hstop ▸ (hkept hleft).2
        · exact hstop ▸ (hplaced hq').2
  · have hleft₁ : ¬ m₁.store.Placed q := by
      intro hq
      have hchanges := ((disciplined fuel).eval depth context y m₁).changes
      rw [hr] at hchanges
      exact hleft (hq.changes hchanges)
    obtain rfl := eq_null_of_not_placed hsound hl hleft₁
    exact .inr (.null hl hr (.inl rfl) hleft h)

theorem unary_shown_or_unplaced {op : UnaryOp} {x : Node}
    (hv : eval fuel depth context x m = (.ok v, m₁))
    (h : unary op span v m₁ = (.error (.error d), m')) :
    (Activity.inside depth context ⟨.node (.unary span op x), fuel + 1, m⟩).Unplaced d := by
  cases op with
  | minus => exact .negation hv h
  | plus =>
    have hmute : Modest (fun _ _ => False) (unary .plus span v) := by
      apply Obeys.bind (Modest.objectOf v)
      rintro ⟨r, o⟩
      exact modest_placed span _
    exact (hmute.stop h).elim
  | not =>
    have hmute : Modest (fun _ _ => False) (unary .not span v) := by
      apply Obeys.bind (Modest.objectOf v)
      rintro ⟨r, o⟩
      exact (Operator.modest_negate r).bind fun a => modest_placed span a
    exact (hmute.stop h).elim

/-- The tree of a text does not depend on the machine; an error instead of it is one in the text. -/
theorem treeOf_eq_ok {source : Source} {x : Except Diagnostic Node}
    (h : treeOf source m = (.ok x, m')) : m' = m ∧ ∀ d, x = .error d → d.IsStatic := by
  obtain ⟨hm, ⟨d, htokens, rfl⟩ | ⟨tokens, -, ⟨d, htree, rfl⟩ | ⟨tree, -, rfl⟩⟩⟩ := treeOf_cases h
  · refine ⟨hm, ?_⟩
    rintro _ ⟨⟩
    exact Source.isStatic_of_tokens htokens
  · refine ⟨hm, ?_⟩
    rintro _ ⟨⟩
    exact Node.isStatic_of_ofTokens htree
  · exact ⟨hm, by simp⟩

theorem readFile_eq_ok {path text : String} (h : readFile path m = (.ok text, m')) : m' = m := by
  have hread : readFile path m = _ := bind_ok (show world m = (.ok m.world, m) from rfl)
  rw [hread] at h
  cases hw : m.world.readText path with
  | ok t =>
    rw [hw] at h
    cases h
    rfl
  | error e =>
    rw [hw] at h
    cases h

theorem importFile_eq_ok {path file : String}
    (h : importFile context span path m = (.ok file, m')) : m' = m := by
  have himport : importFile context span path m = _ :=
    bind_ok (show world m = (.ok m.world, m) from rfl)
  rw [himport] at h
  dsimp only at h
  repeat' split at h
  all_goals
    cases h
    try rfl

end

namespace Event

variable {d : Diagnostic}

inductive Explains (d : Diagnostic) : Event → Prop
  | shown {e} (h : d.message?.isSome = true) : Explains d e
  | interrupted {e} (h : d = interruptReport) : Explains d e
  | unplaced {a} (h : a.Unplaced d) : Explains d (.part a)
  | passed {e e'} (hl : Leads e e') (h : e'.Reports d) : Explains d e

theorem Occurs.explains_raised {a : Activity} {m' : Machine} (ho : Occurs (.part a))
    (h : a.Raises (.error d) m') : Explains d (.part a) := by
  have hfits := ho.fits
  cases h with
  | entry hp h =>
    have hreport : CalleeReport _ d m'.store := (reports_enterFunction _ _ _ _ _).stop h
    exact .shown (hreport.isSome_message? (hfits.1.object _) hfits.2.1)
  | builtin hp h =>
    have hreport : CallReport _ d m'.store := call_builtin hp h
    exact .shown (hreport.isSome_message? (hfits.1.object _) hfits.2.1)
  | @other _ _ r _ m _ _ h =>
    have hunknown := Operator.illegal_nothing (α := Value) r "unknown"
      (show m.store.isSomething .absent = false from rfl)
    have hreport : CalleeReport (m.store.object r) d m'.store := by
      cases hunknown.symm.trans h
      exact ⟨_, rfl⟩
    exact .shown (hreport.isSome_message? (hfits.1.object _) hfits.2.1)
  | part h hcall =>
    obtain ⟨hm, hc, -⟩ := hfits
    obtain ⟨ρ, hsound, -⟩ := ho.sound
    cases h with
    | access h =>
      have hreport : PlaceReport _ _ d m'.store := (within_access _ _ _).stop h
      exact .shown (hreport.isSome_message? hc)
    | binary hl hr h =>
      rcases binary_shown_or_unplaced hsound hm hc hl hr h with hshown | hunplaced
      · exact .shown hshown
      · exact .unplaced hunplaced
    | unary hv h => exact .unplaced (unary_shown_or_unplaced hv h)
    | call => exact absurd rfl (hcall _ _ _)
    | ret _ h => cases (returnValue_eq_error h).1
    | notFound h =>
      have hreport : PlaceReport _ _ d m'.store := (modest_importFile _ _ _).stop h
      exact .shown (hreport.isSome_message? hc)
    | imported hf h he =>
      obtain rfl := importFile_eq_ok hf
      cases he
      exact .passed (.importFile hf) ⟨m', h⟩
    | continueLoop he | breakLoop he => cases he

theorem Occurs.explains {e : Event} (ho : Occurs e) (h : e.Reports d) : Explains d e := by
  cases e with
  | text fuel depth source m =>
    obtain ⟨m', h⟩ := h
    rcases fuel with _ | fuel
    · rw [runText] at h
      cases h
    rcases depth with _ | depth
    · rw [runText] at h
      · cases h
      · simp
    · have hrun := h
      rw [runText] at hrun
      obtain ⟨x, m₁, hx, hrun⟩ := bind_eq_ok hrun
      obtain ⟨rfl, hstatic⟩ := treeOf_eq_ok hx
      cases x with
      | error d' =>
        cases hrun
        exact .shown (hstatic _ rfl).isSome_message?
      | ok tree =>
        rw [runText_succ hx] at h
        rcases settle_eq_error h with hstop | hinterrupt
        · exact .passed (.program hx) ⟨m', hstop⟩
        · exact .interrupted hinterrupt
  | file fuel depth path m =>
    obtain ⟨m', h⟩ := h
    rcases fuel with _ | fuel
    · rw [importText] at h
      cases h
    rcases depth with _ | depth
    · rw [importText] at h
      · cases h
      · simp
    · rw [importText] at h
      obtain ⟨text, m₁, hread, htext⟩ := bind_eq_ok h
      obtain rfl := readFile_eq_ok hread
      obtain ⟨x, m₂, hx, hrest⟩ := bind_eq_ok htext
      obtain ⟨rfl, hstatic⟩ := treeOf_eq_ok hx
      cases x with
      | error d' =>
        cases hrest
        exact .shown (hstatic _ rfl).isSome_message?
      | ok tree =>
        obtain ⟨hidden, m₃, htable, hrest⟩ := bind_eq_ok hrest
        obtain ⟨zero, m₄, hzero, hrest⟩ := bind_eq_ok hrest
        obtain ⟨_, m₅, hbind, hrest⟩ := bind_eq_ok hrest
        rcases settle_eq_error hrest with hstop | hinterrupt
        · exact .passed (.module hread hx htable hzero hbind) ⟨m', hstop⟩
        · exact .interrupted hinterrupt
  | part a =>
    obtain ⟨m', h⟩ := h
    rcases Activity.raises_or_passes (e := .error d) (by simp) h with hraises | ⟨b, hab, hb⟩
    · exact ho.explains_raised hraises
    · exact .passed (.part hab.leads) ⟨m', hb⟩

/-- An error that cannot be shown comes from an interrupt or from an operand without a place. -/
theorem Occurs.exists_unplaced {e : Event} (ho : Occurs e) (h : e.Reports d)
    (hd : d.message? = none) (hne : d ≠ interruptReport) :
    ∃ a, ReflTransGen Leads e (.part a) ∧ a.Unplaced d := by
  induction hn : e.fuel using Nat.strongRecOn generalizing e with
  | ind n ih =>
    cases ho.explains h with
    | shown hshown => simp [hd] at hshown
    | interrupted hinterrupt => exact absurd hinterrupt hne
    | unplaced ha => exact ⟨_, .refl, ha⟩
    | passed hl he' =>
      obtain ⟨a, hreach, ha⟩ := ih _ (hn ▸ hl.fuel_lt) (ho.leads hl) he' rfl
      exact ⟨a, .head hl hreach, ha⟩

theorem Occurs.reaches {e e' : Event} (ho : Occurs e) (h : ReflTransGen Leads e e') :
    Occurs e' := by
  induction h with
  | refl => exact ho
  | tail _ hl ih => exact ih.leads hl

end Event

end Eval

namespace Machine

theorem runText_of_run_error {m m' : Machine} {source : Source} {d : Diagnostic}
    (h : m.run source = (.error d, m')) :
    runText (maxFuel + source.text.length) maxDepth source m = (.ok (.error d), m') := by
  rcases hr : runText (maxFuel + source.text.length) maxDepth source m with ⟨r, m₁⟩
  rw [run, hr] at h
  rcases r with e | d' | v
  · have hmute := (disciplined (maxFuel + source.text.length)).runText maxDepth source
    cases e with
    | error d' => exact (hmute.stop hr).elim
    | _ => cases h
  · cases h
    rfl
  · cases h

/-- An error that a session reports can be shown if and only if both of its ends are known. They
are, but for an interrupt and for an operator that reports the place of an operand that has none. -/
theorem run_error_shown_iff (m : Machine) (hm : m.Idle) (source : Source) (d : Diagnostic)
    (m' : Machine) (h : m.run source = (.error d, m')) :
    (d.message?.isSome = true ↔ d.start.isSome = true ∧ d.stop.isSome = true) ∧
    (d.message? = none ↔ d = interruptReport ∨
      ∃ a, ReflTransGen Event.Leads
        (.text (maxFuel + source.text.length) maxDepth source m) (.part a) ∧ a.Unplaced d) := by
  have hreports : Event.Reports d (.text (maxFuel + source.text.length) maxDepth source m) :=
    ⟨m', runText_of_run_error h⟩
  have hoccurs : Event.Occurs (.text (maxFuel + source.text.length) maxDepth source m) :=
    .text hm _ _ _
  have hends : d = interruptReport ∨ (∃ a, ReflTransGen Event.Leads
        (.text (maxFuel + source.text.length) maxDepth source m) (.part a) ∧ a.Unplaced d) →
      ¬ (d.start.isSome = true ∧ d.stop.isSome = true) := by
    rintro (rfl | ⟨a, hreach, ha⟩)
    · simp [interruptReport]
    · exact ha.not_ends (hoccurs.reaches hreach).fits
  have horigin (hd : d.message? = none) :=
    or_iff_not_imp_left.mpr (hoccurs.exists_unplaced hreports hd)
  refine ⟨⟨Diagnostic.isSome_of_message?, fun hboth => ?_⟩, horigin, fun hopen => ?_⟩
  · rw [← Option.ne_none_iff_isSome]
    exact fun hd => hends (horigin hd) hboth
  · rw [← Option.not_isSome_iff_eq_none]
    exact fun hshown => hends hopen (Diagnostic.isSome_of_message? hshown)

def Ending.isHalfPlaced : Ending → Bool
  | .error d => d.start.isSome && d.stop.isNone
  | _ => false

def negatedList : Source := ⟨"<stdin>", "-[1]"⟩

/-- The negation reports the start of the list and the end of its other operand, which has none. -/
theorem run_error_shown_iff_negation : ∃ d m',
    (start (.start ⟨"/home", []⟩)).run negatedList = (.error d, m') ∧
    d.start.isSome = true ∧ d.message? = none ∧
    ∃ a, ReflTransGen Event.Leads (.text (maxFuel + negatedList.text.length) maxDepth negatedList
        (start (.start ⟨"/home", []⟩))) (.part a) ∧ a.Unplaced d := by
  have hcheck : ((start (.start ⟨"/home", []⟩)).run negatedList).1.isHalfPlaced = true := by
    decide +kernel
  rcases hrun : (start (.start ⟨"/home", []⟩)).run negatedList with ⟨ending, m'⟩
  rw [hrun] at hcheck
  cases ending with
  | value | fault => cases hcheck
  | error d =>
    simp only [Ending.isHalfPlaced, Bool.and_eq_true, Option.isNone_iff_eq_none] at hcheck
    obtain ⟨hstart, hstop⟩ := hcheck
    obtain ⟨hshown, horigin⟩ := run_error_shown_iff _ (.start _) negatedList _ m' hrun
    have hnone : d.message? = none := by
      rw [← Option.not_isSome_iff_eq_none, hshown, hstop]
      simp
    have hplaced : d ≠ interruptReport := by
      rintro rfl
      cases hstart
    exact ⟨d, m', rfl, hstart, hnone, (horigin.mp hnone).resolve_left hplaced⟩

end Machine

end Think
