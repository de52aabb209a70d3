import Mathlib.Data.Nat.Digits.Lemmas
import Think.Proofs.Eval.Pieces
import Think.Proofs.IntExpr.Run

/-! # Integers as texts

Every integer that can be written out is read back from its text, and a text of digits is the same
number to the two readers there are: the one for the words of a program and the one that the
functions of the language use.
-/

namespace Think

open Eval

theorem Text.trimBoth_eq_self {p : Char → Bool} {cs : List Char} (h : ∀ c ∈ cs, p c = false) :
    trimBoth p cs = cs := by
  have hdrop {ds : List Char} (hds : ∀ c ∈ ds, p c = false) : ds.dropWhile p = ds := by
    cases ds with
    | nil => rfl
    | cons c ds => simp [hds c]
  unfold trimBoth
  rw [hdrop h, hdrop (by simpa using h), List.reverse_reverse]

namespace Number

variable {cs : List Char} {c : Char}

def IsPlain (c : Char) : Prop := isDigit c = true ∨ c = '-'

theorem IsPlain.lt (h : IsPlain c) : c.toNat < 128 := by
  obtain h | rfl := h
  · simp only [isDigit, Bool.and_eq_true, decide_eq_true_eq] at h
    exact Nat.lt_of_le_of_lt h.2 (by decide)
  · decide

theorem IsPlain.not_blank (h : IsPlain c) : isPlainBlank c = false := by
  obtain h | rfl := h
  · simp only [isDigit, Bool.and_eq_true, decide_eq_true_eq] at h
    have hlow : 48 ≤ c.toNat := h.1
    have hspace : c ≠ ' ' := by
      rintro rfl
      exact absurd hlow (by decide)
    have hcontrol : ¬ c.toNat ≤ 13 := by omega
    simp [isPlainBlank, hspace, hcontrol]
  · decide

theorem dropUnderscores?_digits {p : Char} (hp : p ≠ '_') (hcs : ∀ d ∈ cs, isDigit d = true) :
    dropUnderscores? p cs = some cs := by
  induction cs generalizing p with
  | nil => simp [dropUnderscores?, hp]
  | cons c cs ih =>
    have hc : c ≠ '_' := by
      rintro rfl
      exact absurd (hcs '_' (by simp)) (by decide)
    simp [dropUnderscores?, hp, hc, ih hc fun d hd => hcs d (by simp [hd])]

/-- A text is read as the integer that its sign and its digits stand for. -/
theorem readInt_of_sign {negative : Bool} {ds : List Char} (hplain : ∀ c ∈ cs, IsPlain c)
    (hsign : sign cs = (negative, ds)) (hds : ∀ d ∈ ds, isDigit d = true) (hne : ds ≠ [])
    (hlen : ds.length ≤ maxDigits) :
    readInt (String.ofList cs) = .ok (if negative then -(natOf ds : Int) else natOf ds) := by
  have hsimplify : simplify cs = cs := by
    unfold simplify
    rw [if_pos]
    simpa using fun c hc => (hplain c hc).lt
  have htrim : Text.trimBoth isPlainBlank cs = cs :=
    Text.trimBoth_eq_self fun c hc => (hplain c hc).not_blank
  unfold readInt
  rw [String.toList_ofList, hsimplify, htrim, hsign]
  simp only [dropUnderscores?_digits (show ' ' ≠ '_' by decide) hds]
  rw [if_neg]
  simpa [hne] using ⟨hds, hlen⟩

theorem readInt_digits (hcs : ∀ d ∈ cs, isDigit d = true) (hne : cs ≠ [])
    (hlen : cs.length ≤ maxDigits) : readInt (String.ofList cs) = .ok (natOf cs) := by
  have hsign : sign cs = (false, cs) := by
    obtain ⟨c, ds, rfl⟩ := List.exists_cons_of_ne_nil hne
    have hc := hcs c (by simp)
    unfold sign
    split
    · next heq =>
      obtain rfl := (List.cons_eq_cons.mp heq).1
      cases hc
    · next heq =>
      obtain rfl := (List.cons_eq_cons.mp heq).1
      cases hc
    · rfl
  exact readInt_of_sign (fun c hc => .inl (hcs c hc)) hsign hcs hne hlen

theorem isDigit_of_mem_toDigits {n : Nat} (hc : c ∈ Nat.toDigits 10 n) : isDigit c = true :=
  Nat.isDigit_of_mem_toDigits (by decide) (by decide) hc

theorem natOf_toDigits (n : Nat) : natOf (Nat.toDigits 10 n) = n := Scanner.Scans.natOf_toDigits n

theorem readInt_toString {n : Int} (h : (Nat.toDigits 10 n.natAbs).length ≤ maxDigits) :
    readInt (toString n) = .ok n := by
  have hdigits {k : Nat} : ∀ c ∈ Nat.toDigits 10 k, isDigit c = true :=
    fun c hc => isDigit_of_mem_toDigits hc
  cases n with
  | ofNat k =>
    have htext : toString (Int.ofNat k) = String.ofList (Nat.toDigits 10 k) :=
      Nat.toString_eq_ofList_toDigits
    have hlen : (Nat.toDigits 10 k).length ≤ maxDigits := h
    rw [htext, readInt_digits hdigits Nat.toDigits_ne_nil hlen, natOf_toDigits]
    rfl
  | negSucc k =>
    have htext : toString (Int.negSucc k) = String.ofList ('-' :: Nat.toDigits 10 (k + 1)) := by
      change "-" ++ toString (k + 1) = _
      rw [Nat.toString_eq_ofList_toDigits, ← String.toList_inj]
      simp
    have hplain : ∀ c ∈ '-' :: Nat.toDigits 10 (k + 1), IsPlain c := by
      rintro c (_ | ⟨_, hc⟩)
      · exact .inr rfl
      · exact .inl (hdigits c hc)
    rw [htext, readInt_of_sign hplain rfl hdigits Nat.toDigits_ne_nil h, natOf_toDigits]
    rfl

end Number

theorem Store.snapshot_eq_number {s : Store} {r : ObjectRef} {n : Number} :
    s.snapshot (.object r) = .number n ↔ (s.object r).payload = .number n := by
  cases hp : (s.object r).payload with
  | list cells =>
    have hlist : s.snapshot (.object r) ≠ .number n := by
      rw [snapshot, snapshotBelow, hp]
      dsimp only
      split
      · simp
      · cases s.lists.size <;> simp
    simp [hlist]
  | _ => simp [snapshot, snapshotBelow, hp]

theorem BuiltinCall.lenience_int (c : BuiltinCall) {m : Machine} {r : ObjectRef} {i : Int}
    (hr : (m.store.object r).payload = .number (.int i)) (hi : i = 0 ∨ i = 1) (name : String) :
    c.lenience r name m = (.ok (decide (i = 1)), m) := by
  have hnumber (otherwise : String) : c.numberArg r otherwise m = (.ok (.int i), m) := by
    rw [numberArg, bind_ok (object_apply r m), hr]
    rfl
  rw [lenience, bind_ok (hnumber _)]
  obtain rfl | rfl := hi <;> rfl

namespace Builtin

theorem computes_tostr {x : Snapshot} {t : String} (h : x.written = .ok t) :
    tostr.Computes [x] (.text t) := by
  refine computes_of_perform (by decide) rfl fun c m refs hrefs => ?_
  rcases refs with _ | ⟨a, _ | _⟩ <;> simp at hrefs
  have hwritten : written (.object a) m = (.ok t, m) := by
    change lift (m.store.snapshot (.object a)).written m = _
    rw [hrefs, h]
    rfl
  refine ⟨.object ⟨m.store.objects.size⟩, ⟨(m.store.allocate (.fresh (.text t))).2, m.world⟩,
    ?_, ?_⟩
  · rw [BuiltinCall.perform, bind_ok hwritten]
    rfl
  · rw [Store.snapshot_eq_text, Store.object_push]
    rfl

/-- A text that is read as an integer is converted to it, whether or not others are let pass. -/
theorem computes_toint {t : String} {n i : Int} (ht : Number.readInt t = .ok n)
    (hi : i = 0 ∨ i = 1) :
    toint.Computes [.text t, .number (.int i)] (.number (.int n)) := by
  refine computes_of_perform (by decide) rfl fun c m refs hrefs => ?_
  rcases refs with _ | ⟨a, _ | ⟨b, _ | _⟩⟩ <;>
    simp [Store.snapshot_eq_text, Store.snapshot_eq_number] at hrefs
  obtain ⟨ha, hb⟩ := hrefs
  refine ⟨.object ⟨m.store.objects.size⟩,
    ⟨(m.store.allocate (.fresh (.number (.int n)))).2, m.world⟩, ?_, ?_⟩
  · rw [BuiltinCall.perform, BuiltinCall.toint, BuiltinCall.convert,
      bind_ok (c.lenience_int hb hi _), bind_ok (object_apply a m), ha]
    dsimp only
    rw [ht]
    rfl
  · rw [Store.snapshot_eq_number, Store.object_push]
    rfl

/-- An integer of at most 4300 digits is written as a text that is converted back to it, and a text
of at most 4300 digits is the word for the number that it is converted to. -/
theorem integers_as_texts :
    (∀ n : Int, (Nat.digits 10 n.natAbs).length ≤ 4300 → ∃ t : String,
      tostr.Computes [.number (.int n)] (.text t) ∧
      (∀ i : Int, i = 0 ∨ i = 1 → toint.Computes [.text t, .number (.int i)] (.number (.int n))) ∧
      (0 ≤ n → ∀ name, ∃ ts, (⟨name, t⟩ : Source).tokens = .ok ts ∧
        ts.map (·.lexeme) = [.int n.toNat, .endOfText])) ∧
    ∀ d : String, d ≠ "" → (∀ c ∈ d.toList, c.isDigit = true) → d.length ≤ 4300 →
      (∀ name, ∃ ts, (⟨name, d⟩ : Source).tokens = .ok ts ∧
        ts.map (·.lexeme) = [.int (Nat.ofDigitChars 10 d.toList 0), .endOfText]) ∧
      ∀ i : Int, i = 0 ∨ i = 1 →
        toint.Computes [.text d, .number (.int i)]
          (.number (.int (Nat.ofDigitChars 10 d.toList 0))) := by
  have hends : Scanner.Scans.EndsNumber [] := by simp [Scanner.Scans.EndsNumber]
  constructor
  · intro n hn
    have hsame {k : Nat} (hk : 0 < k) :
        (Nat.toDigits 10 n.natAbs).length ≤ k ↔ (Nat.digits 10 n.natAbs).length ≤ k := by
      rw [Nat.length_toDigits_le_iff (by decide) hk, Nat.digits_length_le_iff (by decide)]
    have hdigits : (Nat.toDigits 10 n.natAbs).length ≤ Number.maxDigits :=
      (hsame (by decide)).mpr hn
    have hlength : (toString n.natAbs).length ≤ Number.maxDigits := by
      rwa [Nat.toString_eq_ofList_toDigits, String.length_ofList]
    have hwritten : (Snapshot.number (.int n)).written = .ok (toString n) := by
      rw [Snapshot.written_number, Number.written_int hlength]
    refine ⟨toString n, computes_tostr hwritten,
      fun i hi => computes_toint (Number.readInt_toString hdigits) hi, ?_⟩
    intro hpos name
    obtain ⟨k, rfl⟩ := Int.eq_ofNat_of_zero_le hpos
    exact (Scanner.Scans.digits hlength).tokens hends rfl
  · intro d hne hd hlength
    have hcs : d.toList ≠ [] := by simpa using hne
    rw [← String.length_toList] at hlength
    have hscans := Scanner.Scans.digitRun hd hcs hlength
    have hread := Number.readInt_digits hd hcs hlength
    rw [String.ofList_toList] at hread
    exact ⟨fun name => hscans.tokens hends rfl, fun i hi => computes_toint hread hi⟩

theorem integers_as_texts_signed :
    (Nat.digits 10 (-120 : Int).natAbs).length ≤ 4300 ∧ (∀ c ∈ "007".toList, c.isDigit = true) ∧
    (∃ t, tostr.Computes [.number (.int (-120))] (.text t) ∧
      toint.Computes [.text t, .number (.int 1)] (.number (.int (-120)))) ∧
    toint.Computes [.text "007", .number (.int 0)] (.number (.int 7)) := by
  have hdigits : (Nat.digits 10 (-120 : Int).natAbs).length ≤ 4300 := by norm_num
  have hd : ∀ c ∈ "007".toList, c.isDigit = true := List.all_eq_true.mp (by decide)
  obtain ⟨t, hwritten, hread, -⟩ := integers_as_texts.1 (-120) hdigits
  have hzeros := (integers_as_texts.2 "007" (by decide) hd (by decide)).2 0 (.inl rfl)
  exact ⟨hdigits, hd, ⟨t, hwritten, hread 1 (.inr rfl)⟩, hzeros⟩

end Builtin

end Think
