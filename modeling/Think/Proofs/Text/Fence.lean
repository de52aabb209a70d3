import Mathlib.Data.List.TakeWhile
import Mathlib.Order.Nat
import Think.Text.Fence

/-! # The code between two fences

The code of a text stands behind its first opening fence, up to the next fence. The search for code
may go on from a later place, but if the first opening fence is never closed then no later one is:
what stands behind the line of a later one also stands behind the line of the first.
-/

namespace Think.Text

variable {cs body : List Char} {i j k : Nat}

/-- A fence stands at the place, its word has no blanks and is followed by the end of the line, and
`body` is what stands behind that. -/
def OpensAt (cs : List Char) (i : Nat) (body : List Char) : Prop :=
  ∃ word, cs.drop i = fence ++ (word ++ '\n' :: body) ∧ ∀ c ∈ word, isBlank c = false

theorem beforeFence?_of_isLeast (h : IsLeast {l | fence <+: cs.drop l} k) :
    beforeFence? cs = some (cs.take k) := by
  induction cs generalizing k with
  | nil =>
    have hk : fence <+: [].drop k := h.1
    simp [fence] at hk
  | cons c rest ih =>
    unfold beforeFence?
    rcases k with _ | k
    · have hhere : fence <+: c :: rest := h.1
      rw [if_pos (List.isPrefixOf_iff_prefix.mpr hhere)]
      rfl
    · have hnot : ¬ fence <+: c :: rest := by
        intro hhere
        have hle := h.2 (show 0 ∈ {l | fence <+: (c :: rest).drop l} from hhere)
        omega
      have hrest : IsLeast {l | fence <+: rest.drop l} k := by
        constructor
        · exact h.1
        · intro l hl
          have hle := h.2 (show l + 1 ∈ {l | fence <+: (c :: rest).drop l} from hl)
          omega
      rw [if_neg (by rwa [List.isPrefixOf_iff_prefix]), ih hrest]
      rfl

theorem beforeFence?_of_free (h : ¬ fence <:+: cs) : beforeFence? cs = none := by
  induction cs with
  | nil => rfl
  | cons c rest ih =>
    have hhere : ¬ fence <+: c :: rest := fun hp => h hp.isInfix
    have hrest : ¬ fence <:+: rest := fun hi => h (hi.trans (List.suffix_cons c rest).isInfix)
    unfold beforeFence?
    rw [if_neg (by rwa [List.isPrefixOf_iff_prefix]), ih hrest]
    rfl

/-- A fence inside a text starts at some place, and hence at a first one. -/
theorem exists_isLeast_fence (h : fence <:+: cs) : ∃ k, IsLeast {l | fence <+: cs.drop l} k := by
  classical
  obtain ⟨front, back, rfl⟩ := h
  have hthere : ∃ l, fence <+: (front ++ fence ++ back).drop l := by
    refine ⟨front.length, ?_⟩
    rw [List.append_assoc, List.drop_left]
    exact List.prefix_append fence back
  exact ⟨_, Nat.isLeast_find hthere⟩

/-- Up to its first fence a text has none, and no backtick stands right before that. -/
theorem take_of_isLeast (h : IsLeast {l | fence <+: cs.drop l} k) :
    ¬ fence <:+: cs.take k ∧ (cs.take k).getLast? ≠ some '\x60' := by
  constructor
  · rintro ⟨front, back, happ⟩
    have hlength := congrArg List.length happ
    have hcs : cs = front ++ (fence ++ (back ++ cs.drop k)) := by
      conv_lhs => rw [← List.take_append_drop k cs, ← happ]
      simp
    have hle := h.2 (show fence <+: cs.drop front.length by
      rw [hcs, List.drop_left]
      exact List.prefix_append _ _)
    simp [fence] at hlength
    omega
  · intro hlast
    rw [List.getLast?_eq_some_iff] at hlast
    obtain ⟨front, hfront⟩ := hlast
    obtain ⟨after, hafter⟩ := h.1
    have hcs : cs = front ++ '\x60' :: (fence ++ after) := by
      conv_lhs => rw [← List.take_append_drop k cs, hfront, ← hafter]
      simp
    have hle := h.2 (show fence <+: cs.drop front.length by
      rw [hcs, List.drop_left]
      exact ⟨'\x60' :: after, rfl⟩)
    have hlength := congrArg List.length hfront
    simp at hlength
    omega

theorem fencedHere?_of_opensAt (h : OpensAt cs i body) :
    fencedHere? (cs.drop i) = beforeFence? body := by
  obtain ⟨word, hdrop, hword⟩ := h
  have hbehind : (word ++ '\n' :: body).dropWhile (!isBlank ·) = '\n' :: body := by
    rw [List.dropWhile_append_of_pos fun c hc => by simp [hword c hc]]
    rfl
  unfold fencedHere?
  rw [hdrop, if_pos (List.isPrefixOf_iff_prefix.mpr (List.prefix_append _ _)), List.drop_left,
    hbehind]
  rfl

theorem exists_opensAt_of_fencedHere? {inner : List Char}
    (h : fencedHere? (cs.drop i) = some inner) : ∃ body, OpensAt cs i body := by
  unfold fencedHere? at h
  split at h
  · next hfence =>
    obtain ⟨after, hafter⟩ := List.isPrefixOf_iff_prefix.mp hfence
    rw [← hafter, List.drop_left] at h
    split at h
    · next body hbehind =>
      refine ⟨body, after.takeWhile (!isBlank ·), ?_, ?_⟩
      · rw [← hbehind, List.takeWhile_append_dropWhile, hafter]
      · intro c hc
        simpa using List.mem_takeWhile_imp hc
    · cases h
  · cases h

theorem fencedHere?_eq_none (h : ∀ body, ¬ OpensAt cs i body) : fencedHere? (cs.drop i) = none := by
  rw [Option.eq_none_iff_forall_ne_some]
  intro inner hinner
  obtain ⟨body, hbody⟩ := exists_opensAt_of_fencedHere? hinner
  exact h body hbody

theorem suffix_dropWhile {p : Char → Bool} {s t : List Char} (h : s <:+ t) :
    s.dropWhile p <:+ t.dropWhile p := by
  induction t with
  | nil =>
    obtain rfl := List.suffix_nil.mp h
    exact List.suffix_refl _
  | cons c t ih =>
    obtain rfl | h := List.suffix_cons_iff.mp h
    · exact List.suffix_refl _
    · rw [List.dropWhile_cons]
      split
      · exact ih h
      · exact (ih h).trans ((List.dropWhile_suffix p).trans (List.suffix_cons c t))

theorem OpensAt.body_eq (h : OpensAt cs i body) :
    '\n' :: body = (cs.drop i).dropWhile (· ≠ '\n') := by
  obtain ⟨word, hdrop, hword⟩ := h
  have hline : ∀ c ∈ fence ++ word, decide (c ≠ '\n') = true := by
    intro c hc
    rw [decide_eq_true_iff]
    rintro rfl
    obtain hc | hc := List.mem_append.mp hc
    · simp [fence] at hc
    · have hblank : isBlank '\n' = true := by decide
      simp [hword _ hc] at hblank
  rw [hdrop, ← List.append_assoc, List.dropWhile_append_of_pos hline]
  rfl

/-- What stands behind the line of a later opening fence also stands behind the line of this one. -/
theorem OpensAt.suffix {body' : List Char} (h : OpensAt cs i body) (h' : OpensAt cs j body')
    (hij : i ≤ j) : body' <:+ body := by
  have hdrop : cs.drop j <:+ cs.drop i := List.drop_suffix_drop_left cs hij
  have hlines := suffix_dropWhile (p := (· ≠ '\n')) hdrop
  rw [← h.body_eq, ← h'.body_eq, List.suffix_cons_iff] at hlines
  obtain heq | hsuffix := hlines
  · obtain rfl := (List.cons_eq_cons.mp heq).2
    exact List.suffix_refl _
  · exact (List.suffix_cons _ _).trans hsuffix

theorem fenced?_of_fencedHere? {inner : List Char} (h : fencedHere? cs = some inner) :
    fenced? cs = some inner := by
  cases cs with
  | nil => cases h
  | cons c rest => rw [fenced?, h]

theorem fenced?_drop (h : ∀ l < i, fencedHere? (cs.drop l) = none) :
    fenced? cs = fenced? (cs.drop i) := by
  induction i generalizing cs with
  | zero => rfl
  | succ i ih =>
    cases cs with
    | nil => simp
    | cons c rest =>
      have hhere : fencedHere? (c :: rest) = none := h 0 (Nat.succ_pos i)
      have hrest : ∀ l < i, fencedHere? (rest.drop l) = none :=
        fun l hl => h (l + 1) (Nat.succ_lt_succ hl)
      rw [fenced?, hhere, List.drop_succ_cons]
      exact ih hrest

theorem fenced?_eq_none (h : ∀ l, fencedHere? (cs.drop l) = none) : fenced? cs = none := by
  rw [fenced?_drop fun l _ => h l, List.drop_length]
  rfl

/-- The first opening fence decides: if it is not closed then there is no code at all. -/
theorem fenced?_of_first (hfirst : IsLeast {l | ∃ body, OpensAt cs l body} i)
    (h : OpensAt cs i body) : fenced? cs = beforeFence? body := by
  have hbefore : ∀ l < i, fencedHere? (cs.drop l) = none := by
    intro l hl
    refine fencedHere?_eq_none fun body' hbody' => ?_
    have hle := hfirst.2 ⟨body', hbody'⟩
    omega
  by_cases hclosed : fence <:+: body
  · obtain ⟨k, hk⟩ := exists_isLeast_fence hclosed
    have hhere := fencedHere?_of_opensAt h
    rw [fenced?_drop hbefore]
    rw [beforeFence?_of_isLeast hk] at hhere ⊢
    exact fenced?_of_fencedHere? hhere
  · rw [beforeFence?_of_free hclosed]
    apply fenced?_eq_none
    intro l
    by_cases hl : ∃ body', OpensAt cs l body'
    · obtain ⟨body', hbody'⟩ := hl
      have hsuffix := h.suffix hbody' (hfirst.2 ⟨body', hbody'⟩)
      rw [fencedHere?_of_opensAt hbody']
      exact beforeFence?_of_free fun hf => hclosed (hf.trans hsuffix.isInfix)
    · exact fencedHere?_eq_none fun body' hbody' => hl ⟨body', hbody'⟩

theorem code_of_first {s : String} (hfirst : IsLeast {l | ∃ body, OpensAt s.toList l body} i)
    (h : OpensAt s.toList i body) :
    (∀ k, IsLeast {l | fence <+: body.drop l} k → code s = String.ofList (body.take k)) ∧
      (¬ fence <:+: body → code s = "") := by
  unfold code
  rw [fenced?_of_first hfirst h]
  constructor
  · intro k hk
    rw [beforeFence?_of_isLeast hk]
    rfl
  · intro hopen
    rw [beforeFence?_of_free hopen]
    rfl

theorem code_of_none {s : String} (h : ∀ i body, ¬ OpensAt s.toList i body) : code s = "" := by
  rw [code, fenced?_eq_none fun l => fencedHere?_eq_none (h l)]
  rfl

/-- Each text either has no opening fence, or one that is not closed, or else code between its first
opening fence and the next fence. -/
theorem code_cases (s : String) : code s = "" ∨
    ∃ (body : List Char) (k : Nat), IsLeast {l | fence <+: body.drop l} k ∧
      code s = String.ofList (body.take k) := by
  classical
  by_cases hnone : ∃ i, ∃ body, OpensAt s.toList i body
  · have hfirst := Nat.isLeast_find hnone
    obtain ⟨body, hbody⟩ := hfirst.1
    obtain ⟨hclosed, hopen⟩ := code_of_first hfirst hbody
    by_cases hfence : fence <:+: body
    · obtain ⟨k, hk⟩ := exists_isLeast_fence hfence
      exact .inr ⟨body, k, hk, hclosed k hk⟩
    · exact .inl (hopen hfence)
  · exact .inl (code_of_none fun i body h => hnone ⟨i, body, h⟩)

theorem code_free (s : String) :
    ¬ fence <:+: (code s).toList ∧ (code s).toList.getLast? ≠ some '\x60' := by
  obtain hempty | ⟨body, k, hk, hcode⟩ := code_cases s
  · rw [hempty]
    decide
  · rw [hcode, String.toList_ofList]
    exact take_of_isLeast hk

/-- Behind a text without fences that does not end in a backtick, the first fence is the one put
there. -/
theorem isLeast_length {inner : List Char} (hfree : ¬ fence <:+: inner)
    (hlast : inner.getLast? ≠ some '\x60') (after : List Char) :
    IsLeast {l | fence <+: (inner ++ (fence ++ after)).drop l} inner.length := by
  constructor
  · show fence <+: (inner ++ (fence ++ after)).drop inner.length
    rw [List.drop_left]
    exact List.prefix_append fence after
  · intro l hl
    by_contra hlt
    have hdrop : fence <+: inner.drop l ++ (fence ++ after) := by
      rw [← List.drop_append_of_le_length (by omega)]
      exact hl
    have hsuffix : inner.drop l <:+ inner := List.drop_suffix l inner
    have hne : inner.drop l ≠ [] := by
      rw [ne_eq, List.drop_eq_nil_iff]
      omega
    obtain hinside | hacross := List.prefix_or_prefix_of_prefix hdrop (List.prefix_append _ _)
    · exact hfree (hinside.isInfix.trans hsuffix.isInfix)
    · apply hlast
      have hmem : (inner.drop l).getLast hne ∈ fence := hacross.subset (List.getLast_mem hne)
      obtain ⟨front, hfront⟩ := hsuffix
      have htick : (inner.drop l).getLast hne = '\x60' := by simpa [fence] using hmem
      rw [← hfront, List.getLast?_append, List.getLast?_eq_some_getLast hne, htick]
      rfl

/-- The first opening fence behind a text without backticks is the one put there. -/
theorem isLeast_opensAt {before word : List Char} (hbefore : '\x60' ∉ before)
    (hword : ∀ c ∈ word, isBlank c = false) (body : List Char) :
    let cs := before ++ (fence ++ (word ++ '\n' :: body))
    OpensAt cs before.length body ∧ IsLeast {l | ∃ body, OpensAt cs l body} before.length := by
  intro cs
  have hopens : OpensAt cs before.length body := ⟨word, List.drop_left, hword⟩
  refine ⟨hopens, ⟨body, hopens⟩, ?_⟩
  rintro l ⟨body', word', hdrop, -⟩
  by_contra hlt
  have hl : l < before.length := by omega
  have hhead : (cs.drop l).head? = some before[l] := by
    rw [List.head?_drop, List.getElem?_append_left hl, List.getElem?_eq_getElem hl]
  rw [hdrop] at hhead
  have htick : '\x60' = before[l] := Option.some.inj hhead
  exact hbefore (htick ▸ List.getElem_mem hl)

theorem code_block {before word inner : String} (hbefore : '\x60' ∉ before.toList)
    (hword : ∀ c ∈ word.toList, isBlank c = false) (hfree : ¬ fence <:+: inner.toList)
    (hlast : inner.toList.getLast? ≠ some '\x60') (after : String) :
    code (before ++ String.ofList fence ++ word ++ "\n" ++ inner ++ String.ofList fence ++ after) =
      inner := by
  let body := inner.toList ++ (fence ++ after.toList)
  have htext : (before ++ String.ofList fence ++ word ++ "\n" ++ inner ++ String.ofList fence ++
      after).toList = before.toList ++ (fence ++ (word.toList ++ '\n' :: body)) := by
    simp [body]
  obtain ⟨hopens, hfirst⟩ := isLeast_opensAt hbefore hword body
  rw [← htext] at hopens hfirst
  rw [(code_of_first hfirst hopens).1 _ (isLeast_length hfree hlast after.toList), List.take_left,
    String.ofList_toList]

/-- The code of a text is what stands behind the line of its first opening fence, up to the next
fence. It has no fence in it and does not end in a backtick, and all code that is such can be fenced
and is found again. -/
theorem code_between_fences (s : String) :
    (∀ i body, IsLeast {l | ∃ body, OpensAt s.toList l body} i → OpensAt s.toList i body →
      (∀ k, IsLeast {l | fence <+: body.drop l} k → code s = String.ofList (body.take k)) ∧
      (¬ fence <:+: body → code s = "")) ∧
    ((∀ i body, ¬ OpensAt s.toList i body) → code s = "") ∧
    (¬ fence <:+: (code s).toList ∧ (code s).toList.getLast? ≠ some '\x60') ∧
    ∀ before word inner after : String, '\x60' ∉ before.toList →
      (∀ c ∈ word.toList, isBlank c = false) → ¬ fence <:+: inner.toList →
      inner.toList.getLast? ≠ some '\x60' →
      code
        (before ++ String.ofList fence ++ word ++ "\n" ++ inner ++ String.ofList fence ++ after) =
        inner := by
  refine ⟨?_, code_of_none, code_free s, ?_⟩
  · intro i body hfirst hopens
    exact code_of_first hfirst hopens
  · intro before word inner after hbefore hword hfree hlast
    exact code_block hbefore hword hfree hlast after

/-- The word of an opening fence may have backticks itself. -/
theorem code_between_fences_word :
    let s := "So:\n" ++ String.ofList fence ++ "py\x60" ++ "\n" ++ "x = 1\n" ++
      String.ofList fence ++
      " is code"
    IsLeast {l | ∃ body, OpensAt s.toList l body} 4 ∧ code s = "x = 1\n" := by
  intro s
  have htext : s.toList = "So:\n".toList ++ (fence ++ ("py\x60".toList ++ '\n' ::
      ("x = 1\n".toList ++ (fence ++ " is code".toList)))) := by decide
  have hbefore : '\x60' ∉ "So:\n".toList := by decide
  have hword : ∀ c ∈ "py\x60".toList, isBlank c = false := by
    have hall : "py\x60".toList.all (!isBlank ·) = true := by decide
    exact fun c hc => by simpa using List.all_eq_true.mp hall c hc
  have hfirst :=
    (isLeast_opensAt hbefore hword ("x = 1\n".toList ++ (fence ++ " is code".toList))).2
  rw [← htext] at hfirst
  exact ⟨hfirst, (code_between_fences s).2.2.2 "So:\n" "py\x60" "x = 1\n" " is code" hbefore hword
    (by decide) (by decide)⟩

end Think.Text
