import Think.Proofs.Text.Lines
import Think.Proofs.Token.Lexis

/-! # Lines and columns of tokens

The scanner counts lines and columns as it goes. Wherever it stands, also beyond the end of the
text, they are those of its index, and so are both ends of every token and of every error that it
reports. Only the end of a token that is a line break is counted as though the line went on. -/

namespace Think

open Scanner

def Position.LiesIn (p : Position) (source : Source) : Prop := p.IsIn source.text.toList

def Token.IsBreak (t : Token) (source : Source) : Prop :=
  t.lexeme = .newline ∧ source.text.toList[t.start.idx]? = some '\n'

/-- Both ends of the token lie in the text, but the end of a line break stays on its line. -/
structure Token.LiesIn (t : Token) (source : Source) : Prop where
  start : t.start.LiesIn source
  stop_iff : t.stop.LiesIn source ↔ ¬ t.IsBreak source
  stop_break : t.IsBreak source → t.stop = t.start.next

/-- The error has both its ends, and they lie in the text. -/
def Diagnostic.LiesIn (d : Diagnostic) (source : Source) : Prop :=
  ∃ start stop, d.start = some start ∧ d.stop = some stop ∧
    start.LiesIn source ∧ stop.LiesIn source

section

variable {source : Source} {p : Position} {cs t : List Char} {c : Char} {l : Lexeme}
  {s after : Scanner} {found : List Token}

theorem Text.lineNumber_succ (cs : List Char) (i : Nat) :
    lineNumber cs (i + 1) = lineNumber cs i + if cs[i]? = some '\n' then 1 else 0 := by
  rw [lineNumber, List.take_add_one, List.count_append, lineNumber]
  rcases cs[i]? with _ | c
  · simp
  · by_cases hc : c = '\n' <;> simp [hc]

theorem Text.lineStart_succ (cs : List Char) (i : Nat) :
    lineStart cs (i + 1) = if cs[i]? = some '\n' then i + 1 else lineStart cs i := by
  rw [lineStart, List.take_add_one, lineStart]
  rcases h : cs[i]? with _ | c
  · simp
  · have hi : i < cs.length := (List.getElem?_eq_some_iff.mp h).1
    by_cases hc : c = '\n'
    · simp [hc]
      omega
    · simp [hc]

/-- The next place is one column further, unless a line ends here. -/
theorem Position.LiesIn.next_iff (h : p.LiesIn source) :
    p.next.LiesIn source ↔ source.text.toList[p.idx]? ≠ some '\n' := by
  constructor
  · intro hnext hbreak
    have hln : p.ln = Text.lineNumber _ (p.idx + 1) := hnext.ln
    rw [Text.lineNumber_succ, if_pos hbreak, ← h.ln] at hln
    omega
  · intro hc
    have hle : Text.lineStart source.text.toList p.idx ≤ p.idx :=
      (List.rdropWhile_prefix _ _).length_le.trans (List.length_take_le _ _)
    refine ⟨?_, ?_⟩
    · change p.ln = Text.lineNumber _ (p.idx + 1)
      rw [Text.lineNumber_succ, if_neg hc, ← h.ln, Nat.add_zero]
    · change p.col + 1 = p.idx + 1 - Text.lineStart _ (p.idx + 1)
      rw [Text.lineStart_succ, if_neg hc, h.col]
      omega

theorem Position.LiesIn.step (h : p.LiesIn source) (hc : source.text.toList[p.idx]? = some c) :
    (p.step c).LiesIn source := by
  unfold Position.step
  split
  · next hbreak =>
    rw [hbreak] at hc
    refine ⟨?_, ?_⟩
    · change p.ln + 1 = Text.lineNumber _ (p.idx + 1)
      rw [Text.lineNumber_succ, if_pos hc, ← h.ln]
    · change 0 = p.idx + 1 - Text.lineStart _ (p.idx + 1)
      rw [Text.lineStart_succ, if_pos hc, Nat.sub_self]
  · next hbreak => exact h.next_iff.mpr (by simpa [hc] using hbreak)

namespace Scanner

/-- The scanner is in the text and has counted right. -/
structure Counts (s : Scanner) (source : Source) : Prop extends s.Follows source where
  lies : s.place.LiesIn source

def Located {α : Type} (source : Source) (P : α → Prop) : Except Failure α → Prop
  | .ok a => P a
  | .error (.reported d) => d.LiesIn source
  | .error (.fault _) => True

/-- The tokens lie in the text, and the scanner behind them has counted right. -/
def Finds (source : Source) : List Token × Scanner → Prop
  | (ts, after) => (∀ t ∈ ts, t.LiesIn source) ∧ after.Counts source

namespace Counts

theorem getElem?_idx (h : s.Counts source) : source.text.toList[s.place.idx]? = s.rest.head? := by
  rw [h.rest, Source.onward, List.head?_drop]

theorem advance (h : s.Counts source) : s.advance.Counts source := by
  have hget := h.getElem?_idx
  cases hs : s.rest with
  | nil =>
    rw [hs] at hget
    have hend := h.rest.symm.trans hs
    rw [Source.onward, List.drop_eq_nil_iff] at hend
    rw [advance_nil hs]
    refine ⟨⟨h.inside, hs.trans ?_⟩, h.lies.next_iff.mpr (by simp [hget])⟩
    exact (List.drop_eq_nil_of_le (Nat.le_succ_of_le hend)).symm
  | cons c t =>
    rw [hs] at hget
    rw [advance_cons hs]
    exact ⟨h.skip [c], h.lies.step hget⟩

theorem skip (h : s.Counts source) (hcs : cs <+: s.rest) : (s.skip cs).Counts source := by
  induction cs generalizing s with
  | nil => exact h
  | cons c cs ih =>
    obtain ⟨rest, hrest⟩ := hcs
    have hs : s.rest = c :: (cs ++ rest) := hrest.symm
    have hstep := ih h.advance (by simp [rest_advance hs])
    rwa [advance_cons hs, skip_append] at hstep

/-- A token that does not start with a line break has its ends where the scanner stood. -/
theorem token (h : s.Counts source) (hs : s.rest = c :: t) (hc : c ≠ '\n')
    (hafter : after.Counts source) : Token.LiesIn ⟨l, s.place, after.place⟩ source := by
  have hnot : ¬ Token.IsBreak ⟨l, s.place, after.place⟩ source := by
    rintro ⟨-, hbreak⟩
    have hget := h.getElem?_idx.symm.trans hbreak
    rw [hs] at hget
    exact hc (Option.some_inj.mp hget)
  exact ⟨h.lies, iff_of_true hafter.lies hnot, fun hbreak => (hnot hbreak).elim⟩

theorem one (h : s.Counts source) (hs : s.rest = c :: t) (hc : c ≠ '\n')
    (hafter : after.Counts source) :
    Located source (Finds source) (.ok ([⟨l, s.place, after.place⟩], after)) :=
  ⟨List.forall_mem_singleton.mpr (h.token hs hc hafter), hafter⟩

theorem single (h : s.Counts source) (hl : s.rest.head? = some '\n' → l = .newline) :
    ∀ t ∈ [Token.single l s.place], t.LiesIn source := by
  refine List.forall_mem_singleton.mpr ⟨h.lies, h.lies.next_iff.trans (not_congr ?_), fun _ => rfl⟩
  rw [Token.IsBreak, Token.single, h.getElem?_idx]
  exact ⟨fun hbreak => ⟨hl hbreak, hbreak⟩, And.right⟩

theorem number {token : Token} (h : s.Counts source) (hs : s.rest = c :: t) (hc : c ≠ '\n')
    (hn : s.number = .ok (token, after)) :
    Located source (Finds source) (.ok ([token], after)) := by
  obtain ⟨l, -, rfl, rfl⟩ := number_eq_ok hn
  exact h.one hs hc (h.skip (isPrefix_numeral s.rest))

theorem word (h : s.Counts source) (hs : s.rest = c :: t) (hc : c ≠ '\n')
    (previous? : Option Token) : Located source (Finds source)
      (.ok ((s.word previous?).1 ++ [(s.word previous?).2.1], (s.word previous?).2.2)) := by
  have hafter : (s.word previous?).2.2.Counts source := h.skip (List.takeWhile_prefix _)
  have hword := h.one (l := (s.word previous?).2.1.lexeme) hs hc hafter
  refine ⟨List.forall_mem_append.mpr ⟨?_, hword.1⟩, hafter⟩
  rw [word_fst]
  split
  · exact List.forall_mem_singleton.mpr (h.token hs hc hafter)
  · simp

theorem quoted {q : Char} {inside : List Char → List Char × List Char}
    (hinside : Encloses q inside) (h : s.Counts source) (hs : s.rest = q :: t) (hq : q ≠ '\n') :
    Located source (Finds source) (readFrom.one (s.quoted inside)) := by
  have hraw : (inside s.advance.rest).2 <+: s.advance.rest := by
    obtain ⟨rest, hrest, -⟩ | ⟨hall, -⟩ := hinside s.advance.rest
    · exact ⟨_, hrest.symm⟩
    · simp only [hall, List.prefix_rfl]
  exact h.one hs hq (h.advance.skip hraw).advance

theorem oneOrTwo {short long : Lexeme} {second : Char} (h : s.Counts source)
    (hs : s.rest = c :: t) (hc : c ≠ '\n') :
    Located source (Finds source) (readFrom.one (oneOrTwo short second long s)) := by
  unfold Scanner.oneOrTwo
  dsimp only
  split
  · exact h.one hs hc h.advance.advance
  · exact h.one hs hc h.advance

/-- Behind an exclamation mark the scanner makes a second step, whatever it finds. -/
theorem notEquals {result : Except Diagnostic Token} (h : s.Counts source) (hs : s.rest = '!' :: t)
    (hn : s.notEquals = (result, after)) : Located source (Finds source)
      ((result.mapError .reported).map fun token => ([token], after)) := by
  unfold Scanner.notEquals at hn
  dsimp only at hn
  split at hn <;> cases hn
  · exact h.one hs (by decide) h.advance.advance
  · exact ⟨_, _, rfl, rfl, h.lies, h.advance.advance.lies⟩

theorem readFrom (h : s.Counts source) (hs : s.rest = c :: t) (previous? : Option Token) :
    Located source (Finds source) (s.readFrom c previous?) := by
  fun_cases Scanner.readFrom s c previous? with
  | case1 => exact ⟨by simp, h.advance⟩
  | case2 => exact ⟨by simp, h.advance.skip (List.takeWhile_prefix _)⟩
  | case3 _ _ hdigit token after hnumber =>
    refine h.number hs ?_ hnumber
    rintro rfl
    cases hdigit
  | case4 => trivial
  | case5 _ _ _ hname understood token after hword =>
    have hread := h.word hs ?_ previous?
    · rwa [hword] at hread
    · rintro rfl
      cases hname
  | case6 _ _ _ _ hc => exact h.quoted encloses_doubleQuoted (hc ▸ hs) (by decide)
  | case7 _ _ _ _ _ hc => exact h.quoted encloses_singleQuoted (hc ▸ hs) (by decide)
  | case8 _ _ _ _ _ _ hc | case9 _ _ _ _ _ _ _ hc | case10 _ _ _ _ _ _ _ _ hc
  | case11 _ _ _ _ _ _ _ _ _ hc => exact h.oneOrTwo hs (hc ▸ by decide)
  | case12 _ _ _ _ _ _ _ _ _ _ hc _ _ hmark | case13 _ _ _ _ _ _ _ _ _ _ hc _ _ hmark =>
    exact h.notEquals (hc ▸ hs) hmark
  | case14 _ _ _ _ _ _ _ _ _ _ _ l hl =>
    refine ⟨h.single ?_, h.advance⟩
    rw [hs]
    rintro ⟨⟩
    cases hl
    rfl
  | case15 => exact ⟨_, _, rfl, rfl, h.lies, h.advance.lies⟩

theorem tokensFrom (h : s.Counts source) (hfound : ∀ t ∈ found, t.LiesIn source) :
    Located source (∀ t ∈ ·, t.LiesIn source) (s.tokensFrom found) := by
  induction hn : s.rest.length using Nat.strong_induction_on generalizing s found with
  | _ n ih =>
  cases hs : s.rest with
  | nil =>
    rw [tokensFrom_nil hs]
    exact List.forall_mem_append.mpr ⟨by simpa using hfound, h.single (by simp [hs])⟩
  | cons c t =>
    have hstep := h.readFrom hs found.head?
    rcases hread : s.readFrom c found.head? with e | ⟨ts, after⟩
    · rw [tokensFrom_error hs hread]
      rw [hread] at hstep
      cases e with
      | reported d => exact hstep
      | fault f => trivial
    · rw [tokensFrom_step hs hread]
      rw [hread] at hstep
      refine ih _ (hn ▸ readFrom_shortens hs hread) hstep.2 ?_ rfl
      exact List.forall_mem_append.mpr ⟨by simpa using hstep.1, hfound⟩

end Counts

end Scanner

end

/-- Every position that the scanner gives out has the line and the column of its index, except the
end of a line break. -/
theorem Source.tokens_lie (source : Source) :
    (∀ tokens, source.tokens = .ok tokens → ∀ t ∈ tokens, t.LiesIn source) ∧
      ∀ d, source.tokens = .error (.reported d) → d.LiesIn source := by
  have hstart : (ofSource source).Counts source := ⟨⟨rfl, rfl⟩, rfl, rfl⟩
  have hrun : Located source (∀ t ∈ ·, t.LiesIn source) source.tokens :=
    hstart.tokensFrom (by simp)
  constructor
  · intro tokens h
    rwa [h] at hrun
  · intro d h
    rwa [h] at hrun

/-- The mark behind a text that lacks its closing quote ends two places beyond the text. An
exclamation mark at the end is an error that ends one place beyond it. -/
theorem Source.tokens_lie_beyond :
    (∃ tokens t, (⟨"", "a\n'b"⟩ : Source).tokens = .ok tokens ∧ t ∈ tokens ∧
      t.stop = ⟨⟨"", "a\n'b"⟩, 6, 1, 4⟩ ∧ t.LiesIn ⟨"", "a\n'b"⟩) ∧
    ∃ d, (⟨"", "\n!"⟩ : Source).tokens = .error (.reported d) ∧
      d.stop = some ⟨⟨"", "\n!"⟩, 3, 1, 2⟩ ∧ d.LiesIn ⟨"", "\n!"⟩ :=
  ⟨⟨_, _, rfl, List.getLast_mem (by simp), rfl, (tokens_lie _).1 _ rfl _ (List.getLast_mem _)⟩,
    _, rfl, rfl, (tokens_lie _).2 _ rfl⟩

end Think
