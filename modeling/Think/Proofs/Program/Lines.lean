import Mathlib.Data.List.Forall2
import Think.Proofs.Program.Join
import Think.Text.Blank
import Think.Text.Lines

/-! # The lines of a text

A text is cut into lines. If each of its lines that are not blank can be read by itself and leaves
nothing open, the statements of the text are those of its lines in their order.
-/

namespace Think

theorem Node.shapes_ne_nil {ns : List Node} (h : ns ≠ []) : Node.shapes ns ≠ [] := by
  cases ns with
  | nil => exact (h rfl).elim
  | cons n ns => nofun

namespace Text

variable {a b cs : List Char}

theorem linesOf_line (ha : '\n' ∉ a) :
    linesOf (a ++ '\n' :: b) = (a ++ ['\n']) :: linesOf b := by
  induction a with
  | nil => simp [linesOf]
  | cons c a ih =>
    rw [List.mem_cons, not_or] at ha
    rw [List.cons_append, linesOf, if_neg (Ne.symm ha.1), ih ha.2]
    rfl

theorem linesOf_eq_nil : linesOf cs = [] ↔ cs = [] := by
  cases cs with
  | nil => simp [linesOf]
  | cons c cs =>
    rw [linesOf]
    split
    · simp
    · split <;> simp

theorem linesOf_last (ha : '\n' ∉ a) (hne : a ≠ []) : linesOf a = [a] := by
  induction a with
  | nil => exact (hne rfl).elim
  | cons c a ih =>
    rw [List.mem_cons, not_or] at ha
    rw [linesOf, if_neg (Ne.symm ha.1)]
    cases a with
    | nil => rfl
    | cons d a => rw [ih ha.2 (by simp)]

/-- A text is a last line or goes on behind its first line break. -/
theorem line_induction {motive : List Char → Prop} (last : ∀ a, '\n' ∉ a → motive a)
    (line : ∀ a b, '\n' ∉ a → motive b → motive (a ++ '\n' :: b)) (cs : List Char) :
    motive cs := by
  induction hn : cs.length using Nat.strong_induction_on generalizing cs with
  | _ n ih =>
  by_cases hcs : '\n' ∈ cs
  · obtain ⟨a, b, rfl, ha⟩ := List.eq_append_cons_of_mem hcs
    refine line a b ha (ih b.length ?_ b rfl)
    simp only [List.length_append, List.length_cons] at hn
    omega
  · exact last cs hcs

def lineBody (l : List Char) : List Char := l.takeWhile (· ≠ '\n')

theorem lineBody_line (ha : '\n' ∉ a) : lineBody (a ++ '\n' :: b) = a := by
  rw [lineBody, List.takeWhile_append_of_pos]
  · simp
  · intro c hc
    simpa using ne_of_mem_of_not_mem hc ha

theorem trimBoth_eq_nil {p : Char → Bool} : trimBoth p cs = [] ↔ cs.all p := by
  rw [trimBoth, List.reverse_eq_nil_iff, List.dropWhile_eq_nil_iff, List.all_eq_true]
  constructor
  · intro h
    have hdrop : cs.dropWhile p = [] := by
      by_contra hne
      have hnot := List.head_dropWhile_not p hne
      rw [h _ (List.mem_reverse.mpr (List.head_mem hne))] at hnot
      cases hnot
    exact List.dropWhile_eq_nil_iff.mp hdrop
  · intro h c hc
    exact h c ((List.dropWhile_sublist p).subset (List.mem_reverse.mp hc))

theorem strip_isEmpty (cs : List Char) : (strip (String.ofList cs)).isEmpty = cs.all isBlank := by
  rw [Bool.eq_iff_iff, String.isEmpty_iff, strip, String.toList_ofList, ← trimBoth_eq_nil]
  exact String.ofList_eq_empty_iff

/-- The lines of a text that are not blank. -/
def writtenLines (cs : List Char) : List (List Char) := (linesOf cs).filter fun l => !l.all isBlank

theorem writtenLines_blank (ha : '\n' ∉ a) (hblank : a.all isBlank) :
    writtenLines (a ++ '\n' :: b) = writtenLines b := by
  have hline : (a ++ ['\n']).all isBlank = true := by
    rw [List.all_append, hblank]
    rfl
  rw [writtenLines, linesOf_line ha, List.filter_cons, hline]
  rfl

theorem writtenLines_line (ha : '\n' ∉ a) (hwritten : ¬ a.all isBlank) :
    writtenLines (a ++ '\n' :: b) = (a ++ ['\n']) :: writtenLines b := by
  have hline : (a ++ ['\n']).all isBlank = false := by
    rw [List.all_append, Bool.and_eq_false_iff]
    exact .inl (by simpa using hwritten)
  rw [writtenLines, linesOf_line ha, List.filter_cons, hline]
  rfl

theorem writtenLines_last_blank (ha : '\n' ∉ a) (hblank : a.all isBlank) : writtenLines a = [] := by
  cases a with
  | nil => rfl
  | cons c a =>
    rw [writtenLines, linesOf_last ha (by simp), List.filter_cons, hblank]
    rfl

theorem writtenLines_last (ha : '\n' ∉ a) (hwritten : ¬ a.all isBlank) : writtenLines a = [a] := by
  have hne : a ≠ [] := by
    rintro rfl
    exact hwritten rfl
  rw [writtenLines, linesOf_last ha hne, List.filter_cons, if_pos (by simpa using hwritten)]
  rfl

end Text

namespace Scanner

variable {s : Scanner} {a b d t : List Char} {ts found : List Token}

theorem Detached.append (h : Detached ('\n' :: d)) : Detached ('\n' :: (d ++ '\n' :: b)) := by
  cases h with
  | line hequals hplus =>
    rcases d with _ | ⟨x, _ | ⟨y, d⟩⟩
    · exact .line (by simp) (by simp)
    · exact .line hequals (by simp)
    · refine .line hequals ?_
      rintro t ⟨rfl, rfl, -⟩
      exact hplus d rfl

theorem detached_blank (hd : d.all Text.isBlank) : Detached ('\n' :: d) := by
  refine .line ?_ ?_
  · intro h
    obtain ⟨t, rfl⟩ := List.head?_eq_some_iff.mp h
    have : Text.isBlank '=' := (List.all_eq_true.mp hd) _ (by simp)
    cases this
  · rintro t rfl
    have : Text.isBlank '+' := (List.all_eq_true.mp hd) _ (by simp)
    cases this

theorem toNat_of_isBlank {c : Char} (hc : Text.isBlank c) : c.toNat ≤ 32 ∨ 127 ≤ c.toNat := by
  simp [Text.isBlank, Text.blanks] at hc
  omega

/-- Of the blanks within a line only the space and the tab can be read. -/
theorem readFrom_blank {c : Char} {previous? : Option Token} {p : List Token × Scanner}
    (hc : Text.isBlank c) (hline : c ≠ '\n') (h : s.readFrom c previous? = .ok p) :
    p = ([], s.advance) := by
  have hcode := toNat_of_isBlank hc
  have hne (d : Char) (hd : 32 < d.toNat ∧ d.toNat < 127) : c ≠ d := by
    rintro rfl
    omega
  have hdigit : isDigit c = false := by
    simp [isDigit, Char.le_def, UInt32.le_iff_toNat_le]
    omega
  have hname : isNameStart c = false := by
    simp [isNameStart, isLetter, Char.le_def, UInt32.le_iff_toNat_le]
    exact ⟨by omega, hne '_' (by decide)⟩
  have hpunctuation : punctuation? c = none := by
    unfold punctuation?
    split
    case h_2 => exact (hline rfl).elim
    case h_14 => rfl
    all_goals cases hc
  unfold readFrom at h
  by_cases hspace : c = ' ' ∨ c = '\t'
  · rw [if_pos hspace] at h
    cases h
    rfl
  · simp only [if_neg hspace, hdigit, hname, hpunctuation, Bool.false_eq_true, if_false,
      if_neg (hne '#' (by decide)), if_neg (hne '"' (by decide)), if_neg (hne '\'' (by decide)),
      if_neg (hne '-' (by decide)), if_neg (hne '=' (by decide)), if_neg (hne '<' (by decide)),
      if_neg (hne '>' (by decide)), if_neg (hne '!' (by decide))] at h
    cases h

/-- If a text can be read, so can what stands behind its first line if that is blank. -/
theorem tokensFrom_blank (ha : '\n' ∉ a) (hblank : a.all Text.isBlank) (hs : s.rest = a ++ t)
    (hsits : s.Sits) (h : s.tokensFrom found = .ok ts) :
    ∃ s' : Scanner, s'.rest = t ∧ s'.Sits ∧ s.tokensFrom found = s'.tokensFrom found := by
  induction a generalizing s with
  | nil => exact ⟨s, hs, hsits, rfl⟩
  | cons c a ih =>
    rw [List.mem_cons, not_or] at ha
    rw [List.all_cons, Bool.and_eq_true] at hblank
    cases hread : s.readFrom c found.head? with
    | error e =>
      rw [tokensFrom_error hs hread] at h
      cases h
    | ok p =>
      obtain rfl := readFrom_blank hblank.1 (Ne.symm ha.1) hread
      have hstep := tokensFrom_step hs hread
      rw [hstep] at h ⊢
      exact ih ha.2 hblank.2 (rest_advance hs) (hsits.advance hs) h

/-- What is left of a text is read as it would be read from any scanner. -/
theorem tokensFrom_again {s' : Scanner} (found found' : List Token) (h : Along [] s s')
    (hp : isExplicit found'.head? = isExplicit found.head?) (hr : s.tokensFrom found = .ok ts) :
    ∃ ls ts', s'.tokensFrom found' = .ok ts' ∧ .endOfText ∉ ls ∧
      ts.map (·.lexeme) = found.reverse.map (·.lexeme) ++ (ls ++ [.endOfText]) ∧
      ts'.map (·.lexeme) = found'.reverse.map (·.lexeme) ++ (ls ++ [.endOfText]) := by
  obtain ⟨news, last, news', after', rfl, hlast, hend, hmap, hs', hrest, -⟩ :=
    tokensFrom_abreast found found' .nothing (.inl h) hp hr (.inl rfl)
  refine ⟨news.map (·.lexeme), _, hs'.trans (tokensFrom_nil hrest), hend, ?_, ?_⟩
  · simp [hlast]
  · simp [hmap, Token.single]

theorem tokensFrom_break {b : Source} (hs : s.rest = '\n' :: b.text.toList) (hsits : s.Sits)
    (h : s.tokensFrom found = .ok ts) :
    ∃ ls tb, b.tokens = .ok tb ∧ .endOfText ∉ ls ∧ tb.map (·.lexeme) = ls ++ [.endOfText] ∧
      ts.map (·.lexeme) = found.reverse.map (·.lexeme) ++ .newline :: (ls ++ [.endOfText]) := by
  have hread : s.readFrom '\n' found.head? = .ok ([.single .newline s.place], s.advance) := rfl
  have halong : Along [] s.advance (ofSource b) :=
    ⟨by rw [rest_advance hs, List.append_nil]; rfl, hsits.advance hs, sits_ofSource b⟩
  rw [tokensFrom_step hs hread] at h
  obtain ⟨ls, tb, htb, hend, hts, hmap⟩ :=
    tokensFrom_again ([.single .newline s.place].reverse ++ found) [] halong rfl h
  refine ⟨ls, tb, htb, hend, hmap, ?_⟩
  simpa [Token.single] using hts

end Scanner

namespace Source

variable {a b c : Source} {ts tb tc : List Token} {lb : List Lexeme} {B : List Node} {k : Nat}

open Scanner

theorem exists_lexemes (h : b.tokens = .ok tb) :
    ∃ lb, tb.map (·.lexeme) = lb ++ [.endOfText] ∧ .endOfText ∉ lb := by
  have halong : Along [] (ofSource b) (ofSource b) :=
    ⟨by rw [List.append_nil], sits_ofSource b, sits_ofSource b⟩
  obtain ⟨lb, -, -, hend, hmap, -⟩ := tokensFrom_again [] [] halong rfl h
  exact ⟨lb, hmap, hend⟩

theorem tokens_behind_blank {cs : List Char} (hc : c.text.toList = cs ++ '\n' :: b.text.toList)
    (hline : '\n' ∉ cs) (hblank : cs.all Text.isBlank) (h : c.tokens = .ok tc) :
    ∃ lb tb, b.tokens = .ok tb ∧ .endOfText ∉ lb ∧ tb.map (·.lexeme) = lb ++ [.endOfText] ∧
      tc.map (·.lexeme) = .newline :: (lb ++ [.endOfText]) := by
  obtain ⟨s, hs, hsits, heq⟩ :=
    tokensFrom_blank (s := ofSource c) hline hblank hc (sits_ofSource c) h
  have h' : s.tokensFrom [] = .ok tc := heq.symm.trans h
  exact tokensFrom_break hs hsits h'

theorem tokens_behind_line (hc : c.text = a.text ++ "\n" ++ b.text) (ha : a.tokens = .ok ts)
    (hclosed : ∀ t ∈ ts, t.Closed) (hd : Detached ('\n' :: b.text.toList)) (h : c.tokens = .ok tc) :
    ∃ tb, b.tokens = .ok tb := by
  have halong : Along ('\n' :: b.text.toList) (ofSource a) (ofSource c) :=
    ⟨by simp [ofSource, hc], sits_ofSource a, sits_ofSource c⟩
  obtain ⟨news, last, news', s, -, -, -, -, hs, hrest, hsits⟩ :=
    tokensFrom_abreast [] [] hd (.inl halong) rfl ha (.inr hclosed)
  obtain ⟨lb, tb, htb, -⟩ := tokensFrom_break hrest (hsits (by simp)) (hs.symm.trans h)
  exact ⟨tb, htb⟩

theorem tokens_blank {cs : List Char} (hc : c.text.toList = cs) (hline : '\n' ∉ cs)
    (hblank : cs.all Text.isBlank) (h : c.tokens = .ok tc) :
    tc.map (·.lexeme) = [.endOfText] := by
  rw [← List.append_nil cs] at hc
  obtain ⟨s, hs, -, heq⟩ := tokensFrom_blank (s := ofSource c) hline hblank hc (sits_ofSource c) h
  have h' : s.tokensFrom [] = .ok tc := heq.symm.trans h
  rw [tokensFrom_nil hs] at h'
  cases h'
  rfl

inductive HasStatements (source : Source) : (B : List Node) → Prop
  | program {s : Span} {C : List Node} :
      source.HasTree (.list s C) → HasStatements source (Node.shapes C)
  | blank {ts : List Token} {k : Nat} : source.tokens = .ok ts →
      ts.map (·.lexeme) = .replicate k .newline ++ [.endOfText] → HasStatements source []

theorem hasStatements_empty (name : String) : (⟨name, ""⟩ : Source).HasStatements [] :=
  .blank (k := 0) (tokensFrom_nil (s := ofSource ⟨name, ""⟩) (by simp [ofSource])) rfl

theorem HasTree.hasStatements {tree : Node} (h : a.HasTree tree) :
    ∃ A, A ≠ [] ∧ a.HasStatements A := by
  obtain ⟨ts, ht, -⟩ := id h
  obtain ⟨la, hla, hend⟩ := exists_lexemes ht
  obtain ⟨f, g, s, A, -, -, rfl, hy⟩ := h.exists_feed ht hla hend
  exact ⟨Node.shapes A, Node.shapes_ne_nil (Parse.statements_ne_nil hy), .program h⟩

theorem not_hasTree_of_breaks {tree : Node} (htc : c.tokens = .ok tc)
    (hmap : tc.map (·.lexeme) = .replicate k .newline ++ [.endOfText]) : ¬ c.HasTree tree := by
  rintro ⟨ts, ht, htree⟩
  cases htc.symm.trans ht
  obtain ⟨f, rfl, hf, -⟩ := Parse.exists_feed hmap (by simp)
  obtain ⟨q, hq⟩ := Parse.ofTokens_eq_ok.mp htree
  obtain ⟨hq, -⟩ := Parse.program_eq_ok.mp hq
  cases hn : Parse.fuelFor f.tokens.length with
  | zero =>
    rw [hn] at hq
    cases hq
  | succ n =>
    rw [hn] at hq
    obtain ⟨s, first, others, p, -, hfirst, -⟩ := Parse.statements_eq_ok hq
    obtain ⟨-, hend⟩ := Feed.breaks_of_lexemes hf (by simp)
    have hstuck := Feed.stuck_of_endsBlock (by rw [Feed.current_of_lexemes hend]; rfl)
    obtain ⟨e, he⟩ := Parse.Errs.part (p := (Parse.newlines (.start f)).2)
      ((Parse.blocked n).statement _ hstuck)
    rw [hfirst] at he
    cases he

theorem HasStatements.of_hasTree {s : Span} {C : List Node} (h : c.HasStatements B)
    (htree : c.HasTree (.list s C)) : Node.shapes C = B := by
  cases h with
  | program h =>
    obtain ⟨ts, ht, hC⟩ := htree
    obtain ⟨ts', ht', hD⟩ := h
    cases ht.symm.trans ht'
    cases hC.symm.trans hD
    rfl
  | blank htc hmap => exact (not_hasTree_of_breaks htc hmap htree).elim

theorem HasStatements.exists_tokens (h : a.HasStatements B) : ∃ ts, a.tokens = .ok ts := by
  cases h with
  | program h =>
    obtain ⟨ts, ht, -⟩ := h
    exact ⟨ts, ht⟩
  | blank ht => exact ⟨_, ht⟩

/-- Only the lexemes of a text matter, and line breaks in front of them do not. -/
theorem HasStatements.behind (hb : b.HasStatements B) (htb : b.tokens = .ok tb)
    (hlb : tb.map (·.lexeme) = lb ++ [.endOfText]) (hend : .endOfText ∉ lb)
    (htc : c.tokens = .ok tc)
    (hmap : tc.map (·.lexeme) = .replicate k .newline ++ (lb ++ [.endOfText])) :
    c.HasStatements B := by
  cases hb with
  | @program s C h =>
    obtain ⟨f, g, s', C', rfl, hf, hC, hy⟩ := h.exists_feed htb hlb hend
    cases hC
    obtain ⟨fc, rfl, hfc, hsealed⟩ := Parse.exists_feed hmap (by simp [List.getLast?_append])
    obtain ⟨q, hq⟩ | ⟨s'', D, q, hq, hshapes, hstop⟩ :=
      Parse.statements_behind (m := Parse.fuelFor fc.tokens.length) (p := .start fc) hf hy hfc
    · exact (Parse.statements_settled hsealed q hq).elim
    · rw [← hshapes]
      have hcurrent := Feed.current_of_lexemes hstop
      exact .program
        ⟨_, htc, Parse.ofTokens_eq_ok.mpr ⟨q, Parse.program_eq_ok.mpr ⟨hq, hcurrent⟩⟩⟩
  | @blank ts j ht hk =>
    cases htb.symm.trans ht
    rw [← hlb, hk, ← List.append_assoc, ← List.replicate_add] at hmap
    exact .blank htc hmap

theorem HasStatements.of_text (ha : a.HasStatements B) (hc : c.text = a.text) :
    c.HasStatements B := by
  obtain ⟨ta, hta⟩ := ha.exists_tokens
  have halong : Along [] (ofSource a) (ofSource c) :=
    ⟨by simp [ofSource, hc], sits_ofSource a, sits_ofSource c⟩
  obtain ⟨la, tc, htc, hend, hla, hmap⟩ := tokensFrom_again [] [] halong rfl hta
  exact ha.behind (k := 0) hta hla hend htc hmap

/-- The statements of a text, as what another text goes on with. -/
theorem HasStatements.exists_continuation (hb : b.HasStatements B) (htb : b.tokens = .ok tb)
    (hlb : tb.map (·.lexeme) = lb ++ [.endOfText]) (hend : .endOfText ∉ lb) :
    ∃ c : Parse.Continuation, c.tail = lb ++ [.endOfText] ∧ c.added = B ∧
      c.after = [.endOfText] := by
  cases hb with
  | @program s C h =>
    obtain ⟨f, g, s', C', rfl, hf, hC, hy⟩ := h.exists_feed htb hlb hend
    cases hC
    exact Parse.exists_continuation hf hy
  | @blank ts j ht hk =>
    cases htb.symm.trans ht
    refine ⟨⟨.replicate j .newline ++ [.endOfText], [], [.endOfText],
      fun _ _ _ hp => Parse.gathers_nothing hp, .inl rfl⟩, hk.symm.trans hlb, rfl, rfl⟩

/-- A text that can be read, all its quotes closed and no block left open. -/
structure StandsAlone (source : Source) : Prop where
  hasTree : ∃ tree, source.HasTree tree
  isClosed : source.IsClosed
  isDone : ¬ source.LeavesOpen

instance (source : Source) : Decidable source.StandsAlone :=
  decidable_of_iff ((∃ tree, source.HasTree tree) ∧ source.IsClosed ∧ ¬ source.LeavesOpen)
    ⟨fun h => ⟨h.1, h.2.1, h.2.2⟩, fun h => ⟨h.1, h.2, h.3⟩⟩

/-- Behind a text that stands alone the statements of another one follow. -/
theorem StandsAlone.followed (ha : a.StandsAlone) :
    ∃ A, A ≠ [] ∧ ∀ {b c : Source} {B : List Node}, b.HasStatements B →
      c.text = a.text ++ "\n" ++ b.text → Detached ('\n' :: b.text.toList) →
      c.HasStatements (A ++ B) := by
  obtain ⟨tree, htree⟩ := ha.hasTree
  obtain ⟨ta, hta, -⟩ := id htree
  obtain ⟨la, hla, hend⟩ := exists_lexemes hta
  obtain ⟨f, g, s, A, rfl, hf, rfl, hy⟩ := htree.exists_feed hta hla hend
  have hfollowed : Parse.IsFollowed la A :=
    ((leavesOpen_iff hta ha.isClosed hf hy).resolve_left fun h => ha.isDone h.1).2
  refine ⟨Node.shapes A, Node.shapes_ne_nil (Parse.statements_ne_nil hy), ?_⟩
  intro b c B hb hc hd
  obtain ⟨tb, htb⟩ := hb.exists_tokens
  obtain ⟨la', lb, tc, -, hendb, hla', hlb, htc, hmap⟩ :=
    tokens_concat hta htb hc (ha.isClosed _ hta) hd
  obtain rfl : la' = la := List.append_cancel_right (hla'.symm.trans hla)
  obtain ⟨fc, rfl, hfc, hsealed⟩ := Parse.exists_feed hmap (by simp [List.getLast?_cons])
  obtain ⟨k, htail, rfl, hafter⟩ := hb.exists_continuation htb hlb hendb
  rw [← htail] at hfc
  obtain ⟨s', C, q, hq, hshapes, hleft⟩ := (hfollowed k).statements hsealed hfc
  rw [← hshapes]
  have hstop := Feed.current_of_lexemes (hleft.trans hafter)
  exact .program ⟨_, htc, Parse.ofTokens_eq_ok.mpr ⟨q, Parse.program_eq_ok.mpr ⟨hq, hstop⟩⟩⟩

/-- Of some lines, each that is not blank can be read by itself, and it leaves nothing open for the
lines behind it. -/
def Separable (name : String) : List (List Char) → Prop
  | [] => True
  | [l] => l.all Text.isBlank ∨ ∃ tree, HasTree ⟨name, .ofList l⟩ tree
  | l :: rest =>
    (l.all Text.isBlank ∨ StandsAlone ⟨name, .ofList (Text.lineBody l)⟩) ∧ Separable name rest

instance instDecidableSeparable (name : String) :
    (lines : List (List Char)) → Decidable (Separable name lines)
  | [] => isTrue trivial
  | [_] => inferInstanceAs (Decidable (_ ∨ _))
  | _ :: l :: rest =>
    have := instDecidableSeparable name (l :: rest)
    inferInstanceAs (Decidable ((_ ∨ _) ∧ _))

namespace Separable

variable {name : String} {cs ds : List Char}

theorem tail (hcs : '\n' ∉ cs) (h : Separable name (Text.linesOf (cs ++ '\n' :: ds))) :
    Separable name (Text.linesOf ds) := by
  rw [Text.linesOf_line hcs] at h
  cases hds : Text.linesOf ds with
  | nil => trivial
  | cons l rest =>
    rw [hds] at h
    exact h.2

/-- The first line, if it is not blank, is all there is or stands alone. -/
theorem first (hcs : '\n' ∉ cs) (h : Separable name (Text.linesOf (cs ++ '\n' :: ds)))
    (hwritten : ¬ cs.all Text.isBlank) :
    (ds = [] ∧ ∃ tree, HasTree ⟨name, .ofList (cs ++ ['\n'])⟩ tree) ∨
      StandsAlone ⟨name, .ofList cs⟩ := by
  have hline : ¬ (cs ++ ['\n']).all Text.isBlank := by
    rw [List.all_append, Bool.and_eq_true]
    exact fun hall => hwritten hall.1
  rw [Text.linesOf_line hcs] at h
  cases hds : Text.linesOf ds with
  | nil =>
    rw [hds] at h
    exact .inl ⟨Text.linesOf_eq_nil.mp hds, h.resolve_left hline⟩
  | cons l rest =>
    rw [hds] at h
    have halone := h.1.resolve_left hline
    rw [Text.lineBody_line hcs] at halone
    exact .inr halone

theorem last (hcs : '\n' ∉ cs) (h : Separable name (Text.linesOf cs))
    (hwritten : ¬ cs.all Text.isBlank) : ∃ tree, HasTree ⟨name, .ofList cs⟩ tree := by
  have hne : cs ≠ [] := by
    rintro rfl
    exact hwritten rfl
  rw [Text.linesOf_last hcs hne] at h
  exact h.resolve_left hwritten

theorem detached (h : Separable name (Text.linesOf cs)) : Detached ('\n' :: cs) := by
  induction cs using Text.line_induction with
  | last a ha =>
    by_cases hblank : a.all Text.isBlank
    · exact detached_blank hblank
    · obtain ⟨tree, htree⟩ := h.last ha hblank
      simpa using htree.detached
  | line a b ha _ =>
    by_cases hblank : a.all Text.isBlank
    · exact (detached_blank hblank).append
    · obtain ⟨rfl, tree, htree⟩ | halone := h.first ha hblank
      · simpa using htree.detached
      · obtain ⟨tree, htree⟩ := halone.hasTree
        refine Detached.append ?_
        simpa using htree.detached

theorem hasStatements (h : Separable name (Text.linesOf cs)) (hc : c.text.toList = cs)
    (htc : c.tokens = .ok tc) :
    ∃ Bs : List (List Node), c.HasStatements Bs.flatten ∧
      List.Forall₂ (fun l B => B ≠ [] ∧ HasStatements ⟨name, .ofList l⟩ B)
        (Text.writtenLines cs) Bs := by
  induction cs using Text.line_induction generalizing c tc with
  | last a ha =>
    by_cases hblank : a.all Text.isBlank
    · rw [Text.writtenLines_last_blank ha hblank]
      exact ⟨[], .blank (k := 0) htc (tokens_blank hc ha hblank htc), .nil⟩
    · rw [Text.writtenLines_last ha hblank]
      obtain ⟨tree, htree⟩ := h.last ha hblank
      obtain ⟨A, hne, hA⟩ := htree.hasStatements
      have hcA : c.HasStatements A := hA.of_text (by rw [← hc, String.ofList_toList])
      exact ⟨[A], by simpa using hcA, .cons ⟨hne, hA⟩ .nil⟩
  | line a b ha ih =>
    let rest : Source := ⟨name, .ofList b⟩
    have hrest : rest.text.toList = b := String.toList_ofList
    have htext : c.text = String.ofList a ++ "\n" ++ rest.text := by
      rw [← String.toList_inj, hc]
      simp [hrest]
    by_cases hblank : a.all Text.isBlank
    · rw [Text.writtenLines_blank ha hblank]
      obtain ⟨lb, tb, htb, hend, hlb, hmap⟩ :=
        tokens_behind_blank (hc.trans (by rw [hrest])) ha hblank htc
      obtain ⟨Bs, hBs, hlines⟩ := ih (h.tail ha) hrest htb
      exact ⟨Bs, hBs.behind (k := 1) htb hlb hend htc hmap, hlines⟩
    · rw [Text.writtenLines_line ha hblank]
      obtain ⟨rfl, tree, htree⟩ | halone := h.first ha hblank
      · obtain ⟨A, hne, hA⟩ := htree.hasStatements
        have hcA : c.HasStatements A := hA.of_text (by rw [← hc, String.ofList_toList])
        exact ⟨[A], by simpa using hcA, .cons ⟨hne, hA⟩ .nil⟩
      · obtain ⟨A, hne, hfollowed⟩ := halone.followed
        obtain ⟨tree, ta, hta, -⟩ := halone.hasTree
        have hd : Detached ('\n' :: rest.text.toList) := hrest ▸ (h.tail ha).detached
        obtain ⟨tb, htb⟩ := tokens_behind_line (a := ⟨name, .ofList a⟩) htext hta
          (halone.isClosed _ hta) hd htc
        obtain ⟨Bs, hBs, hlines⟩ := ih (h.tail ha) hrest htb
        have hline : HasStatements ⟨name, .ofList (a ++ ['\n'])⟩ (A ++ []) := by
          refine hfollowed (hasStatements_empty name) ?_ ?_
          · rw [← String.toList_inj]
            simp
          · exact .line (by simp) (by simp)
        rw [List.append_nil] at hline
        exact ⟨A :: Bs, hfollowed hBs htext hd, .cons ⟨hne, hline⟩ hlines⟩

end Separable

end Source

end Think
