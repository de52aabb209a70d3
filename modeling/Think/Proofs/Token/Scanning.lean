import Mathlib.Data.List.TakeWhile
import Think.Token.Lexer

/-! # Scanning step by step

Every step of the scanner leaves less to read, so reading to the end does not depend on the fuel
it starts with, and the tokens of a text are found by following the scanner from word to word.
-/

namespace Think.Scanner

variable {s after : Scanner} {c : Char} {t cs : List Char} {previous? : Option Token}
  {ts found : List Token} {fuel : Nat}

theorem rest_advance (hs : s.rest = c :: t) : s.advance.rest = t := by
  rw [advance, hs]

theorem rest_advance_length (s : Scanner) : s.advance.rest.length ≤ s.rest.length := by
  rw [advance]
  split <;> simp_all

@[simp] theorem rest_skip (s : Scanner) (cs : List Char) :
    (s.skip cs).rest = s.rest.drop cs.length :=
  rfl

theorem numeral_ne_nil (hc : isDigit c) : numeral (c :: t) ≠ [] := by
  simp only [numeral]
  split <;> simp [hc]

theorem isNameChar_of_start (hc : isNameStart c) : isNameChar c := by
  simp only [isNameStart, isNameChar, Bool.or_eq_true] at hc ⊢
  obtain h | h := hc
  · exact .inl (.inl h)
  · exact .inr h

theorem not_isDigit_of_start (hc : isNameStart c) : ¬ isDigit c := by
  simp only [isNameStart, isLetter, isDigit, Bool.or_eq_true, Bool.and_eq_true,
    decide_eq_true_eq, beq_iff_eq, Char.le_def, UInt32.le_iff_toNat_le] at hc ⊢
  obtain (h | h) | rfl := hc
  · simp at h ⊢
    omega
  · simp at h ⊢
    omega
  · decide

theorem rest_oneOrTwo (short long : Lexeme) (second : Char) (s : Scanner) (hs : s.rest = c :: t) :
    (oneOrTwo short second long s).2.rest.length ≤ t.length := by
  have h₁ := rest_advance hs
  have h₂ := rest_advance_length s.advance
  rw [oneOrTwo]
  split <;> simp_all

theorem number_eq_ok {token : Token} (h : s.number = .ok (token, after)) :
    ∃ l, numeralValue (numeral s.rest) = .ok l ∧ token = ⟨l, s.place, after.place⟩ ∧
      after = s.skip (numeral s.rest) := by
  rw [number] at h
  cases hv : numeralValue (numeral s.rest) with
  | error f =>
    rw [hv] at h
    cases h
  | ok l =>
    rw [hv] at h
    cases h
    exact ⟨l, rfl, rfl, rfl⟩

theorem number_shortens (hs : s.rest = c :: t) (hc : isDigit c) {token : Token}
    (h : s.number = .ok (token, after)) : after.rest.length ≤ t.length := by
  have hpos := List.length_pos_iff.mpr (numeral_ne_nil (t := t) hc)
  obtain ⟨l, -, -, rfl⟩ := number_eq_ok h
  rw [rest_skip, hs, List.length_drop, List.length_cons]
  omega

theorem word_shortens (hs : s.rest = c :: t) (hc : isNameStart c) (previous? : Option Token) :
    (s.word previous?).2.2.rest.length ≤ t.length := by
  have hchar := isNameChar_of_start hc
  change (s.skip (s.rest.takeWhile isNameChar)).rest.length ≤ _
  rw [rest_skip, hs, List.takeWhile_cons_of_pos hchar, List.length_drop, List.length_cons,
    List.length_cons]
  omega

theorem quoted_shortens (hs : s.rest = c :: t) (inside : List Char → List Char × List Char) :
    (s.quoted inside).2.rest.length ≤ t.length := by
  have hskip : (s.advance.skip (inside s.advance.rest).2).rest.length ≤ s.advance.rest.length := by
    rw [rest_skip, List.length_drop]
    exact Nat.sub_le _ _
  rw [← rest_advance hs]
  exact Nat.le_trans (rest_advance_length _) hskip

theorem notEquals_shortens (hs : s.rest = c :: t) : s.notEquals.2.rest.length ≤ t.length := by
  have h₁ := rest_advance_length s.advance
  rw [rest_advance hs] at h₁
  rw [notEquals]
  split <;> exact h₁

theorem comment_shortens (hs : s.rest = c :: t) : s.comment.rest.length ≤ t.length := by
  rw [comment, readWhile, rest_skip, List.length_drop, rest_advance hs]
  exact Nat.sub_le _ _

theorem readFrom_shortens (hs : s.rest = c :: t)
    (h : s.readFrom c previous? = .ok (ts, after)) : after.rest.length < s.rest.length := by
  rw [hs, List.length_cons, Nat.lt_succ_iff]
  revert h
  fun_cases readFrom s c previous? with
  | case1 | case14 =>
    rintro ⟨⟩
    exact Nat.le_of_eq (congrArg List.length (rest_advance hs))
  | case2 =>
    rintro ⟨⟩
    exact comment_shortens hs
  | case3 _ _ hdigit token after hnumber =>
    rintro ⟨⟩
    exact number_shortens hs hdigit hnumber
  | case5 _ _ _ hname understood token after hword =>
    have hle := word_shortens hs hname previous?
    rw [hword] at hle
    rintro ⟨⟩
    exact hle
  | case6 | case7 =>
    rintro ⟨⟩
    exact quoted_shortens hs _
  | case8 | case9 | case10 | case11 =>
    rintro ⟨⟩
    exact rest_oneOrTwo _ _ _ s hs
  | case12 _ _ _ _ _ _ _ _ _ _ _ token after hmark =>
    have hle := notEquals_shortens hs
    rw [hmark] at hle
    rintro ⟨⟩
    exact hle
  | case4 | case13 | case15 => rintro ⟨⟩

theorem readAll_eq {fuel' : Nat} (h : s.rest.length ≤ fuel) (h' : s.rest.length ≤ fuel') :
    readAll fuel s found = readAll fuel' s found := by
  induction fuel generalizing s found fuel' with
  | zero =>
    have hs : s.rest = [] := List.length_eq_zero_iff.mp (Nat.le_zero.mp h)
    cases fuel' with
    | zero => rfl
    | succ fuel' => simp [readAll, hs]
  | succ fuel ih =>
    cases hs : s.rest with
    | nil => cases fuel' <;> simp [readAll, hs]
    | cons c t =>
      rw [hs, List.length_cons] at h h'
      obtain ⟨fuel', rfl⟩ := Nat.exists_eq_add_of_le' (Nat.le_trans (Nat.le_add_left 1 _) h')
      rw [readAll, readAll, hs]
      dsimp only
      split
      · next ts after hr =>
        have hlt := readFrom_shortens hs hr
        rw [hs, List.length_cons] at hlt
        exact ih (by omega) (by omega)
      · rfl

def tokensFrom (s : Scanner) (found : List Token) : Except Failure (List Token) :=
  readAll s.rest.length s found

theorem tokensFrom_nil (hs : s.rest = []) :
    s.tokensFrom found = .ok (found.reverse ++ [.single .endOfText s.place]) := by
  simp [tokensFrom, hs, readAll]

theorem tokensFrom_step (hs : s.rest = c :: t)
    (h : s.readFrom c found.head? = .ok (ts, after)) :
    s.tokensFrom found = after.tokensFrom (ts.reverse ++ found) := by
  have hlt := readFrom_shortens hs h
  rw [tokensFrom, tokensFrom, hs, List.length_cons, readAll, hs]
  dsimp only
  rw [h]
  rw [hs, List.length_cons] at hlt
  exact readAll_eq (by omega) (Nat.le_refl _)

/-- The characters `cs` are read as the lexemes `ls` when something like `Next` stands behind. -/
def Scans (cs : List Char) (ls : List Lexeme) (Next : List Char → Prop) : Prop :=
  ∀ (s : Scanner) (found : List Token) (rest : List Char), s.rest = cs ++ rest → Next rest →
    ∃ (s' : Scanner) (ts : List Token), s.tokensFrom found = s'.tokensFrom (ts.reverse ++ found) ∧
      s'.rest = rest ∧ ts.map (·.lexeme) = ls

namespace Scans

variable {Next Next' : List Char → Prop} {ds : List Char} {ls ms : List Lexeme}

theorem of_step (h : ∀ (s : Scanner) (previous? : Option Token) (rest : List Char),
      s.rest = c :: (cs ++ rest) → Next rest → ∃ ts after,
        s.readFrom c previous? = .ok (ts, after) ∧ after.rest = rest ∧ ts.map (·.lexeme) = ls) :
    Scans (c :: cs) ls Next := by
  intro s found rest hs hn
  obtain ⟨ts, after, hr, ha, hl⟩ := h s found.head? rest hs hn
  exact ⟨after, ts, tokensFrom_step hs hr, ha, hl⟩

theorem append (hc : Scans cs ls Next) (hd : Scans ds ms Next')
    (hn : ∀ rest, Next' rest → Next (ds ++ rest)) : Scans (cs ++ ds) (ls ++ ms) Next' := by
  intro s found rest hs hrest
  rw [List.append_assoc] at hs
  obtain ⟨s₁, ts₁, h₁, hs₁, rfl⟩ := hc s found (ds ++ rest) hs (hn rest hrest)
  obtain ⟨s₂, ts₂, h₂, hs₂, rfl⟩ := hd s₁ (ts₁.reverse ++ found) rest hs₁ hrest
  refine ⟨s₂, ts₁ ++ ts₂, ?_, hs₂, List.map_append⟩
  rw [h₁, h₂, List.reverse_append, List.append_assoc]

theorem mono (h : Scans cs ls Next) (hn : ∀ rest, Next' rest → Next rest) : Scans cs ls Next' :=
  fun s found rest hs hrest => h s found rest hs (hn rest hrest)

theorem tokens (h : Scans cs ls Next) (hn : Next []) {source : Source}
    (hs : source.text.toList = cs) :
    ∃ ts, source.tokens = .ok ts ∧ ts.map (·.lexeme) = ls ++ [.endOfText] := by
  obtain ⟨s', ts, ht, hrest, rfl⟩ := h (ofSource source) [] []
    (by rw [List.append_nil]; exact hs) hn
  refine ⟨ts ++ [.single .endOfText s'.place], ?_, by simp [Token.single]⟩
  refine Eq.trans ht ?_
  rw [tokensFrom_nil hrest]
  simp

theorem space : Scans [' '] [] fun _ => True := by
  refine of_step fun s previous? rest hs _ => ⟨[], s.advance, ?_, rest_advance hs, rfl⟩
  rw [readFrom, if_pos (.inl rfl)]

theorem punctuation {l : Lexeme} (h : punctuation? c = some l) : Scans [c] [l] fun _ => True := by
  refine of_step fun s previous? rest hs _ =>
    ⟨[.single l s.place], s.advance, ?_, rest_advance hs, rfl⟩
  unfold punctuation? at h
  split at h <;> cases h <;> rfl

theorem oneOrTwo_short {short long : Lexeme} {second : Char} (hs : s.rest = c :: t)
    (ht : t.head? ≠ some second) :
    oneOrTwo short second long s = (⟨short, s.place, s.advance.place⟩, s.advance) := by
  rw [oneOrTwo, current?, rest_advance hs, if_neg ht]

theorem oneOrTwo_long {short long : Lexeme} {second : Char} (hs : s.rest = c :: second :: t) :
    oneOrTwo short second long s =
      (⟨long, s.place, s.advance.advance.place⟩, s.advance.advance) := by
  rw [oneOrTwo, current?, rest_advance hs]
  exact if_pos rfl

section

variable {one two : Lexeme} {second : Char}
  (h : ∀ (s : Scanner) previous?, s.readFrom c previous? =
    readFrom.one (oneOrTwo one second two s))

include h

theorem of_short : Scans [c] [one] fun rest => rest.head? ≠ some second := by
  refine of_step fun s previous? rest hs hn =>
    ⟨[⟨one, s.place, s.advance.place⟩], s.advance, ?_, rest_advance hs, rfl⟩
  rw [h, oneOrTwo_short hs hn]
  rfl

theorem of_long : Scans [c, second] [two] fun _ => True := by
  refine of_step fun s previous? rest hs _ => ⟨[⟨two, s.place, s.advance.advance.place⟩],
    s.advance.advance, ?_, rest_advance (rest_advance hs), rfl⟩
  rw [h, oneOrTwo_long hs]
  rfl

end

theorem minus : Scans ['-'] [.minus] fun rest => rest.head? ≠ some '>' := of_short fun _ _ => rfl

theorem equal : Scans ['=', '='] [.equal] fun _ => True := of_long fun _ _ => rfl

theorem less : Scans ['<'] [.less] fun rest => rest.head? ≠ some '=' := of_short fun _ _ => rfl

theorem lessEqual : Scans ['<', '='] [.lessEqual] fun _ => True := of_long fun _ _ => rfl

theorem greater : Scans ['>'] [.greater] fun rest => rest.head? ≠ some '=' :=
  of_short fun _ _ => rfl

theorem greaterEqual : Scans ['>', '='] [.greaterEqual] fun _ => True := of_long fun _ _ => rfl

theorem unequal : Scans ['!', '='] [.unequal] fun _ => True := by
  refine of_step fun s previous? rest hs _ =>
    ⟨[⟨.unequal, s.place, s.advance.advance.place⟩], s.advance.advance, ?_,
      rest_advance (rest_advance hs), rfl⟩
  have hn : s.notEquals =
      (.ok ⟨.unequal, s.place, s.advance.advance.place⟩, s.advance.advance) := by
    rw [notEquals, current?, rest_advance hs]
    exact if_pos rfl
  have hdigit : isDigit '!' = false := by decide
  have hname : isNameStart '!' = false := by decide
  simp [readFrom, hdigit, hname, hn]

def Opens (rest : List Char) : Prop :=
  ∃ c t, rest = c :: t ∧ c ≠ ' ' ∧ c ≠ '=' ∧ c ≠ '>' ∧ (c = '+' → t.head? ≠ some '=')

theorem not_declares (hs : s.rest = c :: cs) (hc : c ≠ '=') (hcs : Opens cs) :
    s.declares previous? = false := by
  obtain ⟨d, t, rfl, hblank, hequals, _, hplus⟩ := hcs
  have hpeek : s.peekPastSpaces? ≠ some (some '=') := by
    by_cases hspace : c = ' ' <;> simp [peekPastSpaces?, hs, hspace, hc, hblank, hequals]
  have hcompound :
      (s.peekAhead? 1 == some (some '+') && s.peekAhead? 2 == some (some '=')) = false := by
    rw [Bool.and_eq_false_imp]
    intro hone
    have hd : d = '+' := by
      rw [peekAhead?, hs] at hone
      split at hone
      · simpa using hone
      · simp at hone
    rw [peekAhead?, hs]
    split
    · simpa using hplus hd
    · rfl
  simp [declares, hpeek, hcompound]

theorem readFrom_word (hc : isNameStart c) :
    s.readFrom c previous? = .ok ((s.word previous?).1 ++ [(s.word previous?).2.1],
      (s.word previous?).2.2) := by
  have hblank : ¬ (c = ' ' ∨ c = '\t') := by
    rintro (rfl | rfl) <;> cases hc
  have hcomment : c ≠ '#' := by
    rintro rfl
    cases hc
  rw [readFrom, if_neg hblank, if_neg hcomment, if_neg (not_isDigit_of_start hc), if_pos hc]

/-- A word behind which an operand stands, with one character between them. -/
theorem readFrom_wordBefore (hc : isNameStart c) (hcs : cs.all isNameChar = true) {d : Char}
    (hs : s.rest = c :: (cs ++ d :: t)) (hd : isNameChar d = false) (hequals : d ≠ '=')
    (ht : Opens t) (previous? : Option Token) :
    ∃ word after, s.readFrom c previous? = .ok ([word], after) ∧ after.rest = d :: t ∧
      (∀ w, Keyword.ofText? (String.ofList (c :: cs)) = some w → word.lexeme = .keyword w) ∧
      (Keyword.ofText? (String.ofList (c :: cs)) = none →
        word.lexeme = .name (String.ofList (c :: cs))) := by
  have htake : s.rest.takeWhile isNameChar = c :: cs := by
    have hall : ∀ d ∈ c :: cs, isNameChar d := by
      simpa using ⟨isNameChar_of_start hc, List.all_eq_true.mp hcs⟩
    rw [hs, ← List.cons_append, List.takeWhile_append_of_pos hall]
    simp [hd]
  have hafter : (s.skip (c :: cs)).rest = d :: t := by
    rw [rest_skip, hs, ← List.cons_append, List.drop_left]
  refine ⟨(s.word previous?).2.1, s.skip (c :: cs), ?_, hafter, ?_, ?_⟩
  · rw [readFrom_word hc]
    simp only [word, readWhile, htake, not_declares hafter hequals ht]
    rfl
  · intro w hw
    simp only [word, readWhile, htake, hw]
  · intro hw
    simp only [word, readWhile, htake, hw]

theorem keyword {w : Keyword} (hc : isNameStart c) (hcs : cs.all isNameChar = true)
    (hw : Keyword.ofText? (String.ofList (c :: cs)) = some w) :
    Scans (c :: cs) [.keyword w] fun rest => ∃ t, rest = ' ' :: t ∧ Opens t := by
  refine of_step fun s previous? rest hs hn => ?_
  obtain ⟨t, rfl, ht⟩ := hn
  obtain ⟨word, after, hread, hafter, hkeyword, -⟩ :=
    readFrom_wordBefore hc hcs hs (by decide) (by decide) ht previous?
  exact ⟨_, _, hread, hafter, congrArg (fun l => [l]) (hkeyword w hw)⟩

theorem calledName {name : String} (hname : name.toList = c :: cs) (hc : isNameStart c)
    (hcs : cs.all isNameChar = true) (hw : Keyword.ofText? name = none) :
    Scans name.toList [.name name] fun rest => ∃ t, rest = '(' :: t ∧ Opens t := by
  obtain rfl : name = String.ofList (c :: cs) := by rw [← hname, String.ofList_toList]
  rw [String.toList_ofList]
  refine of_step fun s previous? rest hs hn => ?_
  obtain ⟨t, rfl, ht⟩ := hn
  obtain ⟨word, after, hread, hafter, -, hlexeme⟩ :=
    readFrom_wordBefore hc hcs hs (by decide) (by decide) ht previous?
  exact ⟨_, _, hread, hafter, congrArg (fun l => [l]) (hlexeme hw)⟩

theorem natOf_toDigits (n : Nat) : natOf (Nat.toDigits 10 n) = n := by
  rw [natOf, ← Nat.ofDigitChars_eq_foldl, Nat.ofDigitChars_ten_toDigits]

def EndsNumber (rest : List Char) : Prop := ∀ c, rest.head? = some c → c ≠ '.' ∧ isDigit c = false

theorem numeral_digits {rest : List Char} (hcs : ∀ d ∈ cs, isDigit d) (hrest : EndsNumber rest) :
    numeral (cs ++ rest) = cs := by
  have htake : (cs ++ rest).takeWhile isDigit = cs := by
    rw [List.takeWhile_append_of_pos hcs]
    cases rest with
    | nil => simp
    | cons c t => simp [(hrest c rfl).2]
  rw [numeral]
  simp only [htake, List.drop_left]
  split
  · exact ((hrest '.' rfl).1 rfl).elim
  · rfl

theorem numeralValue_digits (hcs : ∀ d ∈ cs, isDigit d) (hne : cs ≠ [])
    (hlen : cs.length ≤ maxDigits) : numeralValue cs = .ok (.int (natOf cs)) := by
  have htake : cs.takeWhile isDigit = cs := List.takeWhile_eq_self_iff.mpr hcs
  rw [numeralValue]
  simp only [htake, List.drop_length]
  rw [if_neg]
  simpa [hne] using hlen

theorem digitRun (hcs : ∀ d ∈ cs, isDigit d) (hne : cs ≠ []) (hlen : cs.length ≤ maxDigits) :
    Scans cs [.int (natOf cs)] EndsNumber := by
  obtain ⟨c, ds, rfl⟩ := List.exists_cons_of_ne_nil hne
  refine of_step fun s previous? rest hs hrest => ?_
  have hc : isDigit c := hcs c List.mem_cons_self
  have hnumber : s.number = .ok (⟨.int (natOf (c :: ds)), s.place, (s.skip (c :: ds)).place⟩,
      s.skip (c :: ds)) := by
    rw [number, hs, ← List.cons_append, numeral_digits hcs hrest,
      numeralValue_digits hcs hne hlen]
    rfl
  refine ⟨[⟨.int (natOf (c :: ds)), s.place, (s.skip (c :: ds)).place⟩], s.skip (c :: ds), ?_, ?_,
    rfl⟩
  · have hblank : ¬ (c = ' ' ∨ c = '\t') := by
      rintro (rfl | rfl) <;> cases hc
    have hcomment : c ≠ '#' := by
      rintro rfl
      cases hc
    rw [readFrom, if_neg hblank, if_neg hcomment, if_pos hc, hnumber]
  · rw [rest_skip, hs, ← List.cons_append, List.drop_left]

theorem digits {n : Nat} (hn : (toString n).length ≤ maxDigits) :
    Scans (toString n).toList [.int n] EndsNumber := by
  rw [Nat.toString_eq_ofList_toDigits, String.toList_ofList]
  rw [Nat.toString_eq_ofList_toDigits, String.length_ofList] at hn
  have hall : ∀ d ∈ Nat.toDigits 10 n, isDigit d := fun d hd =>
    Nat.isDigit_of_mem_toDigits (by decide) (by decide) hd
  have hscans := digitRun hall Nat.toDigits_ne_nil hn
  rwa [natOf_toDigits] at hscans

end Scans

end Think.Scanner
