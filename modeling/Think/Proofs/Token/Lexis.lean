import Think.Proofs.Token.Concatenation

/-! # What tokens stand for

Which characters spell which lexeme, what may stand between two tokens, and how the scanner goes
through a text: from each place it passes a blank or a comment, or it takes the longest name, number
or sign there is, or a quoted text. A word that is assigned to gets its `var` on the way.
-/

namespace Think

open Scanner

variable {c : Char} {t cs rest whole fraction raw : List Char} {l : Lexeme}

/-- The characters `cs` are such as `P` says, and with more of what follows they would not be. -/
structure Longest (P : List Char → Prop) (cs rest : List Char) : Prop where
  isOne : P cs
  eq_nil : ∀ more, more <+: rest → P (cs ++ more) → more = []

theorem Longest.of_next {P : List Char → Prop} (h : P cs)
    (hnext : ∀ d more, rest.head? = some d → ¬ P (cs ++ d :: more)) : Longest P cs rest where
  isOne := h
  eq_nil more hmore hP := by
    cases more with
    | nil => rfl
    | cons d more =>
      obtain ⟨rest', rfl⟩ := hmore
      exact (hnext d more rfl hP).elim

/-- A letter or an underscore, with digits too behind it. -/
def IsName (cs : List Char) : Prop :=
  ∃ c t, cs = c :: t ∧ isNameStart c = true ∧ ∀ d ∈ t, isNameChar d = true

/-- Digits with at most one point among them, which is not the first. -/
inductive IsNumeral : List Char → Prop
  | whole {cs : List Char} (hne : cs ≠ []) (hcs : ∀ d ∈ cs, isDigit d = true) : IsNumeral cs
  | point {whole fraction : List Char} (hne : whole ≠ []) (hwhole : ∀ d ∈ whole, isDigit d = true)
    (hfraction : ∀ d ∈ fraction, isDigit d = true) : IsNumeral (whole ++ '.' :: fraction)

/-- The characters that stand for a lexeme which is neither word nor number nor text. -/
def Lexeme.signs : Lexeme → List (List Char)
  | .plus => [['+']] | .minus => [['-']] | .times => [['*']] | .divide => [['/']]
  | .power => [['^']] | .modulo => [['%']] | .assign => [['=']] | .openParen => [['(']]
  | .closeParen => [[')']] | .openSquare => [['[']] | .closeSquare => [[']']]
  | .equal => [['=', '=']] | .unequal => [['!', '=']] | .less => [['<']] | .greater => [['>']]
  | .lessEqual => [['<', '=']] | .greaterEqual => [['>', '=']] | .comma => [[',']]
  | .arrow => [['-', '>']] | .dot => [['.']] | .newline => [[';'], ['\n']]
  | _ => []

def IsSign (cs : List Char) : Prop := ∃ l : Lexeme, cs ∈ l.signs

theorem IsSign.eq_of_cons_cons {d : Char} (h : IsSign (c :: d :: t)) :
    t = [] ∧ (c = '-' ∧ d = '>' ∨ d = '=' ∧ (c = '=' ∨ c = '!' ∨ c = '<' ∨ c = '>')) := by
  obtain ⟨l, hl⟩ := h
  cases l <;> simp [Lexeme.signs] at hl <;> simp [hl]

theorem isDigit_point : isDigit '.' = false := by decide

theorem IsNumeral.isDigit_or_point (h : IsNumeral cs) {d : Char} (hd : d ∈ cs) :
    isDigit d = true ∨ d = '.' := by
  cases h with
  | whole _ hcs => exact .inl (hcs d hd)
  | point _ hwhole hfraction =>
    rw [List.mem_append, List.mem_cons] at hd
    obtain hd | hd | hd := hd
    · exact .inl (hwhole d hd)
    · exact .inr hd
    · exact .inl (hfraction d hd)

theorem count_point_digits (hcs : ∀ d ∈ cs, isDigit d = true) : cs.count '.' = 0 := by
  rw [List.count_eq_zero]
  intro hmem
  cases (hcs _ hmem).symm.trans isDigit_point

theorem IsNumeral.count_point (h : IsNumeral cs) : cs.count '.' ≤ 1 := by
  cases h with
  | whole _ hcs => simp [count_point_digits hcs]
  | point _ hwhole hfraction =>
    simp [count_point_digits hwhole, count_point_digits hfraction]

/-- How the inside of a text in double quotes is written. -/
inductive Encodes : (value raw : List Char) → Prop
  | nil : Encodes [] []
  | plain {c : Char} {value raw : List Char} (hquote : c ≠ '"') (hslash : c ≠ '\\')
    (h : Encodes value raw) : Encodes (c :: value) (c :: raw)
  | escaped (c : Char) {value raw : List Char} (h : Encodes value raw) :
    Encodes (unescape c :: value) ('\\' :: c :: raw)

/-- A text in quotes. In single quotes a backslash is dropped, and no quote can be inside. -/
inductive Quotes : (value cs : List Char) → Prop
  | double {value raw : List Char} (h : Encodes value raw) : Quotes value ('"' :: (raw ++ ['"']))
  | single {raw : List Char} (h : '\'' ∉ raw) :
    Quotes (raw.filter (· ≠ '\\')) ('\'' :: (raw ++ ['\'']))

inductive Unclosed : (value cs : List Char) → Prop
  | double {value raw : List Char} (h : Encodes value raw) : Unclosed value ('"' :: raw)
  | slash {value raw : List Char} (h : Encodes value raw) : Unclosed value ('"' :: (raw ++ ['\\']))
  | single {raw : List Char} (h : '\'' ∉ raw) : Unclosed (raw.filter (· ≠ '\\')) ('\'' :: raw)

/-- The characters `cs` spell the lexeme when `rest` stands behind them. -/
inductive Spells : Lexeme → (cs rest : List Char) → Prop
  | int {cs rest : List Char} (hdigits : ∀ d ∈ cs, isDigit d = true)
    (h : Longest IsNumeral cs rest) :
    Spells (.int (Nat.ofDigitChars 10 cs 0)) cs rest
  | float {whole fraction rest : List Char} (hwhole : ∀ d ∈ whole, isDigit d = true)
    (hfraction : ∀ d ∈ fraction, isDigit d = true)
    (h : Longest IsNumeral (whole ++ '.' :: fraction) rest) :
    Spells (.float (decimal whole fraction)) (whole ++ '.' :: fraction) rest
  | name {cs rest : List Char} (hname : ∀ k : Keyword, k.text.toList ≠ cs)
    (h : Longest IsName cs rest) : Spells (.name (String.ofList cs)) cs rest
  | keyword (k : Keyword) {rest : List Char} (h : Longest IsName k.text.toList rest) :
    Spells (.keyword k) k.text.toList rest
  | sign {l : Lexeme} {cs rest : List Char} (hl : cs ∈ l.signs) (h : Longest IsSign cs rest) :
    Spells l cs rest
  | text {value cs rest : List Char} (h : Quotes value cs) :
    Spells (.text (String.ofList value)) cs rest

def Lexeme.isWord : Lexeme → Bool
  | .name _ | .keyword _ => true
  | _ => false

namespace Token

/-- From the place `i` on, the token stands for `cs`, with `rest` behind it. A text without a
closing quote reaches one place beyond the end. -/
inductive Covers (t : Token) (i : Nat) : (cs rest : List Char) → Prop
  | whole {cs rest : List Char} (hstart : t.start.idx = i) (hstop : t.stop.idx = i + cs.length)
    (h : Spells t.lexeme cs rest) : Covers t i cs rest
  | unclosed {value cs rest : List Char} (hstart : t.start.idx = i)
    (hstop : t.stop.idx = i + cs.length + 1) (hl : t.lexeme = .text (String.ofList value))
    (h : Unclosed value cs) (hrest : rest = []) : Covers t i cs rest

end Token

def Source.onward (source : Source) (i : Nat) : List Char := source.text.toList.drop i

/-- From the place `i` on, behind the token `previous?`, the text is split into the tokens. -/
inductive Lexes (source : Source) : (previous? : Option Token) → (i : Nat) → List Token → Prop
  | ends {previous? : Option Token} {i : Nat} {last : Token} (hi : source.text.length ≤ i)
    (hl : last.lexeme = .endOfText) (hstart : last.start.idx = i) : Lexes source previous? i [last]
  | blank {previous? : Option Token} {i : Nat} {c : Char} {rest : List Char} {ts : List Token}
    (hi : source.onward i = c :: rest) (hc : c = ' ' ∨ c = '\t')
    (h : Lexes source previous? (i + 1) ts) : Lexes source previous? i ts
  | comment {previous? : Option Token} {i : Nat} {body rest : List Char} {ts : List Token}
    (hi : source.onward i = '#' :: (body ++ rest)) (hbody : '\n' ∉ body)
    (hrest : ∀ c, rest.head? = some c → c = '\n')
    (h : Lexes source previous? (i + 1 + body.length) ts) : Lexes source previous? i ts
  | token {previous? : Option Token} {i : Nat} {t : Token} {cs rest : List Char} {ts : List Token}
    (hi : source.onward i = cs ++ rest) (ht : t.Covers i cs rest)
    (hword : t.lexeme.isWord = true → assigns rest (isExplicit previous?) = false)
    (h : Lexes source (some t) t.stop.idx ts) : Lexes source previous? i (t :: ts)
  | declared {previous? : Option Token} {i : Nat} {t : Token} {cs rest : List Char}
    {ts : List Token} (hi : source.onward i = cs ++ rest) (ht : t.Covers i cs rest)
    (hword : t.lexeme.isWord = true)
    (hassigns : assigns rest (isExplicit previous?) = true)
    (h : Lexes source (some t) t.stop.idx ts) :
    Lexes source previous? i (⟨.keyword .varKw, t.start, t.stop⟩ :: t :: ts)

namespace Scanner

variable {source : Source} {s after : Scanner} {previous? : Option Token} {ts found : List Token}
  {token : Token}

/-- The scanner stands in the text, before what is left of it. -/
structure Follows (s : Scanner) (source : Source) : Prop where
  inside : s.place.source = source
  rest : s.rest = source.onward s.place.idx

theorem skip_append (s : Scanner) (cs ds : List Char) :
    (s.skip cs).skip ds = s.skip (cs ++ ds) := by
  simp [skip]

theorem advance_cons (hs : s.rest = c :: t) : s.advance = s.skip [c] := by
  simp [advance, skip, hs]

theorem advance_advance {d : Char} (hs : s.rest = c :: d :: t) :
    s.advance.advance = s.skip [c, d] := by
  rw [advance_cons hs, advance_cons (rest_skip_append (show s.rest = [c] ++ d :: t from hs)),
    skip_append]
  rfl

theorem advance_skip (hs : s.rest = cs ++ c :: t) : (s.skip cs).advance = s.skip (cs ++ [c]) := by
  rw [advance_cons (rest_skip_append hs), skip_append]

namespace Follows

theorem skip (h : s.Follows source) (cs : List Char) : (s.skip cs).Follows source where
  inside := (source_skip s cs).trans h.inside
  rest := by
    rw [idx_skip, rest_skip, h.rest, Source.onward, Source.onward, List.drop_drop]

/-- Behind characters that were there, the scanner is in the text or at its end. -/
theorem sits (h : s.Follows source) (hs : s.rest = cs ++ rest) (hne : cs ≠ []) :
    (s.skip cs).Sits := by
  have hle : s.place.idx + cs.length ≤ source.text.length := by
    have hlen := congrArg List.length (h.rest.symm.trans hs)
    have hpos := List.length_pos_iff.mpr hne
    rw [Source.onward, List.length_drop, List.length_append, String.length_toList] at hlen
    omega
  rw [Sits, (h.skip cs).rest, (h.skip cs).inside, idx_skip, Source.onward, List.length_drop,
    String.length_toList]
  omega

end Follows

structure Takes (s : Scanner) (token : Token) (after : Scanner) : Prop where
  covers : ∃ cs, s.rest = cs ++ after.rest ∧ token.Covers s.place.idx cs after.rest
  idx : after.place.idx = token.stop.idx
  source : after.place.source = s.place.source

theorem Takes.follows (h : s.Takes token after) (hs : s.Follows source) :
    after.Follows source where
  inside := h.source.trans hs.inside
  rest := by
    obtain ⟨cs, hcs, hcovers⟩ := h.covers
    have hrest : source.onward (s.place.idx + cs.length) = after.rest := by
      have hdrop := congrArg (List.drop cs.length) (hs.rest.symm.trans hcs)
      rwa [Source.onward, List.drop_drop, List.drop_left] at hdrop
    rw [h.idx]
    cases hcovers with
    | whole _ hstop => rw [hstop, hrest]
    | unclosed _ hstop _ _ hnil =>
      rw [hstop, Source.onward, ← List.drop_drop, ← Source.onward, hrest, hnil]
      rfl

theorem takes_skip (hs : s.rest = cs ++ rest) (h : Spells l cs rest) :
    s.Takes ⟨l, s.place, (s.skip cs).place⟩ (s.skip cs) where
  covers := by
    rw [rest_skip_append hs]
    exact ⟨cs, hs, .whole rfl (idx_skip s cs) h⟩
  idx := rfl
  source := source_skip s cs

theorem takeWhile_digits (hwhole : ∀ d ∈ whole, isDigit d = true)
    (hrest : ∀ d, rest.head? = some d → isDigit d = false) :
    (whole ++ rest).takeWhile isDigit = whole := by
  rw [List.takeWhile_append_of_pos hwhole]
  cases rest with
  | nil => simp
  | cons d rest => simp [hrest d rfl]

theorem longest_whole (hne : cs ≠ []) (hcs : ∀ d ∈ cs, isDigit d = true)
    (hrest : ∀ d, rest.head? = some d → isDigit d = false ∧ d ≠ '.') :
    Longest IsNumeral cs rest := by
  refine .of_next (.whole hne hcs) fun d more hd h => ?_
  obtain ⟨hdigit, hpoint⟩ := hrest d hd
  obtain h | h := h.isDigit_or_point (d := d) (by simp)
  · cases hdigit.symm.trans h
  · exact hpoint h

/-- A second point ends a number, as anything but a digit does. -/
theorem longest_point (hne : whole ≠ []) (hwhole : ∀ d ∈ whole, isDigit d = true)
    (hfraction : ∀ d ∈ fraction, isDigit d = true)
    (hrest : ∀ d, rest.head? = some d → isDigit d = false) :
    Longest IsNumeral (whole ++ '.' :: fraction) rest := by
  refine .of_next (.point hne hwhole hfraction) fun d more hd h => ?_
  obtain hdigit | rfl := h.isDigit_or_point (d := d) (by simp)
  · cases (hrest d hd).symm.trans hdigit
  · have hcount := h.count_point
    simp at hcount
    omega

theorem exists_numeral (hc : isDigit c = true) (t : List Char) :
    ∃ rest, c :: t = numeral (c :: t) ++ rest ∧ Longest IsNumeral (numeral (c :: t)) rest := by
  have hsplit := (List.takeWhile_append_dropWhile (p := isDigit) (l := c :: t)).symm
  have hne : (c :: t).takeWhile isDigit ≠ [] := by simp [hc]
  have hwhole : ∀ d ∈ (c :: t).takeWhile isDigit, isDigit d = true := fun _ =>
    List.mem_takeWhile_imp
  have hnext : ∀ d, ((c :: t).dropWhile isDigit).head? = some d → isDigit d = false := by
    intro d hd
    have hnot := List.head?_dropWhile_not isDigit (c :: t)
    rwa [hd] at hnot
  generalize (c :: t).takeWhile isDigit = whole at *
  generalize (c :: t).dropWhile isDigit = after at *
  rw [hsplit, numeral]
  simp only [takeWhile_digits hwhole hnext, List.drop_left]
  split
  · next more =>
    refine ⟨more.dropWhile isDigit, ?_,
      longest_point hne hwhole (fun _ => List.mem_takeWhile_imp) ?_⟩
    · rw [List.append_assoc, List.cons_append, List.takeWhile_append_dropWhile]
    · intro d hd
      have hnot := List.head?_dropWhile_not isDigit more
      rwa [hd] at hnot
  · next hpoint =>
    refine ⟨after, rfl, longest_whole hne hwhole fun d hd => ⟨hnext d hd, ?_⟩⟩
    rintro rfl
    obtain ⟨more, rfl⟩ := List.head?_eq_some_iff.mp hd
    exact hpoint more rfl

theorem spells_numeral (h : Longest IsNumeral cs rest) (hl : numeralValue cs = .ok l) :
    Spells l cs rest := by
  cases h.isOne with
  | whole hne hcs =>
    have htake : cs.takeWhile isDigit = cs := List.takeWhile_eq_self_iff.mpr hcs
    rw [numeralValue] at hl
    simp only [htake, List.drop_length] at hl
    split at hl <;> cases hl
    rw [natOf, ← Nat.ofDigitChars_eq_foldl]
    exact .int hcs h
  | @point whole fraction hne hwhole hfraction =>
    have htake : (whole ++ '.' :: fraction).takeWhile isDigit = whole :=
      takeWhile_digits hwhole (by simp [isDigit_point])
    rw [numeralValue] at hl
    simp only [htake, List.drop_left] at hl
    split at hl <;> cases hl
    exact .float hwhole hfraction h

theorem takes_number (hs : s.rest = c :: t) (hc : isDigit c = true)
    (h : s.number = .ok (token, after)) : s.Takes token after := by
  obtain ⟨rest, hsplit, hlongest⟩ := exists_numeral hc t
  obtain ⟨l, hv, rfl, rfl⟩ := number_eq_ok h
  rw [hs] at hv ⊢
  exact takes_skip (hs.trans hsplit) (spells_numeral hlongest hv)

theorem longest_name (hc : isNameStart c = true) (t : List Char) :
    Longest IsName ((c :: t).takeWhile isNameChar) ((c :: t).dropWhile isNameChar) := by
  rw [List.takeWhile_cons_of_pos (isNameChar_of_start hc)]
  refine .of_next ⟨c, _, rfl, hc, fun d => List.mem_takeWhile_imp⟩ ?_
  rintro d more hd ⟨c', t', heq, -, ht'⟩
  have hnot := List.head?_dropWhile_not isNameChar (c :: t)
  rw [hd] at hnot
  rw [List.cons_append, List.cons_eq_cons] at heq
  have hmem : d ∈ t' := by simp [← heq.2]
  cases (ht' d hmem).symm.trans hnot

theorem ofText?_eq_some {k : Keyword} (h : Keyword.ofText? (String.ofList cs) = some k) :
    cs = k.text.toList := by
  have hfound := List.find?_some h
  rw [decide_eq_true_eq] at hfound
  rw [hfound, String.toList_ofList]

theorem ofText?_eq_none (h : Keyword.ofText? (String.ofList cs) = none) (k : Keyword) :
    k.text.toList ≠ cs := by
  rintro rfl
  have hk := List.find?_eq_none.mp h k (by cases k <;> decide)
  simp at hk

/-- A word is read as far as it goes, behind the `var` that it is due. -/
theorem takes_word (hs : s.rest = c :: t) (hc : isNameStart c = true) (previous? : Option Token) :
    s.Takes (s.word previous?).2.1 (s.word previous?).2.2 ∧
      (s.word previous?).2.1.lexeme.isWord = true := by
  have hsplit : s.rest = s.rest.takeWhile isNameChar ++ s.rest.dropWhile isNameChar :=
    List.takeWhile_append_dropWhile.symm
  have hlongest : Longest IsName (s.rest.takeWhile isNameChar) (s.rest.dropWhile isNameChar) := by
    rw [hs]
    exact longest_name hc t
  simp only [word, readWhile]
  cases hk : Keyword.ofText? (String.ofList (s.rest.takeWhile isNameChar)) with
  | none => exact ⟨takes_skip hsplit (.name (ofText?_eq_none hk) hlongest), rfl⟩
  | some k =>
    refine ⟨takes_skip hsplit ?_, rfl⟩
    rw [ofText?_eq_some hk] at hlongest ⊢
    exact .keyword k hlongest

/-- What `inside` reads behind the quote `q` reaches to the next one that closes the text, or to the
end. -/
def Encloses (q : Char) (inside : List Char → List Char × List Char) : Prop :=
  ∀ cs, (∃ rest, cs = (inside cs).2 ++ q :: rest ∧
      Quotes (inside cs).1 (q :: ((inside cs).2 ++ [q]))) ∨
    ((inside cs).2 = cs ∧ Unclosed (inside cs).1 (q :: cs))

theorem singleQuoted_eq (cs : List Char) :
    singleQuoted cs =
      ((cs.takeWhile (· ≠ '\'')).filter (· ≠ '\\'), cs.takeWhile (· ≠ '\'')) := by
  fun_induction singleQuoted cs with
  | case1 => rfl
  | case2 => simp
  | case3 c rest hc value raw hrest ih =>
    rw [hrest, Prod.mk.injEq] at ih
    rw [List.takeWhile_cons_of_pos (by simpa using hc), ih.1, ih.2]
    by_cases hslash : c = '\\' <;> simp [hslash]

theorem encloses_singleQuoted : Encloses '\'' singleQuoted := by
  intro cs
  have hsplit := List.takeWhile_append_dropWhile (p := (· ≠ '\'')) (l := cs)
  have hraw : '\'' ∉ cs.takeWhile (· ≠ '\'') := fun hmem => by
    simpa using List.mem_takeWhile_imp hmem
  have hnot := List.head?_dropWhile_not (· ≠ '\'') cs
  rw [singleQuoted_eq]
  cases hrest : cs.dropWhile (· ≠ '\'') with
  | nil =>
    rw [hrest, List.append_nil] at hsplit
    rw [hsplit] at hraw ⊢
    exact .inr ⟨rfl, .single hraw⟩
  | cons q rest =>
    rw [hrest] at hnot
    obtain rfl : q = '\'' := by simpa using hnot
    rw [hrest] at hsplit
    exact .inl ⟨rest, hsplit.symm, .single hraw⟩

theorem encodes_doubleQuoted (cs : List Char) :
    (∃ rest, cs = (doubleQuoted cs).2 ++ '"' :: rest ∧
      Encodes (doubleQuoted cs).1 (doubleQuoted cs).2) ∨
    ((doubleQuoted cs).2 = cs ∧ (Encodes (doubleQuoted cs).1 cs ∨
      ∃ raw, cs = raw ++ ['\\'] ∧ Encodes (doubleQuoted cs).1 raw)) := by
  fun_induction doubleQuoted cs with
  | case1 => exact .inr ⟨rfl, .inl .nil⟩
  | case2 => exact .inr ⟨rfl, .inr ⟨[], rfl, .nil⟩⟩
  | case3 c rest value raw hrest ih =>
    rw [hrest] at ih
    dsimp only at ih ⊢
    obtain ⟨more, rfl, henc⟩ | ⟨rfl, henc | ⟨raw', rfl, henc⟩⟩ := ih
    · exact .inl ⟨more, rfl, .escaped c henc⟩
    · exact .inr ⟨rfl, .inl (.escaped c henc)⟩
    · exact .inr ⟨rfl, .inr ⟨'\\' :: c :: raw', rfl, .escaped c henc⟩⟩
  | case4 rest => exact .inl ⟨rest, rfl, .nil⟩
  | case5 c rest hesc hesc' hc value raw hrest ih =>
    have hslash : c ≠ '\\' := by
      rintro rfl
      cases rest with
      | nil => exact hesc rfl rfl
      | cons d rest => exact hesc' d rest rfl rfl
    rw [hrest] at ih
    dsimp only at ih ⊢
    obtain ⟨more, rfl, henc⟩ | ⟨rfl, henc | ⟨raw', rfl, henc⟩⟩ := ih
    · exact .inl ⟨more, rfl, .plain hc hslash henc⟩
    · exact .inr ⟨rfl, .inl (.plain hc hslash henc)⟩
    · exact .inr ⟨rfl, .inr ⟨c :: raw', rfl, .plain hc hslash henc⟩⟩

theorem encloses_doubleQuoted : Encloses '"' doubleQuoted := by
  intro cs
  obtain ⟨rest, hcs, henc⟩ | ⟨hall, henc | ⟨raw, hcs, henc⟩⟩ := encodes_doubleQuoted cs
  · exact .inl ⟨rest, hcs, .double henc⟩
  · exact .inr ⟨hall, .double henc⟩
  · refine .inr ⟨hall, ?_⟩
    generalize (doubleQuoted cs).1 = value at henc
    exact hcs ▸ .slash henc

theorem takes_quoted {q : Char} {inside : List Char → List Char × List Char}
    (hinside : Encloses q inside) (hs : s.rest = q :: t) :
    s.Takes (s.quoted inside).1 (s.quoted inside).2 := by
  have hopened : s.advance.skip (inside t).2 = s.skip (q :: (inside t).2) := by
    rw [advance_cons hs, skip_append]
    rfl
  simp only [quoted, rest_advance hs, hopened]
  obtain ⟨rest, ht, hquotes⟩ | ⟨hall, hunclosed⟩ := hinside t
  · have hsplit : s.rest = (q :: (inside t).2) ++ q :: rest := by rw [hs, List.cons_append, ← ht]
    have hwhole : s.rest = (q :: (inside t).2 ++ [q]) ++ rest := by simp [hsplit]
    rw [advance_skip hsplit]
    exact takes_skip hwhole (.text hquotes)
  · have hnil : (s.skip (q :: t)).rest = [] := by simp [hs]
    rw [hall, advance_nil hnil]
    refine ⟨⟨q :: t, ?_, .unclosed rfl ?_ rfl hunclosed hnil⟩, rfl, source_skip s _⟩
    · simp [hs]
    · exact congrArg (· + 1) (idx_skip s (q :: t))

theorem takes_oneOrTwo {short long : Lexeme} {second : Char} (hs : s.rest = c :: t)
    (hshort : [c] ∈ short.signs) (hlong : [c, second] ∈ long.signs) :
    s.Takes (oneOrTwo short second long s).1 (oneOrTwo short second long s).2 := by
  have htwo := (IsSign.eq_of_cons_cons ⟨long, hlong⟩).2
  by_cases ht : t.head? = some second
  · obtain ⟨rest, rfl⟩ := List.head?_eq_some_iff.mp ht
    rw [Scans.oneOrTwo_long hs, advance_advance hs]
    refine takes_skip hs (.sign hlong (.of_next ⟨long, hlong⟩ fun d more _ h => ?_))
    cases (IsSign.eq_of_cons_cons h).1
  · rw [Scans.oneOrTwo_short hs ht, advance_cons hs]
    refine takes_skip hs (.sign hshort (.of_next ⟨short, hshort⟩ fun d more hd h => ht ?_))
    have hd' := (IsSign.eq_of_cons_cons h).2
    rw [hd]
    grind

theorem takes_notEquals (hs : s.rest = '!' :: t) (h : s.notEquals = (.ok token, after)) :
    s.Takes token after := by
  unfold notEquals at h
  dsimp only at h
  split at h <;> cases h
  next hc =>
    rw [current?, rest_advance hs] at hc
    obtain ⟨rest, rfl⟩ := List.head?_eq_some_iff.mp hc
    have hsign : ['!', '='] ∈ Lexeme.unequal.signs := by simp [Lexeme.signs]
    rw [advance_advance hs]
    refine takes_skip hs (.sign hsign (.of_next ⟨.unequal, hsign⟩ fun d more _ h => ?_))
    cases (IsSign.eq_of_cons_cons h).1

theorem takes_punctuation (hs : s.rest = c :: t) (h : punctuation? c = some l) :
    s.Takes (.single l s.place) s.advance := by
  have hsign : [c] ∈ l.signs := by
    unfold punctuation? at h
    split at h <;> cases h <;> simp [Lexeme.signs]
  have hlongest : Longest IsSign [c] t := by
    refine .of_next ⟨l, hsign⟩ fun d more _ htwo => ?_
    obtain ⟨rfl, -⟩ | ⟨-, rfl | rfl | rfl | rfl⟩ := (IsSign.eq_of_cons_cons htwo).2 <;> cases h
  have hrest : (s.skip [c]).rest = t := rest_skip_append hs
  rw [advance_cons hs]
  refine ⟨⟨[c], ?_, .whole rfl rfl ?_⟩, idx_skip s [c], source_skip s [c]⟩
  · rw [hrest, hs]
    rfl
  · rw [hrest]
    exact .sign hsign hlongest

structure Advances (source : Source) (previous? : Option Token) (s : Scanner) (ts : List Token)
    (after : Scanner) : Prop where
  follows : after.Follows source
  lexes : ∀ us, Lexes source (ts.getLast?.or previous?) after.place.idx us →
    Lexes source previous? s.place.idx (ts ++ us)

theorem advances_blank (h : s.Follows source) (hs : s.rest = c :: t) (hc : c = ' ' ∨ c = '\t') :
    Advances source previous? s [] s.advance := by
  rw [advance_cons hs]
  refine ⟨h.skip [c], fun us hus => ?_⟩
  rw [idx_skip] at hus
  exact .blank (h.rest.symm.trans hs) hc hus

theorem advances_comment (h : s.Follows source) (hs : s.rest = '#' :: t) :
    Advances source previous? s [] s.comment := by
  have hsplit : s.rest = '#' :: (t.takeWhile (· ≠ '\n') ++ t.dropWhile (· ≠ '\n')) := by
    rw [hs, List.takeWhile_append_dropWhile]
  have hcomment : s.comment = s.skip ('#' :: t.takeWhile (· ≠ '\n')) := by
    rw [comment, readWhile, rest_advance hs, advance_cons hs, skip_append]
    rfl
  rw [hcomment]
  refine ⟨h.skip _, fun us hus => ?_⟩
  rw [idx_skip, List.length_cons, Nat.add_comm _ 1, ← Nat.add_assoc] at hus
  refine .comment (h.rest.symm.trans hsplit) ?_ ?_ hus
  · intro hmem
    simpa using List.mem_takeWhile_imp hmem
  · intro c hc
    have hnot := List.head?_dropWhile_not (· ≠ '\n') t
    rw [hc] at hnot
    simpa using hnot

theorem Takes.isWord_eq_false (ht : s.Takes token after) (hs : s.rest = c :: t)
    (hc : ¬ isNameStart c = true) : token.lexeme.isWord = false := by
  obtain ⟨cs, hcs, hcovers⟩ := ht.covers
  have hname (h : IsName cs) : isNameStart c = true := by
    obtain ⟨c', t', rfl, hc', -⟩ := h
    rw [hs, List.cons_append, List.cons_eq_cons] at hcs
    exact hcs.1 ▸ hc'
  cases hcovers with
  | whole _ _ h =>
    generalize token.lexeme = l at h
    cases h with
    | int | float | text => rfl
    | name _ h => exact (hc (hname h.isOne)).elim
    | keyword _ h => exact (hc (hname h.isOne)).elim
    | sign hl => cases l <;> first | rfl | simp [Lexeme.signs] at hl
  | unclosed _ _ hl =>
    rw [hl]
    rfl

theorem advances_token (h : s.Follows source) (hs : s.rest = c :: t) (hc : ¬ isNameStart c = true)
    (ht : s.Takes token after) : Advances source previous? s [token] after := by
  refine ⟨ht.follows h, fun us hus => ?_⟩
  obtain ⟨cs, hcs, hcovers⟩ := ht.covers
  rw [ht.idx] at hus
  exact .token (h.rest.symm.trans hcs) hcovers (by simp [ht.isWord_eq_false hs hc]) hus

theorem word_fst (s : Scanner) (previous? : Option Token) :
    (s.word previous?).1 = if (s.word previous?).2.2.declares previous? then
      [⟨.keyword .varKw, (s.word previous?).2.1.start, (s.word previous?).2.1.stop⟩] else [] :=
  rfl

theorem advances_word (h : s.Follows source) (hs : s.rest = c :: t) (hc : isNameStart c = true)
    (previous? : Option Token) :
    Advances source previous? s ((s.word previous?).1 ++ [(s.word previous?).2.1])
      (s.word previous?).2.2 := by
  obtain ⟨ht, hword⟩ := takes_word hs hc previous?
  obtain ⟨cs, hcs, hcovers⟩ := ht.covers
  have hne : s.rest.takeWhile isNameChar ≠ [] := by simp [hs, isNameChar_of_start hc]
  have hsits : (s.word previous?).2.2.Sits := h.sits List.takeWhile_append_dropWhile.symm hne
  rw [word_fst, declares_eq hsits]
  generalize (s.word previous?).2.1 = token at *
  generalize (s.word previous?).2.2 = after at *
  refine ⟨ht.follows h, fun us hus => ?_⟩
  rw [List.getLast?_append, ht.idx] at hus
  cases hassigns : assigns after.rest (isExplicit previous?) with
  | true => exact .declared (h.rest.symm.trans hcs) hcovers hword hassigns hus
  | false => exact .token (h.rest.symm.trans hcs) hcovers (fun _ => hassigns) hus

theorem readFrom_advances (h : s.Follows source) (hs : s.rest = c :: t)
    (hr : s.readFrom c previous? = .ok (ts, after)) : Advances source previous? s ts after := by
  revert hr
  fun_cases readFrom s c previous? with
  | case1 hblank =>
    rintro ⟨⟩
    exact advances_blank h hs hblank
  | case2 _ hcomment =>
    rintro ⟨⟩
    exact advances_comment h (hcomment ▸ hs)
  | case3 _ _ hdigit token after hnumber =>
    rintro ⟨⟩
    exact advances_token h hs (fun hc => not_isDigit_of_start hc hdigit)
      (takes_number hs hdigit hnumber)
  | case5 _ _ _ hname understood token after hword =>
    have hstep := advances_word h hs hname previous?
    rw [hword] at hstep
    rintro ⟨⟩
    exact hstep
  | case6 _ _ _ hname hquote =>
    rintro ⟨⟩
    exact advances_token h hs hname (takes_quoted encloses_doubleQuoted (hquote ▸ hs))
  | case7 _ _ _ hname _ hquote =>
    rintro ⟨⟩
    exact advances_token h hs hname (takes_quoted encloses_singleQuoted (hquote ▸ hs))
  | case8 _ _ _ hname _ _ hc | case9 _ _ _ hname _ _ _ hc | case10 _ _ _ hname _ _ _ _ hc
  | case11 _ _ _ hname _ _ _ _ _ hc =>
    rintro ⟨⟩
    refine advances_token h hs hname (takes_oneOrTwo hs ?_ ?_) <;> simp [hc, Lexeme.signs]
  | case12 _ _ _ hname _ _ _ _ _ _ hc token after hmark =>
    rintro ⟨⟩
    exact advances_token h hs hname (takes_notEquals (hc ▸ hs) hmark)
  | case14 _ _ _ hname _ _ _ _ _ _ _ l hl =>
    rintro ⟨⟩
    exact advances_token h hs hname (takes_punctuation hs hl)
  | case4 | case13 | case15 => rintro ⟨⟩

/-- Behind the tokens found so far, the scanner finds those of the rest of the text. -/
theorem tokensFrom_lexes (h : s.Follows source) (found : List Token)
    (hr : s.tokensFrom found = .ok ts) :
    ∃ us, ts = found.reverse ++ us ∧ Lexes source found.head? s.place.idx us := by
  induction hn : s.rest.length using Nat.strong_induction_on generalizing s found with
  | _ n ih =>
  cases hs : s.rest with
  | nil =>
    rw [tokensFrom_nil hs] at hr
    cases hr
    refine ⟨_, rfl, .ends ?_ rfl rfl⟩
    have hnil := h.rest.symm.trans hs
    rwa [Source.onward, List.drop_eq_nil_iff, String.length_toList] at hnil
  | cons c t =>
    cases hread : s.readFrom c found.head? with
    | error e =>
      rw [tokensFrom_error hs hread] at hr
      cases hr
    | ok p =>
      obtain ⟨news, after⟩ := p
      have hstep := readFrom_advances h hs hread
      rw [tokensFrom_step hs hread] at hr
      obtain ⟨us, rfl, hus⟩ := ih _ (hn ▸ readFrom_shortens hs hread) hstep.follows _ hr rfl
      rw [List.head?_append, List.head?_reverse] at hus
      exact ⟨news ++ us, by simp, hstep.lexes us hus⟩

end Scanner

/-- The tokens of a text are found by going through it from its start. -/
theorem Source.lexes_tokens {source : Source} {tokens : List Token}
    (h : source.tokens = .ok tokens) : Lexes source none 0 tokens := by
  have hstart : (ofSource source).Follows source := ⟨rfl, rfl⟩
  obtain ⟨us, rfl, hus⟩ := tokensFrom_lexes hstart [] h
  exact hus

end Think
