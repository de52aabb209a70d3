import Think.Proofs.Token.Scanning

/-! # Scanning a text that goes on

A scanner looks at most a few places ahead. So the words of a text are found again when a line
break follows it, unless a quoted text is still open at its end or what follows the line break
completes an assignment to the last word.
-/

namespace Think

/-- A quoted text that does not reach beyond the end. -/
def Token.Closed (t : Token) : Prop :=
  (t.lexeme matches .text _) → t.stop.idx ≤ t.stop.source.text.length

instance (t : Token) : Decidable t.Closed := inferInstanceAs (Decidable (_ → _))

namespace Scanner

variable {s s' after : Scanner} {c : Char} {t cs tail : List Char}
  {previous? previous'? : Option Token} {ts found found' : List Token}

inductive Detached : List Char → Prop
  | nothing : Detached []
  | line {b : List Char} : b.head? ≠ some '=' → (∀ t, b ≠ '+' :: '=' :: t) → Detached ('\n' :: b)

def Sits (s : Scanner) : Prop := s.place.idx + s.rest.length = s.place.source.text.length

theorem idx_step (p : Position) (c : Char) : (p.step c).idx = p.idx + 1 := by
  unfold Position.step
  split <;> rfl

theorem source_step (p : Position) (c : Char) : (p.step c).source = p.source := by
  unfold Position.step
  split <;> rfl

theorem advance_nil (hs : s.rest = []) : s.advance = { s with place := s.place.next } := by
  rw [advance, hs]

theorem rest_skip_append (hs : s.rest = cs ++ t) : (s.skip cs).rest = t := by
  rw [rest_skip, hs, List.drop_left]

theorem Sits.advance (h : s.Sits) (hs : s.rest = c :: t) : s.advance.Sits := by
  rw [Sits, hs, List.length_cons] at h
  rw [Sits, Scanner.advance, hs]
  dsimp only
  rw [idx_step, source_step]
  omega

theorem idx_skip (s : Scanner) (cs : List Char) :
    (s.skip cs).place.idx = s.place.idx + cs.length := by
  change (cs.foldl Position.step s.place).idx = _
  induction cs generalizing s with
  | nil => rfl
  | cons c cs ih =>
    rw [List.foldl_cons, ih ⟨s.place.step c, s.rest⟩, idx_step, List.length_cons]
    omega

theorem source_skip (s : Scanner) (cs : List Char) :
    (s.skip cs).place.source = s.place.source := by
  change (cs.foldl Position.step s.place).source = _
  induction cs generalizing s with
  | nil => rfl
  | cons c cs ih => rw [List.foldl_cons, ih ⟨s.place.step c, s.rest⟩, source_step]

theorem Sits.skip (h : s.Sits) (hs : s.rest = cs ++ t) : (s.skip cs).Sits := by
  rw [Sits, hs, List.length_append] at h
  rw [Sits, rest_skip_append hs, idx_skip, source_skip]
  omega

theorem peekAhead_eq (h : s.Sits) (n : Nat) :
    s.peekAhead? (n + 1) =
      if n ≤ s.rest.length then some (s.rest.drop (n + 1)).head? else none := by
  rw [Sits] at h
  have hif : ((n + 1 = 0 || s.place.idx + (n + 1) ≤ s.place.source.text.length + 1) = true) ↔
      n ≤ s.rest.length := by
    simp
    omega
  rw [peekAhead?]
  simp only [hif]

theorem peekPastSpaces_eq (h : s.Sits) :
    s.peekPastSpaces? = some (s.rest.dropWhile (· == ' ')).head? := by
  rw [Sits] at h
  rw [peekPastSpaces?, if_neg]
  simp
  omega

def assigns (cs : List Char) (explicit : Bool) : Bool :=
  let second := if 1 ≤ cs.length then some (cs.drop 2).head? else none
  let compound := some (cs.drop 1).head? == some (some '+') && second == some (some '=')
  (some (cs.dropWhile (· == ' ')).head? == some (some '=') || compound) && !explicit &&
    (compound || (second.isSome && second != some (some '=')))

def isExplicit : Option Token → Bool
  | some t => t.lexeme.isVarText
  | none => false

theorem isExplicit_append {us us' : List Token} (hmap : us'.map (·.lexeme) = us.map (·.lexeme))
    (hp : isExplicit found'.head? = isExplicit found.head?) :
    isExplicit (us'.reverse ++ found').head? = isExplicit (us.reverse ++ found).head? := by
  have hrev : us'.reverse.map (·.lexeme) = us.reverse.map (·.lexeme) := by
    rw [List.map_reverse, List.map_reverse, hmap]
  cases hu : us.reverse with
  | nil =>
    rw [hu] at hrev
    rw [List.map_eq_nil_iff.mp hrev]
    exact hp
  | cons u us =>
    rw [hu, List.map_cons] at hrev
    obtain ⟨u', us', hu', hlexeme, -⟩ := List.map_eq_cons_iff.mp hrev
    rw [hu']
    simp only [List.cons_append, List.head?_cons, isExplicit, hlexeme]

theorem declares_eq (h : s.Sits) (previous? : Option Token) :
    s.declares previous? = assigns s.rest (isExplicit previous?) := by
  have h₁ : s.peekAhead? 1 = some (s.rest.drop 1).head? := by simp [peekAhead_eq h 0]
  have h₂ := peekAhead_eq h 1
  simp only [declares, peekPastSpaces_eq h, h₁, h₂]
  rfl

theorem head_dropWhile_line (cs b : List Char) :
    (((cs ++ '\n' :: b).dropWhile (· == ' ')).head? = some '=') ↔
      (cs.dropWhile (· == ' ')).head? = some '=' := by
  induction cs with
  | nil => simp
  | cons c cs ih =>
    by_cases hc : c = ' '
    · simpa [hc] using ih
    · simp [hc]

theorem assigns_append (ht : Detached tail) (explicit : Bool) :
    assigns (cs ++ tail) explicit = assigns cs explicit := by
  cases ht with
  | nothing => rw [List.append_nil]
  | @line b hb hb' =>
    have hhead : (some ((cs ++ '\n' :: b).dropWhile (· == ' ')).head? == some (some '=')) =
        (some (cs.dropWhile (· == ' ')).head? == some (some '=')) := by
      rw [Bool.eq_iff_iff]
      simpa using head_dropWhile_line cs b
    simp only [assigns, hhead]
    rcases cs with _ | ⟨c, _ | ⟨d, _ | ⟨e, cs⟩⟩⟩
    · rcases b with _ | ⟨x, _ | ⟨y, b⟩⟩
      · simp
      · simp
      · have hxy : ¬ (x = '+' ∧ y = '=') := fun h => hb' b (by rw [h.1, h.2])
        simp
        grind
    · simp [bne, hb]
    · simp [bne]
    · simp

theorem takeWhile_append {p : Char → Bool} (hp : p '\n' = false) (ht : Detached tail) :
    (cs ++ tail).takeWhile p = cs.takeWhile p := by
  have htail : tail.takeWhile p = [] := by cases ht <;> simp [hp]
  rw [List.takeWhile_append, htail, List.append_nil]
  split
  · next h => exact (List.takeWhile_sublist p).eq_of_length h |>.symm
  · rfl

theorem numeral_append (ht : Detached tail) : numeral (cs ++ tail) = numeral cs := by
  have hwhole : (cs ++ tail).takeWhile isDigit = cs.takeWhile isDigit := takeWhile_append rfl ht
  have hle : (cs.takeWhile isDigit).length ≤ cs.length := (List.takeWhile_sublist _).length_le
  simp only [numeral, hwhole, List.drop_append_of_le_length hle]
  generalize cs.drop (cs.takeWhile isDigit).length = ds
  cases ds with
  | nil => cases ht <;> simp
  | cons d ds =>
    by_cases hd : d = '.'
    · rw [hd]
      simp only [List.cons_append]
      rw [takeWhile_append rfl ht]
    · simp [hd]

theorem isPrefix_numeral (cs : List Char) : numeral cs <+: cs := by
  unfold numeral
  dsimp only
  split
  · next after h =>
    have hafter := List.takeWhile_append_dropWhile (p := isDigit) (l := after)
    refine ⟨after.dropWhile isDigit, ?_⟩
    rw [List.append_assoc, List.cons_append, hafter, ← h]
    exact List.prefix_iff_eq_append.mp (List.takeWhile_prefix _)
  · exact List.takeWhile_prefix _

/-- The scanners read the same characters, and the second one finds `tail` behind them. -/
structure Along (tail : List Char) (s s' : Scanner) : Prop where
  rest : s'.rest = s.rest ++ tail
  left : s.Sits
  right : s'.Sits

namespace Along

theorem advance (h : Along tail s s') (hs : s.rest = c :: t) :
    Along tail s.advance s'.advance where
  rest := by
    have hs' : s'.rest = c :: (t ++ tail) := by rw [h.rest, hs, List.cons_append]
    rw [rest_advance hs, rest_advance hs']
  left := h.left.advance hs
  right := h.right.advance (by rw [h.rest, hs, List.cons_append])

theorem skip (h : Along tail s s') (hs : s.rest = cs ++ t) :
    Along tail (s.skip cs) (s'.skip cs) where
  rest := by
    have hs' : s'.rest = cs ++ (t ++ tail) := by rw [h.rest, hs, List.append_assoc]
    rw [rest_skip_append hs, rest_skip_append hs']
  left := h.left.skip hs
  right := h.right.skip (t := t ++ tail) (by rw [h.rest, hs, List.append_assoc])

theorem readWhile {p : Char → Bool} (h : Along tail s s') (hp : p '\n' = false)
    (ht : Detached tail) :
    (s'.readWhile p).1 = (s.readWhile p).1 ∧
      Along tail (s.readWhile p).2 (s'.readWhile p).2 := by
  have htake : s'.rest.takeWhile p = s.rest.takeWhile p := by rw [h.rest, takeWhile_append hp ht]
  refine ⟨htake, ?_⟩
  unfold Scanner.readWhile
  dsimp only
  rw [htake]
  exact h.skip List.takeWhile_append_dropWhile.symm

end Along

/-- What holds of every way to read on holds of reading on from the character `c`. -/
theorem readFrom_cases
    {motive : (Scanner → Option Token → Except Failure (List Token × Scanner)) → Prop}
    (blank : motive fun s _ => .ok ([], s.advance))
    (comment : motive fun s _ => .ok ([], s.comment))
    (number : motive fun s _ => match s.number with
      | .ok (t, after) => .ok ([t], after)
      | .error f => .error (.fault f))
    (word : motive fun s previous? => .ok ((s.word previous?).1 ++ [(s.word previous?).2.1],
      (s.word previous?).2.2))
    (double : motive fun s _ => readFrom.one (s.quoted doubleQuoted))
    (single : motive fun s _ => readFrom.one (s.quoted singleQuoted))
    (sign : ∀ short second long, short ≠ .endOfText → long ≠ .endOfText → second ≠ '\n' →
      motive fun s _ => readFrom.one (oneOrTwo short second long s))
    (mark : motive fun s _ => match s.notEquals with
      | (.ok t, after) => .ok ([t], after)
      | (.error d, _) => .error (.reported d))
    (punctuation : ∀ l, l ≠ .endOfText → motive fun s _ => .ok ([.single l s.place], s.advance))
    (illegal : ∀ details, motive fun s _ =>
      .error (.reported (.static .illegalChar ⟨s.place, s.advance.place⟩ details))) (c : Char) :
    motive fun s previous? => s.readFrom c previous? := by
  unfold readFrom
  by_cases hblank : c = ' ' ∨ c = '\t'
  · simp only [if_pos hblank]
    exact blank
  by_cases hcomment : c = '#'
  · simp only [if_neg hblank, if_pos hcomment]
    exact comment
  by_cases hdigit : isDigit c
  · simp only [if_neg hblank, if_neg hcomment, if_pos hdigit]
    exact number
  by_cases hname : isNameStart c
  · simp only [if_neg hblank, if_neg hcomment, if_neg hdigit, if_pos hname]
    exact word
  simp only [if_neg hblank, if_neg hcomment, if_neg hdigit, if_neg hname]
  by_cases hdouble : c = '"'
  · simp only [if_pos hdouble]
    exact double
  by_cases hsingle : c = '\''
  · simp only [if_neg hdouble, if_pos hsingle]
    exact single
  simp only [if_neg hdouble, if_neg hsingle]
  by_cases hminus : c = '-'
  · simp only [if_pos hminus]
    exact sign .minus '>' .arrow nofun nofun (by decide)
  by_cases hequals : c = '='
  · simp only [if_neg hminus, if_pos hequals]
    exact sign .assign '=' .equal nofun nofun (by decide)
  by_cases hless : c = '<'
  · simp only [if_neg hminus, if_neg hequals, if_pos hless]
    exact sign .less '=' .lessEqual nofun nofun (by decide)
  by_cases hgreater : c = '>'
  · simp only [if_neg hminus, if_neg hequals, if_neg hless, if_pos hgreater]
    exact sign .greater '=' .greaterEqual nofun nofun (by decide)
  simp only [if_neg hminus, if_neg hequals, if_neg hless, if_neg hgreater]
  by_cases hmark : c = '!'
  · simp only [if_pos hmark]
    exact mark
  simp only [if_neg hmark]
  cases hp : punctuation? c with
  | some l =>
    refine punctuation l ?_
    unfold punctuation? at hp
    split at hp <;> cases hp <;> nofun
  | none => exact illegal _

/-- The scanners go on side by side, unless there is nothing left for either. -/
def Abreast (tail : List Char) (s s' : Scanner) : Prop :=
  Along tail s s' ∨ tail = [] ∧ s.rest = [] ∧ s'.rest = []

/-- Unless nothing stands behind them, the quoted texts among the tokens are closed. -/
def Closed (tail : List Char) (ts : List Token) : Prop := tail = [] ∨ ∀ t ∈ ts, t.Closed

/-- A way to read on finds the same lexemes when `tail` stands behind the text. -/
def Stable (tail : List Char)
    (read : Scanner → Option Token → Except Failure (List Token × Scanner)) : Prop :=
  ∀ ⦃s s' : Scanner⦄ ⦃previous? previous'? : Option Token⦄ ⦃ts : List Token⦄ ⦃after : Scanner⦄,
    s.rest ≠ [] → Along tail s s' → isExplicit previous'? = isExplicit previous? →
    read s previous? = .ok (ts, after) → Closed tail ts →
    ∃ ts' after', read s' previous'? = .ok (ts', after') ∧
      ts'.map (·.lexeme) = ts.map (·.lexeme) ∧ Abreast tail after after'

namespace Stable

theorem blank : Stable tail fun s _ => .ok ([], s.advance) := by
  intro s s' _ _ ts after hne h _ hr _
  cases hr
  obtain ⟨c, t, hs⟩ := List.exists_cons_of_ne_nil hne
  exact ⟨[], s'.advance, rfl, rfl, .inl (h.advance hs)⟩

theorem comment (ht : Detached tail) : Stable tail fun s _ => .ok ([], s.comment) := by
  intro s s' _ _ ts after hne h _ hr _
  cases hr
  obtain ⟨c, t, hs⟩ := List.exists_cons_of_ne_nil hne
  exact ⟨[], s'.comment, rfl, rfl, .inl ((h.advance hs).readWhile (by decide) ht).2⟩

theorem number (ht : Detached tail) : Stable tail fun s _ => match s.number with
    | .ok (t, after) => .ok ([t], after)
    | .error f => .error (.fault f) := by
  intro s s' _ _ ts after hne h _ hr _
  have hnum : numeral s'.rest = numeral s.rest := by rw [h.rest, numeral_append ht]
  dsimp only at hr ⊢
  rw [Scanner.number] at hr ⊢
  rw [hnum]
  cases hv : numeralValue (numeral s.rest) with
  | error f =>
    rw [hv] at hr
    cases hr
  | ok l =>
    rw [hv] at hr
    cases hr
    obtain ⟨t, hs⟩ := isPrefix_numeral s.rest
    exact ⟨_, _, rfl, rfl, .inl (h.skip hs.symm)⟩

theorem word (ht : Detached tail) : Stable tail fun s previous? =>
    .ok ((s.word previous?).1 ++ [(s.word previous?).2.1], (s.word previous?).2.2) := by
  intro s s' previous? previous'? ts after hne h hp hr _
  cases hr
  obtain ⟨htaken, hafter⟩ := h.readWhile (p := isNameChar) (by decide) ht
  have hdeclares : (s'.readWhile isNameChar).2.declares previous'? =
      (s.readWhile isNameChar).2.declares previous? := by
    rw [declares_eq hafter.right, declares_eq hafter.left, hafter.rest, assigns_append ht, hp]
  refine ⟨_, _, rfl, ?_, .inl hafter⟩
  simp only [Scanner.word, htaken, hdeclares, List.map_append, List.map_cons]
  split <;> rfl

theorem sign {short long : Lexeme} {second : Char} (hsecond : second ≠ '\n') (ht : Detached tail) :
    Stable tail fun s _ => readFrom.one (oneOrTwo short second long s) := by
  intro s s' _ _ ts after hne h _ hr _
  obtain ⟨c, t, hs⟩ := List.exists_cons_of_ne_nil hne
  have hone := h.advance hs
  have hcurrent : s'.advance.current? = some second ↔ s.advance.current? = some second := by
    rw [current?, current?, hone.rest]
    cases s.advance.rest with
    | nil => cases ht <;> simp [hsecond.symm]
    | cons => rfl
  unfold oneOrTwo at hr ⊢
  dsimp only at hr ⊢
  by_cases hc : s.advance.current? = some second
  · rw [if_pos hc] at hr
    rw [if_pos (hcurrent.mpr hc)]
    cases hr
    obtain ⟨t', hs'⟩ := List.head?_eq_some_iff.mp hc
    exact ⟨_, _, rfl, rfl, .inl (hone.advance hs')⟩
  · rw [if_neg hc] at hr
    rw [if_neg (mt hcurrent.mp hc)]
    cases hr
    exact ⟨_, _, rfl, rfl, .inl hone⟩

theorem mark : Stable tail fun s _ => match s.notEquals with
    | (.ok t, after) => .ok ([t], after)
    | (.error d, _) => .error (.reported d) := by
  intro s s' _ _ ts after hne h _ hr _
  obtain ⟨c, t, hs⟩ := List.exists_cons_of_ne_nil hne
  have hone := h.advance hs
  unfold notEquals at hr ⊢
  dsimp only at hr ⊢
  by_cases hc : s.advance.current? = some '='
  · rw [if_pos hc] at hr
    cases hr
    obtain ⟨t', hs'⟩ := List.head?_eq_some_iff.mp hc
    have hc' : s'.advance.current? = some '=' := by
      rw [current?, hone.rest, hs']
      rfl
    rw [if_pos hc']
    exact ⟨_, _, rfl, rfl, .inl (hone.advance hs')⟩
  · rw [if_neg hc] at hr
    cases hr

theorem punctuation (l : Lexeme) :
    Stable tail fun s _ => .ok ([.single l s.place], s.advance) := by
  intro s s' _ _ ts after hne h _ hr _
  cases hr
  obtain ⟨c, t, hs⟩ := List.exists_cons_of_ne_nil hne
  exact ⟨_, _, rfl, rfl, .inl (h.advance hs)⟩

/-- The inside of a quoted text ends with all there is, or does not depend on what follows the
closing quote. -/
def Ends (inside : List Char → List Char × List Char) : Prop :=
  ∀ cs, (inside cs).2 = cs ∨
    ∃ q t, cs = (inside cs).2 ++ q :: t ∧ ∀ tail, inside (cs ++ tail) = inside cs

theorem ends_singleQuoted : Ends singleQuoted := by
  intro cs
  induction cs with
  | nil => exact .inl rfl
  | cons c cs ih =>
    by_cases hc : c = '\''
    · exact .inr ⟨c, cs, by simp [singleQuoted, hc], fun tail => by simp [singleQuoted, hc]⟩
    · obtain h | ⟨q, t, h, htail⟩ := ih
      · exact .inl (by simp [singleQuoted, hc, h])
      · refine .inr ⟨q, t, ?_, fun tail => ?_⟩
        · simpa [singleQuoted, hc] using h
        · simp [singleQuoted, hc, htail]

theorem ends_doubleQuoted : Ends doubleQuoted := by
  intro cs
  fun_induction doubleQuoted cs with
  | case1 => exact .inl rfl
  | case2 => exact .inl rfl
  | case3 c rest value raw hrest ih =>
    rw [hrest] at ih
    obtain h | ⟨q, t, h, htail⟩ := ih
    · exact .inl (by simpa using h)
    · refine .inr ⟨q, t, by simpa using h, fun tail => ?_⟩
      simp [doubleQuoted, htail]
  | case4 rest => exact .inr ⟨'"', rest, rfl, fun tail => by simp [doubleQuoted]⟩
  | case5 c rest hesc hesc' hc value raw hrest ih =>
    rw [hrest] at ih
    have hslash : c ≠ '\\' := by
      rintro rfl
      cases rest with
      | nil => exact hesc rfl rfl
      | cons d rest => exact hesc' d rest rfl rfl
    obtain h | ⟨q, t, h, htail⟩ := ih
    · exact .inl (by simpa using h)
    · refine .inr ⟨q, t, by simpa using h, fun tail => ?_⟩
      simp [doubleQuoted, hslash, hc, htail]

theorem quoted {inside : List Char → List Char × List Char} (hi : Ends inside) :
    Stable tail fun s _ => readFrom.one (s.quoted inside) := by
  intro s s' _ _ ts after hne h _ hr hclosed
  cases hr
  obtain ⟨c, t, hs⟩ := List.exists_cons_of_ne_nil hne
  have hopened := h.advance hs
  obtain hall | ⟨q, u, hu, htail⟩ := hi s.advance.rest
  · have hrest : (s.advance.skip (inside s.advance.rest).2).rest = [] := by
      rw [rest_skip, hall, List.drop_length]
    have hsits : (s.advance.skip (inside s.advance.rest).2).Sits :=
      hopened.left.skip (t := []) (by rw [hall, List.append_nil])
    have hstop := congrArg Scanner.place (advance_nil hrest)
    have htail : tail = [] := by
      refine hclosed.resolve_right fun hts => ?_
      have hle := hts _ List.mem_cons_self rfl
      dsimp only [Scanner.quoted] at hle
      rw [hstop] at hle
      rw [Sits, hrest] at hsits
      simp only [Position.next, List.length_nil] at hle hsits
      omega
    have hsame : s'.advance.rest = s.advance.rest := by
      rw [hopened.rest, htail, List.append_nil]
    have hrest' : (s'.advance.skip (inside s.advance.rest).2).rest = [] := by
      rw [rest_skip, hsame, hall, List.drop_length]
    refine ⟨_, _, rfl, ?_, .inr ⟨htail, ?_, ?_⟩⟩
    · simp only [hsame, List.map_cons, List.map_nil]
    · simp only [advance_nil hrest, hrest]
    · simp only [hsame, advance_nil hrest', hrest']
  · have hsame : inside s'.advance.rest = inside s.advance.rest := by rw [hopened.rest, htail]
    have hskip := hopened.skip hu
    refine ⟨_, _, rfl, ?_, .inl ?_⟩
    · simp only [hsame, List.map_cons, List.map_nil]
    · rw [hsame]
      exact hskip.advance (rest_skip_append hu)

theorem readFrom (ht : Detached tail) (c : Char) :
    Stable tail fun s previous? => s.readFrom c previous? :=
  readFrom_cases blank (comment ht) (number ht) (word ht) (quoted ends_doubleQuoted)
    (quoted ends_singleQuoted) (fun _ _ _ _ _ hsecond => sign hsecond ht) mark
    (fun l _ => punctuation l) (fun _ _ _ _ _ _ _ _ _ _ hr => by cases hr) c

end Stable

def Endless (read : Scanner → Option Token → Except Failure (List Token × Scanner)) : Prop :=
  ∀ s previous? ts after, read s previous? = .ok (ts, after) → .endOfText ∉ ts.map (·.lexeme)

theorem numeralValue_ne_endOfText {l : Lexeme} (h : numeralValue cs = .ok l) :
    l ≠ .endOfText := by
  rw [numeralValue] at h
  split at h <;> split at h <;> cases h <;> simp

theorem endless_readFrom (c : Char) : Endless fun s previous? => s.readFrom c previous? := by
  apply readFrom_cases
  case blank | comment =>
    intro s _ ts after h
    cases h
    simp
  case number =>
    intro s _ ts after h
    dsimp only at h
    rcases hn : s.number with f | ⟨token, s'⟩
    · rw [hn] at h
      cases h
    · rw [hn] at h
      cases h
      obtain ⟨l, hv, rfl, -⟩ := number_eq_ok hn
      simpa using (numeralValue_ne_endOfText hv).symm
  case word =>
    intro s previous? ts after h
    cases h
    simp only [word]
    split <;> split <;> simp
  case double | single =>
    intro s _ ts after h
    cases h
    simp
  case sign =>
    intro short second long hshort hlong _ s _ ts after h
    dsimp only [oneOrTwo] at h
    split at h <;> cases h
    · simpa using hlong.symm
    · simpa using hshort.symm
  case mark =>
    intro s _ ts after h
    dsimp only [notEquals] at h
    split at h
    · next heq =>
      split at heq <;> cases heq
      cases h
      simp
    · cases h
  case punctuation =>
    intro l hl s _ ts after h
    cases h
    simpa [Token.single] using hl.symm
  case illegal =>
    intro e s _ ts after h
    cases h

theorem tokensFrom_error (hs : s.rest = c :: t) {e : Failure}
    (h : s.readFrom c found.head? = .error e) : s.tokensFrom found = .error e := by
  rw [tokensFrom, hs, List.length_cons, readAll, hs]
  dsimp only
  rw [h]

theorem isPrefix_tokensFrom (h : s.tokensFrom found = .ok ts) : found.reverse <+: ts := by
  rw [tokensFrom] at h
  generalize s.rest.length = fuel at h
  fun_induction readAll fuel s found with
  | case1 | case2 =>
    cases h
    simp
  | case3 fuel s found c t hs ts' after hr ih =>
    refine List.IsPrefix.trans ?_ (ih h)
    simp
  | case4 => cases h

/-- Where the tokens of a text are read with `tail` behind it, its lexemes are found first. -/
theorem tokensFrom_abreast (found found' : List Token) (ht : Detached tail)
    (h : Abreast tail s s')
    (hp : isExplicit found'.head? = isExplicit found.head?)
    (hr : s.tokensFrom found = .ok ts) (hclosed : Closed tail ts) :
    ∃ (news : List Token) (last : Token) (news' : List Token) (after' : Scanner),
      ts = found.reverse ++ news ++ [last] ∧ last.lexeme = .endOfText ∧
      .endOfText ∉ news.map (·.lexeme) ∧ news'.map (·.lexeme) = news.map (·.lexeme) ∧
      s'.tokensFrom found' = after'.tokensFrom (news'.reverse ++ found') ∧ after'.rest = tail ∧
      (tail ≠ [] → after'.Sits) := by
  induction hn : s.rest.length using Nat.strong_induction_on generalizing s s' found found' with
  | _ n ih =>
  cases hs : s.rest with
  | nil =>
    rw [tokensFrom_nil hs] at hr
    cases hr
    refine ⟨[], .single .endOfText s.place, [], s', by simp, rfl, by simp, rfl, rfl, ?_, ?_⟩
    · obtain h | ⟨rfl, -, h⟩ := h
      · rw [h.rest, hs, List.nil_append]
      · exact h
    · intro hne
      obtain h | ⟨rfl, -⟩ := h
      · exact h.right
      · exact (hne rfl).elim
  | cons c t =>
    replace h : Along tail s s' := h.resolve_right fun h => by cases hs.symm.trans h.2.1
    cases hread : s.readFrom c found.head? with
    | error e =>
      rw [tokensFrom_error hs hread] at hr
      cases hr
    | ok p =>
      obtain ⟨us, after⟩ := p
      rw [tokensFrom_step hs hread] at hr
      have hus : Closed tail us := by
        refine hclosed.imp id fun hts u hu => hts u ((isPrefix_tokensFrom hr).subset ?_)
        simp [hu]
      obtain ⟨us', after', hread', hmap, hafter⟩ :=
        Stable.readFrom ht c (by simp [hs]) h hp hread hus
      have hs' : s'.rest = c :: (t ++ tail) := by rw [h.rest, hs, List.cons_append]
      have hlt := readFrom_shortens hs hread
      have hp' : isExplicit (us'.reverse ++ found').head? =
          isExplicit (us.reverse ++ found).head? := isExplicit_append hmap hp
      obtain ⟨news, last, news', s₁, rfl, hlast, hend, hmap', hs₁, hrest, hsits⟩ :=
        ih _ (hn ▸ hlt) _ _ hafter hp' hr rfl
      refine ⟨us ++ news, last, us' ++ news', s₁, by simp, hlast, ?_, ?_, ?_, hrest, hsits⟩
      · rw [List.map_append, List.mem_append, not_or]
        exact ⟨endless_readFrom c _ _ _ _ hread, hend⟩
      · rw [List.map_append, List.map_append, hmap, hmap']
      · rw [tokensFrom_step hs' hread', hs₁, List.reverse_append, List.append_assoc]

theorem sits_ofSource (source : Source) : (ofSource source).Sits := by
  simp [Sits, ofSource, Position.origin, String.length_toList]

end Scanner

open Scanner in
theorem Source.tokens_concat {a b c : Source} {ta tb : List Token} (ha : a.tokens = .ok ta)
    (hb : b.tokens = .ok tb) (hc : c.text = a.text ++ "\n" ++ b.text)
    (hclosed : ∀ t ∈ ta, t.Closed) (hd : Detached ('\n' :: b.text.toList)) :
    ∃ la lb tc, .endOfText ∉ la ∧ .endOfText ∉ lb ∧ ta.map (·.lexeme) = la ++ [.endOfText] ∧
      tb.map (·.lexeme) = lb ++ [.endOfText] ∧ c.tokens = .ok tc ∧
      tc.map (·.lexeme) = la ++ .newline :: (lb ++ [.endOfText]) := by
  have hfirst : Along ('\n' :: b.text.toList) (ofSource a) (ofSource c) :=
    ⟨by simp [ofSource, hc], sits_ofSource a, sits_ofSource c⟩
  obtain ⟨news, last, news', s, rfl, hlast, hend, hmap, hs, hrest, hsits⟩ :=
    tokensFrom_abreast [] [] hd (.inl hfirst) rfl ha (.inr hclosed)
  have hread : s.readFrom '\n' (news'.reverse ++ []).head? =
      .ok ([.single .newline s.place], s.advance) := rfl
  have hsecond : Along [] (ofSource b) s.advance :=
    ⟨by rw [rest_advance hrest, List.append_nil]; rfl, sits_ofSource b,
      (hsits nofun).advance hrest⟩
  obtain ⟨others, last', others', s', rfl, hlast', hend', hmap', hs', hrest', -⟩ :=
    tokensFrom_abreast [] ([.single .newline s.place].reverse ++ (news'.reverse ++ [])) .nothing
      (.inl hsecond) rfl hb (.inl rfl)
  refine ⟨news.map (·.lexeme), others.map (·.lexeme), _, hend, hend', ?_, ?_,
    hs.trans ((tokensFrom_step hrest hread).trans (hs'.trans (tokensFrom_nil hrest'))), ?_⟩
  · simp [hlast]
  · simp [hlast']
  · simp [hmap, hmap', Token.single]

end Think
