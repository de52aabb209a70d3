import Mathlib.Data.List.Chain
import Think.Proofs.Token.Lexis

/-! # Tokens tile the text

The tokens of a text cover it from its start to its end. Between two of them there is nothing but
blanks and comments, each is spelled by the characters it covers and by no others, and only a text
that lacks its closing quote reaches beyond the end.
-/

namespace Think

open Scanner

def Source.slice (source : Source) (i j : Nat) : List Char := (source.onward i).take (j - i)

/-- A run of blanks and comments. A comment reaches up to the line break or the end. -/
inductive Skipped : (gap rest : List Char) → Prop
  | nil (rest : List Char) : Skipped [] rest
  | blank {c : Char} {gap rest : List Char} (hc : c = ' ' ∨ c = '\t') (h : Skipped gap rest) :
    Skipped (c :: gap) rest
  | comment {body gap rest : List Char} (hbody : '\n' ∉ body)
    (hend : ∀ c, (gap ++ rest).head? = some c → c = '\n') (h : Skipped gap rest) :
    Skipped ('#' :: (body ++ gap)) rest

/-- The tokens without those that stand where the next one stands. -/
def Token.written : List Token → List Token
  | t :: u :: ts => if t.span = u.span then written (u :: ts) else t :: written (u :: ts)
  | ts => ts

/-- How a token stands in the text: its characters spell its lexeme and no other, or it is a text
that is still open at the end. -/
def Token.StandsIn (t : Token) (source : Source) : Prop :=
  (t.stop.idx ≤ source.text.length ∧
    Spells t.lexeme (source.slice t.start.idx t.stop.idx) (source.onward t.stop.idx) ∧
    ∀ l rest, Spells l (source.slice t.start.idx t.stop.idx) rest → l = t.lexeme) ∨
  (t.stop.idx = source.text.length + 1 ∧
    ∃ value, t.lexeme = .text (String.ofList value) ∧ Unclosed value (source.onward t.start.idx))

/-- The tokens cover the text from the place `i` on. -/
structure Tiles (source : Source) (i : Nat) (tokens : List Token) : Prop where
  /-- The mark of the end comes last and nowhere else. -/
  ends : ∃ body last, tokens = body ++ [last] ∧ last.lexeme = .endOfText ∧
    source.text.length ≤ last.start.idx ∧ ∀ t ∈ body, t.lexeme ≠ .endOfText
  /-- If two tokens stand at one place, the first is a `var` that is understood. -/
  understood : ∀ t u, [t, u] <:+: tokens → t.span = u.span →
    t.lexeme = .keyword .varKw ∧ u.lexeme.isWord = true
  before : ∃ t ts, Token.written tokens = t :: ts ∧ i ≤ t.start.idx ∧
    Skipped (source.slice i t.start.idx) (source.onward t.start.idx)
  between : (Token.written tokens).IsChain fun t u => t.stop.idx ≤ u.start.idx ∧
    Skipped (source.slice t.stop.idx u.start.idx) (source.onward u.start.idx)
  stands : ∀ t ∈ Token.written tokens, t.lexeme ≠ .endOfText → t.StandsIn source

section

variable {source : Source} {i j : Nat} {c : Char} {cs rest value value' raw : List Char}
  {l l' : Lexeme} {t u : Token} {ts : List Token} {previous? : Option Token}

theorem Encodes.unique (h : Encodes value raw) (h' : Encodes value' raw) : value = value' := by
  induction h generalizing value' with
  | nil =>
    cases h'
    rfl
  | plain _ hslash _ ih =>
    cases h' with
    | plain _ _ h' => rw [ih h']
    | escaped => exact (hslash rfl).elim
  | escaped _ _ ih =>
    cases h' with
    | plain _ hslash => exact (hslash rfl).elim
    | escaped _ h' => rw [ih h']

theorem Quotes.unique (h : Quotes value cs) (h' : Quotes value' cs) : value = value' := by
  cases h with
  | double h =>
    generalize hcs : '"' :: (_ ++ ['"']) = cs at h'
    cases h' with
    | double h' => exact h.unique (by simp_all)
    | single => simp at hcs
  | single h =>
    generalize hcs : '\'' :: (_ ++ ['\'']) = cs at h'
    cases h' with
    | double h' => simp at hcs
    | single => simp_all

inductive Opening
  | number | word | text | sign
  deriving DecidableEq

def Opening.ofChar (c : Char) : Opening :=
  if isDigit c then .number
  else if isNameStart c then .word
  else if c = '"' ∨ c = '\'' then .text
  else .sign

def Lexeme.opening : Lexeme → Opening
  | .int _ | .float _ => .number
  | .name _ | .keyword _ => .word
  | .text _ => .text
  | _ => .sign

theorem Lexeme.opening_of_signs (hl : cs ∈ l.signs) :
    l.opening = .sign ∧ ∃ c t, cs = c :: t ∧ Opening.ofChar c = .sign := by
  cases l <;> simp only [Lexeme.signs, List.mem_cons, List.not_mem_nil, or_false] at hl
  case newline =>
    obtain rfl | rfl := hl
    · exact ⟨rfl, _, _, rfl, by decide⟩
    · exact ⟨rfl, _, _, rfl, by decide⟩
  all_goals
    subst hl
    exact ⟨rfl, _, _, rfl, by decide⟩

theorem Spells.opening (h : Spells l cs rest) :
    ∃ c t, cs = c :: t ∧ Opening.ofChar c = l.opening := by
  have hnumber (hcs : IsNumeral cs) : ∃ c t, cs = c :: t ∧ Opening.ofChar c = .number := by
    cases hcs with
    | whole hne hdigits =>
      obtain ⟨c, t, rfl⟩ := List.exists_cons_of_ne_nil hne
      exact ⟨c, t, rfl, if_pos (hdigits c List.mem_cons_self)⟩
    | point hne hwhole =>
      obtain ⟨c, t, rfl⟩ := List.exists_cons_of_ne_nil hne
      exact ⟨c, _, rfl, if_pos (hwhole c List.mem_cons_self)⟩
  have hword (hcs : IsName cs) : ∃ c t, cs = c :: t ∧ Opening.ofChar c = .word := by
    obtain ⟨c, t, rfl, hc, -⟩ := hcs
    exact ⟨c, t, rfl, by rw [Opening.ofChar, if_neg (not_isDigit_of_start hc), if_pos hc]⟩
  cases h with
  | int _ h => exact hnumber h.isOne
  | float _ _ h => exact hnumber h.isOne
  | name _ h => exact hword h.isOne
  | keyword _ h => exact hword h.isOne
  | text h => cases h <;> exact ⟨_, _, rfl, rfl⟩
  | sign hl =>
    obtain ⟨hopening, hcs⟩ := Lexeme.opening_of_signs hl
    rwa [hopening]

def Lexeme.ofSign? (cs : List Char) : Option Lexeme :=
  [.plus, .minus, .times, .divide, .power, .modulo, .assign, .openParen, .closeParen, .openSquare,
    .closeSquare, .equal, .unequal, .less, .greater, .lessEqual, .greaterEqual, .comma, .arrow,
    .dot, .newline].find? (cs ∈ ·.signs)

theorem Lexeme.ofSign?_eq (hl : cs ∈ l.signs) : Lexeme.ofSign? cs = some l := by
  cases l <;> simp only [Lexeme.signs, List.mem_cons, List.not_mem_nil, or_false] at hl
  case newline => obtain rfl | rfl := hl <;> rfl
  all_goals
    subst hl
    rfl

theorem Keyword.text_injective {k k' : Keyword} (h : k.text.toList = k'.text.toList) : k = k' := by
  have hfound (k : Keyword) : Keyword.ofText? k.text = some k := by cases k <;> rfl
  have htext : k.text = k'.text := String.toList_inj.mp h
  rw [← Option.some_inj, ← hfound k, ← hfound k', htext]

theorem ne_point_of_digits {whole fraction : List Char} (hcs : ∀ d ∈ cs, isDigit d = true) :
    cs ≠ whole ++ '.' :: fraction := by
  rintro rfl
  cases (hcs '.' (by simp)).symm.trans isDigit_point

theorem point_unique {whole fraction whole' fraction' : List Char}
    (hwhole : ∀ d ∈ whole, isDigit d = true) (hwhole' : ∀ d ∈ whole', isDigit d = true)
    (h : whole ++ '.' :: fraction = whole' ++ '.' :: fraction') :
    whole = whole' ∧ fraction = fraction' := by
  have hpoint (t : List Char) : ∀ d, ('.' :: t).head? = some d → isDigit d = false := by
    simp [isDigit_point]
  have htake := congrArg (List.takeWhile isDigit) h
  rw [takeWhile_digits hwhole (hpoint _), takeWhile_digits hwhole' (hpoint _)] at htake
  subst htake
  simpa using h

theorem Spells.unique {rest' : List Char} (h : Spells l cs rest) (h' : Spells l' cs rest') :
    l = l' := by
  have hopening : l.opening = l'.opening := by
    obtain ⟨c, t, hcs, hc⟩ := h.opening
    obtain ⟨c', t', hcs', hc'⟩ := h'.opening
    rw [hcs, List.cons_eq_cons] at hcs'
    rw [← hc, ← hc', hcs'.1]
  cases h with
  | int hdigits =>
    cases h' with
    | int => rfl
    | float => exact (ne_point_of_digits hdigits rfl).elim
    | sign hl' => cases hopening.trans (Lexeme.opening_of_signs hl').1
    | _ => cases hopening
  | float hwhole hfraction =>
    generalize hcs : _ ++ '.' :: _ = cs at h'
    cases h' with
    | int hdigits => exact (ne_point_of_digits hdigits hcs.symm).elim
    | float hwhole' =>
      obtain ⟨rfl, rfl⟩ := point_unique hwhole hwhole' hcs
      rfl
    | sign hl' => cases hopening.trans (Lexeme.opening_of_signs hl').1
    | _ => cases hopening
  | name hname =>
    cases h' with
    | name => rfl
    | keyword k => exact (hname k rfl).elim
    | sign hl' => cases hopening.trans (Lexeme.opening_of_signs hl').1
    | _ => cases hopening
  | keyword k =>
    generalize hcs : k.text.toList = cs at h'
    cases h' with
    | name hname => exact (hname k hcs).elim
    | keyword k' => rw [Keyword.text_injective hcs]
    | sign hl' => cases hopening.trans (Lexeme.opening_of_signs hl').1
    | _ => cases hopening
  | text h =>
    cases h' with
    | text h' => rw [h.unique h']
    | sign hl' => cases hopening.trans (Lexeme.opening_of_signs hl').1
    | _ => cases hopening
  | sign hl =>
    rw [(Lexeme.opening_of_signs hl).1] at hopening
    cases h' with
    | sign hl' =>
      exact Option.some_inj.mp ((Lexeme.ofSign?_eq hl).symm.trans (Lexeme.ofSign?_eq hl'))
    | _ => cases hopening

theorem Spells.ne_endOfText (h : Spells l cs rest) : l ≠ .endOfText := by
  rintro rfl
  cases h with
  | sign hl => simp [Lexeme.signs] at hl

theorem Source.onward_add (h : source.onward i = cs ++ rest) :
    source.onward (i + cs.length) = rest := by
  have hdrop := congrArg (List.drop cs.length) h
  rwa [Source.onward, List.drop_drop, List.drop_left] at hdrop

theorem Source.slice_append_onward (h : i ≤ j) :
    source.slice i j ++ source.onward j = source.onward i := by
  have hj : source.onward j = (source.onward i).drop (j - i) := by
    rw [Source.onward, Source.onward, List.drop_drop, Nat.add_sub_cancel' h]
  rw [Source.slice, hj, List.take_append_drop]

/-- The slice up to a place behind some characters starts with these. -/
theorem Source.slice_eq_append (h : source.onward i = cs ++ rest) (hj : i + cs.length ≤ j) :
    source.slice i j = cs ++ source.slice (i + cs.length) j := by
  have hlength : j - i = cs.length + (j - (i + cs.length)) := by omega
  rw [Source.slice, h, hlength, List.take_length_add_append, Source.slice, Source.onward_add h]

theorem Source.slice_self (source : Source) (i : Nat) : source.slice i i = [] := by
  simp [Source.slice]

theorem Source.length_onward (source : Source) (i : Nat) :
    (source.onward i).length = source.text.length - i := by
  rw [Source.onward, List.length_drop, String.length_toList]

theorem Token.Covers.standsIn (h : t.Covers i cs rest) (hi : source.onward i = cs ++ rest) :
    t.StandsIn source := by
  have hlength := congrArg List.length hi
  rw [Source.length_onward, List.length_append] at hlength
  cases h with
  | whole hstart hstop h =>
    obtain ⟨c, cs', rfl, -⟩ := h.opening
    have hslice : source.slice t.start.idx t.stop.idx = c :: cs' := by
      rw [hstart, hstop, Source.slice_eq_append hi (Nat.le_refl _), Source.slice_self,
        List.append_nil]
    left
    rw [hslice, hstop, Source.onward_add hi]
    refine ⟨?_, h, fun l' rest' h' => h'.unique h⟩
    rw [List.length_cons] at hlength ⊢
    omega
  | unclosed hstart hstop hl h hrest =>
    right
    rw [hrest, List.append_nil] at hi
    rw [hstart, hi]
    refine ⟨?_, _, hl, h⟩
    have hpos : 0 < cs.length := by cases h <;> simp
    simp only [hrest, List.length_nil] at hlength
    omega

theorem Token.Covers.ne_endOfText (h : t.Covers i cs rest) : t.lexeme ≠ .endOfText := by
  cases h with
  | whole _ _ h => exact h.ne_endOfText
  | unclosed _ _ hl =>
    rw [hl]
    simp

theorem Token.Covers.start_lt (h : t.Covers i cs rest) :
    t.start.idx = i ∧ t.start.idx < t.stop.idx := by
  cases h with
  | whole hstart hstop h =>
    obtain ⟨c, cs', rfl, -⟩ := h.opening
    rw [List.length_cons] at hstop
    omega
  | unclosed hstart hstop => omega

theorem Token.Covers.span_ne (h : t.Covers i cs rest) (hu : t.stop.idx ≤ u.start.idx) :
    t.span ≠ u.span := by
  intro hspan
  have hidx : t.start.idx = u.start.idx := congrArg (·.start.idx) hspan
  have hlt := h.start_lt.2
  omega

theorem Token.written_cons (h : ∀ u, ts.head? = some u → t.span ≠ u.span) :
    Token.written (t :: ts) = t :: Token.written ts := by
  cases ts with
  | nil => rfl
  | cons u us => rw [Token.written, if_neg (h u rfl)]

/-- The first written token stands where the first token stands. -/
theorem Token.written_head (u : Token) (us : List Token) :
    ∃ w ws, Token.written (u :: us) = w :: ws ∧ u.span = w.span := by
  induction us generalizing u with
  | nil => exact ⟨u, [], rfl, rfl⟩
  | cons v us ih =>
    rw [Token.written]
    split
    · next hspan =>
      obtain ⟨w, ws, hw, hv⟩ := ih v
      exact ⟨w, ws, hw, hspan.trans hv⟩
    · exact ⟨u, _, rfl, rfl⟩

namespace Tiles

/-- The tokens start no earlier than the text that they cover. -/
theorem le_head (h : Tiles source i ts) (hu : ts.head? = some u) : i ≤ u.start.idx := by
  obtain ⟨us, rfl⟩ := List.head?_eq_some_iff.mp hu
  obtain ⟨w, ws, hw, hspan⟩ := Token.written_head u us
  obtain ⟨w', ws', hw', hi, -⟩ := h.before
  rw [hw, List.cons_eq_cons] at hw'
  have hstart : u.start = w'.start := hw'.1 ▸ congrArg Span.start hspan
  rwa [hstart]

theorem ends_cons (h : Tiles source i ts) (ht : t.lexeme ≠ .endOfText) :
    ∃ body last, t :: ts = body ++ [last] ∧ last.lexeme = .endOfText ∧
      source.text.length ≤ last.start.idx ∧ ∀ t ∈ body, t.lexeme ≠ .endOfText := by
  obtain ⟨body, last, rfl, hlast, hend, hbody⟩ := h.ends
  refine ⟨t :: body, last, rfl, hlast, hend, ?_⟩
  rintro u (_ | ⟨_, hu⟩)
  · exact ht
  · exact hbody u hu

theorem last (hi : source.text.length ≤ i) (hl : t.lexeme = .endOfText) (hstart : t.start.idx = i) :
    Tiles source i [t] where
  ends := ⟨[], t, rfl, hl, hstart ▸ hi, by simp⟩
  understood u v hinfix := by
    have hle := hinfix.length_le
    simp at hle
  before := by
    refine ⟨t, [], rfl, Nat.le_of_eq hstart.symm, ?_⟩
    rw [hstart, Source.slice_self]
    exact .nil _
  between := .singleton t
  stands u hu hne := by
    obtain rfl : u = t := by simpa [Token.written] using hu
    exact (hne hl).elim

theorem skip (h : Tiles source (i + cs.length) ts) (hi : source.onward i = cs ++ rest)
    (hskip : ∀ gap rest', gap ++ rest' = rest → Skipped gap rest' → Skipped (cs ++ gap) rest') :
    Tiles source i ts where
  ends := h.ends
  understood := h.understood
  before := by
    obtain ⟨t, us, hus, hle, hgap⟩ := h.before
    refine ⟨t, us, hus, by omega, ?_⟩
    rw [Source.slice_eq_append hi hle]
    apply hskip _ _ _ hgap
    rw [Source.slice_append_onward hle, Source.onward_add hi]
  between := h.between
  stands := h.stands

theorem token (h : Tiles source t.stop.idx ts) (ht : t.Covers i cs rest)
    (hi : source.onward i = cs ++ rest) : Tiles source i (t :: ts) := by
  have hstart := ht.start_lt.1
  have hspan (u : Token) (hu : ts.head? = some u) : t.span ≠ u.span := ht.span_ne (h.le_head hu)
  have hwritten := Token.written_cons hspan
  refine ⟨h.ends_cons ht.ne_endOfText, ?_, ?_, ?_, ?_⟩
  · intro u v hinfix huv
    rcases List.infix_cons_iff.mp hinfix with hprefix | hinfix
    · obtain ⟨us, hus⟩ := hprefix
      simp only [List.cons_append, List.cons_eq_cons, List.nil_append] at hus
      obtain ⟨rfl, rfl⟩ := hus
      exact (hspan v rfl huv).elim
    · exact h.understood u v hinfix huv
  · refine ⟨t, _, hwritten, Nat.le_of_eq hstart.symm, ?_⟩
    rw [hstart, Source.slice_self]
    exact .nil _
  · obtain ⟨u, us, hus, hle, hgap⟩ := h.before
    have hchain := h.between
    rw [hus] at hchain
    rw [hwritten, hus]
    exact .cons_cons ⟨hle, hgap⟩ hchain
  · rw [hwritten]
    rintro u (_ | ⟨_, hu⟩) hne
    · exact ht.standsIn hi
    · exact h.stands u hu hne

theorem declare (h : Tiles source i (t :: ts)) (hword : t.lexeme.isWord = true) :
    Tiles source i (⟨.keyword .varKw, t.start, t.stop⟩ :: t :: ts) := by
  have hwritten : Token.written (⟨.keyword .varKw, t.start, t.stop⟩ :: t :: ts) =
      Token.written (t :: ts) := by
    rw [Token.written]
    exact if_pos rfl
  refine ⟨h.ends_cons (by simp), ?_, hwritten ▸ h.before, hwritten ▸ h.between,
    hwritten ▸ h.stands⟩
  intro u v hinfix huv
  rcases List.infix_cons_iff.mp hinfix with hprefix | hinfix
  · obtain ⟨us, hus⟩ := hprefix
    simp only [List.cons_append, List.cons_eq_cons, List.nil_append] at hus
    obtain ⟨rfl, rfl, -⟩ := hus
    exact ⟨rfl, hword⟩
  · exact h.understood u v hinfix huv

end Tiles

theorem Lexes.tiles (h : Lexes source previous? i ts) : Tiles source i ts := by
  induction h with
  | ends hi hl hstart => exact .last hi hl hstart
  | @blank _ _ c rest _ hi hc _ ih =>
    have hi' : source.onward _ = [c] ++ rest := hi
    exact ih.skip hi' fun gap rest' _ h => .blank hc h
  | @comment _ i body rest _ hi hbody hrest _ ih =>
    have hi' : source.onward i = ('#' :: body) ++ rest := hi
    have hlength : i + 1 + body.length = i + ('#' :: body).length := by
      rw [List.length_cons]
      omega
    rw [hlength] at ih
    refine ih.skip hi' fun gap rest' hgap h => ?_
    subst hgap
    exact .comment hbody hrest h
  | token hi ht _ _ ih => exact ih.token ht hi
  | declared hi ht hword _ _ ih => exact (ih.token ht hi).declare hword

end

/-- The tokens of a text cover it from start to end. -/
theorem Source.tokens_tile {source : Source} {tokens : List Token}
    (h : source.tokens = .ok tokens) : Tiles source 0 tokens := (source.lexes_tokens h).tiles

theorem Source.tokens_tile_open_text :
    ∃ tokens, (⟨"", "a= 7->8#b\n\t'c"⟩ : Source).tokens = .ok tokens ∧
      Tiles ⟨"", "a= 7->8#b\n\t'c"⟩ 0 tokens :=
  ⟨_, rfl, tokens_tile rfl⟩

end Think
