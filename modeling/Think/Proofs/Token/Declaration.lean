import Think.Proofs.Token.Tiling

/-! # Names that are declared by an assignment

A name that is assigned to without `var` gets one, which covers the name itself. Whether this is so
is decided from the characters behind the name, most of them at fixed distances, and not from the
token that they will make. `Misjudged` lists where the decision is wrong.
-/

namespace Think

open Scanner

def Scanner.isSpacing (c : Char) : Bool := c == ' ' || c == '\t'

def StartsAssign (cs : List Char) : Prop := ∃ r, cs = '=' :: r ∧ r.head? ≠ some '='

/-- Behind a name come the blanks and then other characters, for which it is told wrongly whether
they assign to it. -/
inductive Misjudged : (blanks sign : List Char) → Prop
  | tab {blanks r : List Char} (hblanks : '\t' ∈ blanks) (hr : r.head? ≠ some '=') :
    Misjudged blanks ('=' :: r)
  | two {b b' : Char} {r : List Char} (hr : r.head? ≠ some '=') : Misjudged [b, b'] ('=' :: r)
  | chain {c : Char} {r : List Char} (hequals : c ≠ '=') (hplus : c ≠ '+') :
    Misjudged [] ('=' :: c :: '=' :: r)
  | nearEqual {r : List Char} (hr : r.head? ≠ some '=') : Misjudged [] ('=' :: '=' :: r)
  | farEqual {b b' b'' : Char} {blanks r : List Char} (hblanks : '\t' ∉ b :: b' :: b'' :: blanks) :
    Misjudged (b :: b' :: b'' :: blanks) ('=' :: '=' :: r)
  | plus {b : Char} {r : List Char} : Misjudged [b] ('+' :: '=' :: r)
  | signPlus {c : Char} {r : List Char} (hc : c ≠ '=') : Misjudged [] (c :: '+' :: '=' :: r)

namespace Token

/-- A `var` that is understood stands in front of the token. -/
def IsDeclared (t : Token) (before : List Token) : Prop :=
  before.getLast? = some ⟨.keyword .varKw, t.start, t.stop⟩

/-- The token in front of another, but for a `var` that is understood. -/
def previous? (t : Token) (before : List Token) : Option Token :=
  before.reverse.find? (·.span ≠ t.span)

end Token

section

variable {source : Source} {i : Nat} {c : Char} {cs rest blanks sign : List Char} {l : Lexeme}
  {t u next : Token} {ts before after : List Token} {first? : Option Token}

theorem assigns_eq_true_iff :
    assigns cs false = true ↔ (cs[1]? = some '+' ∧ cs[2]? = some '=') ∨
      ((cs.dropWhile (· == ' ')).head? = some '=' ∧ cs[2]? ≠ some '=') := by
  rcases cs with _ | ⟨a, _ | ⟨b, _ | ⟨c, cs⟩⟩⟩
  · simp [assigns]
  · simp [assigns]
  · simp [assigns]
  · simp only [assigns]
    grind

theorem assigns_eq (cs : List Char) (explicit : Bool) :
    assigns cs explicit = (!explicit && assigns cs false) := by
  cases explicit <;> simp [assigns]

theorem head_dropWhile_spaces (hblanks : ∀ c ∈ blanks, isSpacing c = true)
    (hsign : ∀ c, sign.head? = some c → isSpacing c = false) :
    ((blanks ++ sign).dropWhile (· == ' ')).head? = some '=' ↔
      '\t' ∉ blanks ∧ sign.head? = some '=' := by
  induction blanks with
  | nil =>
    cases sign with
    | nil => simp
    | cons c sign =>
      have hc : c ≠ ' ' := by
        rintro rfl
        cases hsign ' ' rfl
      simp [hc]
  | cons b blanks ih =>
    have ih := ih fun c hc => hblanks c (List.mem_cons_of_mem _ hc)
    have hb : b = ' ' ∨ b = '\t' := by simpa [isSpacing] using hblanks b List.mem_cons_self
    rcases hb with rfl | rfl
    · simpa using ih
    · simp

theorem misjudged_none :
    Misjudged [] sign ↔ (∃ c r, sign = '=' :: c :: '=' :: r ∧ c ≠ '=' ∧ c ≠ '+') ∨
      (∃ r, sign = '=' :: '=' :: r ∧ r.head? ≠ some '=') ∨
      ∃ c r, sign = c :: '+' :: '=' :: r ∧ c ≠ '=' := by
  constructor
  · intro h
    cases h with
    | tab hblanks => simp at hblanks
    | chain hequals hplus => exact .inl ⟨_, _, rfl, hequals, hplus⟩
    | nearEqual hr => exact .inr (.inl ⟨_, rfl, hr⟩)
    | signPlus hc => exact .inr (.inr ⟨_, _, rfl, hc⟩)
  · rintro (⟨c, r, rfl, hequals, hplus⟩ | ⟨r, rfl, hr⟩ | ⟨c, r, rfl, hc⟩)
    · exact .chain hequals hplus
    · exact .nearEqual hr
    · exact .signPlus hc

theorem misjudged_one {b : Char} :
    Misjudged [b] sign ↔ (b = '\t' ∧ StartsAssign sign) ∨ ∃ r, sign = '+' :: '=' :: r := by
  constructor
  · intro h
    cases h with
    | tab hblanks hr => exact .inl ⟨(List.mem_singleton.mp hblanks).symm, _, rfl, hr⟩
    | plus => exact .inr ⟨_, rfl⟩
  · rintro (⟨rfl, r, rfl, hr⟩ | ⟨r, rfl⟩)
    · exact .tab List.mem_cons_self hr
    · exact .plus

theorem misjudged_two {b b' : Char} : Misjudged [b, b'] sign ↔ StartsAssign sign := by
  constructor
  · intro h
    cases h with
    | tab _ hr => exact ⟨_, rfl, hr⟩
    | two hr => exact ⟨_, rfl, hr⟩
  · rintro ⟨r, rfl, hr⟩
    exact .two hr

theorem misjudged_more {b b' b'' : Char} :
    Misjudged (b :: b' :: b'' :: blanks) sign ↔
      ('\t' ∈ b :: b' :: b'' :: blanks ∧ StartsAssign sign) ∨
        ('\t' ∉ b :: b' :: b'' :: blanks ∧ ∃ r, sign = '=' :: '=' :: r) := by
  constructor
  · intro h
    cases h with
    | tab hblanks hr => exact .inl ⟨hblanks, _, rfl, hr⟩
    | farEqual hblanks => exact .inr ⟨hblanks, _, rfl⟩
  · rintro (⟨hblanks, r, rfl, hr⟩ | ⟨hblanks, r, rfl⟩)
    · exact .tab hblanks hr
    · exact .farEqual hblanks

theorem assigns_iff (hblanks : ∀ c ∈ blanks, isSpacing c = true)
    (hsign : ∀ c, sign.head? = some c → isSpacing c = false) :
    assigns (blanks ++ sign) false = true ↔ Xor (StartsAssign sign) (Misjudged blanks sign) := by
  rw [assigns_eq_true_iff, head_dropWhile_spaces hblanks hsign, Xor]
  rcases blanks with _ | ⟨b, _ | ⟨b', _ | ⟨b'', blanks⟩⟩⟩
  · rw [misjudged_none, StartsAssign]
    rcases sign with _ | ⟨c, _ | ⟨c', _ | ⟨c'', sign⟩⟩⟩ <;> grind
  · rw [misjudged_one, StartsAssign]
    rcases sign with _ | ⟨c, _ | ⟨c', sign⟩⟩ <;> grind
  · have hb' : b' ≠ '+' := by
      rintro rfl
      cases hblanks '+' (by simp)
    rw [misjudged_two]
    cases sign <;> grind
  · have hb'' : b'' ≠ '=' := by
      rintro rfl
      cases hblanks '=' (by simp)
    rw [misjudged_more, StartsAssign]
    rcases sign with _ | ⟨c, _ | ⟨c', sign⟩⟩ <;> grind

theorem Lexeme.isSpacing_of_signs (hl : cs ∈ l.signs) (hc : cs.head? = some c) :
    isSpacing c = false := by
  cases l <;> simp only [Lexeme.signs, List.mem_cons, List.not_mem_nil, or_false] at hl
  case newline =>
    obtain rfl | rfl := hl <;> cases hc <;> rfl
  all_goals
    subst hl
    cases hc
    rfl

theorem isSpacing_of_opening (hc : Opening.ofChar c ≠ .sign) : isSpacing c = false := by
  rw [Bool.eq_false_iff]
  intro hspacing
  rcases (by simpa [isSpacing] using hspacing : c = ' ' ∨ c = '\t') with rfl | rfl
  · exact hc rfl
  · exact hc rfl

namespace Spells

theorem mem_signs (h : Spells l cs rest) (hl : l.opening = .sign) : cs ∈ l.signs := by
  cases h with
  | sign hcs => exact hcs
  | _ => cases hl

theorem isSpacing_head (h : Spells l cs rest) :
    ∃ c r, cs = c :: r ∧ isSpacing c = false := by
  obtain ⟨c, r, rfl, hc⟩ := h.opening
  refine ⟨c, r, rfl, ?_⟩
  by_cases hl : l.opening = .sign
  · exact Lexeme.isSpacing_of_signs (h.mem_signs hl) rfl
  · exact isSpacing_of_opening (hc ▸ hl)

theorem assign_iff (h : Spells l cs rest) : l = .assign ↔ StartsAssign (cs ++ rest) := by
  constructor
  · rintro rfl
    obtain rfl : cs = ['='] := by simpa [Lexeme.signs] using h.mem_signs rfl
    refine ⟨rest, rfl, fun hrest => ?_⟩
    obtain ⟨r, rfl⟩ := List.head?_eq_some_iff.mp hrest
    cases h with
    | sign _ hlongest =>
      cases hlongest.eq_nil ['='] ⟨r, rfl⟩ ⟨.equal, List.mem_singleton.mpr rfl⟩
  · rintro ⟨r, hr, hne⟩
    obtain ⟨c, cs, rfl, hc⟩ := h.opening
    obtain ⟨rfl, rfl⟩ := List.cons_eq_cons.mp hr
    have hcs := h.mem_signs hc.symm
    cases cs with
    | nil => exact Option.some_inj.mp ((Lexeme.ofSign?_eq hcs).symm.trans rfl)
    | cons d cs =>
      obtain ⟨-, ⟨h, -⟩ | ⟨rfl, -⟩⟩ := IsSign.eq_of_cons_cons ⟨l, hcs⟩
      · simp at h
      · exact (hne rfl).elim

theorem ne_keyword {name : String} (h : Spells (.name name) cs rest) (k : Keyword) :
    k.text ≠ name := by
  cases h with
  | name hname =>
    intro hk
    exact hname k (hk ▸ String.toList_ofList)
  | sign hl => simp [Lexeme.signs] at hl

end Spells

namespace Token.Covers

theorem spells_name {name : String} (h : t.Covers i cs rest) (hl : t.lexeme = .name name) :
    t.stop.idx = i + cs.length ∧ Spells (.name name) cs rest := by
  cases h with
  | whole _ hstop h => exact ⟨hstop, hl ▸ h⟩
  | unclosed _ _ htext =>
    rw [hl] at htext
    cases htext

theorem dropWhile_isSpacing (h : t.Covers i cs rest) :
    (cs ++ rest).dropWhile isSpacing = cs ++ rest := by
  obtain ⟨c, r, rfl, hc⟩ : ∃ c r, cs = c :: r ∧ isSpacing c = false := by
    cases h with
    | whole _ _ h => exact h.isSpacing_head
    | unclosed _ _ _ h => cases h <;> exact ⟨_, _, rfl, rfl⟩
  exact List.dropWhile_cons_of_neg (by simp [hc])

theorem assign_iff (h : t.Covers i cs rest) : t.lexeme = .assign ↔ StartsAssign (cs ++ rest) := by
  cases h with
  | whole _ _ h => exact h.assign_iff
  | unclosed _ _ hl h =>
    rw [hl]
    cases h <;> simp [StartsAssign]

theorem onward_stop {name : String} (h : t.Covers i cs rest) (hi : source.onward i = cs ++ rest)
    (hl : t.lexeme = .name name) : source.onward t.stop.idx = rest := by
  rw [(h.spells_name hl).1, Source.onward_add hi]

end Token.Covers

namespace Lexes

theorem assign_iff (h : Lexes source first? i (next :: after)) :
    next.lexeme = .assign ↔ StartsAssign ((source.onward i).dropWhile isSpacing) := by
  generalize hts : next :: after = ts at h
  induction h with
  | ends hi hl =>
    cases hts
    have hnil : source.onward _ = [] := List.drop_eq_nil_of_le (String.length_toList ▸ hi)
    rw [hl, hnil]
    simp [StartsAssign]
  | @blank _ i c rest _ hi hc _ ih =>
    have hrest : source.onward (i + 1) = rest := Source.onward_add (show _ = [c] ++ rest from hi)
    have hspacing : isSpacing c = true := by simpa [isSpacing] using hc
    rw [ih hts, hrest, hi, List.dropWhile_cons_of_pos hspacing]
  | @comment _ i body rest _ hi hbody hnext _ ih =>
    have hrest : source.onward (i + 1 + body.length) = rest := by
      have hadd := Source.onward_add (show _ = ('#' :: body) ++ rest from hi)
      rwa [List.length_cons, Nat.add_comm body.length, ← Nat.add_assoc] at hadd
    rw [ih hts, hrest, hi]
    cases rest with
    | nil => simp [StartsAssign, isSpacing]
    | cons c rest =>
      obtain rfl := hnext c rfl
      simp [StartsAssign, isSpacing]
  | token hi ht =>
    cases hts
    rw [hi, ht.dropWhile_isSpacing, ht.assign_iff]
  | declared hi ht hword =>
    cases hts
    rw [hi, ht.dropWhile_isSpacing, ← ht.assign_iff]
    refine iff_of_false (by simp) fun hl => ?_
    rw [hl] at hword
    cases hword

theorem le_start (h : Lexes source first? i ts) : ∀ u ∈ ts, i ≤ u.start.idx := by
  induction h with
  | ends _ _ hstart => simp [hstart]
  | blank _ _ _ ih | comment _ _ _ _ ih =>
    intro u hu
    have := ih u hu
    omega
  | token _ ht _ _ ih =>
    obtain ⟨hstart, hlt⟩ := ht.start_lt
    rintro u (_ | ⟨_, hu⟩)
    · omega
    · have := ih u hu
      omega
  | declared _ ht _ _ _ ih =>
    obtain ⟨hstart, hlt⟩ := ht.start_lt
    rintro u (_ | ⟨_, _ | ⟨_, hu⟩⟩)
    · exact hstart.ge
    · exact hstart.ge
    · have := ih u hu
      omega

theorem ne_name_var (h : Lexes source first? i ts) : ∀ u ∈ ts, u.lexeme ≠ .name "var" := by
  induction h with
  | ends _ hl => simp [hl]
  | blank _ _ _ ih | comment _ _ _ _ ih => exact ih
  | token _ ht _ _ ih =>
    rintro u (_ | ⟨_, hu⟩) hl
    · exact (ht.spells_name hl).2.ne_keyword .varKw rfl
    · exact ih u hu hl
  | declared _ ht _ _ _ ih =>
    rintro u (_ | ⟨_, _ | ⟨_, hu⟩⟩) hl
    · cases hl
    · exact (ht.spells_name hl).2.ne_keyword .varKw rfl
    · exact ih u hu hl

end Lexes

namespace Token

theorem eq_of_append_eq_singleton (h : before ++ t :: after = [u]) : t = u := by
  have hmem : t ∈ [u] := h ▸ by simp
  exact List.mem_singleton.mp hmem

theorem isDeclared_cons (hspan : u.span ≠ t.span) :
    t.IsDeclared (u :: before) ↔ t.IsDeclared before := by
  cases before with
  | nil =>
    refine iff_of_false ?_ (by simp [IsDeclared])
    rintro ⟨⟩
    exact hspan rfl
  | cons => rfl

theorem previous?_cons (hspan : u.span ≠ t.span) :
    t.previous? (u :: before) = (t.previous? before).or (some u) := by
  simp [previous?, List.find?_append, hspan]

end Token

namespace Lexes

theorem isDeclared_iff {name : String} (h : Lexes source first? i (before ++ t :: after))
    (ht : t.lexeme = .name name) :
    t.IsDeclared before ↔ assigns (source.onward t.stop.idx)
      (isExplicit ((t.previous? before).or first?)) = true := by
  generalize hts : before ++ t :: after = ts at h
  induction h generalizing before with
  | ends _ hl =>
    rw [← Token.eq_of_append_eq_singleton hts, ht] at hl
    cases hl
  | blank _ _ _ ih | comment _ _ _ _ ih => exact ih hts
  | @token first? _ t' cs rest ts hi hcovers hword h ih =>
    rcases before with _ | ⟨u, before⟩
    · obtain ⟨rfl, rfl⟩ := List.cons_eq_cons.mp hts
      rw [hcovers.onward_stop hi ht]
      refine iff_of_false (by simp [Token.IsDeclared]) ?_
      rw [Token.previous?, List.reverse_nil, List.find?_nil, Option.none_or,
        hword (by rw [ht]; rfl)]
      simp
    · obtain ⟨rfl, rfl⟩ := List.cons_eq_cons.mp hts
      have hspan := hcovers.span_ne (h.le_start t (by simp))
      rw [Token.isDeclared_cons hspan, ih rfl, Token.previous?_cons hspan, Option.or_assoc,
        Option.some_or]
  | @declared first? _ t' cs rest ts hi hcovers hword hassigns h ih =>
    rcases before with _ | ⟨v, _ | ⟨u, before⟩⟩
    · obtain ⟨rfl, rfl⟩ := List.cons_eq_cons.mp hts
      cases ht
    · simp only [List.cons_append, List.nil_append, List.cons_eq_cons] at hts
      obtain ⟨rfl, rfl, rfl⟩ := hts
      rw [hcovers.onward_stop hi ht]
      refine iff_of_true rfl ?_
      simpa [Token.previous?, Token.span] using hassigns
    · simp only [List.cons_append, List.cons_eq_cons] at hts
      obtain ⟨rfl, rfl, rfl⟩ := hts
      have hspan := hcovers.span_ne (h.le_start t (by simp))
      have hspan' : (⟨.keyword .varKw, u.start, u.stop⟩ : Token).span ≠ t.span := hspan
      rw [Token.isDeclared_cons hspan', Token.isDeclared_cons hspan, ih rfl,
        Token.previous?_cons hspan', Token.previous?_cons hspan, Option.or_assoc, Option.or_assoc,
        Option.some_or]

theorem behind {name : String} (h : Lexes source first? i (before ++ t :: after))
    (ht : t.lexeme = .name name) : Lexes source (some t) t.stop.idx after := by
  generalize hts : before ++ t :: after = ts at h
  induction h generalizing before with
  | ends _ hl =>
    rw [← Token.eq_of_append_eq_singleton hts, ht] at hl
    cases hl
  | blank _ _ _ ih | comment _ _ _ _ ih => exact ih hts
  | token _ _ _ h ih =>
    rcases before with _ | ⟨u, before⟩
    · obtain ⟨rfl, rfl⟩ := List.cons_eq_cons.mp hts
      exact h
    · exact ih (List.cons_eq_cons.mp hts).2
  | declared _ _ _ _ h ih =>
    rcases before with _ | ⟨v, _ | ⟨u, before⟩⟩
    · obtain ⟨rfl, rfl⟩ := List.cons_eq_cons.mp hts
      cases ht
    · simp only [List.cons_append, List.nil_append, List.cons_eq_cons] at hts
      obtain ⟨-, rfl, rfl⟩ := hts
      exact h
    · simp only [List.cons_append, List.cons_eq_cons] at hts
      exact ih hts.2.2

end Lexes

theorem Token.isExplicit_eq_false_iff (h : ∀ u ∈ before, u.lexeme ≠ .name "var") :
    isExplicit (t.previous? before) = false ↔
      ∀ u, t.previous? before = some u → u.lexeme ≠ .keyword .varKw ∧ u.lexeme ≠ .text "var" := by
  cases hu : t.previous? before with
  | none => simp [isExplicit]
  | some u =>
    have hne := h u (List.mem_reverse.mp (List.mem_of_find?_eq_some hu))
    rw [isExplicit, Lexeme.isVarText.eq_def]
    split <;> simp_all

end

/-- A `var` is understood in front of a name just if the token in front is not already `var`, even
as a text, and one of two holds: the next token assigns, or the characters are misjudged. -/
theorem Source.declared_iff {source : Source} {tokens before after : List Token} {t next : Token}
    {name : String} (h : source.tokens = .ok tokens)
    (hsplit : tokens = before ++ t :: next :: after) (ht : t.lexeme = .name name) :
    t.IsDeclared before ↔
      (∀ u, t.previous? before = some u → u.lexeme ≠ .keyword .varKw ∧ u.lexeme ≠ .text "var") ∧
      Xor (next.lexeme = .assign)
        (Misjudged ((source.onward t.stop.idx).takeWhile isSpacing)
          ((source.onward t.stop.idx).dropWhile isSpacing)) := by
  subst hsplit
  have hlexes := source.lexes_tokens h
  have hvar : ∀ u ∈ before, u.lexeme ≠ .name "var" := fun u hu =>
    hlexes.ne_name_var u (List.mem_append_left _ hu)
  rw [hlexes.isDeclared_iff ht, Option.or_none, assigns_eq, Bool.and_eq_true, Bool.not_eq_true',
    Token.isExplicit_eq_false_iff hvar, (hlexes.behind ht).assign_iff,
    ← assigns_iff (fun c hc => List.mem_takeWhile_imp hc), List.takeWhile_append_dropWhile]
  intro c hc
  have hnot := List.head?_dropWhile_not isSpacing (source.onward t.stop.idx)
  rw [hc] at hnot
  exact hnot

/-- In front of an equality a `var` is understood. -/
theorem Source.declared_iff_equality : ∃ before t next after,
    (⟨"", "x==1"⟩ : Source).tokens = .ok (before ++ t :: next :: after) ∧ t.lexeme = .name "x" ∧
      next.lexeme = .equal ∧ t.IsDeclared before := by
  have hmisjudged : Misjudged [] ['=', '=', '1'] := .nearEqual (by decide)
  refine ⟨[_], _, _, _, rfl, rfl, rfl,
    (@declared_iff ⟨"", "x==1"⟩ _ [_] _ _ _ _ rfl rfl rfl).mpr ?_⟩
  exact ⟨by simp [Token.previous?, Token.span], .inr ⟨hmisjudged, by simp⟩⟩

end Think
