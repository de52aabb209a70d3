import Mathlib.Algebra.Group.Even
import Mathlib.Data.List.DropRight
import Mathlib.Data.List.Forall2
import Think.Proofs.Token.Lexis

/-! # Texts in quotes

A text between double quotes is one token just if what stands there is one of the ways to write it,
character by character. Between single quotes the backslashes are dropped and nothing else happens,
so the two kinds of quotes agree as long as no backslash stands before an `n`, a `t` or a backslash.
-/

namespace Think

open Scanner

variable {c q : Char} {value raw rest : List Char}

/-- The ways to write a character between double quotes. -/
inductive Writes : (c : Char) → (written : List Char) → Prop
  | itself {c : Char} (hquote : c ≠ '"') (hslash : c ≠ '\\') : Writes c [c]
  | lineBreak : Writes '\n' ['\\', 'n']
  | tab : Writes '\t' ['\\', 't']
  | behindSlash {c : Char} (hn : c ≠ 'n') (ht : c ≠ 't') : Writes c ['\\', c]

theorem unescape_eq (hn : c ≠ 'n') (ht : c ≠ 't') : unescape c = c := by
  rw [unescape]
  · exact hn
  · exact ht

theorem writes_unescape (c : Char) : Writes (unescape c) ['\\', c] := by
  by_cases hn : c = 'n'
  · exact hn ▸ .lineBreak
  by_cases ht : c = 't'
  · exact ht ▸ .tab
  rw [unescape_eq hn ht]
  exact .behindSlash hn ht

theorem Writes.encodes {written : List Char} (h : Writes c written) (hrest : Encodes value raw) :
    Encodes (c :: value) (written ++ raw) := by
  cases h with
  | itself hquote hslash => exact .plain hquote hslash hrest
  | lineBreak => exact .escaped 'n' hrest
  | tab => exact .escaped 't' hrest
  | behindSlash hn ht =>
    have hescaped := Encodes.escaped c hrest
    rwa [unescape_eq hn ht] at hescaped

/-- What encodes a text is made of ways to write its characters. -/
theorem encodes_iff :
    Encodes value raw ↔ ∃ pieces, List.Forall₂ Writes value pieces ∧ pieces.flatten = raw := by
  constructor
  · intro h
    induction h with
    | nil => exact ⟨[], .nil, rfl⟩
    | @plain c _ _ hquote hslash _ ih =>
      obtain ⟨pieces, hpieces, rfl⟩ := ih
      exact ⟨[c] :: pieces, .cons (.itself hquote hslash) hpieces, rfl⟩
    | escaped c _ ih =>
      obtain ⟨pieces, hpieces, rfl⟩ := ih
      exact ⟨['\\', c] :: pieces, .cons (writes_unescape c) hpieces, rfl⟩
  · rintro ⟨pieces, hpieces, rfl⟩
    induction hpieces with
    | nil => exact .nil
    | cons hwrites _ ih => exact hwrites.encodes ih

theorem Encodes.doubleQuoted_append (h : Encodes value raw) (rest : List Char) :
    doubleQuoted (raw ++ '"' :: rest) = (value, raw) := by
  induction h with
  | nil => simp [doubleQuoted]
  | plain hquote hslash _ ih => simp [doubleQuoted, hquote, hslash, ih]
  | escaped c _ ih => simp [doubleQuoted, ih]

theorem Encodes.scans (h : Encodes value raw) :
    Scans ('"' :: (raw ++ ['"'])) [.text (String.ofList value)] fun _ => True := by
  refine Scans.of_step fun s previous? rest hs _ => ?_
  have hopened : s.advance.rest = raw ++ '"' :: rest := by
    rw [rest_advance hs, List.append_assoc]
    rfl
  have hquoted : s.quoted doubleQuoted = (⟨.text (String.ofList value), s.place,
      (s.advance.skip raw).advance.place⟩, (s.advance.skip raw).advance) := by
    rw [quoted, hopened, h.doubleQuoted_append]
  refine ⟨_, _, congrArg readFrom.one hquoted, ?_, rfl⟩
  rw [rest_advance]
  rw [rest_skip, hopened, List.drop_left]

theorem singleQuoted_append (h : '\'' ∉ raw) (rest : List Char) :
    singleQuoted (raw ++ '\'' :: rest) = (raw.filter (· ≠ '\\'), raw) := by
  have hraw : (raw ++ '\'' :: rest).takeWhile (· ≠ '\'') = raw := by
    rw [List.takeWhile_append_of_pos fun d hd => by simpa using ne_of_mem_of_not_mem hd h]
    simp
  rw [singleQuoted_eq, hraw]

/-- The text between two quotes of one kind. -/
def Source.between (name : String) (q : Char) (raw : List Char) : Source :=
  ⟨name, String.ofList (q :: (raw ++ [q]))⟩

def Source.ending (source : Source) : Position :=
  source.text.toList.foldl Position.step (.origin source)

theorem Source.idx_ending (source : Source) : source.ending.idx = source.text.length := by
  have h := idx_skip (ofSource source) source.text.toList
  rw [String.length_toList] at h
  exact h.trans (Nat.zero_add _)

/-- A text whose inside reaches up to the last quote is all there is. -/
theorem Source.tokens_between {inside : List Char → List Char × List Char} (name : String)
    (hread : ∀ (s : Scanner) previous?, s.readFrom q previous? = readFrom.one (s.quoted inside))
    (hinside : inside (raw ++ [q]) = (value, raw)) :
    (between name q raw).tokens = .ok [⟨.text (String.ofList value), .origin (between name q raw),
      (between name q raw).ending⟩, .single .endOfText (between name q raw).ending] := by
  let s := ofSource (between name q raw)
  have hs : s.rest = q :: (raw ++ [q]) := String.toList_ofList
  have hopened : s.advance.skip raw = s.skip (q :: raw) := by
    rw [advance_cons hs, skip_append]
    rfl
  have hclosed : (s.skip (q :: raw)).advance = s.skip s.rest := by
    rw [advance_skip (show s.rest = (q :: raw) ++ q :: [] from hs), hs]
    rfl
  let t : Token := ⟨.text (String.ofList value), s.place, (s.skip s.rest).place⟩
  have hquoted : s.quoted inside = (t, s.skip s.rest) := by
    rw [quoted, rest_advance hs, hinside]
    dsimp only
    rw [hopened, hclosed]
  have hstep : s.readFrom q ([] : List Token).head? = .ok ([t], s.skip s.rest) := by
    rw [hread, hquoted]
    rfl
  have hend : (s.skip s.rest).rest = [] := by simp
  exact (tokensFrom_step hs hstep).trans (tokensFrom_nil hend)

theorem Encodes.tokens_between (h : Encodes value raw) (name : String) :
    (Source.between name '"' raw).tokens = .ok [⟨.text (String.ofList value),
      .origin (.between name '"' raw), (Source.between name '"' raw).ending⟩,
      .single .endOfText (Source.between name '"' raw).ending] :=
  Source.tokens_between name (fun _ _ => rfl) (h.doubleQuoted_append [])

/-- If all that double quotes enclose is one text, it is encoded there. -/
theorem encodes_of_tokens {name s : String} {stop : Position} {last : Token}
    (hstop : stop.idx = (Source.between name '"' raw).text.length)
    (h : (Source.between name '"' raw).tokens =
      .ok [⟨.text s, .origin (.between name '"' raw), stop⟩, last]) : Encodes s.toList raw := by
  have htext : (Source.between name '"' raw).onward 0 = '"' :: (raw ++ ['"']) :=
    String.toList_ofList
  cases Source.lexes_tokens h with
  | blank hi hc =>
    cases htext.symm.trans hi
    simp at hc
  | comment hi => cases htext.symm.trans hi
  | @token _ _ _ cs rest _ hi ht =>
    rw [htext] at hi
    have hall : stop.idx = cs.length + rest.length := by
      rw [hstop, ← List.length_append, ← hi]
      exact String.length_ofList
    cases ht with
    | unclosed _ hend _ _ hrest =>
      have hend : stop.idx = 0 + cs.length + 1 := hend
      rw [hrest, List.length_nil] at hall
      omega
    | whole _ hend hspells =>
      have hend : stop.idx = 0 + cs.length := hend
      obtain rfl : rest = [] := List.length_eq_zero_iff.mp (by omega)
      rw [List.append_nil] at hi
      cases hspells with
      | sign hl => simp [Lexeme.signs] at hl
      | text hquotes =>
        cases hquotes with
        | single => simp at hi
        | @double value raw' henc =>
          obtain rfl : raw = raw' := by simpa using hi
          rwa [String.toList_ofList]

/-- Double quotes enclose one text, which ends where the source ends, just if what stands between
them is made of ways to write the characters of the text. -/
theorem Source.tokens_doubleQuoted_iff (name s : String) (raw : List Char) :
    (∃ stop : Position, stop.idx = (between name '"' raw).text.length ∧
      (between name '"' raw).tokens = .ok [⟨.text s, .origin (between name '"' raw), stop⟩,
        .single .endOfText stop]) ↔
    ∃ pieces, List.Forall₂ Writes s.toList pieces ∧ pieces.flatten = raw := by
  rw [← encodes_iff]
  constructor
  · rintro ⟨stop, hstop, htokens⟩
    exact encodes_of_tokens hstop htokens
  · intro h
    have htokens := h.tokens_between name
    rw [String.ofList_toList] at htokens
    exact ⟨_, idx_ending _, htokens⟩

def Position.SameSpot (p p' : Position) : Prop := p.idx = p'.idx ∧ p.ln = p'.ln ∧ p.col = p'.col

namespace Position.SameSpot

variable {p p' : Position} {d : Char}

theorem step (h : p.SameSpot p') (hc : c = '\n' ↔ d = '\n') : (p.step c).SameSpot (p'.step d) := by
  obtain ⟨hidx, hln, hcol⟩ := h
  by_cases hbreak : c = '\n'
  · rw [Position.step, Position.step, if_pos hbreak, if_pos (hc.mp hbreak)]
    exact ⟨congrArg (· + 1) hidx, congrArg (· + 1) hln, rfl⟩
  · rw [Position.step, Position.step, if_neg hbreak, if_neg (mt hc.mpr hbreak)]
    exact ⟨congrArg (· + 1) hidx, hln, congrArg (· + 1) hcol⟩

theorem foldl_step (h : p.SameSpot p') (cs : List Char) :
    (cs.foldl Position.step p).SameSpot (cs.foldl Position.step p') := by
  induction cs generalizing p p' with
  | nil => exact h
  | cons c cs ih => exact ih (h.step .rfl)

end Position.SameSpot

theorem Source.sameSpot_ending (name : String) {q' : Char} (hq : q ≠ '\n') (hq' : q' ≠ '\n')
    (raw : List Char) : (between name q raw).ending.SameSpot (between name q' raw).ending := by
  have hquote : q = '\n' ↔ q' = '\n' := iff_of_false hq hq'
  simp only [ending, between, String.toList_ofList, List.foldl_cons, List.foldl_append,
    List.foldl_nil]
  refine .step (.foldl_step (.step ?_ hquote) raw) hquote
  exact ⟨rfl, rfl, rfl⟩

theorem Encodes.append {value' raw' : List Char} (h : Encodes value raw)
    (h' : Encodes value' raw') : Encodes (value ++ value') (raw ++ raw') := by
  induction h with
  | nil => exact h'
  | plain hquote hslash _ ih => exact .plain hquote hslash ih
  | escaped c _ ih => exact .escaped c ih

theorem encodes_slashes (k : Nat) :
    Encodes (List.replicate k '\\') (List.replicate (k + k) '\\') := by
  induction k with
  | zero => exact .nil
  | succ k ih =>
    have hcount : k + 1 + (k + 1) = k + k + 1 + 1 := by omega
    rw [hcount, List.replicate_succ, List.replicate_succ, List.replicate_succ]
    exact .escaped '\\' ih

/-- Without quotes, and with the backslashes at the end in pairs, something is encoded. -/
theorem exists_encodes (hquote : '"' ∉ raw)
    (heven : Even (raw.rtakeWhile (· = '\\')).length) : ∃ value, Encodes value raw := by
  have hsplit : raw.rdropWhile (· = '\\') ++ raw.rtakeWhile (· = '\\') = raw :=
    List.rdropWhile_append_rtakeWhile
  have hslashes : raw.rtakeWhile (· = '\\') =
      List.replicate (raw.rtakeWhile (· = '\\')).length '\\' :=
    List.eq_replicate_of_mem fun d hd => by simpa using List.mem_rtakeWhile_imp hd
  obtain ⟨k, hk⟩ := heven
  rw [hslashes, hk] at hsplit
  have hlast := List.rdropWhile_last_not (· = '\\') raw
  generalize raw.rdropWhile (· = '\\') = front at hsplit hlast
  rw [← hsplit] at hquote ⊢
  obtain ⟨rest, hfront, -⟩ | ⟨-, henc | ⟨raw', rfl, -⟩⟩ := encodes_doubleQuoted front
  · rw [hfront] at hquote
    simp at hquote
  · exact ⟨_, henc.append (encodes_slashes k)⟩
  · simp at hlast

/-- Dropping the backslashes is decoding as long as none of them has a meaning. -/
theorem Encodes.eq_filter_iff (h : Encodes value raw) :
    raw.filter (· ≠ '\\') = value ↔
      ∀ c, ['\\', c] <:+: raw → c ≠ 'n' ∧ c ≠ 't' ∧ c ≠ '\\' := by
  induction h with
  | nil => simp
  | @plain d value raw hquote hslash _ ih =>
    rw [List.filter_cons_of_pos (by simpa using hslash), List.cons_inj_right, ih]
    simp [List.infix_cons_iff, hslash.symm]
  | @escaped d value raw _ ih =>
    have hhead (c : Char) (hc : c = d) : ['\\', c] <:+: '\\' :: d :: raw :=
      ⟨[], raw, by rw [hc]; rfl⟩
    by_cases hslash : d = '\\'
    · refine iff_of_false ?_ fun hall => (hall d (hhead d rfl)).2.2 hslash
      intro hvalue
      have hmem : '\\' ∈ ('\\' :: d :: raw).filter (· ≠ '\\') := by
        rw [hvalue, hslash]
        exact List.mem_cons_self
      simp at hmem
    rw [List.filter_cons_of_neg (by simp), List.filter_cons_of_pos (by simpa using hslash)]
    by_cases hletter : d = 'n' ∨ d = 't'
    · refine iff_of_false ?_ fun hall => ?_
      · obtain rfl | rfl := hletter <;> simp [unescape]
      · have hd := hall d (hhead d rfl)
        exact hletter.elim hd.1 hd.2.1
    obtain ⟨hn, ht⟩ := not_or.mp hletter
    rw [unescape_eq hn ht, List.cons_inj_right, ih]
    constructor
    · intro hall c hc
      rw [List.infix_cons_iff, List.infix_cons_iff] at hc
      obtain hc | hc | hc := hc
      · obtain rfl : c = d := by simpa using hc
        exact ⟨hn, ht, hslash⟩
      · exact absurd (List.cons_prefix_cons.mp hc).1.symm hslash
      · exact hall c hc
    · exact fun hall c hc => hall c (hc.trans ⟨['\\', d], [], by simp⟩)

/-- Quotes of either kind enclose one text and end at the same place. The two texts are the same
just if no backslash stands before an `n`, a `t` or another backslash. -/
theorem Source.quotes_agree_iff (name : String) (b : List Char) (hsingle : '\'' ∉ b)
    (hdouble : '"' ∉ b) (heven : Even (b.rtakeWhile (· = '\\')).length) :
    ∃ (v v' : String) (stop stop' : Position), stop.SameSpot stop' ∧
      (between name '\'' b).tokens = .ok [⟨.text v, .origin (between name '\'' b), stop⟩,
        .single .endOfText stop] ∧
      (between name '"' b).tokens = .ok [⟨.text v', .origin (between name '"' b), stop'⟩,
        .single .endOfText stop'] ∧
      (v = v' ↔ ∀ c, ['\\', c] <:+: b → c ≠ 'n' ∧ c ≠ 't' ∧ c ≠ '\\') := by
  obtain ⟨value, henc⟩ := exists_encodes hdouble heven
  have htokens := tokens_between name (fun _ _ => rfl) (singleQuoted_append hsingle [])
  refine ⟨_, _, _, _, sameSpot_ending name (by decide) (by decide) b, htokens,
    henc.tokens_between name, ?_⟩
  rw [String.ofList_inj, henc.eq_filter_iff]

/-- An escaped line break is the letter between single quotes. -/
theorem Source.quotes_agree_iff_lineBreak :
    ∃ (v v' : String) (stop stop' : Position), stop.SameSpot stop' ∧
      (between "" '\'' ['\\', 'n']).tokens =
        .ok [⟨.text v, .origin (between "" '\'' ['\\', 'n']), stop⟩, .single .endOfText stop] ∧
      (between "" '"' ['\\', 'n']).tokens =
        .ok [⟨.text v', .origin (between "" '"' ['\\', 'n']), stop'⟩, .single .endOfText stop'] ∧
      v ≠ v' := by
  obtain ⟨v, v', stop, stop', hstop, hsingle, hdouble, hiff⟩ :=
    quotes_agree_iff "" ['\\', 'n'] (by decide) (by decide) ⟨0, rfl⟩
  refine ⟨v, v', stop, stop', hstop, hsingle, hdouble, fun hv => ?_⟩
  exact (hiff.mp hv 'n' ⟨[], [], rfl⟩).1 rfl

end Think
