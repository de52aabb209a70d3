import Think.Proofs.Text.Lines
import Think.Text.Excerpt

/-! # What an excerpt shows

An excerpt should show every line from one position to another, with carets under just the columns
between the two. Lines are found by the break before them, which the first line of the text does not
have. So it does, unless it starts on the first line and goes on to another. -/

namespace Think.Excerpt

open Text

/-- A character of the text from `lo` up to `hi` stands in the column `c` of the line `l`. A line
break stands in no column. -/
def Covers (cs : List Char) (lo hi l c : Nat) : Prop :=
  ∃ i ch, lo ≤ i ∧ i < hi ∧ cs[i]? = some ch ∧ ch ≠ '\n' ∧ lineNumber cs i = l ∧
    i - lineStart cs i = c

/-- Blanks, and carets under the columns of the line that are covered. -/
structure IsRow (cs : List Char) (lo hi l : Nat) (row : List Char) : Prop where
  chars : ∀ ch ∈ row, ch = ' ' ∨ ch = '^'
  carets : ∀ c, row[c]? = some '^' ↔ Covers cs lo hi l c

/-- A line over its row. The break before the line belongs to it. -/
def block (cs : List Char) (l : Nat) (row : List Char) : List Char :=
  (if l = 0 then [] else ['\n']) ++ lineAt cs l ++ '\n' :: row

theorem block_append_inj {cs r r' x y : List Char} {l : Nat} :
    block cs l r ++ x = block cs l r' ++ y ↔ r ++ x = r' ++ y := by
  simp [block]

theorem block_of_pos {cs r : List Char} {l : Nat} (hl : 0 < l) :
    block cs l r = '\n' :: (lineAt cs l ++ '\n' :: r) := by
  rw [block, if_neg (Nat.ne_of_gt hl)]
  rfl

/-- The lines from one position to another, each over a row that marks what is between them. -/
def Underlines (cs : List Char) (start stop : Position) (out : List Char) : Prop :=
  ∃ rows : Nat → List Char,
    (∀ l, start.ln ≤ l → l ≤ stop.ln → IsRow cs start.idx stop.idx l (rows l)) ∧
    out = (List.range' start.ln (stop.ln + 1 - start.ln)).flatMap fun l => block cs l (rows l)

section

variable {cs u v : List Char} {lo hi l n c i stopCol from_ : Nat}

theorem covers_iff (h : l < lineCount cs) : Covers cs lo hi l c ↔
    c < (lineAt cs l).length ∧ lo ≤ lineOffset cs l + c ∧ lineOffset cs l + c < hi := by
  obtain ⟨tail, htail, hbreak⟩ := exists_tail h
  have hat {c : Nat} (hc : c < (lineAt cs l).length) :
      cs[lineOffset cs l + c]? = (lineAt cs l)[c]? := by
    rw [← List.getElem?_drop, htail, List.getElem?_append_left hc]
  constructor
  · rintro ⟨i, ch, hlo, hhi, hch, hne, rfl, rfl⟩
    obtain ⟨hi, -⟩ := List.getElem?_eq_some_iff.mp hch
    obtain ⟨k, c, hk, hc, rfl⟩ := exists_line hi.le
    rw [lineNumber_lineOffset_add hk hc] at htail hat ⊢
    rw [lineStart_lineOffset_add hk hc, Nat.add_sub_cancel_left]
    refine ⟨Nat.lt_of_le_of_ne hc ?_, hlo, hhi⟩
    rintro rfl
    rw [← List.getElem?_drop, htail, List.getElem?_append_right (Nat.le_refl _), Nat.sub_self,
      ← List.head?_eq_getElem?] at hch
    rw [hch] at hbreak
    exact hne (of_decide_eq_true hbreak)
  · rintro ⟨hc, hlo, hhi⟩
    refine ⟨_, (lineAt cs l)[c], hlo, hhi, ?_, ?_, lineNumber_lineOffset_add h hc.le, ?_⟩
    · rw [hat hc, List.getElem?_eq_getElem hc]
    · intro heq
      exact newline_notMem_lineAt cs l (heq ▸ List.getElem_mem hc)
    · rw [lineStart_lineOffset_add h hc.le, Nat.add_sub_cancel_left]

theorem getElem?_row : (row from_ n)[c]? = some '^' ↔ from_ ≤ c ∧ c < n := by
  rw [row, List.getElem?_append]
  split
  · next hc =>
    rw [List.length_replicate] at hc
    simp only [List.getElem?_replicate, hc, if_true]
    grind
  · next hc =>
    rw [List.length_replicate] at hc ⊢
    simp only [List.getElem?_replicate]
    grind

theorem chars_row : ∀ ch ∈ row from_ n, ch = ' ' ∨ ch = '^' := by
  intro ch hch
  simp only [row, List.mem_append, List.mem_replicate] at hch
  exact hch.imp And.right And.right

theorem IsRow.newline_notMem {row : List Char} (h : IsRow cs lo hi l row) : '\n' ∉ row := by
  intro hmem
  rcases h.chars _ hmem with heq | heq <;> cases heq

theorem lastBreak_go_append (u v : List Char) (i found : Nat) :
    lastBreak.go (u ++ v) i found = lastBreak.go v (i + u.length) (lastBreak.go u i found) := by
  induction u generalizing i found with
  | nil => rfl
  | cons c u ih =>
    rw [List.cons_append, lastBreak.go, lastBreak.go, ih, List.length_cons, Nat.add_assoc,
      Nat.add_comm 1]

theorem lastBreak_go_of_notMem {u : List Char} (hu : '\n' ∉ u) (i found : Nat) :
    lastBreak.go u i found = found := by
  induction u generalizing i found with
  | nil => rfl
  | cons c u ih =>
    rw [List.mem_cons, not_or] at hu
    rw [lastBreak.go, if_neg (Ne.symm hu.1), ih hu.2]

/-- The search for the line of an index ends at the break before the line. -/
theorem lastBreak_eq (h : l < lineCount cs) (hc : c ≤ (lineAt cs l).length) :
    lastBreak cs (lineOffset cs l + c) = lineOffset cs l - 1 := by
  have hclean : '\n' ∉ (lineAt cs l).take c :=
    fun hmem => newline_notMem_lineAt cs l (List.mem_of_mem_take hmem)
  rw [lastBreak, take_lineOffset_add h hc, lastBreak_go_append, lastBreak_go_of_notMem hclean]
  cases l with
  | zero => simp [lineOffset, lastBreak.go]
  | succ l =>
    have hlength := congrArg List.length (take_lineOffset_succ h)
    rw [List.length_take, Nat.min_eq_left (lineOffset_le h), List.length_append] at hlength
    rw [take_lineOffset_succ h, lastBreak_go_append, lastBreak.go, if_pos rfl, lastBreak.go]
    simp only [List.length_singleton] at hlength
    omega

theorem nextBreak_eq (hu : '\n' ∉ u) (hv : v.head?.all (· = '\n')) (hi : i ≤ cs.length)
    (h : cs.drop i = u ++ v) : nextBreak cs i = i + u.length := by
  have hlength := congrArg List.length h
  rw [List.length_drop, List.length_append] at hlength
  have hnone : u.findIdx? (· = '\n') = none := by
    rw [List.findIdx?_eq_none_iff]
    exact fun c hc => decide_eq_false fun heq => hu (heq ▸ hc)
  rw [nextBreak, h, List.findIdx?_append, hnone]
  cases v with
  | nil =>
    rw [List.length_nil] at hlength
    change cs.length = _
    omega
  | cons c v =>
    obtain rfl : c = '\n' := by simpa using hv
    rw [List.findIdx?_cons, if_pos (by simp)]
    simp

theorem nextBreak_lineOffset (h : l < lineCount cs) :
    nextBreak cs (lineOffset cs l) = lineOffset cs l + (lineAt cs l).length := by
  obtain ⟨tail, htail, hbreak⟩ := exists_tail h
  exact nextBreak_eq (newline_notMem_lineAt cs l) hbreak (lineOffset_le h) htail

theorem drop_break (hl : 0 < l) (h : l < lineCount cs) :
    cs.drop (lineOffset cs l - 1) = '\n' :: cs.drop (lineOffset cs l) := by
  obtain ⟨k, rfl⟩ := Nat.exists_eq_add_of_le' hl
  have hdrop := congrArg (List.drop (lineAt cs k).length) (drop_lineOffset_succ h)
  rwa [List.drop_drop, List.drop_left] at hdrop

theorem lines_succ (hl : 0 < l) (h : l < lineCount cs) :
    lines cs stopCol (n + 1) (lineOffset cs l - 1) from_ =
      block cs l (row from_ (if n = 0 then stopCol else (lineAt cs l).length)) ++
        lines cs stopCol n (lineOffset cs (l + 1) - 1) 0 := by
  obtain ⟨tail, htail, -⟩ := exists_tail h
  have hpos : 0 < lineOffset cs l := Nat.zero_lt_of_lt (lineOffset_lt cs hl)
  have hlength : lineOffset cs l + (lineAt cs l).length - (lineOffset cs l - 1) =
      (lineAt cs l).length + 1 := by omega
  rw [lines, Nat.sub_add_cancel hpos, nextBreak_lineOffset h, drop_break hl h, htail, hlength,
    List.take_succ_cons, List.take_left, block, if_neg (Nat.ne_of_gt hl)]
  simp [lineOffset]

theorem lines_first (h : lineAt cs 0 ≠ []) :
    lines cs stopCol (n + 1) 0 from_ =
      block cs 0 (row from_ (if n = 0 then stopCol else (lineAt cs 0).length - 1)) ++
        lines cs stopCol n (lineOffset cs 1 - 1) 0 := by
  obtain ⟨tail, htail, hbreak⟩ := exists_tail (lineCount_pos cs)
  obtain ⟨c, line, hline⟩ := List.exists_cons_of_ne_nil h
  have hclean := newline_notMem_lineAt cs 0
  rw [lineOffset, List.drop_zero] at htail
  have hnext : nextBreak cs 1 = (lineAt cs 0).length := by
    rw [hline] at htail hclean ⊢
    rw [nextBreak_eq (u := line) (v := tail)
      (fun hmem => hclean (List.mem_cons_of_mem _ hmem)) hbreak
      (by simp [htail]) (by simp [htail]), List.length_cons, Nat.add_comm]
  have htake : cs.take (lineAt cs 0).length = lineAt cs 0 := by
    conv_lhs => arg 2; rw [htail]
    exact List.take_left
  rw [lines, Nat.zero_add, hnext, List.drop_zero, Nat.sub_zero, htake, block, if_pos rfl]
  simp [lineOffset]

/-- Behind the last line there is one more that is empty and has no break before it. -/
theorem lines_past (h : l = lineCount cs) :
    lines cs stopCol (n + 1) (lineOffset cs l - 1) from_ =
      '\n' :: row from_ (if n = 0 then stopCol else 0) ++ lines cs stopCol n cs.length 0 := by
  obtain ⟨k, hk⟩ := Nat.exists_eq_add_of_le' (lineCount_pos cs)
  have hlength := congrArg List.length (drop_lineOffset_last hk.symm)
  have : lineOffset cs k ≤ cs.length := lineOffset_le (by omega)
  rw [List.length_drop] at hlength
  have hend : lineOffset cs l - 1 = cs.length := by
    rw [h, hk, lineOffset]
    omega
  have hnext : nextBreak cs (cs.length + 1) = cs.length := by
    rw [nextBreak, List.drop_of_length_le (Nat.le_succ _)]
    rfl
  rw [hend, lines, hnext]
  simp

theorem head?_lines (hl : 0 < l) (h : l ≤ lineCount cs) :
    (lines cs stopCol (n + 1) (lineOffset cs l - 1) from_).head? = some '\n' := by
  rcases Nat.lt_or_eq_of_le h with hlt | heq
  · rw [lines_succ hl hlt, block, if_neg (Nat.ne_of_gt hl)]
    rfl
  · rw [lines_past heq]
    rfl

end

section

variable {cs : List Char} {start stop : Position}

/-- The row of each line that is found by the break before it. -/
def marks (cs : List Char) (start stop : Position) (l : Nat) : List Char :=
  row (if l = start.ln then start.col else 0)
    (if l = stop.ln then stop.col else (lineAt cs l).length)

/-- The positions are places in the text, the first before the second. -/
structure Spans (cs : List Char) (start stop : Position) : Prop where
  startIn : start.IsIn cs
  stopIn : stop.IsIn cs
  lt : start.idx < stop.idx
  le : stop.idx ≤ cs.length

variable (h : Spans cs start stop)

include h

theorem Spans.stop_line : stop.ln < lineCount cs ∧ stop.col ≤ (lineAt cs stop.ln).length ∧
    stop.idx = lineOffset cs stop.ln + stop.col := h.stopIn.exists_line h.le

theorem Spans.start_line : start.ln < lineCount cs ∧ start.col ≤ (lineAt cs start.ln).length ∧
    start.idx = lineOffset cs start.ln + start.col :=
  h.startIn.exists_line (Nat.le_trans h.lt.le h.le)

theorem Spans.ln_le : start.ln ≤ stop.ln := by
  obtain ⟨-, -, hstart⟩ := h.start_line
  obtain ⟨-, hcol, hstop⟩ := h.stop_line
  have := h.lt
  by_contra hlt
  have := lineOffset_lt cs (Nat.lt_of_not_le hlt)
  omega

/-- Which columns of a line are covered, by whether the line is the first or the last. -/
theorem Spans.covers_iff {l c : Nat} (hstart : start.ln ≤ l) (hstop : l ≤ stop.ln) :
    Covers cs start.idx stop.idx l c ↔ (if l = start.ln then start.col else 0) ≤ c ∧
      c < (if l = stop.ln then stop.col else (lineAt cs l).length) := by
  obtain ⟨hstartLine, hstartCol, hstartIdx⟩ := h.start_line
  obtain ⟨hstopLine, hstopCol, hstopIdx⟩ := h.stop_line
  rw [Excerpt.covers_iff (by omega), hstartIdx, hstopIdx]
  have hbefore : l ≠ start.ln →
      lineOffset cs start.ln + (lineAt cs start.ln).length < lineOffset cs l :=
    fun hne => lineOffset_lt cs (by omega)
  have hbehind : l ≠ stop.ln → lineOffset cs l + (lineAt cs l).length < lineOffset cs stop.ln :=
    fun hne => lineOffset_lt cs (by omega)
  split <;> split <;> grind

theorem Spans.isRow_marks {l : Nat} (hstart : start.ln ≤ l) (hstop : l ≤ stop.ln) :
    IsRow cs start.idx stop.idx l (marks cs start stop l) where
  chars := chars_row
  carets c := by rw [marks, getElem?_row, h.covers_iff hstart hstop]

/-- Every line but the first of the text is shown over its row. -/
theorem Spans.lines_eq {n l : Nat} (hn : l + n = stop.ln + 1) (hl : 0 < l) (hstart : start.ln ≤ l) :
    lines cs stop.col n (lineOffset cs l - 1) (if l = start.ln then start.col else 0) =
      (List.range' l n).flatMap fun j => block cs j (marks cs start stop j) := by
  have hstopLine := h.stop_line.1
  induction n generalizing l with
  | zero => rfl
  | succ n ih =>
    have hnext := ih (l := l + 1) (by omega) (by omega) (by omega)
    rw [if_neg (by omega)] at hnext
    rw [lines_succ hl (by omega), hnext, List.range'_succ, List.flatMap_cons, marks]
    simp only [show n = 0 ↔ l = stop.ln by omega]

theorem Spans.lastBreak_eq : lastBreak cs start.idx = lineOffset cs start.ln - 1 := by
  obtain ⟨hline, hcol, hidx⟩ := h.start_line
  rw [hidx, Excerpt.lastBreak_eq hline hcol]

theorem Spans.underlines_later (hln : 0 < start.ln) : Underlines cs start stop
    (lines cs stop.col (stop.ln + 1 - start.ln) (lastBreak cs start.idx) start.col) := by
  have hle := h.ln_le
  refine ⟨marks cs start stop, fun l hstart hstop => h.isRow_marks hstart hstop, ?_⟩
  have heq :=
    h.lines_eq (l := start.ln) (n := stop.ln + 1 - start.ln) (by omega) hln (Nat.le_refl _)
  rwa [if_pos rfl, ← h.lastBreak_eq] at heq

/-- The row under the first line of the text leaves its last column out, as though a break were
counted with the line, unless there is no other line. -/
theorem Spans.lines_eq_first (hln : start.ln = 0) (hline : lineAt cs 0 ≠ []) :
    lines cs stop.col (stop.ln + 1 - start.ln) (lastBreak cs start.idx) start.col =
      block cs 0 (row start.col (if stop.ln = 0 then stop.col else (lineAt cs 0).length - 1)) ++
        (List.range' 1 stop.ln).flatMap fun j => block cs j (marks cs start stop j) := by
  have hrest := h.lines_eq (l := 1) (n := stop.ln) (by omega) (by omega) (by omega)
  rw [if_neg (by omega)] at hrest
  rw [h.lastBreak_eq, hln, Nat.sub_zero, lineOffset, lines_first hline, hrest]

theorem Spans.underlines_line (hstart : start.ln = 0) (hstop : stop.ln = 0) :
    Underlines cs start stop
      (lines cs stop.col (stop.ln + 1 - start.ln) (lastBreak cs start.idx) start.col) := by
  obtain ⟨-, -, hstartIdx⟩ := h.start_line
  obtain ⟨-, hcol, hstopIdx⟩ := h.stop_line
  have hline : lineAt cs 0 ≠ [] := by
    have := h.lt
    rw [hstartIdx, hstopIdx, hstart, hstop, Nat.add_lt_add_iff_left] at this
    rw [hstop] at hcol
    exact List.ne_nil_of_length_pos (by omega)
  refine ⟨marks cs start stop, fun l hl hl' => h.isRow_marks hl hl', ?_⟩
  rw [h.lines_eq_first hstart hline, if_pos hstop, hstop, hstart]
  simp [marks, hstart, hstop]

theorem Spans.underlines_first_iff (hstart : start.ln = 0) (hstop : 0 < stop.ln)
    (hline : lineAt cs 0 ≠ []) :
    Underlines cs start stop
      (lines cs stop.col (stop.ln + 1 - start.ln) (lastBreak cs start.idx) start.col) ↔
      start.col = (lineAt cs 0).length := by
  obtain ⟨-, hcol, -⟩ := h.start_line
  rw [hstart] at hcol
  have hcovers (c : Nat) : Covers cs start.idx stop.idx 0 c ↔
      start.col ≤ c ∧ c < (lineAt cs 0).length := by
    rw [h.covers_iff (by omega) (by omega), if_pos hstart.symm, if_neg (by omega)]
  rw [h.lines_eq_first hstart hline, if_neg (by omega)]
  obtain ⟨n, hn⟩ := Nat.exists_eq_add_of_le' hstop
  constructor
  · rintro ⟨rows, hrows, hout⟩
    have hfirst := hrows 0 (by omega) (by omega)
    rw [hstart, Nat.sub_zero, List.range'_succ, List.flatMap_cons, block_append_inj, hn,
      List.range'_succ, List.flatMap_cons, List.flatMap_cons] at hout
    obtain ⟨hrow, -⟩ := (append_inj_of_notMem (c := '\n') (by simp [row]) hfirst.newline_notMem
      (by simp [block]) (by simp [block])).mp hout
    by_contra hne
    have hlast := (hfirst.carets ((lineAt cs 0).length - 1)).mpr ((hcovers _).mpr (by omega))
    rw [← hrow, getElem?_row] at hlast
    omega
  · intro hend
    refine ⟨Function.update (marks cs start stop) 0 (row start.col ((lineAt cs 0).length - 1)),
      fun l hl hl' => ?_, ?_⟩
    · by_cases hzero : l = 0
      · subst hzero
        rw [Function.update_self]
        refine ⟨chars_row, fun c => ?_⟩
        rw [getElem?_row, hcovers]
        omega
      · rw [Function.update_of_ne hzero]
        exact h.isRow_marks hl hl'
    · rw [hstart, Nat.sub_zero, List.range'_succ, List.flatMap_cons, Function.update_self]
      congr 1
      refine List.flatMap_congr fun l hl => ?_
      rw [List.mem_range'_1] at hl
      rw [Function.update_of_ne (by omega)]

/-- Where the first line is empty, all lines are shown one place too early. That is right only if
all of them are empty and the last one is meant. -/
theorem Spans.eq_nil_of_shifted {rows : Nat → List Char} {k n : Nat} (hk : k + 1 + n = stop.ln + 1)
    (hstart : start.ln ≤ k) (hline : lineAt cs k = [])
    (hrows : ∀ l, start.ln ≤ l → l ≤ stop.ln → IsRow cs start.idx stop.idx l (rows l))
    (hout : lines cs stop.col (n + 1) (lineOffset cs (k + 1) - 1) 0 =
      '\n' :: (rows k ++ (List.range' (k + 1) n).flatMap fun l => block cs l (rows l))) :
    stop.ln + 1 = lineCount cs ∧ ∀ l, k < l → l < lineCount cs → lineAt cs l = [] := by
  obtain ⟨hstopLine, -⟩ := h.stop_line
  have hrow := hrows k hstart (by omega)
  induction n generalizing k with
  | zero =>
    rcases Nat.lt_or_ge (k + 1) (lineCount cs) with hlt | hge
    · rw [lines_succ (by omega) hlt, block_of_pos (by omega), List.cons_append,
        List.cons_inj_right] at hout
      refine absurd ?_ hrow.newline_notMem
      have hmem :
          '\n' ∈ rows k ++ (List.range' (k + 1) 0).flatMap fun l => block cs l (rows l) := by
        rw [← hout]
        simp
      simpa using hmem
    · exact ⟨by omega, fun l hl hl' => by omega⟩
  | succ n ih =>
    rw [lines_succ (by omega) (by omega), block_of_pos (by omega), if_neg (by omega),
      List.cons_append, List.cons_inj_right, List.append_assoc, List.range'_succ, List.flatMap_cons,
      block_of_pos (by omega), List.cons_append, List.cons_append] at hout
    obtain ⟨hsame, hout⟩ := (append_inj_of_notMem (c := '\n') (newline_notMem_lineAt _ _)
      hrow.newline_notMem rfl rfl).mp hout
    rw [List.cons_inj_right, List.append_assoc, List.cons_append] at hout
    obtain ⟨hcarets, hout⟩ := (append_inj_of_notMem (c := '\n') (by simp [row])
      (newline_notMem_lineAt _ _) (head?_lines (by omega) (by omega)) rfl).mp hout
    have hnext : lineAt cs (k + 1) = [] := by
      by_contra hne
      have hcaret : (rows k)[0]? = some '^' := by
        rw [← hsame, ← hcarets, getElem?_row]
        exact ⟨Nat.le_refl _, List.length_pos_iff.mpr hne⟩
      have hcovers := (Excerpt.covers_iff (by omega)).mp ((hrow.carets 0).mp hcaret)
      rw [hline] at hcovers
      exact absurd hcovers.1 (Nat.lt_irrefl _)
    obtain ⟨hlast, hempty⟩ := ih (by omega) (by omega) hnext hout (hrows _ (by omega) (by omega))
    refine ⟨hlast, fun l hl hl' => ?_⟩
    rcases Nat.lt_or_eq_of_le hl with hlt | rfl
    · exact hempty l hlt hl'
    · exact hnext

omit h in
theorem lines_empty (hempty : ∀ l < lineCount cs, lineAt cs l = []) {k n : Nat}
    (hk : k + 1 + n = lineCount cs) : lines cs 0 (n + 1) (lineOffset cs (k + 1) - 1) 0 =
      '\n' :: (List.range' (k + 1) n).flatMap fun l => block cs l [] := by
  induction n generalizing k with
  | zero =>
    rw [lines_past (by omega)]
    simp [row, lines]
  | succ n ih =>
    rw [lines_succ (by omega) (by omega), ih (by omega), List.range'_succ, List.flatMap_cons,
      block_of_pos (by omega), block_of_pos (by omega), hempty (k + 1) (by omega)]
    simp [row]

theorem Spans.underlines_empty_iff (hstart : start.ln = 0) (hline : lineAt cs 0 = []) :
    Underlines cs start stop
      (lines cs stop.col (stop.ln + 1 - start.ln) (lastBreak cs start.idx) start.col) ↔
      stop.ln + 1 = lineCount cs ∧ ∀ l < lineCount cs, lineAt cs l = [] := by
  obtain ⟨hstartLine, hcol, -⟩ := h.start_line
  obtain ⟨-, hstopCol, -⟩ := h.stop_line
  have hzero : start.col = 0 := by
    rw [hstart, hline] at hcol
    exact Nat.le_zero.mp hcol
  have hshift : lastBreak cs start.idx = lineOffset cs (0 + 1) - 1 := by
    rw [h.lastBreak_eq, hstart, lineOffset, lineOffset, lineOffset, hline]
    rfl
  rw [hshift, hzero, hstart, Nat.sub_zero]
  constructor
  · rintro ⟨rows, hrows, hout⟩
    rw [hstart, Nat.sub_zero, List.range'_succ, List.flatMap_cons, block, if_pos rfl, hline] at hout
    obtain ⟨hlast, hempty⟩ := h.eq_nil_of_shifted (k := 0) (by omega) (by omega) hline hrows hout
    refine ⟨hlast, fun l hl => ?_⟩
    rcases Nat.eq_zero_or_pos l with rfl | hpos
    · exact hline
    · exact hempty l hpos hl
  · rintro ⟨hlast, hempty⟩
    refine ⟨fun _ => [], fun l hl hl' => ⟨by simp, fun c => ?_⟩, ?_⟩
    · rw [Excerpt.covers_iff (by omega), hempty l (by omega)]
      simp
    · have hstopZero : stop.col = 0 := by
        rw [hempty stop.ln (by omega)] at hstopCol
        exact Nat.le_zero.mp hstopCol
      rw [hstopZero, hstart, Nat.sub_zero, lines_empty hempty (by omega), List.range'_succ,
        List.flatMap_cons, block, if_pos rfl, hline]
      rfl

theorem Spans.starts_at_break_iff (hstart : start.ln = 0) (hstop : 0 < stop.ln) :
    start.idx ≠ 0 ∧ cs[start.idx]? = some '\n' ↔
      lineAt cs 0 ≠ [] ∧ start.col = (lineAt cs 0).length := by
  obtain ⟨-, hcol, hidx⟩ := h.start_line
  have hlines : 0 + 1 < lineCount cs := Nat.lt_of_le_of_lt hstop h.stop_line.1
  have hdrop := drop_lineOffset_succ hlines
  rw [lineOffset, List.drop_zero] at hdrop
  rw [hstart, lineOffset, Nat.zero_add] at hidx
  rw [hstart] at hcol
  have hbreak : cs[start.col]? = some '\n' ↔ start.col = (lineAt cs 0).length := by
    constructor
    · intro hch
      by_contra hne
      rw [hdrop, List.getElem?_append_left (by omega)] at hch
      exact newline_notMem_lineAt cs 0 (List.mem_of_getElem? hch)
    · intro heq
      rw [heq]
      conv_lhs => arg 1; rw [hdrop]
      simp
  rw [hidx, hbreak]
  constructor
  · rintro ⟨hne, heq⟩
    exact ⟨List.ne_nil_of_length_pos (by omega), heq⟩
  · rintro ⟨hne, heq⟩
    exact ⟨by rw [heq]; exact Nat.ne_of_gt (List.length_pos_iff.mpr hne), heq⟩

theorem Spans.stops_at_end_iff (hempty : ∀ l < lineCount cs, lineAt cs l = []) :
    stop.idx = cs.length ↔ stop.ln + 1 = lineCount cs := by
  obtain ⟨hline, hcol, hidx⟩ := h.stop_line
  rw [hempty _ hline] at hcol
  have hzero : stop.col = 0 := Nat.le_zero.mp hcol
  rw [hidx, hzero]
  constructor
  · intro hend
    by_contra hne
    have hle : lineOffset cs (stop.ln + 1) ≤ cs.length := lineOffset_le (by omega)
    rw [lineOffset] at hle
    omega
  · intro hlast
    have hlength := congrArg List.length (drop_lineOffset_last hlast)
    rw [List.length_drop, hempty _ hline, List.length_nil] at hlength
    have := lineOffset_le hline
    omega

end

theorem lineAt_eq_nil_iff {cs : List Char} :
    (∀ l < lineCount cs, lineAt cs l = []) ↔ ∀ c ∈ cs, c = '\n' := by
  constructor
  · intro hempty c hc
    obtain ⟨i, hi, rfl⟩ := List.getElem_of_mem hc
    obtain ⟨l, k, hl, hk, rfl⟩ := exists_line hi.le
    rw [hempty l hl] at hk
    obtain rfl := Nat.le_zero.mp hk
    obtain ⟨tail, htail, hbreak⟩ := exists_tail hl
    rw [hempty l hl, List.nil_append] at htail
    rw [← htail, List.head?_drop, ← Nat.add_zero (lineOffset cs l), List.getElem?_eq_getElem hi]
      at hbreak
    exact of_decide_eq_true hbreak
  · intro hbreaks l hl
    refine List.eq_nil_iff_forall_not_mem.mpr fun c hc => ?_
    obtain ⟨tail, htail, -⟩ := exists_tail hl
    have hmem : c ∈ cs := List.mem_of_mem_drop (htail ▸ List.mem_append_left tail hc)
    exact newline_notMem_lineAt cs l (hbreaks c hmem ▸ hc)

theorem tab_notMem_lines {cs : List Char} (h : '\t' ∉ cs) (stopCol n idx from_ : Nat) :
    '\t' ∉ lines cs stopCol n idx from_ := by
  induction n generalizing idx from_ with
  | zero => simp [lines]
  | succ n ih =>
    rw [lines]
    simp only [List.mem_append, List.mem_cons, not_or]
    refine ⟨⟨fun hmem => h (List.mem_of_mem_drop (List.mem_of_mem_take hmem)), by decide, ?_⟩,
      ih _ _⟩
    intro hmem
    rcases chars_row _ hmem with heq | heq <;> cases heq

theorem toList_render {text : String} {start stop : Position} (h : '\t' ∉ text.toList) :
    (render text start stop).toList = lines text.toList stop.col (stop.ln + 1 - start.ln)
      (lastBreak text.toList start.idx) start.col := by
  rw [render, String.toList_ofList, List.filter_eq_self]
  intro c hc
  exact decide_eq_true fun heq => tab_notMem_lines h _ _ _ _ (heq ▸ hc)

/-- In a text without tabs, what is between two positions is underlined, line by line, unless it
starts on the first line of the text and goes on to another. -/
theorem render_underlines_iff (text : String) (start stop : Position)
    (htab : '\t' ∉ text.toList) (h : Spans text.toList start stop) :
    Underlines text.toList start stop (render text start stop).toList ↔
      (start.ln = 0 → 0 < stop.ln →
        (start.idx ≠ 0 ∧ text.toList[start.idx]? = some '\n') ∨
        (stop.idx = text.length ∧ ∀ c ∈ text.toList, c = '\n')) := by
  rw [toList_render htab, ← String.length_toList, ← lineAt_eq_nil_iff]
  generalize text.toList = cs at *
  rcases Nat.eq_zero_or_pos start.ln with hstart | hstart
  swap
  · exact iff_of_true (h.underlines_later hstart) fun hzero => absurd hzero (Nat.ne_of_gt hstart)
  rcases Nat.eq_zero_or_pos stop.ln with hstop | hstop
  · exact iff_of_true (h.underlines_line hstart hstop) fun _ hpos =>
      absurd hstop (Nat.ne_of_gt hpos)
  rw [h.starts_at_break_iff hstart hstop]
  by_cases hline : lineAt cs 0 = []
  · rw [h.underlines_empty_iff hstart hline]
    constructor
    · rintro ⟨hlast, hempty⟩ - -
      exact .inr ⟨(h.stops_at_end_iff hempty).mpr hlast, hempty⟩
    · intro hcases
      rcases hcases hstart hstop with ⟨hne, -⟩ | ⟨hend, hempty⟩
      · exact absurd hline hne
      · exact ⟨(h.stops_at_end_iff hempty).mp hend, hempty⟩
  · rw [h.underlines_first_iff hstart hstop hline]
    constructor
    · exact fun hcol _ _ => .inl ⟨hline, hcol⟩
    · intro hcases
      rcases hcases hstart hstop with ⟨-, hcol⟩ | ⟨-, hempty⟩
      · exact hcol
      · exact absurd (hempty 0 (lineCount_pos cs)) hline

/-- Three lines of which none is the first, and two of which one is: it lacks a caret. -/
theorem render_underlines_iff_lines :
    let place (text : String) (idx ln col : Nat) : Position := ⟨⟨"", text⟩, idx, ln, col⟩
    let later := "x\nab\n\ncd"
    let first := "ab\ncd"
    Spans later.toList (place later 3 1 1) (place later 7 3 1) ∧
      Underlines later.toList (place later 3 1 1) (place later 7 3 1)
        (render later (place later 3 1 1) (place later 7 3 1)).toList ∧
    Spans first.toList (place first 0 0 0) (place first 4 1 1) ∧
      ¬ Underlines first.toList (place first 0 0 0) (place first 4 1 1)
        (render first (place first 0 0 0) (place first 4 1 1)).toList ∧
      render first (place first 0 0 0) (place first 4 1 1) = "ab\n^\ncd\n^" := by
  intro place later first
  have hlater : Spans later.toList (place later 3 1 1) (place later 7 3 1) :=
    ⟨⟨by decide, by decide⟩, ⟨by decide, by decide⟩, by decide, by decide⟩
  have hfirst : Spans first.toList (place first 0 0 0) (place first 4 1 1) :=
    ⟨⟨by decide, by decide⟩, ⟨by decide, by decide⟩, by decide, by decide⟩
  refine ⟨hlater, ?_, hfirst, ?_, by decide⟩
  · exact (render_underlines_iff later _ _ (by decide) hlater).mpr (by decide)
  · exact fun h => absurd ((render_underlines_iff first _ _ (by decide) hfirst).mp h) (by decide)

end Think.Excerpt
