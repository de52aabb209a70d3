import Mathlib.Data.List.DropRight
import Think.Position

/-! # Lines of a text

The lines of a text are what stands between its line breaks. An index stands on the line with as
many breaks before it, in the column counted from the last of them. The break that ends a line
stands on the line, behind its last column. -/

namespace Think

namespace Text

/-- The number of the line on which the index stands. -/
def lineNumber (cs : List Char) (i : Nat) : Nat := (cs.take i).count '\n'

/-- The index just behind the last line break before `i`, or 0. -/
def lineStart (cs : List Char) (i : Nat) : Nat := ((cs.take i).rdropWhile (· ≠ '\n')).length

def lineCount (cs : List Char) : Nat := (cs.splitOn '\n').length

/-- The line with the given number, without the break behind it. -/
def lineAt (cs : List Char) (l : Nat) : List Char := (cs.splitOn '\n')[l]?.getD []

def lineOffset (cs : List Char) : (l : Nat) → Nat
  | 0 => 0
  | l + 1 => lineOffset cs l + (lineAt cs l).length + 1

variable {cs u v w x : List Char} {i l : Nat}

theorem lineCount_pos (cs : List Char) : 0 < lineCount cs :=
  List.length_pos_iff.mpr (List.splitOn_ne_nil _ _)

theorem newline_notMem_lineAt (cs : List Char) (l : Nat) : '\n' ∉ lineAt cs l := by
  have hpiece {ds : List Char} : ∀ line ∈ ds.splitOnP (· == '\n'), '\n' ∉ line := by
    induction ds with
    | nil => simp [List.splitOnP_nil]
    | cons c ds ih =>
      rw [List.splitOnP_cons_eq_if_modifyHead]
      obtain ⟨first, rest, hsplit⟩ :=
        List.exists_cons_of_ne_nil (List.splitOnP_ne_nil (· == '\n') ds)
      rw [hsplit] at ih ⊢
      by_cases hc : c = '\n'
      · simpa [hc] using ih
      · simpa [hc, Ne.symm hc] using ih
  unfold lineAt
  rcases h : (cs.splitOn '\n')[l]? with _ | line
  · simp
  · exact hpiece line (List.mem_of_getElem? h)

theorem drop_splitOn (h : l < lineCount cs) :
    (cs.splitOn '\n').drop l = lineAt cs l :: (cs.splitOn '\n').drop (l + 1) := by
  rw [List.drop_eq_getElem_cons h, lineAt, List.getElem?_eq_getElem h, Option.getD_some]

/-- From the start of a line on, the text is that line and those behind it. -/
theorem drop_lineOffset (h : l < lineCount cs) :
    cs.drop (lineOffset cs l) = ['\n'].intercalate ((cs.splitOn '\n').drop l) := by
  induction l with
  | zero => exact (List.intercalate_splitOn '\n').symm
  | succ l ih =>
    have hl : l < lineCount cs := by omega
    rw [lineOffset, Nat.add_assoc, ← List.drop_drop, ih hl, drop_splitOn hl, drop_splitOn h]
    simp [List.intercalate_cons_cons]

theorem drop_lineOffset_succ (h : l + 1 < lineCount cs) :
    cs.drop (lineOffset cs l) = lineAt cs l ++ '\n' :: cs.drop (lineOffset cs (l + 1)) := by
  rw [drop_lineOffset (by omega), drop_lineOffset h, drop_splitOn (by omega), drop_splitOn h]
  simp [List.intercalate_cons_cons]

theorem drop_lineOffset_last (h : l + 1 = lineCount cs) :
    cs.drop (lineOffset cs l) = lineAt cs l := by
  rw [drop_lineOffset (by omega), drop_splitOn (by omega),
    List.drop_of_length_le (Nat.le_of_eq h.symm)]
  simp

theorem exists_tail (h : l < lineCount cs) : ∃ tail,
    cs.drop (lineOffset cs l) = lineAt cs l ++ tail ∧ tail.head?.all (· = '\n') := by
  rcases Nat.lt_or_ge (l + 1) (lineCount cs) with hnext | hlast
  · exact ⟨_, drop_lineOffset_succ hnext, by simp⟩
  · exact ⟨[], by rw [drop_lineOffset_last (by omega), List.append_nil], rfl⟩

theorem lineOffset_le (h : l < lineCount cs) : lineOffset cs l ≤ cs.length := by
  cases l with
  | zero => exact Nat.zero_le _
  | succ l =>
    have hlength := congrArg List.length (drop_lineOffset_succ h)
    rw [List.length_drop, List.length_append, List.length_cons] at hlength
    rw [lineOffset]
    omega

theorem lineOffset_lt (cs : List Char) {l l' : Nat} (h : l < l') :
    lineOffset cs l + (lineAt cs l).length < lineOffset cs l' := by
  induction h with
  | refl => exact Nat.lt_succ_self _
  | step _ ih =>
    rw [lineOffset]
    omega

theorem take_lineOffset_add (h : l < lineCount cs) (hi : i ≤ (lineAt cs l).length) :
    cs.take (lineOffset cs l + i) = cs.take (lineOffset cs l) ++ (lineAt cs l).take i := by
  obtain ⟨tail, htail, -⟩ := exists_tail h
  rw [List.take_add, htail, List.take_append_of_le_length hi]

theorem take_lineOffset_succ (h : l + 1 < lineCount cs) :
    cs.take (lineOffset cs (l + 1)) = cs.take (lineOffset cs l) ++ lineAt cs l ++ ['\n'] := by
  rw [lineOffset, Nat.add_assoc, List.take_add, drop_lineOffset_succ h]
  simp [List.take_length_add_append]

theorem lineNumber_lineOffset_add (h : l < lineCount cs) (hi : i ≤ (lineAt cs l).length) :
    lineNumber cs (lineOffset cs l + i) = l := by
  have hclean (k l : Nat) : ((lineAt cs l).take k).count '\n' = 0 :=
    List.count_eq_zero.mpr fun hmem => newline_notMem_lineAt cs l (List.mem_of_mem_take hmem)
  have hstart {l : Nat} (h : l < lineCount cs) : (cs.take (lineOffset cs l)).count '\n' = l := by
    induction l with
    | zero => simp [lineOffset]
    | succ l ih =>
      have hline := hclean (lineAt cs l).length l
      rw [List.take_length] at hline
      rw [take_lineOffset_succ h, List.count_append, List.count_append, ih (by omega), hline]
      rfl
  rw [lineNumber, take_lineOffset_add h hi, List.count_append, hstart h, hclean, Nat.add_zero]

theorem lineStart_lineOffset_add (h : l < lineCount cs) (hi : i ≤ (lineAt cs l).length) :
    lineStart cs (lineOffset cs l + i) = lineOffset cs l := by
  have hclean : ∀ c ∈ ((lineAt cs l).take i).reverse, decide (c ≠ '\n') = true := by
    intro c hc
    refine decide_eq_true fun heq => newline_notMem_lineAt cs l ?_
    exact heq ▸ List.mem_of_mem_take (List.mem_reverse.mp hc)
  rw [lineStart, take_lineOffset_add h hi, List.rdropWhile, List.reverse_append,
    List.dropWhile_append_of_pos hclean, ← List.rdropWhile]
  cases l with
  | zero => simp [lineOffset]
  | succ l =>
    rw [take_lineOffset_succ h, List.rdropWhile_concat_neg _ _ _ (by simp),
      ← take_lineOffset_succ h,
      List.length_take, Nat.min_eq_left (lineOffset_le h)]

theorem exists_line (h : i ≤ cs.length) :
    ∃ l c, l < lineCount cs ∧ c ≤ (lineAt cs l).length ∧ i = lineOffset cs l + c := by
  have hfrom (k l : Nat) (hk : lineCount cs = l + 1 + k) (hl : lineOffset cs l ≤ i) :
      ∃ l c, l < lineCount cs ∧ c ≤ (lineAt cs l).length ∧ i = lineOffset cs l + c := by
    induction k generalizing l with
    | zero =>
      have hlength := congrArg List.length (drop_lineOffset_last hk.symm)
      rw [List.length_drop] at hlength
      exact ⟨l, i - lineOffset cs l, by omega, by omega, by omega⟩
    | succ k ih =>
      rcases Nat.lt_or_ge (lineOffset cs l + (lineAt cs l).length) i with hlt | hge
      · exact ih (l + 1) (by omega) (by rw [lineOffset]; omega)
      · exact ⟨l, i - lineOffset cs l, by omega, by omega, by omega⟩
  have := lineCount_pos cs
  exact hfrom (lineCount cs - 1) 0 (by omega) (Nat.zero_le _)

/-- Two texts up to the first place with some character are the same if the texts are. -/
theorem append_inj_of_notMem {c : Char} (hu : c ∉ u) (hv : c ∉ v) (hw : w.head? = some c)
    (hx : x.head? = some c) : u ++ w = v ++ x ↔ u = v ∧ w = x := by
  refine ⟨fun h => ?_, fun ⟨huv, hwx⟩ => by rw [huv, hwx]⟩
  have htake {a b : List Char} (ha : c ∉ a) (hb : b.head? = some c) :
      (a ++ b).takeWhile (· ≠ c) = a := by
    obtain ⟨b, rfl⟩ := List.head?_eq_some_iff.mp hb
    have hclean : ∀ d ∈ a, decide (d ≠ c) = true :=
      fun d hd => decide_eq_true fun heq : d = c => ha (heq ▸ hd)
    rw [List.takeWhile_append_of_pos hclean]
    simp
  have huv : u = v := by rw [← htake hu hw, ← htake hv hx, h]
  exact ⟨huv, List.append_cancel_left (huv ▸ h)⟩

/-- Deciding this of the characters themselves spares the kernel from decoding a text. -/
theorem notMem_of_chars {c : Char} {cs : List Char} (h : c ∉ cs) :
    c ∉ (String.ofList cs).toList := by
  rwa [String.toList_ofList]

end Text

/-- The line and the column are those of the index in the text. -/
structure Position.IsIn (p : Position) (cs : List Char) : Prop where
  ln : p.ln = Text.lineNumber cs p.idx
  col : p.col = p.idx - Text.lineStart cs p.idx

theorem Position.IsIn.exists_line {p : Position} {cs : List Char} (h : p.IsIn cs)
    (hidx : p.idx ≤ cs.length) : p.ln < Text.lineCount cs ∧
      p.col ≤ (Text.lineAt cs p.ln).length ∧ p.idx = Text.lineOffset cs p.ln + p.col := by
  obtain ⟨l, c, hl, hc, hi⟩ := Text.exists_line hidx
  have hln : p.ln = l := by rw [h.ln, hi, Text.lineNumber_lineOffset_add hl hc]
  have hcol : p.col = c := by
    rw [h.col, hi, Text.lineStart_lineOffset_add hl hc, Nat.add_sub_cancel_left]
  rw [hln, hcol]
  exact ⟨hl, hc, hi⟩

end Think
