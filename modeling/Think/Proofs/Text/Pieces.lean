import Mathlib.Data.List.Basic
import Think.Text.Split

/-! # Cutting a text at a separator

A text is cut at the occurrences of a separator, each the first one behind the one before it.
Splitting gives the pieces of this cut, and replacing puts another text between them.
-/

namespace Think.Text

variable {sep s t piece rest : List Char} {pieces : List (List Char)} {i : Nat}

/-- The separator is found at the places in turn when the text is gone through from the place `i`
on, and no occurrence overlaps with the one before. -/
inductive Finds (sep s : List Char) : (i : Nat) → (places : List Nat) → Prop
  | none {i : Nat} (h : ∀ j, i ≤ j → ¬ sep <+: s.drop j) : Finds sep s i []
  | next {i j : Nat} {places : List Nat} (hij : i ≤ j) (hj : sep <+: s.drop j)
    (hfirst : ∀ k, i ≤ k → k < j → ¬ sep <+: s.drop k) (h : Finds sep s (j + sep.length) places) :
    Finds sep s i (j :: places)

theorem Finds.unique {places places' : List Nat} (h : Finds sep s i places)
    (h' : Finds sep s i places') : places = places' := by
  induction h generalizing places' with
  | none hnone =>
    cases h' with
    | none => rfl
    | next hij hj => exact absurd hj (hnone _ hij)
  | @next i j places hij hj hfirst _ ih =>
    cases h' with
    | none hnone => exact absurd hj (hnone j hij)
    | @next _ j' places' hij' hj' hfirst' hrest =>
      obtain hlt | rfl | hlt := Nat.lt_trichotomy j j'
      · exact absurd hj (hfirst' j hij hlt)
      · rw [ih hrest]
      · exact absurd hj' (hfirst j' hij' hlt)

/-- The text is cut into the pieces by the occurrences of the separator, each the first one behind
the one before. -/
inductive Cuts (sep : List Char) : (s : List Char) → (pieces : List (List Char)) → Prop
  | whole {s : List Char} (h : ¬ sep <:+: s) : Cuts sep s [s]
  | cut {piece rest : List Char} {pieces : List (List Char)}
    (hfirst : ∀ j < piece.length, ¬ sep <+: (piece ++ (sep ++ rest)).drop j)
    (h : Cuts sep rest pieces) : Cuts sep (piece ++ (sep ++ rest)) (piece :: pieces)

theorem free_of_drop (hsep : sep ≠ []) (h : ∀ j < s.length, ¬ sep <+: (s ++ t).drop j) :
    ¬ sep <:+: s := by
  rintro ⟨front, back, rfl⟩
  have hpos := List.length_pos_iff.mpr hsep
  refine h front.length (by simp; omega) ?_
  rw [List.append_assoc, List.append_assoc, List.drop_left]
  exact List.prefix_append _ _

namespace Cuts

theorem ne_nil (h : Cuts sep s pieces) : pieces ≠ [] := by
  cases h <;> simp

theorem intercalate_eq (h : Cuts sep s pieces) : sep.intercalate pieces = s := by
  induction h with
  | whole => exact List.intercalate_singleton
  | @cut piece rest pieces _ h ih =>
    obtain ⟨next, more, rfl⟩ := List.exists_cons_of_ne_nil h.ne_nil
    rw [List.intercalate_cons_cons, ih, List.append_assoc]

theorem free (hsep : sep ≠ []) (h : Cuts sep s pieces) : ∀ p ∈ pieces, ¬ sep <:+: p := by
  induction h with
  | whole hs => simpa using hs
  | cut hfirst _ ih =>
    rintro p (_ | ⟨_, hp⟩)
    · exact free_of_drop hsep hfirst
    · exact ih p hp

theorem exists_finds (h : Cuts sep t pieces) (front : List Char) :
    ∃ places, Finds sep (front ++ t) front.length places ∧ pieces.length = places.length + 1 := by
  induction h generalizing front with
  | whole ht =>
    refine ⟨[], .none fun j hj hsep => ht ?_, rfl⟩
    obtain ⟨k, rfl⟩ := Nat.exists_eq_add_of_le hj
    rw [List.drop_length_add_append] at hsep
    exact hsep.isInfix.trans (List.drop_suffix _ _).isInfix
  | @cut piece rest pieces hfirst _ ih =>
    obtain ⟨places, hplaces, hlength⟩ := ih (front ++ (piece ++ sep))
    refine ⟨(front.length + piece.length) :: places, .next (Nat.le_add_right _ _) ?_ ?_ ?_, ?_⟩
    · rw [List.drop_length_add_append, List.drop_left]
      exact List.prefix_append _ _
    · intro k hk hlt
      obtain ⟨j, rfl⟩ := Nat.exists_eq_add_of_le hk
      rw [List.drop_length_add_append]
      exact hfirst j (by omega)
    · simpa [Nat.add_assoc] using hplaces
    · simpa using hlength

end Cuts

theorem eq_append_of_isPrefixOf {c : Char} (hsep : sep ≠ [])
    (h : sep.isPrefixOf (c :: rest) = true) : c :: rest = sep ++ rest.drop (sep.length - 1) := by
  obtain ⟨d, sep', rfl⟩ := List.exists_cons_of_ne_nil hsep
  rw [List.isPrefixOf_iff_prefix, List.prefix_iff_eq_append] at h
  exact h.symm

/-- Splitting cuts what is left of the text behind the latest occurrence. -/
theorem cuts_piecesFrom (hsep : sep ≠ []) (piece : List Char) (k : Nat) (t : List Char)
    (hfree : ∀ j < piece.length, ¬ sep <+: (piece.reverse ++ t.drop k).drop j) :
    Cuts sep (piece.reverse ++ t.drop k) (piecesFrom sep piece k t) := by
  fun_induction piecesFrom sep piece k t with
  | case1 k piece =>
    rw [List.drop_nil] at hfree ⊢
    rw [List.append_nil]
    exact .whole (free_of_drop (t := []) hsep (by simpa using hfree))
  | case2 piece k c rest ih => exact ih hfree
  | case3 piece c rest hprefix ih =>
    have hrest : (c :: rest).drop 0 = sep ++ rest.drop (sep.length - 1) :=
      eq_append_of_isPrefixOf hsep hprefix
    rw [hrest] at hfree ⊢
    exact .cut (by simpa using hfree) (ih (by simp))
  | case4 piece c rest hprefix ih =>
    have hmove : (c :: piece).reverse ++ rest.drop 0 = piece.reverse ++ (c :: rest).drop 0 := by
      simp
    rw [hmove] at ih
    refine ih fun j hj => ?_
    obtain hlt | rfl := Nat.lt_succ_iff_lt_or_eq.mp hj
    · exact hfree j hlt
    · rw [← List.length_reverse, List.drop_left]
      rwa [List.drop_zero, ← List.isPrefixOf_iff_prefix]

theorem cuts_split {s sep : String} (hsep : sep ≠ "") :
    Cuts sep.toList s.toList ((split s sep).map String.toList) := by
  have hcuts := cuts_piecesFrom (mt String.toList_eq_nil_iff.mp hsep) [] 0 s.toList (by simp)
  have hpieces : (split s sep).map String.toList = piecesFrom sep.toList [] 0 s.toList := by
    simp [split]
  rwa [hpieces]

theorem replaceFrom_drop (old new : List Char) (k : Nat) (t : List Char) :
    replaceFrom old new k t = replaceFrom old new 0 (t.drop k) := by
  induction k generalizing t with
  | zero => rfl
  | succ k ih =>
    cases t with
    | nil => simp [replaceFrom]
    | cons c t =>
      rw [replaceFrom, ih]
      rfl

theorem replaceFrom_append {old : List Char} (new : List Char)
    (hfree : ∀ j < piece.length, ¬ old <+: (piece ++ t).drop j) :
    replaceFrom old new 0 (piece ++ t) = piece ++ replaceFrom old new 0 t := by
  induction piece with
  | nil => rfl
  | cons c piece ih =>
    have hhead := hfree 0 (Nat.succ_pos _)
    rw [List.drop_zero, List.cons_append, ← List.isPrefixOf_iff_prefix] at hhead
    rw [List.cons_append, replaceFrom, if_neg hhead,
      ih fun j hj => hfree (j + 1) (Nat.succ_lt_succ hj)]
    rfl

theorem Cuts.replaceFrom_eq (hsep : sep ≠ []) (h : Cuts sep s pieces) (new : List Char) :
    replaceFrom sep new 0 s = new.intercalate pieces := by
  induction h with
  | @whole s hs =>
    have hfree : ∀ j < s.length, ¬ sep <+: (s ++ []).drop j := fun j _ hj =>
      hs ((List.append_nil s ▸ hj).isInfix.trans (List.drop_suffix _ _).isInfix)
    have hall := replaceFrom_append new hfree
    rw [List.append_nil] at hall
    rw [List.intercalate_singleton, hall, replaceFrom, List.append_nil]
  | @cut piece rest pieces hfirst h ih =>
    obtain ⟨c, sep', rfl⟩ := List.exists_cons_of_ne_nil hsep
    obtain ⟨next, more, rfl⟩ := List.exists_cons_of_ne_nil h.ne_nil
    have hhead : (c :: sep').isPrefixOf (c :: (sep' ++ rest)) = true := by
      rw [List.isPrefixOf_iff_prefix]
      exact List.prefix_append (c :: sep') rest
    rw [replaceFrom_append new hfirst, List.cons_append, replaceFrom, if_pos hhead,
      replaceFrom_drop, List.length_cons, Nat.add_sub_cancel, List.drop_left, ih,
      List.intercalate_cons_cons, List.append_assoc]

variable {s sep : String}

theorem join_split (hsep : sep ≠ "") : join sep (split s sep) = s := by
  rw [join, ← String.toList_inj, String.toList_intercalate]
  exact (cuts_split hsep).intercalate_eq

theorem replace_eq_join (hsep : sep ≠ "") (new : String) :
    replace s sep new = join new (split s sep) := by
  rw [replace, if_neg (by simpa using hsep), join, ← String.toList_inj, String.toList_ofList,
    String.toList_intercalate]
  exact (cuts_split hsep).replaceFrom_eq (mt String.toList_eq_nil_iff.mp hsep) new.toList

theorem free_of_mem_split (hsep : sep ≠ "") {p : String} (hp : p ∈ split s sep) :
    ¬ sep.toList <:+: p.toList :=
  (cuts_split hsep).free (mt String.toList_eq_nil_iff.mp hsep) p.toList
    (List.mem_map_of_mem hp)

theorem length_split (hsep : sep ≠ "") : ∃ places, Finds sep.toList s.toList 0 places ∧
    (split s sep).length = places.length + 1 := by
  obtain ⟨places, hplaces, hlength⟩ := (cuts_split (s := s) hsep).exists_finds []
  exact ⟨places, hplaces, by simpa using hlength⟩

end Think.Text
