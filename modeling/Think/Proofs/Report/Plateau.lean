import Mathlib
import Think.Proofs.Text.Lines
import Think.Report

/-! # When a series of rounds is over

The plateau that is carried from round to round is that of the whole series: its lowest number, and
how many rounds came after the first that had it. So whether a series is over can be read off the
series itself, and the last line of a report tells just that.
-/

namespace Think.Report

namespace Plateau

/-- The lowest number of the series stands there first with so many rounds behind it. -/
def IsOf (p : Plateau) (series : List Int) : Prop :=
  ∃ before after, series = before ++ p.best :: after ∧ (∀ x ∈ before, p.best < x) ∧
    (∀ x ∈ after, p.best ≤ x) ∧ after.length = p.since

variable {p q : Plateau} {series : List Int}

/-- A round with a lower number starts a new plateau; one with the same number does not. -/
theorem IsOf.step (h : p.IsOf series) (n : Int) : (p.step n).IsOf (series ++ [n]) := by
  obtain ⟨before, after, rfl, hbefore, hafter, hsince⟩ := h
  unfold Plateau.step
  split
  · next hlower =>
    refine ⟨before ++ p.best :: after, [], rfl, ?_, by simp, rfl⟩
    intro x hx
    rcases List.mem_append.mp hx with hx | hx
    · exact Int.lt_trans hlower (hbefore x hx)
    · rcases List.mem_cons.mp hx with rfl | hx
      · exact hlower
      · exact Int.lt_of_lt_of_le hlower (hafter x hx)
  · next hlower =>
    refine ⟨before, after ++ [n], by simp, hbefore, ?_, by simp [hsince]⟩
    exact List.forall_mem_append.mpr ⟨hafter, by simpa using hlower⟩

theorem IsOf.best_le (h : p.IsOf series) : ∀ x ∈ series, p.best ≤ x := by
  obtain ⟨before, after, rfl, hbefore, hafter, -⟩ := h
  refine List.forall_mem_append.mpr ⟨fun x hx => Int.le_of_lt (hbefore x hx), ?_⟩
  exact List.forall_mem_cons.mpr ⟨Int.le_refl _, hafter⟩

theorem IsOf.best_mem (h : p.IsOf series) : p.best ∈ series := by
  obtain ⟨before, after, rfl, -⟩ := h
  simp

theorem IsOf.since_eq (h : p.IsOf series) : p.since + series.idxOf p.best + 1 = series.length := by
  obtain ⟨before, after, rfl, hbefore, -, hsince⟩ := h
  have hfirst : p.best ∉ before := fun hmem => Int.lt_irrefl _ (hbefore _ hmem)
  rw [List.idxOf_append_of_notMem hfirst, List.idxOf_cons_self, List.length_append,
    List.length_cons, hsince]
  omega

theorem IsOf.unique (h : p.IsOf series) (h' : q.IsOf series) : p = q := by
  have hbest : p.best = q.best :=
    Int.le_antisymm (h.best_le _ h'.best_mem) (h'.best_le _ h.best_mem)
  have hsince := h.since_eq
  rw [hbest, ← h'.since_eq] at hsince
  obtain ⟨best, since⟩ := p
  obtain ⟨best', since'⟩ := q
  dsimp only at hbest hsince
  rw [hbest, show since = since' by omega]

end Plateau

example : Stop.after? [4, 1, 5, 1] 2 = some (.settled ⟨1, 3⟩) := by decide

namespace Stop

end Stop

theorem getLast?_append {s t : String} {c : Char} (h : t.toList.getLast? = some c) :
    (s ++ t).toList.getLast? = some c := by
  rw [String.toList_append, List.getLast?_append, h]
  rfl

end Think.Report
