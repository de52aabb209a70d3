import Mathlib.Algebra.Order.Ring.Nat
import Think.World.Random

/-! # What the generator draws

A draw from a range tries until its bits fall into the range, and gives the lower end when all tries
have failed. So what is drawn lies in the range. As the generator can be run backwards, every
integer of a range of fewer than `2 ^ 31` is drawn in some state.
-/

namespace Think.Random

variable {a b : Int} {n k fuel state : Nat}

theorem modulus_eq : modulus = 2147483648 := rfl

/-- The multiplier is odd, so the generator can be run backwards. -/
theorem exists_next_eq {t : Nat} (ht : t < modulus) : ∃ state, next state = t := by
  refine ⟨(t + 2147471303) * 1857678181, ?_⟩
  rw [next]
  rw [modulus_eq] at ht ⊢
  omega

theorem bits_eq (hk : 0 < k) (hk' : k ≤ 31) (state : Nat) :
    bits k state = (next state / 2 ^ (31 - k), next state) := by
  have hcount : (k + 30) / 31 = 1 := by omega
  rw [bits, hcount]
  change ((0 * modulus + next state) / 2 ^ (31 * 1 - k), next state) = _
  rw [Nat.zero_mul, Nat.zero_add, Nat.mul_one]

/-- Each number below the bound is what the first try gives in some state. -/
theorem exists_below_eq (hk : k ≤ 30) (hn : n < 2 ^ (k + 1)) {r : Nat} (hr : r < n) (fuel : Nat) :
    ∃ state state', below n (k + 1) (fuel + 1) state = some (r, state') := by
  have hword : r * 2 ^ (31 - (k + 1)) < modulus := by
    calc r * 2 ^ (31 - (k + 1)) < 2 ^ (k + 1) * 2 ^ (31 - (k + 1)) :=
          Nat.mul_lt_mul_of_pos_right (Nat.lt_trans hr hn) (Nat.two_pow_pos _)
      _ = modulus := by
          rw [← Nat.pow_add, show k + 1 + (31 - (k + 1)) = 31 by omega]
          rfl
  obtain ⟨state, hstate⟩ := exists_next_eq hword
  refine ⟨state, r * 2 ^ (31 - (k + 1)), ?_⟩
  rw [below, bits_eq (Nat.succ_pos k) (by omega), hstate]
  dsimp only
  rw [Nat.mul_div_cancel _ (Nat.two_pow_pos _), if_pos hr]

theorem lt_of_below {r state' : Nat} (h : below n k fuel state = some (r, state')) : r < n := by
  induction fuel generalizing state with
  | zero => cases h
  | succ fuel ih =>
    rw [below] at h
    rcases bits k state with ⟨r', state''⟩
    dsimp only at h
    split at h
    · next hr =>
      cases h
      exact hr
    · exact ih h

/-- What is drawn from the range lies in it. -/
def Within (draw : Int → Int → Nat → Int × Nat) (low high : Int) : Prop :=
  ∀ state, low ≤ (draw low high state).1 ∧ (draw low high state).1 < high

/-- Each integer of the range is drawn in some state. -/
def Reaches (draw : Int → Int → Nat → Int × Nat) (low high : Int) : Prop :=
  ∀ r, low ≤ r → r < high → ∃ state, (draw low high state).1 = r

theorem within_range (h : a < b) : Within range a b := by
  intro state
  rw [range]
  split
  · next hbelow =>
    have := lt_of_below hbelow
    dsimp only
    omega
  · exact ⟨Int.le_refl a, h⟩

theorem log2_le (h : a < b) (hlt : b - a < 2 ^ 31) : Nat.log2 (b - a).toNat ≤ 30 := by
  rw [← Nat.lt_succ_iff, Nat.log2_lt (by omega)]
  omega

theorem reaches_range (hlt : b - a < 2 ^ 31) : Reaches range a b := by
  intro r hr hr'
  obtain ⟨state, state', hbelow⟩ := exists_below_eq (log2_le (by omega) hlt) Nat.lt_log2_self
    (show (r - a).toNat < (b - a).toNat by omega) 99999
  refine ⟨state, ?_⟩
  rw [range, hbelow]
  dsimp only
  omega

end Think.Random
