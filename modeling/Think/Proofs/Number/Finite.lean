import Mathlib
import Think.Proofs.Number.Truth

/-! # Finite doubles

A double is finite just if its exponent is not all ones, and then it has an integer part. An
integer has a double next to it just if it lies nearer to the largest double than to the power of
two behind it.
-/

namespace Think.Binary64

open Float.Model UnpackedFloat

variable {x : Float} {n : Int} {num den k : Nat}

theorem isFinite_unpack (b : BitVec Format.binary64.numBits) :
    (UnpackedFloat.unpack Format.binary64 b).isFinite = true ↔ unpackExponent b ≠ -1#_ := by
  unfold UnpackedFloat.unpack
  dsimp only
  split
  · next h => split <;> simp [h, UnpackedFloat.isFinite]
  · next h =>
    refine iff_of_true ?_ h
    split
    · split <;> rfl
    · rfl

theorem unpackExponent_pack_neg (u : UnpackedFloat) :
    unpackExponent (UnpackedFloat.pack Format.binary64 u.neg) =
      unpackExponent (UnpackedFloat.pack Format.binary64 u) := by
  cases u with
  | notANumber => rfl
  | infinity s =>
    simp [UnpackedFloat.neg, UnpackedFloat.pack, packedInfinity, unpackExponent_packComponents]
  | zero s =>
    simp [UnpackedFloat.neg, UnpackedFloat.pack, packedZero, unpackExponent_packComponents]
  | finite s m e hm =>
    simp only [UnpackedFloat.neg, UnpackedFloat.pack]
    split
    · simp [packedInfinity, unpackExponent_packComponents]
    · split <;> simp [unpackExponent_packComponents]

def storedExponent (x : Float) : BitVec Format.binary64.exponentBits :=
  @unpackExponent Format.binary64 x.toModel.toBits.toBitVec

theorem toNat_storedExponent (x : Float) :
    (storedExponent x).toNat = x.toBits.toNat / Nat.pow 2 52 % Nat.pow 2 11 :=
  toNat_unpackExponent _

theorem isFinite_iff : x.isFinite = true ↔ storedExponent x ≠ -1#_ := isFinite_unpack _

theorem storedExponent_neg (x : Float) : storedExponent (-x) = storedExponent x := by
  refine (unpackExponent_pack_neg _).trans ?_
  exact congrArg unpackExponent (pack_unpack_of_valid x.toModel.valid (by decide))

theorem isFinite_signed (negative : Bool) (x : Float) :
    (signed negative x).isFinite = x.isFinite := by
  cases negative with
  | false => rfl
  | true =>
    change (-x).isFinite = x.isFinite
    rw [Bool.eq_iff_iff, isFinite_iff, isFinite_iff, storedExponent_neg]

theorem storedExponent_ofBits (b : UInt64) :
    storedExponent (.ofBits b) = @unpackExponent Format.binary64 b.toBitVec := by
  change @unpackExponent Format.binary64 (UnpackedFloat.pack _ (UnpackedFloat.unpack _ _)) = _
  rw [pack_unpack _ (by decide)]
  split
  · next h =>
    have hones : @unpackExponent Format.binary64 b.toBitVec = -1#_ := by
      simp only [isNaNBits, decide_eq_true_eq] at h
      exact h.1
    rw [hones]
    rfl
  · rfl

theorem isFinite_eq_false : x.isFinite = false ↔ x.isNaN = true ∨ x.isInf = true := by
  change x.toModel.unpack.isFinite = false ↔
    x.toModel.unpack.isNaN = true ∨ x.toModel.unpack.isInf = true
  cases x.toModel.unpack <;>
    simp [UnpackedFloat.isFinite, UnpackedFloat.isNaN, UnpackedFloat.isInf]

theorem decode?_eq_none : decode? x = none ↔ x.isFinite = false := by
  have hones : x.isFinite = false ↔ (storedExponent x).toNat = 2047 := by
    rw [← Bool.not_eq_true, isFinite_iff, not_not, ← BitVec.toNat_inj]
    rfl
  rw [hones, toNat_storedExponent]
  unfold decode?
  dsimp only
  split
  · next h => simpa using h
  · next h => split <;> simpa using h

/-- A double has an integer part unless it is infinite or not a number. -/
theorem truncate?_eq_none : truncate? x = none ↔ x.isNaN = true ∨ x.isInf = true := by
  rw [truncate?, Option.map_eq_none_iff, decode?_eq_none, isFinite_eq_false]

theorem roundDiv_eq (num den : Nat) :
    roundDiv num den = num / den ∨ roundDiv num den = num / den + 1 := by
  unfold roundDiv
  dsimp only
  split
  · exact .inr rfl
  · exact .inl rfl

/-- A quotient is rounded below an even number just if it is more than half a unit below it. -/
theorem roundDiv_lt_even (hden : 0 < den) :
    roundDiv num den < 2 * k ↔ 2 * num + den < 4 * k * den := by
  have hdiv := Nat.div_add_mod num den
  have hmod := Nat.mod_lt num hden
  unfold roundDiv
  dsimp only
  generalize num / den = q at hdiv ⊢
  generalize num % den = r at hdiv hmod ⊢
  obtain hlt | heq | hgt : q + 1 < 2 * k ∨ q + 1 = 2 * k ∨ 2 * k ≤ q := by omega
  · have hmul : den * (q + 2) ≤ den * (2 * k) := Nat.mul_le_mul_left den hlt
    refine iff_of_true ?_ ?_
    · split <;> omega
    · linarith
  · have hodd : q % 2 = 1 := by omega
    have hmul : den * (q + 1) = den * (2 * k) := by rw [heq]
    simp only [hodd, beq_self_eq_true, Bool.and_true, Bool.or_eq_true, decide_eq_true_eq,
      beq_iff_eq]
    constructor
    · intro h
      have hr : 2 * r < den := by
        by_contra hge
        rw [if_pos (by omega)] at h
        omega
      linarith
    · intro h
      have hr : 2 * r < den := by linarith
      rw [if_neg (by omega)]
      omega
  · have hmul : den * (2 * k) ≤ den * q := Nat.mul_le_mul_left den hgt
    refine iff_of_false ?_ ?_
    · split <;> omega
    · linarith

/-- A number in units of the power of two that gives it `b + 1` bits. -/
theorem scaled_bounds (hnum : num ≠ 0) (b : Nat) :
    2 ^ (num.log2 - b) * 2 ^ b ≤ num * 2 ^ (b - num.log2) ∧
      num * 2 ^ (b - num.log2) < 2 ^ (num.log2 - b) * 2 ^ (b + 1) := by
  have hlow := Nat.log2_self_le hnum
  have hhigh := Nat.lt_log2_self (n := num)
  obtain h | h := Nat.le_total num.log2 b
  · rw [Nat.sub_eq_zero_of_le h, pow_zero, one_mul, one_mul]
    have hlog : 2 ^ num.log2 * 2 ^ (b - num.log2) = 2 ^ b := by
      rw [← pow_add, Nat.add_sub_cancel' h]
    refine ⟨hlog ▸ Nat.mul_le_mul_right _ hlow, ?_⟩
    calc num * 2 ^ (b - num.log2) < 2 ^ (num.log2 + 1) * 2 ^ (b - num.log2) := by gcongr
      _ = 2 ^ (b + 1) := by rw [pow_succ, pow_succ, ← hlog]; ring
  · rw [Nat.sub_eq_zero_of_le h, pow_zero, mul_one, ← pow_add, ← pow_add,
      Nat.sub_add_cancel h, ← Nat.add_assoc, Nat.sub_add_cancel h]
    exact ⟨hlow, hhigh⟩

theorem scale_one (hnum : num ≠ 0) : scale num 1 = (num.log2 : Int) - 52 := by
  have hone : Nat.log2 1 = 0 := rfl
  have hexponent : ((num.log2 : Int) - Nat.log2 1 - 53).toNat = num.log2 - 53 := by omega
  have hshift : (-((num.log2 : Int) - Nat.log2 1 - 53)).toNat = 53 - num.log2 := by omega
  have hlarge := (scaled_bounds hnum 53).1
  unfold scale
  simp only [Nat.pow_eq, Nat.one_mul]
  rw [hexponent, hshift, if_neg (Nat.not_lt_of_le hlarge)]
  omega

theorem isFinite_ofBits (hk : k < 0x7ff0000000000000) :
    (Float.ofBits k.toUInt64).isFinite = true := by
  have hbits : k.toUInt64.toBitVec.toNat = k := Nat.mod_eq_of_lt (by omega)
  have hones : (-1#11).toNat = 2047 := rfl
  rw [isFinite_iff, storedExponent_ofBits, ne_eq, ← BitVec.toNat_inj, toNat_unpackExponent, hbits,
    hones]
  simp only [Nat.pow_eq]
  omega

/-- The bits of the double next to a number, the exponent being counted up on overflow. -/
theorem nearest_one (negative : Bool) (hnum : num ≠ 0) :
    nearest negative num 1 =
      let bits := (num.log2 + 1022) * 2 ^ 52 +
        roundDiv (num * 2 ^ (52 - num.log2)) (2 ^ (num.log2 - 52))
      if bits < 0x7ff0000000000000 then signed negative (Float.ofBits bits.toUInt64)
      else signed negative infinity := by
  have hexponent : ((num.log2 : Int) - 52).toNat = num.log2 - 52 := by omega
  have hshift : (-((num.log2 : Int) - 52)).toNat = 52 - num.log2 := by omega
  have hbiased : ((num.log2 : Int) - 52 + 1074).toNat = num.log2 + 1022 := by omega
  unfold nearest
  rw [if_neg (by simpa using hnum)]
  dsimp only
  rw [scale_one hnum, hexponent, hshift, hbiased, Nat.one_mul]
  rfl

theorem isFinite_nearest_one (negative : Bool) (hnum : num ≠ 0) :
    (nearest negative num 1).isFinite = true ↔
      (num.log2 + 1022) * 2 ^ 52 +
        roundDiv (num * 2 ^ (52 - num.log2)) (2 ^ (num.log2 - 52)) < 0x7ff0000000000000 := by
  rw [nearest_one negative hnum]
  dsimp only
  split
  · next h => exact iff_of_true (by rw [isFinite_signed]; exact isFinite_ofBits h) h
  · next h => exact iff_of_false (by rw [isFinite_signed]; decide) h

theorem roundDiv_scaled_bounds (hnum : num ≠ 0) :
    2 ^ 52 ≤ roundDiv (num * 2 ^ (52 - num.log2)) (2 ^ (num.log2 - 52)) ∧
      roundDiv (num * 2 ^ (52 - num.log2)) (2 ^ (num.log2 - 52)) ≤ 2 ^ 53 := by
  obtain ⟨hmin, hmax⟩ := scaled_bounds hnum 52
  have hden : 0 < 2 ^ (num.log2 - 52) := by positivity
  have hlow : 2 ^ 52 ≤ num * 2 ^ (52 - num.log2) / 2 ^ (num.log2 - 52) :=
    (Nat.le_div_iff_mul_le hden).mpr (by rwa [mul_comm])
  have hhigh : num * 2 ^ (52 - num.log2) / 2 ^ (num.log2 - 52) < 2 ^ 53 :=
    (Nat.div_lt_iff_lt_mul hden).mpr (by rwa [mul_comm (2 ^ 53)])
  have hround := roundDiv_eq (num * 2 ^ (52 - num.log2)) (2 ^ (num.log2 - 52))
  omega

/-- The least number that is rounded to a power of two beyond the largest double. -/
def overflow : Nat := 2 ^ 1024 - 2 ^ 970

theorem isFinite_nearest_one_iff (negative : Bool) :
    (nearest negative num 1).isFinite = true ↔ num < overflow := by
  have h1024 : (2 : Nat) ^ 1024 = 2 ^ 54 * 2 ^ 970 := by rw [← pow_add]
  have hoverflow : overflow = 2 ^ 54 * 2 ^ 970 - 2 ^ 970 := by rw [overflow, h1024]
  have hunit : 0 < 2 ^ 970 := by positivity
  by_cases hnum : num = 0
  · subst hnum
    refine iff_of_true ?_ ?_
    · exact (isFinite_signed negative 0.0).trans (by decide)
    · omega
  rw [isFinite_nearest_one negative hnum]
  have hlow := Nat.log2_self_le hnum
  have hhigh := Nat.lt_log2_self (n := num)
  have hround := roundDiv_scaled_bounds hnum
  obtain hlog | hlog | hlog : num.log2 < 1023 ∨ num.log2 = 1023 ∨ 1023 < num.log2 := by omega
  · refine iff_of_true (by omega) ?_
    have hpow : 2 ^ (num.log2 + 1) ≤ 2 ^ (53 + 970) :=
      Nat.pow_le_pow_right (by decide) (by omega)
    rw [pow_add 2 53] at hpow
    omega
  · have h971 : (2 : Nat) ^ 971 = 2 * 2 ^ 970 := by rw [← pow_succ']
    have hhalf : roundDiv num (2 ^ 971) < 2 * 2 ^ 52 ↔ _ := roundDiv_lt_even (by positivity)
    rw [hlog, show 52 - 1023 = 0 from rfl, pow_zero, mul_one, show 1023 - 52 = 971 from rfl]
    constructor
    · intro h
      have := hhalf.mp (by omega)
      omega
    · intro h
      have := hhalf.mpr (by omega)
      omega
  · refine iff_of_false (by omega) ?_
    have hpow : 2 ^ 1024 ≤ 2 ^ num.log2 := Nat.pow_le_pow_right (by decide) hlog
    omega

theorem ofInt?_eq_none : ofInt? n = none ↔ overflow ≤ n.natAbs := by
  unfold ofInt?
  dsimp only
  rw [← Nat.not_lt, ← isFinite_nearest_one_iff (decide (n < 0))]
  split
  · next h => simp [h]
  · next h => simp [h]

end Think.Binary64
