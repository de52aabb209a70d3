import Mathlib.Algebra.Order.Field.Power
import Mathlib.Data.Rat.Cast.Order
import Mathlib.Tactic.Positivity
import Think.Number.Arith

/-! # Zero and truth

A number counts as true just if it is not zero. The logical operators make integers of their
operands, so a fraction between minus one and one counts as true by itself and as false behind one
of them, and so does a text that is taken for a number and reads as zero.
-/

namespace Think

namespace Binary64

open Float.Model UnpackedFloat

variable {d : Exact} {x : Float}

/-- The value of a finite double. -/
def Exact.value (d : Exact) : ℚ := (if d.negative then -1 else 1) * (d.mantissa * 2 ^ d.exponent)

theorem Exact.abs_value (d : Exact) : |d.value| = d.mantissa * 2 ^ d.exponent := by
  have hpos : (0 : ℚ) ≤ d.mantissa * 2 ^ d.exponent := by positivity
  unfold value
  rw [abs_mul, abs_of_nonneg hpos]
  split <;> simp

theorem Exact.value_eq_zero : d.value = 0 ↔ d.mantissa = 0 := by
  have hpow : (2 : ℚ) ^ d.exponent ≠ 0 := zpow_ne_zero _ two_ne_zero
  rw [← abs_eq_zero, abs_value]
  simp [hpow]

/-- A double has no integer part just if it lies between minus one and one. -/
theorem truncate?_eq_zero (hx : decode? x = some d) : truncate? x = some 0 ↔ |d.value| < 1 := by
  have hpart : truncate? x = some 0 ↔
      d.mantissa * Nat.pow 2 d.exponent.toNat / Nat.pow 2 (-d.exponent).toNat = 0 := by
    unfold truncate?
    rw [hx, Option.map_some, Option.some_inj]
    generalize d.mantissa * Nat.pow 2 d.exponent.toNat / Nat.pow 2 (-d.exponent).toNat = magnitude
    cases d.negative <;> simp
  have hden : 0 < 2 ^ (-d.exponent).toNat := by positivity
  rw [hpart, Nat.pow_eq, Nat.pow_eq, Nat.div_eq_zero_iff_lt hden, Exact.abs_value]
  obtain ⟨k, hk | hk⟩ := d.exponent.eq_nat_or_neg
  · rw [hk, Int.toNat_natCast, Int.toNat_neg_natCast, zpow_natCast]
    norm_cast
  · rw [hk, neg_neg, Int.toNat_natCast, Int.toNat_neg_natCast, zpow_neg, zpow_natCast,
      ← div_eq_mul_inv, div_lt_one (by positivity)]
    norm_cast
    simp

theorem toNat_unpackMantissa (b : BitVec Format.binary64.numBits) :
    (unpackMantissa b).toNat = b.toNat % Nat.pow 2 52 := by
  simp [unpackMantissa]

theorem toNat_unpackExponent (b : BitVec Format.binary64.numBits) :
    (unpackExponent b).toNat = b.toNat / Nat.pow 2 52 % Nat.pow 2 11 := by
  simp [unpackExponent, Nat.shiftRight_eq_div_pow]

theorem compare_zero (u : UnpackedFloat) :
    (u.compare (.zero .positive) == some .eq) = true ↔ ∃ s, u = .zero s := by
  constructor
  · intro heq
    cases u with
    | zero s => exact ⟨s, rfl⟩
    | notANumber => exact absurd heq Bool.false_ne_true
    | infinity s => cases s <;> exact absurd heq Bool.false_ne_true
    | finite s => cases s <;> exact absurd heq Bool.false_ne_true
  · rintro ⟨s, rfl⟩
    rfl

theorem unpack_eq_zero (b : BitVec Format.binary64.numBits) :
    (∃ s, UnpackedFloat.unpack Format.binary64 b = .zero s) ↔
      b.toNat / Nat.pow 2 52 % Nat.pow 2 11 = 0 ∧ b.toNat % Nat.pow 2 52 = 0 := by
  rw [← toNat_unpackExponent, ← toNat_unpackMantissa]
  have hexponent : (unpackExponent b).toNat = 0 ↔ unpackExponent b = 0#_ := by
    rw [← BitVec.toNat_inj]
    rfl
  have hmantissa : (unpackMantissa b).toNat = 0 ↔ unpackMantissa b = 0#_ := by
    rw [← BitVec.toNat_inj]
    rfl
  rw [hexponent, hmantissa]
  unfold UnpackedFloat.unpack
  dsimp only
  by_cases hones : unpackExponent b = -1#_
  · have hne : unpackExponent b ≠ 0#_ := by
      rw [hones]
      decide
    rw [if_pos hones]
    split <;> simp [hne]
  · rw [if_neg hones]
    by_cases hzero : unpackExponent b = 0#_
    · rw [if_pos hzero]
      by_cases hnone : unpackMantissa b = 0#_
      · rw [dif_pos hnone]
        exact ⟨fun _ => ⟨hzero, hnone⟩, fun _ => ⟨_, rfl⟩⟩
      · rw [dif_neg hnone]
        constructor
        · rintro ⟨s, hs⟩
          cases hs
        · rintro ⟨-, h⟩
          exact absurd h hnone
    · rw [if_neg hzero]
      constructor
      · rintro ⟨s, hs⟩
        cases hs
      · rintro ⟨h, -⟩
        exact absurd h hzero

theorem beq_zero : (x == 0.0) = true ↔ ∃ d, decode? x = some d ∧ d.mantissa = 0 := by
  have hunpack : (x == 0.0) = true ↔
      ∃ s, UnpackedFloat.unpack Format.binary64 x.toModel.toBits.toBitVec = .zero s :=
    compare_zero _
  have hbits : x.toBits.toNat = x.toModel.toBits.toBitVec.toNat := rfl
  rw [hunpack, unpack_eq_zero, ← hbits]
  unfold decode?
  dsimp only
  split
  · next hones =>
    rw [beq_iff_eq] at hones
    simp [hones]
  · split
    · next hzero =>
      rw [beq_iff_eq] at hzero
      simp [hzero]
    · next hzero =>
      rw [beq_iff_eq] at hzero
      simp [hzero]

end Binary64

namespace Number

open Binary64

variable {a b n : Number} {k : Int}

/-- The number is not zero, but it is zero as an integer. -/
def Vanishes : Number → Prop
  | float x => ∃ d, decode? x = some d ∧ d.value ≠ 0 ∧ |d.value| < 1
  | text s => readInt s = .ok 0
  | _ => False

theorem isTrue_int : (int k).isTrue = (k != 0) := rfl

theorem isTrue_ofBool (t : Bool) : (ofBool t).isTrue = t := by cases t <;> rfl

theorem isTrue_float {x : Float} :
    (float x).isTrue = false ↔ ∃ d, decode? x = some d ∧ d.value = 0 := by
  have hbeq : (float x).isTrue = false ↔ (x == 0.0) = true := by simp [isTrue, bne]
  simp only [hbeq, beq_zero, Exact.value_eq_zero]

theorem Vanishes.isTrue (h : n.Vanishes) : n.isTrue = true := by
  cases n with
  | float x =>
    obtain ⟨d, hd, hne, -⟩ := h
    by_contra hfalse
    rw [Bool.not_eq_true, isTrue_float] at hfalse
    obtain ⟨d', hd', hzero⟩ := hfalse
    obtain rfl := Option.some.inj (hd.symm.trans hd')
    exact hne hzero
  | text s => rfl
  | int | complex => cases h

theorem orderIntFloat?_zero (x : Float) : (orderIntFloat? 0 x == some .eq) = (x == 0.0) := by
  rw [Bool.eq_iff_iff, beq_zero]
  unfold orderIntFloat?
  cases hx : decode? x with
  | none =>
    dsimp only
    split
    · simp
    · split <;> simp
  | some d =>
    cases hsign : d.negative <;> simp [compareInt, hsign]

theorem isZero_eq (n : Number) : n.isZero = !n.isTrue := by
  cases n with
  | int i => simp [isZero, isEq, isTrue, bne]
  | float x => simp only [isZero, isEq, isTrue, bne, orderIntFloat?_zero, Bool.not_not]
  | complex r i =>
    simp only [isZero, isEq, isTrue, bne, orderIntFloat?_zero, Bool.not_or, Bool.not_not]
    exact Bool.and_comm _ _
  | text s => rfl

/-- An integer part is zero just if the number is or vanishes. -/
theorem eq_zero_of_toInt (h : n.toInt = .ok k) : k = 0 ↔ n.isTrue = false ∨ n.Vanishes := by
  cases n with
  | int i =>
    cases h
    simp [isTrue, Vanishes]
  | float x =>
    cases hx : truncate? x with
    | none => simp [toInt, hx] at h
    | some i =>
      obtain rfl : i = k := by simpa [toInt, hx] using h
      obtain ⟨d, hd, -⟩ := Option.map_eq_some_iff.mp hx
      have hzero := truncate?_eq_zero hd
      rw [hx, Option.some_inj] at hzero
      simp only [hzero, isTrue_float, Vanishes, hd, Option.some_inj, exists_eq_left']
      constructor
      · intro hlt
        exact (em (d.value = 0)).imp_right fun hne => ⟨hne, hlt⟩
      · rintro (heq | ⟨-, hlt⟩)
        · simp [heq]
        · exact hlt
  | complex => cases h
  | text s =>
    have hread : readInt s = .ok k := h
    simp [isTrue, Vanishes, hread]

theorem isSomething_eq (h : n ≠ text "") : n.isSomething = n.isTrue := by
  cases n with
  | text s =>
    have hs : s ≠ "" := by
      rintro rfl
      exact h rfl
    simpa [isSomething, isTrue] using hs
  | _ => rfl

theorem isTrue_of_isSomething (h : n.isSomething = true) : n.isTrue = true := by
  cases n with
  | text => rfl
  | _ => exact h

theorem exists_of_map_int {r : Except Fault Int} (h : Number.int <$> r = .ok n) :
    ∃ k, r = .ok k ∧ int k = n := by
  cases r with
  | error => cases h
  | ok k => exact ⟨k, rfl, Except.ok.inj h⟩

theorem ne_empty_of_toInt (h : n.toInt = .ok k) : n ≠ text "" := by
  rintro rfl
  have hempty : (text "").toInt = .error .badValue := by decide
  cases hempty.symm.trans h

theorem isTrue_of_toInt (h : n.toInt = .ok k) :
    ((int k).isTrue = n.isTrue ↔ ¬ n.Vanishes) := by
  have hzero := eq_zero_of_toInt h
  have hk : (int k).isTrue = false ↔ k = 0 := by simp [isTrue_int]
  constructor
  · intro heq hvanishes
    have hfalse := hk.mpr (hzero.mpr (.inr hvanishes))
    rw [heq, hvanishes.isTrue] at hfalse
    cases hfalse
  · intro hnot
    rw [Bool.eq_iff_iff, ← not_iff_not, Bool.not_eq_true, Bool.not_eq_true, hk, hzero]
    exact or_iff_left hnot

/-- The truth of `and` is that of both operands, unless the second is chosen and vanishes. -/
theorem isTrue_and (h : a.and b = .ok n) :
    n.isTrue = (a.isTrue && b.isTrue) ↔ ¬ (a.isTrue = true ∧ b.Vanishes) := by
  obtain ⟨k, hk, rfl⟩ := exists_of_map_int h
  cases hs : a.isSomething with
  | true =>
    rw [hs, if_pos rfl] at hk
    rw [isTrue_of_isSomething hs, Bool.true_and, isTrue_of_toInt hk]
    simp
  | false =>
    rw [hs, if_neg Bool.false_ne_true] at hk
    have ha : a.isTrue = false := by rw [← isSomething_eq (ne_empty_of_toInt hk), hs]
    have hzero : k = 0 := (eq_zero_of_toInt hk).mpr (.inl ha)
    simp [ha, hzero, isTrue_int]

/-- The truth of `or` is that of one of the operands, unless the chosen one vanishes or the first is
an empty text, which counts as true but is not chosen. -/
theorem isTrue_or (h : a.or b = .ok n) :
    n.isTrue = (a.isTrue || b.isTrue) ↔
      ¬ (if a.isSomething then a.Vanishes
        else b.Vanishes ∨ (a.isTrue = true ∧ b.isTrue = false)) := by
  obtain ⟨k, hk, rfl⟩ := exists_of_map_int h
  cases hs : a.isSomething with
  | true =>
    rw [hs, if_pos rfl] at hk
    have ha := isTrue_of_toInt hk
    rw [isTrue_of_isSomething hs] at ha
    rw [isTrue_of_isSomething hs, Bool.true_or, if_pos rfl, ha]
  | false =>
    rw [hs, if_neg Bool.false_ne_true] at hk
    rw [if_neg Bool.false_ne_true]
    have hb := isTrue_of_toInt hk
    cases ha : a.isTrue with
    | false => simp [hb]
    | true =>
      cases hbt : b.isTrue with
      | false =>
        have hzero : k = 0 := (eq_zero_of_toInt hk).mpr (.inl hbt)
        simp [hzero, isTrue_int]
      | true =>
        rw [hbt] at hb
        simp [hb]

end Number

end Think
