import R2C2Firmware.Verified.Number

/-!
# Binary64

The rounding of IEEE 754 for a `double`: to the nearest number with a significand of
53 bits, and of two that are equally near to the one whose significand is even.  The
last bit of a number is never worth less than that of the smallest subnormal.  The
exponent has no upper end: infinity is left out.

The definitions run over `ℚ`, so that what the firmware does with one number can be
looked at with its roundings.  `binary64` is no instance; a statement names it.

## Main results

* `roundEven_mono`, `roundEven_neg` — the rounding to an integer.
* `roundDouble_le`, `le_roundDouble` — the rounding does not cross a multiple of the
  last bit.
* `binary64_lawful` — the rounding is what `LawfulDouble` promises.
-/

namespace R2C2Firmware.Verified.Binary64

open R2C2Firmware.Verified.Number

variable {R : Type*} [Field R] [LinearOrder R] [FloorRing R]

/-- Rounding to the nearest integer, halves to the even one. -/
def roundEven (x : R) : Int :=
  if Int.fract x < 1 / 2 then ⌊x⌋
  else if 1 / 2 < Int.fract x then ⌊x⌋ + 1
  else if ⌊x⌋ % 2 = 0 then ⌊x⌋
  else ⌊x⌋ + 1

/-- The exponent of the last bit of a number: the 53rd from the first, or the last
one that a subnormal number has. -/
def lastBit (x : R) : Int := max (Int.log 2 |x| - 52) (-1074)

/-- The number rounded to its last bit. -/
def roundDouble (x : R) : R := roundEven (x / 2 ^ lastBit x) * 2 ^ lastBit x

/-- The arithmetic of a `double`. -/
@[reducible] def binary64 : HasDouble R := ⟨roundDouble⟩

/-! ## Rounding to an integer -/

section Integers

theorem roundEven_range (x : R) : ⌊x⌋ ≤ roundEven x ∧ roundEven x ≤ ⌊x⌋ + 1 := by
  unfold roundEven
  split_ifs <;> omega

variable [IsStrictOrderedRing R]

@[simp] theorem roundEven_intCast (n : Int) : roundEven (n : R) = n := by
  have hfract : Int.fract (n : R) < 1 / 2 := by
    rw [Int.fract_intCast]
    norm_num
  rw [roundEven, if_pos hfract, Int.floor_intCast]

/-- The larger of two numbers is not rounded to the smaller integer. -/
theorem roundEven_mono {x y : R} (h : x ≤ y) : roundEven x ≤ roundEven y := by
  by_cases hfloor : ⌊x⌋ = ⌊y⌋
  · have hfract : Int.fract x ≤ Int.fract y := by
      unfold Int.fract
      rw [hfloor]
      linarith
    unfold roundEven
    rw [hfloor]
    split_ifs <;> first | omega | (exfalso; linarith)
  · have hle := Int.floor_le_floor h
    have hx := (roundEven_range x).2
    have hy := (roundEven_range y).1
    omega

/-- Numbers of different signs are rounded alike. -/
theorem roundEven_neg (x : R) : roundEven (-x) = -roundEven x := by
  by_cases hzero : Int.fract x = 0
  · have hx : x = ⌊x⌋ := by
      have h := Int.floor_add_fract x
      rw [hzero, add_zero] at h
      exact h.symm
    rw [hx, ← Int.cast_neg, roundEven_intCast, roundEven_intCast]
  · have hfract : Int.fract (-x) = 1 - Int.fract x := Int.fract_neg hzero
    have hfloor : ⌊-x⌋ = -⌊x⌋ - 1 := by
      have hneg := Int.floor_add_fract (-x)
      have hpos := Int.floor_add_fract x
      have hcast : ((⌊-x⌋ : Int) : R) = ((-⌊x⌋ - 1 : Int) : R) := by
        push_cast
        linarith
      exact_mod_cast hcast
    unfold roundEven
    rw [hfract, hfloor]
    -- the last case is the half, where the parity of the two integers differs
    split_ifs <;> first | omega | (exfalso; linarith)

end Integers

/-! ## Rounding to the last bit -/

section LastBit

variable [IsStrictOrderedRing R]

omit [FloorRing R] in
theorem bit_pos (e : Int) : (0 : R) < 2 ^ e := zpow_pos (by norm_num) e

omit [FloorRing R] in
/-- A power of two is a multiple of every lower one. -/
theorem bit_mul {e k : Int} (h : e ≤ k) :
    (2 : R) ^ k = ((2 ^ (k - e).toNat : Int) : R) * 2 ^ e := by
  have hsplit : k = ((k - e).toNat : Int) + e := by omega
  calc (2 : R) ^ k = 2 ^ (((k - e).toNat : Int) + e) := by rw [← hsplit]
    _ = 2 ^ ((k - e).toNat : Int) * 2 ^ e := zpow_add₀ (by norm_num) _ _
    _ = ((2 ^ (k - e).toNat : Int) : R) * 2 ^ e := by
        rw [zpow_natCast]
        push_cast
        rfl

omit [IsStrictOrderedRing R] in
theorem lastBit_neg (x : R) : lastBit (-x) = lastBit x := by
  rw [lastBit, abs_neg, lastBit]

theorem roundDouble_neg (x : R) : roundDouble (-x) = -roundDouble x := by
  rw [roundDouble, lastBit_neg, neg_div, roundEven_neg, roundDouble]
  push_cast
  ring

/-- The rounding does not go beyond a multiple of the last bit above the number. -/
theorem roundDouble_le {x : R} {m : Int} (h : x ≤ m * 2 ^ lastBit x) :
    roundDouble x ≤ m * 2 ^ lastBit x := by
  have hpos := bit_pos (R := R) (lastBit x)
  have hround := roundEven_mono ((div_le_iff₀ hpos).2 h)
  rw [roundEven_intCast] at hround
  exact mul_le_mul_of_nonneg_right (by exact_mod_cast hround) hpos.le

/-- The rounding does not go beyond a multiple of the last bit below the number. -/
theorem le_roundDouble {x : R} {m : Int} (h : m * 2 ^ lastBit x ≤ x) :
    m * 2 ^ lastBit x ≤ roundDouble x := by
  have hpos := bit_pos (R := R) (lastBit x)
  have hround := roundEven_mono ((le_div_iff₀ hpos).2 h)
  rw [roundEven_intCast] at hround
  exact mul_le_mul_of_nonneg_right (by exact_mod_cast hround) hpos.le

/-- A multiple of its last bit is not rounded. -/
theorem roundDouble_of_multiple {x : R} {m : Int} (h : x = m * 2 ^ lastBit x) :
    roundDouble x = x := by
  have hle := roundDouble_le h.le
  have hge := le_roundDouble h.ge
  rw [← h] at hle hge
  exact le_antisymm hle hge

theorem roundDouble_nonneg {x : R} (hx : 0 ≤ x) : 0 ≤ roundDouble x := by
  have h := le_roundDouble (x := x) (m := 0) (by rwa [Int.cast_zero, zero_mul])
  rwa [Int.cast_zero, zero_mul] at h

/-- Where the last bits of two numbers differ, a power of two lies between them that
the rounding of neither crosses. -/
theorem roundDouble_le_of_nonneg {x y : R} (hx : 0 ≤ x) (h : x ≤ y) :
    roundDouble x ≤ roundDouble y := by
  by_cases hsame : lastBit x = lastBit y
  · unfold roundDouble
    rw [hsame]
    have hpos := bit_pos (R := R) (lastBit y)
    have hround := roundEven_mono (div_le_div_of_nonneg_right h hpos.le)
    exact mul_le_mul_of_nonneg_right (by exact_mod_cast hround) hpos.le
  · by_cases hzero : x = 0
    · have hround : roundDouble x = 0 := by
        rw [hzero, roundDouble, zero_div, ← Int.cast_zero, roundEven_intCast, Int.cast_zero,
          zero_mul]
      rw [hround]
      exact roundDouble_nonneg (hx.trans h)
    · have hxpos : 0 < x := lt_of_le_of_ne hx (Ne.symm hzero)
      have hypos : 0 < y := hxpos.trans_le h
      have hlog := Int.log_mono_right (b := 2) hxpos h
      have hbits : lastBit x < Int.log 2 y - 52 ∧ lastBit y = Int.log 2 y - 52 ∧
          Int.log 2 x < Int.log 2 y := by
        unfold lastBit at hsame ⊢
        rw [abs_of_pos hxpos, abs_of_pos hypos] at hsame ⊢
        omega
      obtain ⟨hlow, hhigh, hless⟩ := hbits
      have hbelow : x ≤ 2 ^ Int.log 2 y :=
        le_of_lt (by exact_mod_cast (Int.lt_zpow_iff_log_lt (b := 2) (by decide) hxpos).2 hless)
      have habove : (2 : R) ^ Int.log 2 y ≤ y := by
        exact_mod_cast Int.zpow_log_le_self (b := 2) (by decide) hypos
      calc roundDouble x ≤ 2 ^ Int.log 2 y := by
            rw [bit_mul (show lastBit x ≤ Int.log 2 y by omega)] at hbelow ⊢
            exact roundDouble_le hbelow
        _ ≤ roundDouble y := by
            rw [bit_mul (show lastBit y ≤ Int.log 2 y by omega)] at habove ⊢
            exact le_roundDouble habove

theorem roundDouble_mono : Monotone (roundDouble : R → R) := by
  intro x y h
  by_cases hx : 0 ≤ x
  · exact roundDouble_le_of_nonneg hx h
  · have hneg : 0 ≤ -x := by linarith
    by_cases hy : 0 ≤ y
    · have hbelow := roundDouble_nonneg hneg
      rw [roundDouble_neg] at hbelow
      exact (by linarith : roundDouble x ≤ 0).trans (roundDouble_nonneg hy)
    · have hround := roundDouble_le_of_nonneg (show 0 ≤ -y by linarith) (neg_le_neg h)
      rw [roundDouble_neg, roundDouble_neg] at hround
      exact neg_le_neg_iff.1 hround

/-! ## The numbers of 53 bits -/

/-- A number below a power of two has its last bit 53 places below that. -/
theorem lastBit_le {x : R} {k : Int} (hzero : x ≠ 0) (h : |x| < 2 ^ k) (hk : -1021 ≤ k) :
    lastBit x ≤ k - 53 := by
  have hlog : Int.log 2 |x| < k :=
    (Int.lt_zpow_iff_log_lt (b := 2) (by decide) (abs_pos.2 hzero)).1 (by exact_mod_cast h)
  unfold lastBit
  omega

/-- A number of 53 bits is not rounded. -/
theorem roundDouble_bits {z e : Int} (hz : |z| < 9007199254740992) (he : -1074 ≤ e) :
    roundDouble ((z : R) * 2 ^ e) = z * 2 ^ e := by
  by_cases hzero : z = 0
  · rw [hzero, Int.cast_zero, zero_mul, roundDouble, zero_div, ← Int.cast_zero,
      roundEven_intCast, Int.cast_zero, zero_mul]
  · have hpos := bit_pos (R := R) e
    have habs : |(z : R)| < 2 ^ (53 : Int) := by
      rw [show (2 : R) ^ (53 : Int) = ((9007199254740992 : Int) : R) by norm_num,
        ← Int.cast_abs]
      exact_mod_cast hz
    have hbound : |(z : R) * 2 ^ e| < 2 ^ (53 + e) := by
      rw [abs_mul, abs_of_pos hpos, zpow_add₀ (by norm_num)]
      exact mul_lt_mul_of_pos_right habs hpos
    have hbit := lastBit_le (mul_ne_zero (Int.cast_ne_zero.2 hzero) hpos.ne') hbound
      (by omega)
    apply roundDouble_of_multiple (m := z * 2 ^ (e - lastBit ((z : R) * 2 ^ e)).toNat)
    calc (z : R) * 2 ^ e
        = z * (((2 ^ (e - lastBit ((z : R) * 2 ^ e)).toNat : Int) : R) *
            2 ^ lastBit ((z : R) * 2 ^ e)) := by rw [← bit_mul (by omega)]
      _ = _ := by
          push_cast
          ring

/-- An integer of 53 bits divided by a power of two is not rounded, down to the last
bit of a subnormal number. -/
theorem roundDouble_dyadic {z : Int} {k : Nat} (hz : |z| ≤ 9007199254740992) (hk : k ≤ 1074) :
    roundDouble ((z : R) / 2 ^ k) = z / 2 ^ k := by
  have hdiv : ∀ w : R, w / 2 ^ k = w * 2 ^ (-k : Int) := fun w => by
    rw [zpow_neg, zpow_natCast, div_eq_mul_inv]
  by_cases hlt : |z| < 9007199254740992
  · rw [hdiv]
    exact roundDouble_bits hlt (by omega)
  · -- the bound itself is a power of two, and has a bit to spare
    obtain ⟨w, hw, hbits⟩ : ∃ w : Int, z = w * 2 ∧ |w| < 9007199254740992 := by
      rw [abs_lt] at hlt
      rw [abs_le] at hz
      refine ⟨z / 2, by omega, ?_⟩
      rw [abs_lt]
      omega
    have hz : (z : R) / 2 ^ k = w * 2 ^ (1 - k : Int) := by
      rw [hdiv, hw, sub_eq_add_neg, zpow_add₀ (by norm_num), zpow_one]
      push_cast
      ring
    rw [hz]
    exact roundDouble_bits hbits (by omega)

/-- The rounding of IEEE 754 is what `LawfulDouble` promises. -/
theorem binary64_lawful : @LawfulDouble R _ _ binary64 :=
  letI : HasDouble R := binary64
  ⟨roundDouble_mono, fun _ _ => roundDouble_dyadic⟩

end LastBit

end R2C2Firmware.Verified.Binary64
