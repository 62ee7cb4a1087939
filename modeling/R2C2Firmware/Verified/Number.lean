import Mathlib

/-!
# C integers and exact numbers

C programs for a 32-bit target mix fixed-width integers with `double`.  This
module supplies the reading used throughout the package.

* A fixed-width integer is a mathematical `Int` reduced explicitly wherever
  the C type reduces it: `wrapSigned` for the two's-complement types,
  `wrapUnsigned` for the others.
* A `double` is an element of an ordered field `R`.  The only library
  functions needed beyond the field operations are the roundings to integers,
  which a `FloorRing` supplies, and the square root, which is a class of its own
  so that the same program text runs over `ℚ` and is reasoned about over `ℝ`.
* Where the rounding of a result decides what the program does, the model
  applies `toDouble` to it.  A module that names no rounding takes every number
  as exact.

## Main results

* `wrapSigned_of_range`, `wrapUnsigned_of_range` — no reduction takes place
  inside the range of the type.
* `int32_range`, `uint32_range` — the result is always inside it.
* `toDouble_intCast`, `toDouble_le`, `le_toDouble` — rounding does not cross a
  number that is a `double`.
-/

namespace R2C2Firmware.Verified.Number

/-! ## Fixed-width integers -/

/-- The two's-complement representative of `z` modulo `m`. -/
def wrapSigned (m z : Int) : Int := (z + m / 2) % m - m / 2

/-- The representative of `z` modulo `m` in `[0, m)`. -/
def wrapUnsigned (m z : Int) : Int := z % m

/-- Conversion to `int32_t`. -/
def int32 (z : Int) : Int := wrapSigned 4294967296 z

/-- Conversion to `uint32_t`. -/
def uint32 (z : Int) : Int := wrapUnsigned 4294967296 z

/-- Conversion to `int16_t`. -/
def int16 (z : Int) : Int := wrapSigned 65536 z

/-- Conversion to `uint16_t`. -/
def uint16 (z : Int) : Int := wrapUnsigned 65536 z

/-- Conversion to `uint8_t`. -/
def uint8 (z : Int) : Int := wrapUnsigned 256 z

theorem wrapSigned_of_range {m z : Int} (hlo : -(m / 2) ≤ z)
    (hhi : z < m / 2) : wrapSigned m z = z := by
  have hmod : (z + m / 2) % m = z + m / 2 :=
    Int.emod_eq_of_lt (by omega) (by omega)
  rw [wrapSigned, hmod]
  omega

theorem wrapUnsigned_of_range {m z : Int} (hlo : 0 ≤ z) (hhi : z < m) :
    wrapUnsigned m z = z :=
  Int.emod_eq_of_lt hlo hhi

theorem int32_of_range {z : Int} (hlo : -2147483648 ≤ z)
    (hhi : z < 2147483648) : int32 z = z :=
  wrapSigned_of_range (by omega) (by omega)

theorem uint32_of_range {z : Int} (hlo : 0 ≤ z) (hhi : z < 4294967296) :
    uint32 z = z :=
  wrapUnsigned_of_range hlo hhi

/-- Every `int32_t` lies in its range. -/
theorem int32_range (z : Int) :
    -2147483648 ≤ int32 z ∧ int32 z < 2147483648 := by
  unfold int32 wrapSigned
  omega

/-- Every `uint32_t` lies in its range. -/
theorem uint32_range (z : Int) : 0 ≤ uint32 z ∧ uint32 z < 4294967296 := by
  unfold uint32 wrapUnsigned
  omega

/-- A decidable property of bytes that all of them have. -/
theorem forall_byte {p : UInt8 → Prop} (h : ∀ i : Fin 256, p (UInt8.ofFin i))
    (c : UInt8) : p c :=
  h c.toFin

/-! ## Literals

A literal of a field of characteristic zero rests on a proof that it is at
least two.  With one named instance for each literal of the firmware's
formulas no definition holds a generated proof. -/

instance literal2 : Nat.AtLeastTwo 2 := inferInstance
instance literal3 : Nat.AtLeastTwo 3 := inferInstance
instance literal4 : Nat.AtLeastTwo 4 := inferInstance
instance literal5 : Nat.AtLeastTwo 5 := inferInstance
instance literal6 : Nat.AtLeastTwo 6 := inferInstance
instance literal10 : Nat.AtLeastTwo 10 := inferInstance
instance literal24 : Nat.AtLeastTwo 24 := inferInstance
instance literal33 : Nat.AtLeastTwo 33 := inferInstance
instance literal36 : Nat.AtLeastTwo 36 := inferInstance
instance literal60 : Nat.AtLeastTwo 60 := inferInstance
instance literal80 : Nat.AtLeastTwo 80 := inferInstance
instance literal95 : Nat.AtLeastTwo 95 := inferInstance
instance literal100 : Nat.AtLeastTwo 100 := inferInstance
instance literal200 : Nat.AtLeastTwo 200 := inferInstance
instance literal250 : Nat.AtLeastTwo 250 := inferInstance
instance literal254 : Nat.AtLeastTwo 254 := inferInstance
instance literal256 : Nat.AtLeastTwo 256 := inferInstance
instance literal300 : Nat.AtLeastTwo 300 := inferInstance
instance literal500 : Nat.AtLeastTwo 500 := inferInstance
instance literal600 : Nat.AtLeastTwo 600 := inferInstance
instance literal640 : Nat.AtLeastTwo 640 := inferInstance
instance literal1000 : Nat.AtLeastTwo 1000 := inferInstance
instance literal1024 : Nat.AtLeastTwo 1024 := inferInstance
instance literal3600 : Nat.AtLeastTwo 3600 := inferInstance
instance literal6400 : Nat.AtLeastTwo 6400 := inferInstance
instance literal18000 : Nat.AtLeastTwo 18000 := inferInstance
instance literal1000000 : Nat.AtLeastTwo 1000000 := inferInstance
instance literal60000000 : Nat.AtLeastTwo 60000000 := inferInstance
instance literal120000000 : Nat.AtLeastTwo 120000000 := inferInstance
instance literal2147483648 : Nat.AtLeastTwo 2147483648 := inferInstance

/-! ## Exact numbers -/

/-- The square root of the C library. -/
class HasSqrt (R : Type*) where
  sqrt : R → R

noncomputable instance : HasSqrt ℝ := ⟨Real.sqrt⟩

/-- A rational square root, exact on the squares of rationals, on which the
models can be executed. -/
instance : HasSqrt ℚ := ⟨fun q => (q.num.toNat.sqrt : ℚ) / (q.den.sqrt : ℚ)⟩

theorem sqrt_real (x : ℝ) : HasSqrt.sqrt x = Real.sqrt x := rfl

/-! ## Rounding -/

/-- The rounding of a result to a `double`. -/
class HasDouble (R : Type*) where
  toDouble : R → R

export HasDouble (toDouble)

/-- Unless another rounding is named, numbers are exact. -/
instance (priority := low) exactDouble {R : Type*} : HasDouble R := ⟨fun x => x⟩

@[simp] theorem toDouble_exact {R : Type*} (x : R) : toDouble x = x := rfl

/-- What is promised of the rounding: it keeps the order, and a number of 53 bits
is a `double`. -/
class LawfulDouble (R : Type*) [Field R] [LinearOrder R] [HasDouble R] : Prop where
  monotone : Monotone (toDouble : R → R)
  toDouble_dyadic : ∀ (z : Int) (k : Nat), |z| ≤ 9007199254740992 → k ≤ 1074 →
    toDouble ((z : R) / 2 ^ k) = z / 2 ^ k

section Rounding

variable {R : Type*} [Field R] [LinearOrder R] [HasDouble R] [LawfulDouble R]

/-- An integer of 53 bits is a `double`. -/
theorem toDouble_intCast {z : Int} (hz : |z| ≤ 9007199254740992) :
    toDouble (z : R) = z := by
  have h := LawfulDouble.toDouble_dyadic (R := R) z 0 hz (Nat.zero_le _)
  rwa [pow_zero, div_one] at h

theorem toDouble_natCast {n : Nat} (hn : n ≤ 9007199254740992) :
    toDouble (n : R) = n := by
  have h := toDouble_intCast (R := R) (z := (n : Int)) (by rw [Nat.abs_cast]; exact_mod_cast hn)
  rwa [Int.cast_natCast] at h

/-- The rounding does not go beyond a `double` above the number. -/
theorem toDouble_le {x y : R} (hy : toDouble y = y) (h : x ≤ y) : toDouble x ≤ y :=
  (LawfulDouble.monotone h).trans_eq hy

/-- The rounding does not go beyond a `double` below the number. -/
theorem le_toDouble {x y : R} (hx : toDouble x = x) (h : x ≤ y) : x ≤ toDouble y :=
  hx.symm.trans_le (LawfulDouble.monotone h)

end Rounding

variable {R : Type*} [Field R] [LinearOrder R] [FloorRing R]

/-- Conversion of a `double` to an integer: truncation toward zero. -/
def truncate (x : R) : Int := if 0 ≤ x then ⌊x⌋ else ⌈x⌉

/-- `lround`: rounding to the nearest integer, halves away from zero. -/
def lround (x : R) : Int := if 0 ≤ x then ⌊x + 1 / 2⌋ else ⌈x - 1 / 2⌉

theorem truncate_intCast [IsStrictOrderedRing R] (n : Int) :
    truncate (n : R) = n := by
  unfold truncate
  split
  · exact Int.floor_intCast n
  · exact Int.ceil_intCast n

theorem truncate_natCast [IsStrictOrderedRing R] (n : Nat) :
    truncate (n : R) = n := by
  have h := truncate_intCast (R := R) (n : Int)
  rwa [Int.cast_natCast] at h

theorem lround_intCast [IsStrictOrderedRing R] (n : Int) :
    lround (n : R) = n := by
  have hhalf : ⌊(1 / 2 : R)⌋ = 0 := by
    rw [Int.floor_eq_zero_iff]
    constructor <;> norm_num
  have hhalf' : ⌈-(1 / 2 : R)⌉ = 0 := by
    rw [Int.ceil_neg, hhalf, neg_zero]
  unfold lround
  split
  · rw [Int.floor_intCast_add, hhalf, add_zero]
  · rw [sub_eq_add_neg, Int.ceil_intCast_add, hhalf', add_zero]

end R2C2Firmware.Verified.Number
