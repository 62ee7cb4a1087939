import Mathlib.Algebra.Order.Ring.Int
import Mathlib.Tactic

/-!
# The Bresenham accumulator

A line of `n` events along the longest axis carries `s ≤ n` steps of another
axis.  The accumulator starts at `-(n / 2)`; every event adds `s`, and whenever
the sum becomes positive one step is taken and `n` subtracted.

`Accum n s k e c` relates the accumulator `c` to the number `k` of events and
the number `e` of steps so far.  The two bounds on `c` pin `e` down: after `n`
events exactly `s` steps have been taken.

## Main results

* `Accum.start`, `Accum.hit`, `Accum.miss` — the invariant and its steps.
* `Accum.finish` — after all events every step has been taken.
* `Accum.deviation` — at every event, half a step from the line at most.
-/

namespace R2C2Firmware.Verified.Bresenham

/-- The accumulator after `k` events and `e` steps. -/
structure Accum (n s k e c : Int) : Prop where
  value : c = -(n / 2) + k * s - e * n
  lower : -n < c
  upper : c ≤ 0

theorem Accum.start {n : Int} (hn : 0 < n) (s : Int) :
    Accum n s 0 0 (-(n / 2)) := by
  constructor
  · ring
  · omega
  · omega

/-- The accumulator became positive: a step is taken. -/
theorem Accum.hit {n s k e c : Int} (h : Accum n s k e c) (hs : s ≤ n)
    (hpos : 0 < c + s) : Accum n s (k + 1) (e + 1) (c + s - n) := by
  have hvalue := h.value
  have hupper := h.upper
  constructor
  · rw [hvalue]
    ring
  · omega
  · omega

/-- The accumulator stayed at or below zero: no step. -/
theorem Accum.miss {n s k e c : Int} (h : Accum n s k e c) (hs : 0 ≤ s)
    (hpos : c + s ≤ 0) : Accum n s (k + 1) e (c + s) := by
  have hvalue := h.value
  have hlower := h.lower
  constructor
  · rw [hvalue]
    ring
  · omega
  · exact hpos

/-- After all events every step has been taken. -/
theorem Accum.finish {n s e c : Int} (h : Accum n s n e c) : e = s := by
  have hvalue : c = -(n / 2) + n * (s - e) := by
    rw [h.value]
    ring
  have hlower := h.lower
  have hupper := h.upper
  -- both neighbours of zero are too far away for the bounds on `c`
  by_contra hne
  rcases lt_or_gt_of_ne hne with hlt | hgt
  · have hprod : n * 1 ≤ n * (s - e) := by
      apply mul_le_mul_of_nonneg_left <;> omega
    omega
  · have hprod : n * (s - e) ≤ n * (-1) := by
      apply mul_le_mul_of_nonneg_left <;> omega
    omega

/-- One more event takes at most one more step. -/
theorem Accum.next {n s k e c e' c' : Int} (h : Accum n s k e c)
    (h' : Accum n s (k + 1) e' c') (hs : 0 ≤ s) (hsn : s ≤ n) :
    e' = e ∨ e' = e + 1 := by
  have hlower := h.lower
  have hupper := h.upper
  have hlower' := h'.lower
  have hupper' := h'.upper
  have hsum : (e' - e) * n = s + c - c' := by
    rw [h.value, h'.value]
    ring
  have hlo : -1 < e' - e := by
    by_contra hle
    have hprod : (e' - e) * n ≤ -1 * n := by
      apply mul_le_mul_of_nonneg_right <;> omega
    omega
  have hhi : e' - e < 2 := by
    by_contra hge
    have hprod : 2 * n ≤ (e' - e) * n := by
      apply mul_le_mul_of_nonneg_right <;> omega
    omega
  omega

/-- The steps taken are at most half a step away from the line. -/
theorem Accum.deviation {n s k e c : Int} (h : Accum n s k e c) :
    2 * |e * n - k * s| ≤ n := by
  have hvalue := h.value
  have hlower := h.lower
  have hupper := h.upper
  rcases abs_cases (e * n - k * s) with ⟨heq, -⟩ | ⟨heq, -⟩
  · rw [heq]
    omega
  · rw [heq]
    omega

end R2C2Firmware.Verified.Bresenham
