import Mathlib.Logic.Function.Iterate
import Mathlib.Order.Monotone.Basic
import Mathlib.Tactic

/-!
# Sequences that settle

The iterates of a function that keeps a property.  If the function moves every value
of that kind to one no smaller, the iterates rise; if a natural number falls with
every change, they are constant from some point on, at a fixed point.

## Main results

* `orbit_monotone`, `orbit_antitone` — the direction of the iterates.
* `settles` — the iterates reach a fixed point and stay there.
-/

namespace R2C2Firmware.Verified.Settling

variable {α : Type*} {f : α → α} {P : α → Prop}

/-- What one application keeps, every number of them keeps. -/
theorem orbit_invariant (hP : ∀ x, P x → P (f x)) {x : α} (hx : P x) (n : Nat) :
    P (f^[n] x) := by
  induction n with
  | zero => exact hx
  | succ n ih =>
      rw [Function.iterate_succ_apply']
      exact hP _ ih

theorem orbit_monotone [Preorder α] (hP : ∀ x, P x → P (f x))
    (hle : ∀ x, P x → x ≤ f x) {x : α} (hx : P x) : Monotone fun n => f^[n] x :=
  monotone_nat_of_le_succ fun n => by
    rw [Function.iterate_succ_apply']
    exact hle _ (orbit_invariant hP hx n)

theorem orbit_antitone [Preorder α] (hP : ∀ x, P x → P (f x))
    (hle : ∀ x, P x → f x ≤ x) {x : α} (hx : P x) : Antitone fun n => f^[n] x :=
  antitone_nat_of_succ_le fun n => by
    rw [Function.iterate_succ_apply']
    exact hle _ (orbit_invariant hP hx n)

/-- If every change lowers a natural number, the iterates are constant from some
point on. -/
theorem settles (hP : ∀ x, P x → P (f x)) (μ : α → Nat)
    (hμ : ∀ x, P x → f x = x ∨ μ (f x) < μ x) {x : α} (hx : P x) :
    ∃ N y, P y ∧ f y = y ∧ ∀ n, N ≤ n → f^[n] x = y := by
  induction h : μ x using Nat.strong_induction_on generalizing x with
  | _ m ih =>
    subst h
    rcases hμ x hx with hfix | hlt
    · exact ⟨0, x, hx, hfix, fun n _ => Function.iterate_fixed hfix n⟩
    · obtain ⟨N, y, hy, hfix, hconst⟩ := ih _ hlt (hP x hx) rfl
      refine ⟨N + 1, y, hy, hfix, fun n hn => ?_⟩
      obtain ⟨k, rfl⟩ : ∃ k, n = k + 1 := ⟨n - 1, by omega⟩
      rw [Function.iterate_succ_apply]
      exact hconst k (by omega)

end R2C2Firmware.Verified.Settling
