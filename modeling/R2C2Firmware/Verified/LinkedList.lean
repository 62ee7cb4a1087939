import Mathlib.Data.List.Nodup
import Mathlib.Logic.Function.Basic
import Mathlib.Tactic

/-!
# Intrusive lists

A list threaded through its own elements: each element names the next one, and a
pointer outside names the first.  `Chain` says which elements a pointer leads to.

`walk` visits them, doing something at each one that may change the state but not the
links.  It is given a bound on the number of turns, and returns nothing when it is
used up; on a chain that is no longer than the bound it returns what a fold over the
elements does.

## Main results

* `walk_eq_foldl` — a walk over a chain.
* `Chain.append` — appending an element at the end.
* `foldl_update` — a visit to each of several distinct elements changes each once.
-/

namespace R2C2Firmware.Verified.LinkedList

variable {ι σ : Type*}

/-! ## Chains -/

/-- The elements a pointer leads to. -/
inductive Chain (next : ι → Option ι) : Option ι → List ι → Prop where
  | nil : Chain next none []
  | cons {i : ι} {l : List ι} (h : Chain next (next i) l) : Chain next (some i) (i :: l)

variable {next : ι → Option ι} {head : Option ι} {l : List ι}

/-- Nothing is linked exactly when there is no first element. -/
theorem Chain.head_eq_none_iff (h : Chain next head l) : head = none ↔ l = [] := by
  cases h <;> simp

/-- The last element is made to point to a new one, which points nowhere. -/
theorem Chain.append [DecidableEq ι] (h : Chain next head l) {last i : ι}
    (hlast : l.getLast? = some last) (hnodup : (l ++ [i]).Nodup) :
    Chain (Function.update (Function.update next i none) last (some i)) head
      (l ++ [i]) := by
  induction h with
  | nil => exact absurd hlast (by simp)
  | @cons j l h ih =>
      have hji : j ≠ i := by
        rintro rfl
        simp at hnodup
      have hnodup' : (l ++ [i]).Nodup := (List.nodup_cons.1 hnodup).2
      cases l with
      | nil =>
          obtain rfl : j = last := by simpa using hlast
          refine .cons ?_
          rw [Function.update_self]
          refine .cons ?_
          rw [Function.update_of_ne hji.symm, Function.update_self]
          exact .nil
      | cons k l =>
          have hlast' : (k :: l).getLast? = some last := by
            rwa [List.getLast?_cons_cons] at hlast
          have hne : j ≠ last := by
            rintro rfl
            have hmem := List.mem_append_left [i] (List.mem_of_getLast? hlast')
            exact (List.nodup_cons.1 hnodup).1 hmem
          refine .cons ?_
          rw [Function.update_of_ne hne, Function.update_of_ne hji]
          exact ih hlast' hnodup'

/-! ## Walks -/

/-- Visit the elements a pointer leads to, in at most so many turns. -/
def walk (next : ι → Option ι) (visit : ι → σ → σ) : Nat → Option ι → σ → Option σ
  | _, none, s => some s
  | 0, some _, _ => none
  | fuel + 1, some i, s => walk next visit fuel (next i) (visit i s)

theorem walk_eq_foldl (h : Chain next head l) (visit : ι → σ → σ) {fuel : Nat}
    (hfuel : l.length ≤ fuel) (s : σ) :
    walk next visit fuel head s = some (l.foldl (fun s i => visit i s) s) := by
  induction h generalizing fuel s with
  | nil => cases fuel <;> rfl
  | @cons i l _ ih =>
      obtain ⟨k, rfl⟩ : ∃ k, fuel = k + 1 :=
        ⟨fuel - 1, by rw [List.length_cons] at hfuel; omega⟩
      rw [walk, List.foldl_cons]
      exact ih (by simpa using hfuel) _

/-! ## Visits that change one element each -/

theorem foldl_update [DecidableEq ι] {α : Type*} (f : α → α) (hnodup : l.Nodup)
    (m : ι → α) (j : ι) :
    l.foldl (fun m i => Function.update m i (f (m i))) m j =
      if j ∈ l then f (m j) else m j := by
  induction l generalizing m with
  | nil => simp
  | cons i l ih =>
      obtain ⟨hi, hl⟩ := List.nodup_cons.1 hnodup
      rw [List.foldl_cons, ih hl]
      by_cases hji : j = i
      · subst hji
        rw [if_neg hi, if_pos List.mem_cons_self, Function.update_self]
      · rw [Function.update_of_ne hji]
        simp [hji]

end R2C2Firmware.Verified.LinkedList
