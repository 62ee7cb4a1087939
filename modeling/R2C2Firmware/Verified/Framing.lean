import Mathlib.Tactic

/-!
# A stream cut into lines

A stream is cut behind every character that ends a line.  Of the pieces, those
that are nothing but an end are dropped, and of the others the first `n`
characters are kept.  What follows the last end is unfinished.

## Main results

* `unfinished_snoc`, `lines_snoc` — one more character.
* `lines_append` — the lines of a first part are the first lines.
-/

namespace R2C2Firmware.Verified.Framing

variable {α : Type*} (isEnd : α → Bool)

/-- The pieces of a stream of which one has been begun, each with the character
that ends it, and the piece that has not ended. -/
def piecesFrom (begun : List α) : List α → List (List α) × List α
  | [] => ([], begun)
  | c :: t =>
      if isEnd c then
        let r := piecesFrom [] t
        ((begun ++ [c]) :: r.1, r.2)
      else piecesFrom (begun ++ [c]) t

/-- The pieces of a stream that have come to their end. -/
def pieces (t : List α) : List (List α) := (piecesFrom isEnd [] t).1

/-- What follows the last end. -/
def unfinished (t : List α) : List α := (piecesFrom isEnd [] t).2

/-- The lines of a stream: the pieces that are more than an end, cut to `n`
characters. -/
def lines (n : Nat) (t : List α) : List (List α) :=
  ((pieces isEnd t).filter fun l => 1 < l.length).map (·.take n)

variable {isEnd}

/-- A stream in two parts. -/
theorem piecesFrom_append (begun s t : List α) :
    piecesFrom isEnd begun (s ++ t) =
      ((piecesFrom isEnd begun s).1 ++
          (piecesFrom isEnd (piecesFrom isEnd begun s).2 t).1,
        (piecesFrom isEnd (piecesFrom isEnd begun s).2 t).2) := by
  induction s generalizing begun with
  | nil => rfl
  | cons c s ih =>
      rw [List.cons_append, piecesFrom, piecesFrom]
      split
      · rw [ih]
        rfl
      · exact ih _

/-- The lines of the first part come first. -/
theorem lines_append (n : Nat) (s t : List α) :
    lines isEnd n s <+: lines isEnd n (s ++ t) := by
  rw [lines, lines, pieces, pieces, piecesFrom_append, List.filter_append,
    List.map_append]
  exact List.prefix_append _ _

theorem unfinished_snoc (s : List α) (c : α) :
    unfinished isEnd (s ++ [c]) =
      if isEnd c then [] else unfinished isEnd s ++ [c] := by
  rw [unfinished, piecesFrom_append, piecesFrom]
  split <;> rfl

theorem pieces_snoc (s : List α) (c : α) :
    pieces isEnd (s ++ [c]) =
      pieces isEnd s ++ if isEnd c then [unfinished isEnd s ++ [c]] else [] := by
  rw [pieces, piecesFrom_append, piecesFrom]
  split <;> rfl

/-- One more character ends a line, if anything was begun. -/
theorem lines_snoc (n : Nat) (s : List α) (c : α) :
    lines isEnd n (s ++ [c]) =
      lines isEnd n s ++
        if isEnd c = true ∧ unfinished isEnd s ≠ [] then
          [(unfinished isEnd s ++ [c]).take n]
        else [] := by
  have hlen : 1 < (unfinished isEnd s ++ [c]).length ↔
      unfinished isEnd s ≠ [] := by
    rw [← List.length_pos_iff, List.length_append, List.length_singleton]
    omega
  rw [lines, lines, pieces_snoc, List.filter_append, List.map_append]
  congr 1
  cases isEnd c with
  | false => rfl
  | true =>
      rw [if_pos rfl, List.filter_singleton]
      by_cases hbegun : unfinished isEnd s = []
      · rw [if_neg (by simp [hbegun]), hbegun]
        rfl
      · rw [if_pos ⟨rfl, hbegun⟩, decide_eq_true (hlen.2 hbegun)]
        rfl

end R2C2Firmware.Verified.Framing
