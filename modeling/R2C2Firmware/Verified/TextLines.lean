import Mathlib.Tactic

/-!
# Counting lines

A text is a list of characters, and `sep` ends a line.  `count` is the number of
its lines that satisfy `p`.

Output is produced in pieces.  `Lines k t` says that `t` adds `k` such lines to
whatever is written behind it, so `t` ends where a new line begins.  This is what
can be added up piece by piece.

## Main results

* `Lines.append`, `Lines.line`, `Lines.start` — how pieces add up.
* `Lines.count_eq` — the count of a whole text.
-/

namespace R2C2Firmware.Verified.TextLines

variable {α : Type*} {sep : α}

/-- The piece is the rest of one line. -/
def LineEnd (sep : α) (t : List α) : Prop := ∃ l, t = l ++ [sep] ∧ sep ∉ l

theorem LineEnd.append {a t : List α} (ht : LineEnd sep t) (ha : sep ∉ a) :
    LineEnd sep (a ++ t) := by
  obtain ⟨l, rfl, hl⟩ := ht
  refine ⟨a ++ l, by rw [List.append_assoc], ?_⟩
  rw [List.mem_append]
  exact fun h => h.elim ha hl

variable [BEq α] {p : List α → Bool}

/-- The number of lines that satisfy `p`. -/
def count (sep : α) (p : List α → Bool) (t : List α) : Nat :=
  (t.splitOn sep).countP p

/-- The piece adds `k` lines that satisfy `p`, and ends a line. -/
def Lines (sep : α) (p : List α → Bool) (k : Nat) (t : List α) : Prop :=
  ∀ u, count sep p (t ++ u) = k + count sep p u

theorem Lines.nil : Lines sep p 0 [] := by
  intro u
  rw [List.nil_append, Nat.zero_add]

theorem Lines.append {j k : Nat} {s t : List α} (hs : Lines sep p j s)
    (ht : Lines sep p k t) : Lines sep p (j + k) (s ++ t) := by
  intro u
  rw [List.append_assoc, hs, ht, Nat.add_assoc]

/-- A text without separators and a separator behind it are one line, counted if it
satisfies `p`. -/
theorem Lines.line [LawfulBEq α] {l : List α} (h : sep ∉ l) :
    Lines sep p (if p l then 1 else 0) (l ++ [sep]) := by
  intro u
  have hsplit : (l ++ [sep] ++ u).splitOn sep = l :: u.splitOn sep := by
    rw [List.append_assoc, List.singleton_append,
      List.splitOn_append_cons_of_beq l u (beq_self_eq_true sep),
      List.splitOn_eq_singleton h, List.singleton_append]
  rw [count, hsplit, List.countP_cons, Nat.add_comm]
  rfl

/-- A line in pieces, the first of which decides. -/
theorem Lines.start [LawfulBEq α] {a t : List α} {v : Bool}
    (ht : LineEnd sep t) (ha : sep ∉ a) (hp : ∀ b, p (a ++ b) = v) :
    Lines sep p (if v then 1 else 0) (a ++ t) := by
  obtain ⟨l, rfl, hl⟩ := ht
  have h := Lines.line (p := p) (l := a ++ l) (by
    rw [List.mem_append]
    exact fun h => h.elim ha hl)
  rwa [hp, List.append_assoc] at h

/-- Many pieces without any line that satisfies `p`. -/
theorem Lines.flatMap {β : Type*} {xs : List β} {f : β → List α}
    (h : ∀ x ∈ xs, Lines sep p 0 (f x)) : Lines sep p 0 (xs.flatMap f) := by
  induction xs with
  | nil => exact Lines.nil
  | cons x xs ih =>
      rw [List.flatMap_cons]
      exact (h x List.mem_cons_self).append
        (ih fun y hy => h y (List.mem_cons_of_mem _ hy))

/-- In a whole text the lines counted are those that satisfy `p`. -/
theorem Lines.count_eq {k : Nat} {t : List α} (h : Lines sep p k t)
    (hp : p [] = false) : count sep p t = k := by
  have hu := h []
  rw [List.append_nil] at hu
  rw [hu, count, List.splitOn_nil]
  simp [hp]

end R2C2Firmware.Verified.TextLines
