import Mathlib.Tactic

/-!
# Reading lines into a bounded buffer

A reader takes a text apart line by line.  One call returns at most `n`
characters; it ends behind the separator `sep`, and it drops the character
`skip`.  A call that has nothing to return is the end of the text.

A line that fits into the buffer comes back whole; a longer one comes back in
pieces.

## Main results

* `gets_line` — a line that fits.
* `gets_length`, `gets_append` — what a call returns in general.
* `gets_taken` — what a call takes from the text.
* `Reads.flatten`, `reads_lines` — all the calls together.
* `Reads.unique`, `Reads.of_filter` — the calls are determined by what is not dropped.
-/

namespace R2C2Firmware.Verified.LineReader

variable {α : Type*} {sep skip : α} {n : Nat}

/-- A line: some characters that are neither `sep` nor `skip`, and `sep`. -/
def IsLine (sep skip : α) (l : List α) : Prop :=
  ∃ body, l = body ++ [sep] ∧ sep ∉ body ∧ skip ∉ body

theorem IsLine.ne_nil {l : List α} (h : IsLine sep skip l) : l ≠ [] := by
  obtain ⟨body, rfl, -, -⟩ := h
  simp

theorem IsLine.skip_not_mem {l : List α} (h : IsLine sep skip l)
    (hne : sep ≠ skip) : skip ∉ l := by
  obtain ⟨body, rfl, -, hskip⟩ := h
  rw [List.mem_append, List.mem_singleton]
  exact fun hmem => hmem.elim hskip fun heq => hne heq.symm

/-! ## One call -/

/-- A call comes to a character that is dropped. -/
def SkipAhead (sep skip : α) (n : Nat) (t : List α) : Prop :=
  ∃ pre post, t = pre ++ skip :: post ∧ sep ∉ pre ∧ skip ∉ pre ∧ pre.length < n

theorem not_skipAhead {t : List α} (h : skip ∉ t) : ¬SkipAhead sep skip n t := by
  rintro ⟨pre, post, rfl, -, -, -⟩
  simp at h

theorem skipAhead_cons {c : α} {t : List α} (hskip : c ≠ skip) (hsep : c ≠ sep) :
    SkipAhead sep skip (n + 1) (c :: t) ↔ SkipAhead sep skip n t := by
  constructor
  · rintro ⟨pre, post, heq, hpre, hpre', hlen⟩
    cases pre with
    | nil => exact absurd (List.cons.inj heq).1 hskip
    | cons b pre =>
        obtain ⟨rfl, rfl⟩ := List.cons.inj heq
        simp only [List.mem_cons, not_or, List.length_cons] at hpre hpre' hlen
        exact ⟨pre, post, rfl, hpre.2, hpre'.2, by omega⟩
  · rintro ⟨pre, post, rfl, hpre, hpre', hlen⟩
    refine ⟨c :: pre, post, rfl, ?_, ?_, by simpa using hlen⟩
    · simpa [Ne.symm hsep] using hpre
    · simpa [Ne.symm hskip] using hpre'

variable [DecidableEq α]

/-- One call: the characters returned, and what is left of the text. -/
def gets (sep skip : α) : Nat → List α → List α × List α
  | 0, t => ([], t)
  | _ + 1, [] => ([], [])
  | n + 1, c :: t =>
      if c = skip then gets sep skip (n + 1) t
      else if c = sep then ([c], t)
      else
        let r := gets sep skip n t
        (c :: r.1, r.2)

/-- A line that fits comes back whole. -/
theorem gets_line (hne : sep ≠ skip) {l : List α} (hl : IsLine sep skip l)
    (hn : l.length ≤ n) (rest : List α) :
    gets sep skip n (l ++ rest) = (l, rest) := by
  obtain ⟨body, rfl, hsep, hskip⟩ := hl
  induction body generalizing n with
  | nil =>
      obtain ⟨n, rfl⟩ : ∃ k, n = k + 1 := ⟨n - 1, by simp at hn; omega⟩
      show (if sep = skip then _ else if sep = sep then _ else _) = _
      rw [if_neg hne, if_pos rfl]
      rfl
  | cons c body ih =>
      simp only [List.mem_cons, not_or] at hsep hskip
      simp only [List.cons_append, List.length_cons] at hn
      obtain ⟨n, rfl⟩ : ∃ k, n = k + 1 := ⟨n - 1, by omega⟩
      have hrest := ih (n := n) (by omega) hsep.2 hskip.2
      show (if c = skip then _ else if c = sep then _ else
        (c :: (gets sep skip n (body ++ [sep] ++ rest)).1,
          (gets sep skip n (body ++ [sep] ++ rest)).2)) = _
      rw [if_neg (fun h => hskip.1 h.symm), if_neg (fun h => hsep.1 h.symm),
        hrest]
      rfl

/-- No call returns more than fits. -/
theorem gets_length (n : Nat) (t : List α) :
    (gets sep skip n t).1.length ≤ n := by
  induction t generalizing n with
  | nil => cases n <;> simp [gets]
  | cons c t ih =>
      cases n with
      | zero => simp [gets]
      | succ n =>
          unfold gets
          split
          · exact ih (n + 1)
          · split
            · simp
            · have hrest := ih n
              simp only [List.length_cons]
              omega

/-- What one call returns and what it leaves make up the text, if it holds no character
that is skipped. -/
theorem gets_append (n : Nat) {t : List α} (h : skip ∉ t) :
    (gets sep skip n t).1 ++ (gets sep skip n t).2 = t := by
  induction t generalizing n with
  | nil => cases n <;> rfl
  | cons c t ih =>
      simp only [List.mem_cons, not_or] at h
      cases n with
      | zero => rfl
      | succ n =>
          unfold gets
          rw [if_neg (fun heq => h.1 heq.symm)]
          split
          · rfl
          · show c :: ((gets sep skip n t).1 ++ (gets sep skip n t).2) = _
            rw [ih n h.2]

/-- A call returns nothing only at the end of the text. -/
theorem gets_eq_nil {t : List α} (hn : 0 < n) (h : skip ∉ t) :
    (gets sep skip n t).1 = [] ↔ t = [] := by
  obtain ⟨n, rfl⟩ : ∃ k, n = k + 1 := ⟨n - 1, by omega⟩
  cases t with
  | nil => simp [gets]
  | cons c t =>
      simp only [List.mem_cons, not_or] at h
      unfold gets
      rw [if_neg (fun heq => h.1 heq.symm)]
      split <;> simp

/-- What is left is the end of the text. -/
theorem gets_suffix (n : Nat) (t : List α) : (gets sep skip n t).2 <:+ t := by
  induction t generalizing n with
  | nil => cases n <;> exact List.suffix_rfl
  | cons c t ih =>
      cases n with
      | zero => exact List.suffix_rfl
      | succ n =>
          have hcons : t <:+ c :: t := List.suffix_cons c t
          unfold gets
          split
          · exact (ih (n + 1)).trans hcons
          · split
            · exact hcons
            · exact (ih n).trans hcons

/-- A call takes at least as much as it returns, and no more exactly when it drops
nothing. -/
theorem gets_taken (n : Nat) (t : List α) :
    (gets sep skip n t).1.length + (gets sep skip n t).2.length ≤ t.length ∧
      ((gets sep skip n t).1.length + (gets sep skip n t).2.length = t.length ↔
        ¬SkipAhead sep skip n t) := by
  induction t generalizing n with
  | nil =>
      have hnone : ¬SkipAhead sep skip n [] := not_skipAhead (by simp)
      cases n <;> simp [gets, hnone]
  | cons c t ih =>
      cases n with
      | zero =>
          have hnone : ¬SkipAhead sep skip 0 (c :: t) := fun ⟨_, _, _, _, _, hlen⟩ =>
            absurd hlen (Nat.not_lt_zero _)
          simp [gets, hnone]
      | succ n =>
          unfold gets
          split
          · next hskip =>
              have hle := (ih (n + 1)).1
              have hahead : SkipAhead sep skip (n + 1) (c :: t) :=
                ⟨[], t, by rw [hskip]; rfl, by simp, by simp, by simp⟩
              rw [List.length_cons]
              exact ⟨by omega, fun heq => absurd heq (by omega), fun h => absurd hahead h⟩
          · next hskip =>
            split
            · next hsep =>
                have hnone : ¬SkipAhead sep skip (n + 1) (c :: t) := by
                  rintro ⟨pre, post, heq, hpre, -, -⟩
                  cases pre with
                  | nil => exact hskip (List.cons.inj heq).1
                  | cons b pre =>
                      rw [← (List.cons.inj heq).1, hsep] at hpre
                      simp at hpre
                simp [hnone, Nat.add_comm]
            · next hsep =>
                obtain ⟨hle, hiff⟩ := ih n
                rw [skipAhead_cons hskip hsep, ← hiff]
                simp only [List.length_cons]
                omega

/-! ## All the calls -/

/-- The calls return these pieces, up to the end of the text. -/
inductive Reads (sep skip : α) (n : Nat) : List α → List (List α) → Prop
  | done {t : List α} : (gets sep skip n t).1 = [] → Reads sep skip n t []
  | line {t : List α} {ls : List (List α)} : (gets sep skip n t).1 ≠ [] →
      Reads sep skip n (gets sep skip n t).2 ls →
      Reads sep skip n t ((gets sep skip n t).1 :: ls)

/-- Lines that fit come back as they were. -/
theorem reads_lines (hne : sep ≠ skip) {ls : List (List α)}
    (hl : ∀ l ∈ ls, IsLine sep skip l ∧ l.length ≤ n) :
    Reads sep skip n ls.flatten ls := by
  induction ls with
  | nil =>
      refine .done ?_
      cases n <;> rfl
  | cons l ls ih =>
      obtain ⟨hline, hlen⟩ := hl l List.mem_cons_self
      have hget := gets_line hne hline hlen ls.flatten
      have hrest := ih fun x hx => hl x (List.mem_cons_of_mem _ hx)
      have hstep : Reads sep skip n (l ++ ls.flatten)
          ((gets sep skip n (l ++ ls.flatten)).1 :: ls) := by
        refine .line ?_ ?_
        · rw [hget]
          exact hline.ne_nil
        · rw [hget]
          exact hrest
      rw [hget] at hstep
      exact hstep

/-- The pieces are determined by the text. -/
theorem Reads.unique {t : List α} {ls ls' : List (List α)}
    (h : Reads sep skip n t ls) (h' : Reads sep skip n t ls') : ls = ls' := by
  induction h generalizing ls' with
  | done hnil =>
      cases h' with
      | done _ => rfl
      | line hne _ => exact absurd hnil hne
  | line hne _ ih =>
      cases h' with
      | done hnil => exact absurd hnil hne
      | line _ hrest => rw [ih hrest]

/-- One call does not see the characters that are dropped. -/
theorem gets_filter (n : Nat) (t : List α) :
    (gets sep skip n (t.filter (· ≠ skip))).1 = (gets sep skip n t).1 ∧
      (gets sep skip n (t.filter (· ≠ skip))).2 =
        (gets sep skip n t).2.filter (· ≠ skip) := by
  induction t generalizing n with
  | nil => cases n <;> exact ⟨rfl, rfl⟩
  | cons c t ih =>
      cases n with
      | zero => constructor <;> simp [gets]
      | succ n =>
          by_cases hskip : c = skip
          · rw [List.filter_cons_of_neg (by simpa using hskip), gets, if_pos hskip]
            exact ih (n + 1)
          · rw [List.filter_cons_of_pos (by simpa using hskip), gets, gets, if_neg hskip,
              if_neg hskip]
            split
            · exact ⟨rfl, rfl⟩
            · obtain ⟨hfst, hsnd⟩ := ih n
              exact ⟨congrArg (c :: ·) hfst, hsnd⟩

/-- What is returned comes from the text. -/
theorem mem_of_mem_gets {t : List α} {c : α} (h : c ∈ (gets sep skip n t).1) :
    c ∈ t := by
  rw [← (gets_filter n t).1] at h
  have hkept : skip ∉ t.filter (· ≠ skip) := by simp
  have hmem := List.mem_append_left (gets sep skip n (t.filter (· ≠ skip))).2 h
  rw [gets_append n hkept] at hmem
  exact List.mem_of_mem_filter hmem

theorem Reads.of_filter {t : List α} {ls : List (List α)}
    (h : Reads sep skip n (t.filter (· ≠ skip)) ls) : Reads sep skip n t ls := by
  generalize hu : t.filter (· ≠ skip) = u at h
  induction h generalizing t with
  | done hnil =>
      subst hu
      rw [(gets_filter n t).1] at hnil
      exact .done hnil
  | line hne _ ih =>
      subst hu
      obtain ⟨hfst, hsnd⟩ :
          (gets sep skip n (t.filter (· ≠ skip))).1 = (gets sep skip n t).1 ∧
            (gets sep skip n (t.filter (· ≠ skip))).2 =
              (gets sep skip n t).2.filter (· ≠ skip) := gets_filter n t
      rw [hfst] at hne ⊢
      exact .line hne (ih hsnd.symm)

/-- The pieces that are read make up the text. -/
theorem Reads.flatten {t : List α} {ls : List (List α)} (hn : 0 < n)
    (hskip : skip ∉ t) (h : Reads sep skip n t ls) : ls.flatten = t := by
  induction h with
  | done hnil => exact ((gets_eq_nil hn hskip).1 hnil).symm
  | @line t ls _ _ ih =>
      have happend : (gets sep skip n t).1 ++ (gets sep skip n t).2 = t :=
        gets_append n hskip
      have hrest : skip ∉ (gets sep skip n t).2 := by
        intro hmem
        apply hskip
        rw [← happend]
        exact List.mem_append_right _ hmem
      rw [List.flatten_cons, ih hrest, happend]

/-- No piece is longer than the buffer. -/
theorem Reads.length_le {t : List α} {ls : List (List α)}
    (h : Reads sep skip n t ls) : ∀ l ∈ ls, l.length ≤ n := by
  induction h with
  | done _ => simp
  | line _ _ ih =>
      intro l hl
      rcases List.mem_cons.1 hl with rfl | hl
      · exact gets_length n _
      · exact ih l hl

end R2C2Firmware.Verified.LineReader
