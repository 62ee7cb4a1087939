import Mathlib

/-!
# First-fit allocation

An arena is cut into extents that lie one behind the other, some in use and some
free.  `allocate` takes the first free extent that is large enough, and cuts off
what is left over unless it is too small to stand alone.  `release` frees an
extent and joins it with the free ones on either side.

## Main results

* `allocate_eq_some` — which extent is taken.
* `live_allocate`, `live_release` — the extents in use.
* `Coalesced.cut`, `Coalesced.release` — free extents never touch.
* `Coalesced.eq_single` — with nothing in use the arena is in one piece.
-/

namespace R2C2Firmware.Verified.FirstFit

/-- A stretch of an arena. -/
structure Extent where
  size : Nat
  used : Bool
deriving DecidableEq, Repr

/-- The bytes of some extents. -/
def total (l : List Extent) : Nat := (l.map Extent.size).sum

@[simp] theorem total_nil : total [] = 0 := rfl

@[simp] theorem total_cons (e : Extent) (l : List Extent) :
    total (e :: l) = e.size + total l := by
  simp [total]

@[simp] theorem total_append (l m : List Extent) :
    total (l ++ m) = total l + total m := by
  simp [total]

/-! ## The extents in use -/

/-- The extents in use of an arena at `a`, with their addresses and sizes. -/
def live : Nat → List Extent → List (Nat × Nat)
  | _, [] => []
  | a, e :: l =>
      if e.used then (a, e.size) :: live (a + e.size) l else live (a + e.size) l

theorem live_append (a : Nat) (l m : List Extent) :
    live a (l ++ m) = live a l ++ live (a + total l) m := by
  induction l generalizing a with
  | nil => simp [live]
  | cons e l ih =>
      simp only [List.cons_append, live, ih, total_cons, Nat.add_assoc]
      split <;> rfl

theorem live_bounds {a : Nat} {l : List Extent} {b : Nat × Nat}
    (h : b ∈ live a l) : a ≤ b.1 ∧ b.1 + b.2 ≤ a + total l := by
  induction l generalizing a with
  | nil => simp [live] at h
  | cons e l ih =>
      rw [live] at h
      rw [total_cons]
      split at h
      · rcases List.mem_cons.1 h with rfl | h
        · exact ⟨le_rfl, by simp⟩
        · have := ih h
          omega
      · have := ih h
        omega

/-- Extents in use lie one behind the other. -/
theorem live_sorted (a : Nat) (l : List Extent) :
    (live a l).Pairwise fun b c => b.1 + b.2 ≤ c.1 := by
  induction l generalizing a with
  | nil => exact .nil
  | cons e l ih =>
      rw [live]
      split
      · exact List.pairwise_cons.2 ⟨fun c hc => (live_bounds hc).1, ih _⟩
      · exact ih _

/-- An extent in use, with what lies in front of it and behind it. -/
theorem exists_of_mem_live {a : Nat} {l : List Extent} {b : Nat × Nat}
    (h : b ∈ live a l) :
    ∃ l₁ l₂, l = l₁ ++ ⟨b.2, true⟩ :: l₂ ∧ b.1 = a + total l₁ := by
  induction l generalizing a with
  | nil => simp [live] at h
  | cons e l ih =>
      have hrest : b ∈ live (a + e.size) l →
          ∃ l₁ l₂, e :: l = l₁ ++ ⟨b.2, true⟩ :: l₂ ∧ b.1 = a + total l₁ := by
        intro h
        obtain ⟨l₁, l₂, rfl, hb⟩ := ih h
        exact ⟨e :: l₁, l₂, rfl, by rw [hb, total_cons, Nat.add_assoc]⟩
      rw [live] at h
      split at h
      · rename_i hused
        rcases List.mem_cons.1 h with rfl | h
        · exact ⟨[], l, by simp [← hused], by simp⟩
        · exact hrest h
      · exact hrest h

/-! ## Allocation -/

/-- Take the first free extent of at least `n` bytes.  What is left over stays
free unless it is less than `least` bytes. -/
def allocate (least n : Nat) : Nat → List Extent → Option (Nat × List Extent)
  | _, [] => none
  | a, e :: l =>
      if !e.used && n ≤ e.size then
        if e.size - n < least then some (a, ⟨e.size, true⟩ :: l)
        else some (a, ⟨n, true⟩ :: ⟨e.size - n, false⟩ :: l)
      else (allocate least n (a + e.size) l).map fun r => (r.1, e :: r.2)

/-- What is put in the place of a free extent of `s` bytes. -/
def cut (least n s : Nat) : List Extent :=
  if s - n < least then [⟨s, true⟩] else [⟨n, true⟩, ⟨s - n, false⟩]

variable {least n : Nat}

/-- No free extent is large enough. -/
def Refused (n : Nat) (l : List Extent) : Prop :=
  ∀ e ∈ l, e.used = false → e.size < n

theorem allocate_append {l m : List Extent} (h : Refused n l) (a : Nat) :
    allocate least n a (l ++ m) =
      (allocate least n (a + total l) m).map fun r => (r.1, l ++ r.2) := by
  induction l generalizing a with
  | nil => simp
  | cons e l ih =>
      have hl : Refused n l := fun f hf => h f (List.mem_cons_of_mem e hf)
      have hskip : ¬(!e.used && n ≤ e.size) = true := by
        intro hfit
        simp only [Bool.and_eq_true, Bool.not_eq_true', decide_eq_true_eq] at hfit
        have := h e List.mem_cons_self hfit.1
        omega
      rw [List.cons_append, allocate, if_neg hskip, ih hl, total_cons, Nat.add_assoc]
      cases allocate least n (a + (e.size + total l)) m <;> rfl

theorem allocate_fits {s : Nat} (hs : n ≤ s) (a : Nat) (l : List Extent) :
    allocate least n a (⟨s, false⟩ :: l) = some (a, cut least n s ++ l) := by
  rw [allocate, if_pos (by simpa using hs), cut]
  split <;> rfl

/-- The first free extent that is large enough. -/
theorem exists_first_fit {l : List Extent} (h : ¬Refused n l) :
    ∃ l₁ s l₂, l = l₁ ++ ⟨s, false⟩ :: l₂ ∧ Refused n l₁ ∧ n ≤ s := by
  induction l with
  | nil => exact absurd (fun e he => absurd he (by simp)) h
  | cons e l ih =>
      by_cases hfit : e.used = false ∧ n ≤ e.size
      · exact ⟨[], e.size, l, by rw [← hfit.1]; rfl, fun f hf => absurd hf (by simp),
          hfit.2⟩
      · have hl : ¬Refused n l := by
          intro hl
          refine h fun f hf hfree => ?_
          rcases List.mem_cons.1 hf with rfl | hf
          · exact Nat.lt_of_not_le fun hle => hfit ⟨hfree, hle⟩
          · exact hl f hf hfree
        obtain ⟨l₁, s, l₂, rfl, href, hs⟩ := ih hl
        refine ⟨e :: l₁, s, l₂, rfl, fun f hf hfree => ?_, hs⟩
        rcases List.mem_cons.1 hf with rfl | hf
        · exact Nat.lt_of_not_le fun hle => hfit ⟨hfree, hle⟩
        · exact href f hf hfree

theorem allocate_refused {l : List Extent} (h : Refused n l) (a : Nat) :
    allocate least n a l = none := by
  have happend : allocate least n a (l ++ []) = _ := allocate_append h a
  rwa [List.append_nil, allocate] at happend

/-- The extent that is taken is the first free one of sufficient size; it is cut if it
is larger. -/
theorem allocate_eq_some {a p : Nat} {l m : List Extent}
    (h : allocate least n a l = some (p, m)) :
    ∃ l₁ s l₂, l = l₁ ++ ⟨s, false⟩ :: l₂ ∧ Refused n l₁ ∧ n ≤ s ∧
      p = a + total l₁ ∧ m = l₁ ++ (cut least n s ++ l₂) := by
  by_cases href : Refused n l
  · rw [allocate_refused href] at h
    cases h
  · obtain ⟨l₁, s, l₂, rfl, href, hs⟩ := exists_first_fit href
    rw [allocate_append href, allocate_fits hs] at h
    cases h
    exact ⟨l₁, s, l₂, rfl, href, hs, rfl, rfl⟩

theorem total_cut {s : Nat} (hs : n ≤ s) : total (cut least n s) = s := by
  rw [cut]
  split
  · simp
  · simp only [total_cons, total_nil]
    omega

/-- The extents in use are those of before, and one of at least the size asked
for. -/
theorem live_allocate {a p : Nat} {l m : List Extent}
    (h : allocate least n a l = some (p, m)) :
    ∃ k, n ≤ k ∧ (live a m).Perm ((p, k) :: live a l) := by
  obtain ⟨l₁, s, l₂, rfl, -, hs, rfl, rfl⟩ := allocate_eq_some h
  have hl : live a (l₁ ++ ⟨s, false⟩ :: l₂) =
      live a l₁ ++ live (a + total l₁ + s) l₂ := by
    rw [live_append, live]
    rfl
  refine ⟨if s - n < least then s else n, by split <;> omega, ?_⟩
  rw [hl, live_append, live_append, total_cut hs]
  have hcut : live (a + total l₁) (cut least n s) =
      [(a + total l₁, if s - n < least then s else n)] := by
    rw [cut]
    split <;> rfl
  rw [hcut]
  exact List.perm_middle

/-! ## Release -/

/-- A free extent, joined with the free one behind it. -/
def joinNext (s : Nat) : List Extent → List Extent
  | ⟨t, false⟩ :: l => ⟨s + t, false⟩ :: l
  | l => ⟨s, false⟩ :: l

/-- Free the extent at `p`. -/
def release (p : Nat) : Nat → List Extent → List Extent
  | _, [] => []
  | a, e :: l =>
      if e.used then
        if a = p then joinNext e.size l else e :: release p (a + e.size) l
      else joinNext e.size (release p (a + e.size) l)

/-- No two free extents touch. -/
def Coalesced (l : List Extent) : Prop :=
  l.IsChain fun e f => e.used = true ∨ f.used = true

/-- The first extent is in use, if there is one. -/
def StartsUsed (l : List Extent) : Prop := ∀ e ∈ l.head?, e.used = true

theorem coalesced_free {s : Nat} {l : List Extent} :
    Coalesced (⟨s, false⟩ :: l) ↔ StartsUsed l ∧ Coalesced l := by
  cases l with
  | nil => simp [Coalesced, StartsUsed]
  | cons e l => simp [Coalesced, StartsUsed]

theorem coalesced_used {s : Nat} {l : List Extent} :
    Coalesced (⟨s, true⟩ :: l) ↔ Coalesced l := by
  cases l with
  | nil => simp [Coalesced]
  | cons e l => simp [Coalesced]

theorem joinNext_used {l : List Extent} (h : StartsUsed l) (s : Nat) :
    joinNext s l = ⟨s, false⟩ :: l := by
  match l, h with
  | [], _ => rfl
  | ⟨t, true⟩ :: l, _ => rfl
  | ⟨t, false⟩ :: l, h => exact absurd (h _ rfl) (by simp)

theorem total_joinNext (s : Nat) (l : List Extent) :
    total (joinNext s l) = s + total l := by
  match l with
  | [] => rfl
  | ⟨t, true⟩ :: l => simp [joinNext]
  | ⟨t, false⟩ :: l => simp [joinNext, Nat.add_assoc]

theorem live_joinNext (a s : Nat) (l : List Extent) :
    live a (joinNext s l) = live (a + s) l := by
  match l with
  | [] => rfl
  | ⟨t, true⟩ :: l => simp [joinNext, live]
  | ⟨t, false⟩ :: l => simp [joinNext, live, Nat.add_assoc]

theorem coalesced_joinNext {s : Nat} {l : List Extent} (h : Coalesced l) :
    Coalesced (joinNext s l) := by
  match l, h with
  | [], _ => simp [joinNext, Coalesced]
  | ⟨t, true⟩ :: l, h => exact coalesced_free.2 ⟨by simp [StartsUsed], h⟩
  | ⟨t, false⟩ :: l, h => exact coalesced_free.2 (coalesced_free.1 h)

theorem total_release (p a : Nat) (l : List Extent) :
    total (release p a l) = total l := by
  induction l generalizing a with
  | nil => rfl
  | cons e l ih =>
      rw [release]
      split
      · split
        · rw [total_joinNext, total_cons]
        · rw [total_cons, total_cons, ih]
      · rw [total_joinNext, total_cons, ih]

theorem Coalesced.tail {e : Extent} {l : List Extent} (h : Coalesced (e :: l)) :
    Coalesced l :=
  List.IsChain.tail h

/-- Free extents do not touch after a release either. -/
theorem Coalesced.release {l : List Extent} (h : Coalesced l) (p a : Nat) :
    Coalesced (release p a l) := by
  induction l generalizing a with
  | nil => exact h
  | cons e l ih =>
      obtain ⟨s, used⟩ := e
      rw [FirstFit.release]
      split
      · split
        · exact coalesced_joinNext h.tail
        · rename_i hused _
          obtain rfl : used = true := hused
          exact coalesced_used.2 (ih h.tail _)
      · exact coalesced_joinNext (ih h.tail _)

/-- Cutting a free extent leaves no two free neighbours. -/
theorem Coalesced.cut {l₁ l₂ : List Extent} {s : Nat}
    (h : Coalesced (l₁ ++ ⟨s, false⟩ :: l₂)) (least n : Nat) :
    Coalesced (l₁ ++ (cut least n s ++ l₂)) := by
  unfold Coalesced at h ⊢
  rw [List.isChain_append] at h ⊢
  obtain ⟨h₁, h₂, -⟩ := h
  have hl₂ := coalesced_free.1 h₂
  rw [FirstFit.cut]
  split
  · exact ⟨h₁, coalesced_used.2 hl₂.2, by simp⟩
  · exact ⟨h₁, coalesced_used.2 (coalesced_free.2 hl₂), by simp⟩

/-- The extents in use are those of before, without the one released. -/
theorem live_release {l : List Extent} (hpos : ∀ e ∈ l, 0 < e.size) (p a : Nat) :
    live a (release p a l) = (live a l).filter fun b => b.1 ≠ p := by
  have hbehind : ∀ {a : Nat} {l : List Extent}, p < a →
      (live a l).filter (fun b => b.1 ≠ p) = live a l := by
    intro a l hlt
    refine List.filter_eq_self.2 fun b hb => ?_
    have := (live_bounds hb).1
    simpa using (by omega : b.1 ≠ p)
  induction l generalizing a with
  | nil => rfl
  | cons e l ih =>
      have hl : ∀ f ∈ l, 0 < f.size := fun f hf => hpos f (List.mem_cons_of_mem e hf)
      have he : 0 < e.size := hpos e List.mem_cons_self
      rw [release, live]
      split
      · split
        · rename_i hp
          rw [live_joinNext, List.filter_cons_of_neg (by simpa using hp),
            hbehind (by omega)]
        · rename_i hused hp
          rw [live, if_pos hused, ih hl, List.filter_cons_of_pos (by simpa using hp)]
      · rw [live_joinNext, ih hl]

/-- A release in the middle of an arena, behind an extent in use. -/
theorem release_append {l₁ : List Extent} (hpos : ∀ e ∈ l₁, 0 < e.size)
    (hco : Coalesced l₁) (a s : Nat) (l₂ : List Extent)
    (hlast : ∀ e ∈ l₁.getLast?, e.used = true) :
    release (a + total l₁) a (l₁ ++ ⟨s, true⟩ :: l₂) = l₁ ++ joinNext s l₂ := by
  induction l₁ generalizing a with
  | nil => simp [release]
  | cons e l₁ ih =>
      have htail : ∀ f ∈ l₁, 0 < f.size := fun f hf => hpos f (List.mem_cons_of_mem e hf)
      have he : 0 < e.size := hpos e List.mem_cons_self
      have hlast' : ∀ f ∈ l₁.getLast?, f.used = true := by
        intro f hf
        refine hlast f ?_
        cases l₁ with
        | nil => cases hf
        | cons g l => rwa [List.getLast?_cons_cons]
      have hrest := ih htail hco.tail (a + e.size) hlast'
      rw [Nat.add_assoc] at hrest
      obtain ⟨t, used⟩ := e
      rw [List.cons_append, release, total_cons]
      cases used with
      | true =>
          have hne : a ≠ a + (t + total l₁) := by
            have : 0 < t := he
            omega
          rw [if_pos rfl, if_neg hne, hrest]
          rfl
      | false =>
          rw [if_neg (by simp), hrest, joinNext_used, List.cons_append]
          have hstart := (coalesced_free.1 hco).1
          cases l₁ with
          | nil => exact absurd (hlast _ rfl) (by simp)
          | cons g l => exact hstart

/-- A release in the middle of an arena, behind a free extent. -/
theorem release_append_free {l₁ : List Extent} {t : Nat}
    (hpos : ∀ e ∈ l₁ ++ [⟨t, false⟩], 0 < e.size)
    (hco : Coalesced (l₁ ++ [⟨t, false⟩])) (a s : Nat) (l₂ : List Extent) :
    release (a + total (l₁ ++ [⟨t, false⟩])) a (l₁ ++ ⟨t, false⟩ :: ⟨s, true⟩ :: l₂) =
      l₁ ++ joinNext t (joinNext s l₂) := by
  induction l₁ generalizing a with
  | nil => simp [release]
  | cons e l₁ ih =>
      have htail : ∀ f ∈ l₁ ++ [⟨t, false⟩], 0 < f.size :=
        fun f hf => hpos f (List.mem_cons_of_mem e hf)
      have he : 0 < e.size := hpos e List.mem_cons_self
      have hrest := ih htail hco.tail (a + e.size)
      rw [Nat.add_assoc] at hrest
      obtain ⟨u, used⟩ := e
      rw [List.cons_append, List.cons_append, release, total_cons]
      cases used with
      | true =>
          have hne : a ≠ a + (u + total (l₁ ++ [⟨t, false⟩])) := by
            have : 0 < u := he
            omega
          rw [if_pos rfl, if_neg hne, hrest]
          rfl
      | false =>
          have hstart := (coalesced_free.1 hco).1
          rw [if_neg (by simp), hrest, joinNext_used, List.cons_append]
          cases l₁ with
          | nil => exact absurd (hstart _ rfl) (by simp)
          | cons g l => exact hstart

/-- With nothing in use the arena is in one piece. -/
theorem Coalesced.eq_single {l : List Extent} (h : Coalesced l) {a : Nat}
    (hlive : live a l = []) : l = [] ∨ l = [⟨total l, false⟩] := by
  match l, h with
  | [], _ => exact .inl rfl
  | ⟨s, true⟩ :: l, _ => simp [live] at hlive
  | ⟨s, false⟩ :: [], _ => exact .inr (by simp)
  | ⟨s, false⟩ :: ⟨t, true⟩ :: l, _ => simp [live] at hlive
  | ⟨s, false⟩ :: ⟨t, false⟩ :: l, h =>
      exact absurd ((coalesced_free.1 h).1 _ rfl) (by simp)

end R2C2Firmware.Verified.FirstFit
