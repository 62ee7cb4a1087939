import Mathlib.Data.List.Range
import Mathlib.Data.List.Forall2
import Mathlib.Logic.Function.Basic
import Mathlib.Tactic

/-!
# Bounded ring buffers

A ring of `n` slots is driven by two indices: `head`, the next slot to be
written, and `tail`, the oldest live slot.  One slot always stays free, so
`head = tail` means empty and the ring holds at most `n - 1` elements.

Position `k` of the queue lives in slot `(tail + k) % n`; `contents` reads the
live slots in queue order.  C code walks the live slots with two loops,

* `while (i != stop) { body; i = next(i); }` and
* `while (i != stop) { i = prev(i); body; }`,

which are `walkUp` and `walkDown` here.  Both carry fuel `n`, and both are
shown to be plain folds over the queue positions.

## Main results

* `walkUp_eq_foldl`, `walkDown_eq_foldr` — the loops visit every live slot
  exactly once, in queue order respectively in reverse.
* `contents_push`, `contents_pop` — writing the head slot and advancing `head`
  appends; advancing `tail` drops the front.
* `contents_sweepDown`, `contents_sweepUp`, `contents_sweepPairs` — the three
  kinds of in-place neighbour sweep act on the queue as list recursions.
-/

namespace R2C2Firmware.Verified.Ring

variable {α σ : Type*}

/-! ## Index arithmetic -/

/-- The index after `i`, wrapping from the last slot to the first. -/
def next (n i : Nat) : Nat := if i + 1 = n then 0 else i + 1

/-- The index before `i`, wrapping from the first slot to the last. -/
def prev (n i : Nat) : Nat := (if i = 0 then n else i) - 1

/-- The slot that holds queue position `k`. -/
def slot (n tail k : Nat) : Nat := (tail + k) % n

/-- The number of live slots. -/
def count (n head tail : Nat) : Nat := (head + n - tail) % n

theorem next_lt {n i : Nat} (hi : i < n) : next n i < n := by
  unfold next
  split <;> omega

theorem slot_lt {n : Nat} (hn : 0 < n) (tail k : Nat) : slot n tail k < n :=
  Nat.mod_lt _ hn

theorem slot_zero {n tail : Nat} (ht : tail < n) : slot n tail 0 = tail :=
  Nat.mod_eq_of_lt ht

/-- Advancing the slot of position `k` gives the slot of position `k + 1`. -/
theorem next_slot {n tail : Nat} (ht : tail < n) (k : Nat) :
    next n (slot n tail k) = slot n tail (k + 1) := by
  have hlt : (tail + k) % n < n := Nat.mod_lt _ (by omega)
  have hsucc : (tail + (k + 1)) % n = ((tail + k) % n + 1) % n := by
    rw [Nat.mod_add_mod]
    rfl
  unfold next slot
  rw [hsucc]
  split
  · next h => rw [h, Nat.mod_self]
  · next h => exact (Nat.mod_eq_of_lt (by omega)).symm

/-- Stepping back from position `k + 1` gives position `k`. -/
theorem prev_slot {n tail : Nat} (ht : tail < n) (k : Nat) :
    prev n (slot n tail (k + 1)) = slot n tail k := by
  have hlt : slot n tail k < n := slot_lt (by omega) tail k
  rw [← next_slot ht k]
  unfold prev next
  split <;> split <;> omega

/-- Moving `tail` by one shifts every queue position by one. -/
theorem slot_next (n tail k : Nat) :
    slot n (next n tail) k = slot n tail (k + 1) := by
  unfold next slot
  split
  · next h =>
      rw [Nat.zero_add, show tail + (k + 1) = k + n by omega,
        Nat.add_mod_right]
  · next h => rw [show tail + 1 + k = tail + (k + 1) by omega]

/-- Distinct positions of one revolution live in distinct slots. -/
theorem slot_inj {n tail j k : Nat} (hj : j < n) (hk : k < n)
    (h : slot n tail j = slot n tail k) : j = k := by
  have hmod : j ≡ k [MOD n] := Nat.ModEq.add_left_cancel' tail h
  have hjk : j % n = k % n := hmod
  rwa [Nat.mod_eq_of_lt hj, Nat.mod_eq_of_lt hk] at hjk

theorem count_lt {n : Nat} (hn : 0 < n) (head tail : Nat) :
    count n head tail < n :=
  Nat.mod_lt _ hn

/-- `head` is the first free position. -/
theorem slot_count {n head tail : Nat} (hh : head < n) (ht : tail < n) :
    slot n tail (count n head tail) = head := by
  unfold slot count
  rw [Nat.add_mod_mod, show tail + (head + n - tail) = head + n by omega,
    Nat.add_mod_right, Nat.mod_eq_of_lt hh]

theorem count_eq_zero {n head tail : Nat} (hh : head < n) (ht : tail < n) :
    count n head tail = 0 ↔ head = tail := by
  constructor
  · intro h
    have hs := slot_count hh ht
    rwa [h, slot_zero ht, eq_comm] at hs
  · rintro rfl
    unfold count
    rw [show head + n - head = n by omega, Nat.mod_self]

/-- Advancing `head` of a ring with room adds one live slot. -/
theorem count_push {n head tail : Nat} (hh : head < n) (ht : tail < n)
    (hroom : next n head ≠ tail) :
    count n (next n head) tail = count n head tail + 1 := by
  have hc : count n head tail < n := count_lt (by omega) head tail
  have hnext : slot n tail (count n head tail + 1) = next n head := by
    rw [← next_slot ht, slot_count hh ht]
  have hne : count n head tail + 1 ≠ n := by
    intro h
    apply hroom
    rw [← hnext, h, slot, Nat.add_mod_right, Nat.mod_eq_of_lt ht]
  apply slot_inj (count_lt (by omega) _ _) (by omega : _ < n)
  rw [slot_count (next_lt hh) ht, hnext]

/-- Advancing `tail` of a non-empty ring removes one live slot. -/
theorem count_pop {n head tail : Nat} (hh : head < n) (ht : tail < n)
    (hne : head ≠ tail) :
    count n head (next n tail) + 1 = count n head tail := by
  have hpos : count n head tail ≠ 0 := fun h =>
    hne ((count_eq_zero hh ht).1 h)
  have hc := count_lt (by omega : 0 < n) head tail
  have hc' := count_lt (by omega : 0 < n) head (next n tail)
  have hslot : slot n tail (count n head (next n tail) + 1) = head := by
    rw [← slot_next, slot_count hh (next_lt ht)]
  by_cases hfull : count n head (next n tail) + 1 = n
  · -- a full revolution would bring `head` back to `tail`
    rw [hfull, slot, Nat.add_mod_right, Nat.mod_eq_of_lt ht] at hslot
    exact absurd hslot.symm hne
  · exact slot_inj (by omega) hc (by rw [hslot, slot_count hh ht])

/-- The ring is full when all slots but one are live. -/
theorem next_eq_iff {n head tail : Nat} (hh : head < n) (ht : tail < n) :
    next n head = tail ↔ count n head tail + 1 = n := by
  unfold next count
  rcases Nat.lt_or_ge head tail with hlt | hge
  · rw [Nat.mod_eq_of_lt (by omega)]
    split <;> omega
  · have hwrap : (head + n - tail) % n = head - tail := by
      rw [show head + n - tail = head - tail + n by omega, Nat.add_mod_right,
        Nat.mod_eq_of_lt (by omega)]
    rw [hwrap]
    split <;> omega

/-! ## The loops over the live slots -/

/-- `while (i != stop) { body(i); i = next(i); }` -/
def walkUp (n stop : Nat) (body : Nat → σ → σ) : Nat → Nat → σ → σ
  | 0, _, s => s
  | fuel + 1, i, s =>
      if i = stop then s else walkUp n stop body fuel (next n i) (body i s)

/-- `while (i != stop) { i = prev(i); body(i); }` -/
def walkDown (n stop : Nat) (body : Nat → σ → σ) : Nat → Nat → σ → σ
  | 0, _, s => s
  | fuel + 1, i, s =>
      if i = stop then s
      else walkDown n stop body fuel (prev n i) (body (prev n i) s)

/-- Started at position `k`, `walkUp` visits the positions `k, …, c - 1`. -/
private theorem walkUp_from {n tail c : Nat} (ht : tail < n) (hc : c < n)
    (body : Nat → σ → σ) (fuel k : Nat) (s : σ) (hk : k ≤ c)
    (hfuel : c - k < fuel) :
    walkUp n (slot n tail c) body fuel (slot n tail k) s =
      (List.range' k (c - k)).foldl (fun s j => body (slot n tail j) s) s := by
  induction fuel generalizing k s with
  | zero => omega
  | succ fuel ih =>
      by_cases hend : k = c
      · subst hend
        simp [walkUp]
      · have hne : slot n tail k ≠ slot n tail c := fun h =>
          hend (slot_inj (by omega) hc h)
        have hlen : c - k = (c - (k + 1)) + 1 := by omega
        rw [walkUp, if_neg hne, next_slot ht,
          ih (k + 1) _ (by omega) (by omega), hlen, List.range'_succ,
          List.foldl_cons]

theorem walkUp_eq_foldl {n head tail : Nat} (hh : head < n) (ht : tail < n)
    (body : Nat → σ → σ) (s : σ) :
    walkUp n head body n tail s =
      (List.range (count n head tail)).foldl
        (fun s j => body (slot n tail j) s) s := by
  have hc : count n head tail < n := count_lt (by omega) head tail
  have h := walkUp_from ht hc body n 0 s (Nat.zero_le _) (by omega)
  rw [slot_count hh ht, slot_zero ht] at h
  rw [h, List.range_eq_range', Nat.sub_zero]

/-- Started at position `k`, `walkDown` visits `k - 1, …, 0`. -/
private theorem walkDown_from {n tail : Nat} (ht : tail < n)
    (body : Nat → σ → σ) (fuel k : Nat) (s : σ) (hk : k < n)
    (hfuel : k < fuel) :
    walkDown n tail body fuel (slot n tail k) s =
      (List.range k).foldr (fun j s => body (slot n tail j) s) s := by
  induction fuel generalizing k s with
  | zero => omega
  | succ fuel ih =>
      cases k with
      | zero => simp [walkDown, slot_zero ht]
      | succ k =>
          have hne : slot n tail (k + 1) ≠ tail := by
            intro h
            have hz : k + 1 = 0 := slot_inj hk (by omega)
              (show slot n tail (k + 1) = slot n tail 0 by
                rw [h, slot_zero ht])
            omega
          rw [walkDown, if_neg hne, prev_slot ht,
            ih k _ (by omega) (by omega), List.range_succ, List.foldr_append]
          rfl

theorem walkDown_eq_foldr {n head tail : Nat} (hh : head < n) (ht : tail < n)
    (body : Nat → σ → σ) (s : σ) :
    walkDown n tail body n head s =
      (List.range (count n head tail)).foldr
        (fun j s => body (slot n tail j) s) s := by
  have hc : count n head tail < n := count_lt (by omega) head tail
  have h := walkDown_from ht body n (count n head tail) s hc hc
  rwa [slot_count hh ht] at h

/-- A loop whose body is simulated by another is simulated by its loop. -/
theorem walkUp_map {τ : Type*} {n stop : Nat} {body : Nat → σ → σ}
    {body' : Nat → τ → τ} (f : σ → τ)
    (hbody : ∀ i s, f (body i s) = body' i (f s)) :
    ∀ fuel i s, f (walkUp n stop body fuel i s) =
      walkUp n stop body' fuel i (f s) := by
  intro fuel
  induction fuel with
  | zero => intro i s; rfl
  | succ fuel ih =>
      intro i s
      by_cases hi : i = stop
      · simp [walkUp, hi]
      · simp [walkUp, hi, ih, hbody]

/-- A loop whose body is simulated by another is simulated by its loop. -/
theorem walkDown_map {τ : Type*} {n stop : Nat} {body : Nat → σ → σ}
    {body' : Nat → τ → τ} (f : σ → τ)
    (hbody : ∀ i s, f (body i s) = body' i (f s)) :
    ∀ fuel i s, f (walkDown n stop body fuel i s) =
      walkDown n stop body' fuel i (f s) := by
  intro fuel
  induction fuel with
  | zero => intro i s; rfl
  | succ fuel ih =>
      intro i s
      by_cases hi : i = stop
      · simp [walkDown, hi]
      · simp [walkDown, hi, ih, hbody]

/-- What the body leaves alone, the loop leaves alone. -/
theorem walkUp_invariant {τ : Type*} {n stop : Nat} {body : Nat → σ → σ}
    (f : σ → τ) (hbody : ∀ i s, f (body i s) = f s) :
    ∀ fuel i s, f (walkUp n stop body fuel i s) = f s := by
  intro fuel
  induction fuel with
  | zero => intro i s; rfl
  | succ fuel ih =>
      intro i s
      by_cases hi : i = stop
      · simp [walkUp, hi]
      · simp [walkUp, hi, ih, hbody]

/-- What the body leaves alone, the loop leaves alone. -/
theorem walkDown_invariant {τ : Type*} {n stop : Nat} {body : Nat → σ → σ}
    (f : σ → τ) (hbody : ∀ i s, f (body i s) = f s) :
    ∀ fuel i s, f (walkDown n stop body fuel i s) = f s := by
  intro fuel
  induction fuel with
  | zero => intro i s; rfl
  | succ fuel ih =>
      intro i s
      by_cases hi : i = stop
      · simp [walkDown, hi]
      · simp [walkDown, hi, ih, hbody]

/-- What every turn of the loop keeps, the loop keeps. -/
theorem walkUp_keep {n head tail : Nat} (hh : head < n) (ht : tail < n)
    {body : Nat → σ → σ} {I : σ → Prop}
    (hbody : ∀ k < count n head tail, ∀ s, I s → I (body (slot n tail k) s))
    {s : σ} (hs : I s) : I (walkUp n head body n tail s) := by
  rw [walkUp_eq_foldl hh ht]
  refine List.foldlRecOn _ _ hs fun s hs k hk => ?_
  exact hbody k (List.mem_range.1 hk) s hs

/-! ## The queue view -/

/-- The live slots in queue order. -/
def contents (n : Nat) (buf : Nat → α) (head tail : Nat) : List α :=
  (List.range (count n head tail)).map (fun k => buf (slot n tail k))

@[simp] theorem length_contents (n : Nat) (buf : Nat → α) (head tail : Nat) :
    (contents n buf head tail).length = count n head tail := by
  simp [contents]

theorem getElem_contents {n : Nat} {buf : Nat → α} {head tail k : Nat}
    (hk : k < (contents n buf head tail).length) :
    (contents n buf head tail)[k] = buf (slot n tail k) := by
  simp [contents]

theorem mem_contents {n : Nat} {buf : Nat → α} {head tail k : Nat}
    (hk : k < count n head tail) :
    buf (slot n tail k) ∈ contents n buf head tail :=
  List.mem_map_of_mem (List.mem_range.2 hk)

theorem contents_eq_nil {n : Nat} {buf : Nat → α} {head tail : Nat}
    (hh : head < n) (ht : tail < n) :
    contents n buf head tail = [] ↔ head = tail := by
  rw [← List.length_eq_zero_iff, length_contents, count_eq_zero hh ht]

/-- The front of a non-empty ring is its tail slot. -/
theorem head?_contents {n : Nat} {buf : Nat → α} {head tail : Nat}
    (hh : head < n) (ht : tail < n) (hne : head ≠ tail) :
    (contents n buf head tail).head? = some (buf tail) := by
  have hpos : count n head tail ≠ 0 := fun h =>
    hne ((count_eq_zero hh ht).1 h)
  obtain ⟨c, hc⟩ := Nat.exists_eq_succ_of_ne_zero hpos
  simp [contents, hc, List.range_succ_eq_map, slot_zero ht]

/-- Writing a free slot does not change the queue. -/
theorem contents_update_head {n : Nat} (buf : Nat → α) {head tail : Nat}
    (hh : head < n) (ht : tail < n) (a : α) :
    contents n (Function.update buf head a) head tail =
      contents n buf head tail := by
  have hc : count n head tail < n := count_lt (by omega) head tail
  apply List.map_congr_left
  intro k hk
  have hk' : k < count n head tail := List.mem_range.1 hk
  have hne : slot n tail k ≠ head := by
    intro h
    have heq : k = count n head tail := slot_inj (by omega) hc
      (show slot n tail k = slot n tail (count n head tail) by
        rw [h, slot_count hh ht])
    omega
  rw [Function.update_of_ne hne]

/-- Writing the head slot and advancing `head` appends one element. -/
theorem contents_push {n : Nat} {buf : Nat → α} {head tail : Nat}
    (hh : head < n) (ht : tail < n) (hroom : next n head ≠ tail) (a : α) :
    contents n (Function.update buf head a) (next n head) tail =
      contents n buf head tail ++ [a] := by
  have hold := contents_update_head buf hh ht a
  unfold contents at hold ⊢
  rw [count_push hh ht hroom, List.range_succ, List.map_append, hold]
  simp [slot_count hh ht]

/-- Advancing `tail` drops the front. -/
theorem contents_pop {n : Nat} {buf : Nat → α} {head tail : Nat}
    (hh : head < n) (ht : tail < n) (hne : head ≠ tail) :
    contents n buf head (next n tail) = (contents n buf head tail).tail := by
  unfold contents
  rw [← count_pop hh ht hne, List.range_succ_eq_map]
  simp [slot_next, Function.comp_def]

/-! ## Neighbour sweeps

C code recomputes linked blocks by walking the ring while keeping pointers to
the last few slots visited.  A sweep updates one slot from itself and a
neighbour; because the neighbour may already have been updated in the same
sweep, the effect on the queue is a scan.
-/

/-- Every element but the last is recomputed from its recomputed successor. -/
def scanRight (h : α → α → α) : List α → List α
  | [] => []
  | [a] => [a]
  | a :: b :: l =>
      match scanRight h (b :: l) with
      | [] => [a]
      | b' :: l' => h a b' :: b' :: l'

/-- Every element is recomputed from its recomputed predecessor; `p` precedes
the first. -/
def scanLeft (g : α → α → α) : α → List α → List α
  | _, [] => []
  | p, a :: l => g p a :: scanLeft g (g p a) l

/-- Every element is recomputed from its untouched successor, the last one by
itself. -/
def pairUp (t : α → α → α) (last : α → α) : List α → List α
  | [] => []
  | [a] => [last a]
  | a :: b :: l => t a b :: pairUp t last (b :: l)

theorem scanRight_cons_cons (h : α → α → α) (a b : α) (l : List α) :
    ∃ b' l', scanRight h (b :: l) = b' :: l' ∧
      scanRight h (a :: b :: l) = h a b' :: b' :: l' := by
  induction l generalizing a b with
  | nil => exact ⟨b, [], rfl, rfl⟩
  | cons c l ih =>
      obtain ⟨c', l', -, hb⟩ := ih b c
      refine ⟨h b c', c' :: l', hb, ?_⟩
      rw [scanRight, hb]

section Invariant

variable {β : Type*} (f : α → β)

theorem scanRight_map {h : α → α → α} (hf : ∀ a b, f (h a b) = f a)
    (l : List α) : (scanRight h l).map f = l.map f := by
  induction l with
  | nil => rfl
  | cons a l ih =>
      cases l with
      | nil => rfl
      | cons b l =>
          obtain ⟨b', l', hl, hfull⟩ := scanRight_cons_cons h a b l
          rw [hl] at ih
          rw [hfull, List.map_cons, hf, ih]
          rfl

theorem scanLeft_map {g : α → α → α} (hf : ∀ p a, f (g p a) = f a)
    (p : α) (l : List α) : (scanLeft g p l).map f = l.map f := by
  induction l generalizing p with
  | nil => rfl
  | cons a l ih => rw [scanLeft, List.map_cons, hf, ih, List.map_cons]

theorem pairUp_map {t : α → α → α} {last : α → α}
    (hf : ∀ a b, f (t a b) = f a) (hlast : ∀ a, f (last a) = f a)
    (l : List α) : (pairUp t last l).map f = l.map f := by
  induction l with
  | nil => rfl
  | cons a l ih =>
      cases l with
      | nil => simp [pairUp, hlast]
      | cons b l =>
          rw [pairUp, List.map_cons, hf, ih]
          rfl

theorem scanRight_forall₂ {r : α → α → Prop} {h : α → α → α}
    (hrefl : ∀ a, r a a) (hstep : ∀ a b, r a (h a b)) (l : List α) :
    List.Forall₂ r l (scanRight h l) := by
  induction l with
  | nil => exact .nil
  | cons a l ih =>
      cases l with
      | nil => exact .cons (hrefl a) .nil
      | cons b l =>
          obtain ⟨b', l', hl, hfull⟩ := scanRight_cons_cons h a b l
          rw [hl] at ih
          rw [hfull]
          exact .cons (hstep a b') ih

theorem scanLeft_forall₂ {r : α → α → Prop} {g : α → α → α}
    (hstep : ∀ p a, r a (g p a)) (p : α) (l : List α) :
    List.Forall₂ r l (scanLeft g p l) := by
  induction l generalizing p with
  | nil => exact .nil
  | cons a l ih => exact .cons (hstep p a) (ih _)

end Invariant

/-! ### The scans of two lists, one behind the other -/

/-- What comes first does not matter to the rest. -/
theorem scanRight_append (h : α → α → α) (l : List α) (b : α) (l' : List α) :
    ∃ l₁, scanRight h (l ++ b :: l') = l₁ ++ scanRight h (b :: l') := by
  induction l with
  | nil => exact ⟨[], rfl⟩
  | cons a l ih =>
      obtain ⟨l₁, hl₁⟩ := ih
      obtain ⟨c, m, hm⟩ : ∃ c m, l ++ b :: l' = c :: m := by
        cases l with
        | nil => exact ⟨b, l', rfl⟩
        | cons c m => exact ⟨c, m ++ b :: l', rfl⟩
      obtain ⟨c', m', hc, hfull⟩ := scanRight_cons_cons h a c m
      rw [hm, hc] at hl₁
      refine ⟨h a c' :: l₁, ?_⟩
      rw [List.cons_append, hm, hfull, hl₁]
      rfl

theorem scanLeft_append (g : α → α → α) (p : α) (l l' : List α) :
    scanLeft g p (l ++ l') =
      scanLeft g p l ++ scanLeft g ((p :: scanLeft g p l).getLast (by simp)) l' := by
  induction l generalizing p with
  | nil => rfl
  | cons a l ih =>
      rw [List.cons_append, scanLeft, ih, scanLeft, List.cons_append]
      rfl

theorem pairUp_append (t : α → α → α) (last : α → α) (l : List α) (b : α)
    (l' : List α) :
    ∃ l₁, pairUp t last (l ++ b :: l') = l₁ ++ pairUp t last (b :: l') := by
  induction l with
  | nil => exact ⟨[], rfl⟩
  | cons a l ih =>
      obtain ⟨l₁, hl₁⟩ := ih
      cases l with
      | nil => exact ⟨[t a b], rfl⟩
      | cons c l =>
          refine ⟨t a c :: l₁, ?_⟩
          show t a c :: pairUp t last (c :: l ++ b :: l') = _
          rw [hl₁]
          rfl

/-- The slots of the queue positions, in queue order. -/
def slots (n head tail : Nat) : List Nat :=
  (List.range (count n head tail)).map (slot n tail)

theorem contents_eq_map (n : Nat) (buf : Nat → α) (head tail : Nat) :
    contents n buf head tail = (slots n head tail).map buf := by
  simp [contents, slots, Function.comp_def]

theorem slots_nodup {n : Nat} (hn : 0 < n) (head tail : Nat) :
    (slots n head tail).Nodup := by
  have hc := count_lt hn head tail
  refine List.Nodup.map_on ?_ List.nodup_range
  intro j hj k hk h
  rw [List.mem_range] at hj hk
  exact slot_inj (by omega) (by omega) h

section Sweeps

variable (n head tail : Nat)

/-- Two pointers trail the index of the downward loop; the slot visited one
turn ago is recomputed from the slot visited before it. -/
def sweepDownStep (h : α → α → α) (i : Nat)
    (w : (Nat → α) × Option Nat × Option Nat) :
    (Nat → α) × Option Nat × Option Nat :=
  (match w.2.1, w.2.2 with
    | some c, some m => Function.update w.1 c (h (w.1 c) (w.1 m))
    | _, _ => w.1, some i, w.2.1)

private theorem sweepDown_spec (h : α → α → α) (buf : Nat → α) :
    ∀ ks : List Nat, ks.Nodup →
      let w := ks.foldr (sweepDownStep h) (buf, none, none)
      w.2.1 = ks.head? ∧ w.2.2 = ks.tail.head? ∧
        ks.tail.map w.1 = scanRight h (ks.tail.map buf) ∧
        ∀ i, i ∉ ks.tail → w.1 i = buf i := by
  intro ks
  induction ks with
  | nil => simp [scanRight]
  | cons k ks ih =>
      intro hnd
      obtain ⟨hk, hks⟩ := List.nodup_cons.1 hnd
      obtain ⟨h0, h1, hmap, hframe⟩ := ih hks
      rw [List.foldr_cons]
      generalize ks.foldr (sweepDownStep h) (buf, none, none) = w at *
      refine ⟨rfl, h0, ?_⟩
      simp only [List.tail_cons, sweepDownStep, h0, h1]
      cases ks with
      | nil => simpa [scanRight] using fun i => hframe i (by simp)
      | cons c cs =>
          cases cs with
          | nil =>
              have hall : w.1 = buf := funext fun i => hframe i (by simp)
              simp [scanRight, hall]
          | cons m ms =>
              obtain ⟨hc, -⟩ := List.nodup_cons.1 hks
              simp only [List.tail_cons, List.head?_cons] at hmap hframe ⊢
              obtain ⟨b', l', hl, hfull⟩ := scanRight_cons_cons h (buf c)
                (buf m) (ms.map buf)
              have hms : (m :: ms).map w.1 = b' :: l' := by
                rw [hmap, ← hl, List.map_cons]
              have hkeep : ∀ v, (m :: ms).map (Function.update w.1 c v) =
                  (m :: ms).map w.1 := by
                intro v
                apply List.map_congr_left
                intro i hi
                exact Function.update_of_ne (by rintro rfl; exact hc hi) _ _
              have hb' : w.1 m = b' := by
                simpa using congrArg List.head? hms
              constructor
              · rw [List.map_cons, hkeep, hms, Function.update_self,
                  hframe c hc, hb', List.map_cons, List.map_cons, hfull]
              · intro i hi
                rw [List.mem_cons, not_or] at hi
                rw [Function.update_of_ne hi.1]
                exact hframe i hi.2

/-- The downward sweep recomputes every block but the first and the last. -/
theorem contents_sweepDown (hh : head < n) (ht : tail < n)
    (h : α → α → α) (buf : Nat → α) :
    contents n (walkDown n tail (sweepDownStep h) n head
        (buf, none, none)).1 head tail =
      match contents n buf head tail with
      | [] => []
      | b :: bs => b :: scanRight h bs := by
  have hfold := walkDown_eq_foldr hh ht (sweepDownStep h) (buf, none, none)
  have hslots : (List.range (count n head tail)).foldr
      (fun j s => sweepDownStep h (slot n tail j) s) (buf, none, none) =
      (slots n head tail).foldr (sweepDownStep h) (buf, none, none) := by
    rw [slots, List.foldr_map]
  obtain ⟨-, -, hmap, hframe⟩ := sweepDown_spec h buf (slots n head tail)
    (slots_nodup (by omega) head tail)
  have hnd := slots_nodup (by omega : 0 < n) head tail
  rw [contents_eq_map, contents_eq_map, hfold, hslots]
  cases hks : slots n head tail with
  | nil => rfl
  | cons k ks =>
      rw [hks] at hmap hframe hnd
      simp only [List.map_cons, List.tail_cons] at hmap hframe ⊢
      rw [hmap, hframe k (List.nodup_cons.1 hnd).1]

/-- One kernel call of the upward sweep. -/
def sweepKernel (g : α → α → α) (p c : Option Nat) (buf : Nat → α) : Nat → α :=
  match p, c with
  | some p, some c => Function.update buf c (g (buf p) (buf c))
  | _, _ => buf

/-- Two pointers trail the index of the upward loop; the younger one is
recomputed from the older one. -/
def sweepUpStep (g : α → α → α) (i : Nat)
    (w : (Nat → α) × Option Nat × Option Nat) :
    (Nat → α) × Option Nat × Option Nat :=
  (sweepKernel g w.2.1 w.2.2 w.1, w.2.2, some i)

/-- The kernel call that follows the upward loop. -/
def sweepUpEnd (g : α → α → α) (w : (Nat → α) × Option Nat × Option Nat) :
    Nat → α :=
  sweepKernel g w.2.1 w.2.2 w.1

private theorem sweepUp_spec (g : α → α → α) :
    ∀ (ks : List Nat) (buf : Nat → α) (p c : Nat),
      (p :: c :: ks).Nodup →
      let buf' := sweepUpEnd g
        (ks.foldl (fun w i => sweepUpStep g i w) (buf, some p, some c))
      (c :: ks).map buf' = scanLeft g (buf p) ((c :: ks).map buf) ∧
        ∀ i, i ∉ c :: ks → buf' i = buf i := by
  intro ks
  induction ks with
  | nil =>
      intro buf p c hnd
      simp only [List.foldl_nil, sweepUpEnd, sweepKernel, List.map_cons,
        List.map_nil, scanLeft, Function.update_self, List.mem_singleton,
        true_and]
      intro i hi
      exact Function.update_of_ne hi _ _
  | cons k ks ih =>
      intro buf p c hnd
      obtain ⟨hp, hrest⟩ := List.nodup_cons.1 hnd
      obtain ⟨hc, -⟩ := List.nodup_cons.1 hrest
      have hstep : sweepUpStep g k (buf, some p, some c) =
          (Function.update buf c (g (buf p) (buf c)), some c, some k) := rfl
      rw [List.foldl_cons, hstep]
      obtain ⟨hmap, hframe⟩ := ih
        (Function.update buf c (g (buf p) (buf c))) c k hrest
      have hold : (k :: ks).map (Function.update buf c (g (buf p) (buf c))) =
          (k :: ks).map buf := by
        apply List.map_congr_left
        intro i hi
        exact Function.update_of_ne (by rintro rfl; exact hc hi) _ _
      rw [hold, Function.update_self] at hmap
      have hcv := hframe c hc
      rw [Function.update_self] at hcv
      constructor
      · rw [List.map_cons, hcv]
        exact congrArg _ hmap
      · intro i hi
        rw [List.mem_cons, not_or] at hi
        rw [hframe i hi.2, Function.update_of_ne hi.1]

/-- The upward sweep recomputes every block but the first. -/
theorem contents_sweepUp (hh : head < n) (ht : tail < n)
    (g : α → α → α) (buf : Nat → α) :
    contents n (sweepUpEnd g (walkUp n head (sweepUpStep g) n tail
        (buf, none, none))) head tail =
      match contents n buf head tail with
      | [] => []
      | b :: bs => b :: scanLeft g b bs := by
  have hfold := walkUp_eq_foldl hh ht (sweepUpStep g) (buf, none, none)
  have hslots : (List.range (count n head tail)).foldl
      (fun s j => sweepUpStep g (slot n tail j) s) (buf, none, none) =
      (slots n head tail).foldl (fun w i => sweepUpStep g i w)
        (buf, none, none) := by
    rw [slots, List.foldl_map]
  have hnd := slots_nodup (by omega : 0 < n) head tail
  rw [contents_eq_map, contents_eq_map, hfold, hslots]
  cases hks : slots n head tail with
  | nil => rfl
  | cons k ks =>
      rw [hks] at hnd
      cases ks with
      | nil => simp [sweepUpStep, sweepUpEnd, sweepKernel, scanLeft]
      | cons c cs =>
          obtain ⟨hmap, hframe⟩ := sweepUp_spec g cs buf k c hnd
          have hstep : sweepUpStep g c (sweepUpStep g k (buf, none, none)) =
              (buf, some k, some c) := rfl
          rw [List.foldl_cons, List.foldl_cons, hstep, List.map_cons, hmap,
            hframe k (List.nodup_cons.1 hnd).1]
          rfl

/-- One pointer trails the index of the upward loop; it is recomputed from the
slot just reached. -/
def sweepPairsStep (t : α → α → α) (i : Nat) (w : (Nat → α) × Option Nat) :
    (Nat → α) × Option Nat :=
  match w.2 with
  | some c => (Function.update w.1 c (t (w.1 c) (w.1 i)), some i)
  | none => (w.1, some i)

/-- The update of the last slot that follows the loop. -/
def sweepPairsEnd (last : α → α) (w : (Nat → α) × Option Nat) : Nat → α :=
  match w.2 with
  | some c => Function.update w.1 c (last (w.1 c))
  | none => w.1

private theorem sweepPairs_spec (t : α → α → α) (last : α → α) :
    ∀ (ks : List Nat) (buf : Nat → α) (c : Nat), (c :: ks).Nodup →
      let buf' := sweepPairsEnd last
        (ks.foldl (fun w i => sweepPairsStep t i w) (buf, some c))
      (c :: ks).map buf' = pairUp t last ((c :: ks).map buf) ∧
        ∀ i, i ∉ c :: ks → buf' i = buf i := by
  intro ks
  induction ks with
  | nil =>
      intro buf c _
      simp only [List.foldl_nil, sweepPairsEnd, List.map_cons, List.map_nil,
        pairUp, Function.update_self, List.mem_singleton, true_and]
      intro i hi
      exact Function.update_of_ne hi _ _
  | cons k ks ih =>
      intro buf c hnd
      obtain ⟨hc, hrest⟩ := List.nodup_cons.1 hnd
      have hstep : sweepPairsStep t k (buf, some c) =
          (Function.update buf c (t (buf c) (buf k)), some k) := rfl
      rw [List.foldl_cons, hstep]
      obtain ⟨hmap, hframe⟩ := ih
        (Function.update buf c (t (buf c) (buf k))) k hrest
      have hold : (k :: ks).map (Function.update buf c (t (buf c) (buf k))) =
          (k :: ks).map buf := by
        apply List.map_congr_left
        intro i hi
        exact Function.update_of_ne (by rintro rfl; exact hc hi) _ _
      have hcv := hframe c hc
      rw [Function.update_self] at hcv
      constructor
      · rw [List.map_cons, hcv, hmap, hold]
        rfl
      · intro i hi
        rw [List.mem_cons, not_or] at hi
        rw [hframe i hi.2, Function.update_of_ne hi.1]

/-- The pair sweep recomputes every block from its untouched successor. -/
theorem contents_sweepPairs (hh : head < n) (ht : tail < n)
    (t : α → α → α) (last : α → α) (buf : Nat → α) :
    contents n (sweepPairsEnd last (walkUp n head (sweepPairsStep t) n tail
        (buf, none))) head tail =
      pairUp t last (contents n buf head tail) := by
  have hfold := walkUp_eq_foldl hh ht (sweepPairsStep t) (buf, none)
  have hslots : (List.range (count n head tail)).foldl
      (fun s j => sweepPairsStep t (slot n tail j) s) (buf, none) =
      (slots n head tail).foldl (fun w i => sweepPairsStep t i w)
        (buf, none) := by
    rw [slots, List.foldl_map]
  have hnd := slots_nodup (by omega : 0 < n) head tail
  rw [contents_eq_map, contents_eq_map, hfold, hslots]
  cases hks : slots n head tail with
  | nil => rfl
  | cons k ks =>
      rw [hks] at hnd
      exact (sweepPairs_spec t last ks buf k hnd).1

end Sweeps

end R2C2Firmware.Verified.Ring
