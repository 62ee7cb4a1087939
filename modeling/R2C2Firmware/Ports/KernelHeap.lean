import R2C2Firmware.Verified.FirstFit

/-!
# The kernel heap

`CoKmalloc` and `CoKfree` keep their records inside the heap itself.  A used block
starts with the links `nextMB` and `preMB` to the blocks on either side, a free
one with `nextFMB`, `nextUMB` and `preUMB`; a link to a used block has its lowest
bit set.  All of it is address arithmetic in `U32`.

The words of the heads say how the heap is cut up: `Heads` reads them against a
list of extents, and the functions of the source then do to the words what the
first-fit allocator does to the list.

## Main results

* `coKmalloc_refines`, `coKfree_refines` — the calls of the heap are those of a
  first-fit arena, and change no word of a block in use.
* `run_refines` — so is every run of calls.
* `held_apart`, `held_kept` — the blocks handed out are apart, and hold what was
  written to them.
* `heap_whole` — when all is freed the heap is in one piece again.
-/

namespace R2C2Firmware.Ports.KernelHeap

open R2C2Firmware.Verified.FirstFit

/-! ## Memory -/

/-- `Kheap`, `FMBlist`, and the words of memory by address. -/
structure Heap where
  startAddr : Nat
  endAddr : Nat
  fmbList : Nat
  mem : Nat → Nat

/-- The difference of two addresses, in `U32`. -/
def minus (a b : Nat) : Nat := (a + 4294967296 - b) % 4294967296

namespace Heap

variable (h : Heap) (p v : Nat)

def store : Heap := { h with mem := Function.update h.mem p v }

/-! The fields of `FMB`. -/

def nextFMB : Nat := h.mem p
def nextUMB : Nat := h.mem (p + 4)
def preUMB : Nat := h.mem (p + 8)
def setNextFMB : Heap := h.store p v
def setNextUMB : Heap := h.store (p + 4) v
def setPreUMB : Heap := h.store (p + 8) v

/-! The fields of `UMB`. -/

def nextMB : Nat := h.mem p
def preMB : Nat := h.mem (p + 4)
def setNextMB : Heap := h.store p v
def setPreMB : Heap := h.store (p + 4) v

def setFMBlist : Heap := { h with fmbList := v }

end Heap

/-! ## The source -/

/-- `KHEAP_SIZE`, in words -/
def kheapSize : Nat := 50

/-- `CoCreateKheap`, for the array `KernelHeap` at `kernelHeap` -/
def coCreateKheap (kernelHeap : Nat) (mem : Nat → Nat) : Heap :=
  let h : Heap :=
    { startAddr := kernelHeap
      endAddr := kernelHeap + kheapSize * 4
      fmbList := kernelHeap
      mem }
  let h := h.setNextFMB h.fmbList 0
  let h := h.setNextUMB h.fmbList 0
  h.setPreUMB h.fmbList 0

/-- Word alignment, and the size of the head of a used block. -/
def blockSize (size : Nat) : Nat :=
  ((((size + 3) % 4294967296) >>> 2) <<< 2 + 8) % 4294967296

/-- The size of a free block. -/
def freeSize (h : Heap) (freeMB : Nat) : Nat :=
  if h.nextUMB freeMB = 0 then minus h.endAddr freeMB
  else minus (minus (h.nextUMB freeMB) 1) freeMB

/-- Set the link of the free list that leads on from `preFMB`. -/
def linkFMB (preFMB v : Nat) (h : Heap) : Heap :=
  if preFMB ≠ 0 then h.setNextFMB preFMB v else h.setFMBlist v

/-- Set the link back of a used block, given the link to it. -/
def linkBack (nextUMB v : Nat) (h : Heap) : Heap :=
  if nextUMB ≠ 0 then h.setPreMB (minus nextUMB 1) v else h

/-- Set the link forward of a used block, given the link to it. -/
def linkForward (preUMB v : Nat) (h : Heap) : Heap :=
  if preUMB ≠ 0 then h.setNextMB (minus preUMB 1) v else h

/-- Use a free block as it is. -/
def useWhole (preFMB freeMB : Nat) (h : Heap) : Heap :=
  let usedMB := freeMB
  let h := linkFMB preFMB (h.nextFMB freeMB) h
  let h := linkBack (h.nextUMB freeMB) (usedMB ||| 1) h
  let h := h.setNextMB usedMB (h.nextUMB freeMB)
  h.setPreMB usedMB (h.preUMB freeMB)

/-- Use the front of a free block. -/
def useFront (size preFMB freeMB : Nat) (h : Heap) : Heap :=
  let usedMB := freeMB
  let newFMB := (freeMB + size) % 4294967296
  let h := linkFMB preFMB newFMB h
  let h := h.setPreUMB newFMB (usedMB ||| 1)
  let h := h.setNextUMB newFMB (h.nextUMB freeMB)
  let h := h.setNextFMB newFMB (h.nextFMB freeMB)
  let h := linkBack (h.nextUMB freeMB) newFMB h
  let h := h.setNextMB usedMB newFMB
  h.setPreMB usedMB (h.preUMB freeMB)

/-- The loop of `CoKmalloc` over the free list. -/
def mallocLoop (size : Nat) : Nat → Nat → Nat → Heap → Option (Nat × Heap)
  | 0, _, _, _ => none
  | turns + 1, preFMB, freeMB, h =>
      if freeMB = 0 then some (0, h)
      else if size ≤ freeSize h freeMB then
        let usedMB := freeMB
        let memAddr := (usedMB + 8) % 4294967296
        let h :=
          if minus (freeSize h freeMB) size < 12 then useWhole preFMB freeMB h
          else useFront size preFMB freeMB h
        some (memAddr, linkForward (h.preUMB freeMB) (usedMB ||| 1) h)
      else mallocLoop size turns freeMB (h.nextFMB freeMB) h

/-- `CoKmalloc`, in at most so many turns of the loop -/
def coKmalloc (turns size : Nat) (h : Heap) : Option (Nat × Heap) :=
  if size = 0 then some (0, h)
  else mallocLoop (blockSize size) turns 0 h.fmbList h

/-- `GetPreFMB` -/
def getPreFMB (h : Heap) : Nat → Nat → Option Nat
  | 0, _ => none
  | turns + 1, preUMB =>
      if h.preMB preUMB &&& 1 ≠ 0 then getPreFMB h turns (minus (h.preMB preUMB) 1)
      else some (h.preMB preUMB)

/-- Whether `CoKfree` finds a used block that lies in front of the free list. -/
def findBack (h : Heap) (usedMB : Nat) : Nat → Nat → Option Bool
  | 0, _ => none
  | turns + 1, preUMB =>
      if preUMB = usedMB then some true
      else if preUMB = 0 then some false
      else findBack h usedMB turns (minus (h.preMB preUMB) 1)

/-- Whether `CoKfree` finds a used block that lies behind the first free one. -/
def findForward (h : Heap) (usedMB : Nat) : Nat → Nat → Option Bool
  | 0, _ => none
  | turns + 1, nextUMB =>
      if nextUMB = usedMB then some true
      else if nextUMB = 0 then some false
      else if h.nextMB nextUMB &&& 1 = 0 then
        findForward h usedMB turns (minus (h.nextUMB (h.nextMB nextUMB)) 1)
      else findForward h usedMB turns (minus (h.nextMB nextUMB) 1)

/-- Whether a used block is in the list. -/
def inList (turns usedMB : Nat) (h : Heap) : Option Bool :=
  if usedMB < h.fmbList then
    findBack h usedMB turns (minus (h.preUMB h.fmbList) 1)
  else
    findForward h usedMB turns <|
      if h.fmbList = 0 then h.startAddr
      else if h.nextUMB h.fmbList ≠ 0 then minus (h.nextUMB h.fmbList) 1
      else 0

/-- A block between two free ones, or at an end of the heap. -/
def freeBetween (usedMB : Nat) (h : Heap) : Nat × Heap :=
  if h.nextMB usedMB = 0 ∧ h.preMB usedMB = 0 then
    let h := h.setNextFMB usedMB 0
    let h := h.setNextUMB usedMB 0
    let h := h.setPreUMB usedMB 0
    (usedMB, h.setFMBlist usedMB)
  else if h.preMB usedMB = 0 then
    let nextFMB := h.nextMB usedMB
    let h := h.setNextFMB usedMB (h.nextFMB nextFMB)
    let h := h.setNextUMB usedMB (h.nextUMB nextFMB)
    let h := h.setPreUMB usedMB 0
    (usedMB, h.setFMBlist usedMB)
  else if h.nextMB usedMB = 0 then
    let curFMB := h.preMB usedMB
    let h := h.setNextFMB curFMB 0
    (curFMB, h.setNextUMB curFMB 0)
  else
    let nextFMB := h.nextMB usedMB
    let curFMB := h.preMB usedMB
    let h := h.setNextFMB curFMB (h.nextFMB nextFMB)
    (curFMB, h.setNextUMB curFMB (h.nextUMB nextFMB))

/-- A block behind a free one or at the start, and in front of a used one. -/
def freeBehind (usedMB : Nat) (h : Heap) : Nat × Heap :=
  if h.preMB usedMB = 0 then
    let nextUMB := h.nextMB usedMB
    let h := h.setNextUMB usedMB nextUMB
    let h := h.setPreUMB usedMB 0
    let h := h.setNextFMB usedMB h.fmbList
    (usedMB, h.setFMBlist usedMB)
  else
    let curFMB := h.preMB usedMB
    (curFMB, h.setNextUMB curFMB (h.nextMB usedMB))

/-- The block that the free list leads to behind `preFMB`. -/
def nextOfFMB (preFMB : Nat) (h : Heap) : Nat :=
  if preFMB = 0 then h.fmbList else h.nextFMB preFMB

/-- A block behind a used one, and in front of a free one or at the end. -/
def freeFront (preFMB usedMB : Nat) (h : Heap) : Nat × Heap :=
  let preUMB := h.preMB usedMB
  let nextFMB := nextOfFMB preFMB h
  let h := linkFMB preFMB usedMB h
  if nextFMB = 0 then
    let h := h.setPreUMB usedMB preUMB
    let h := h.setNextUMB usedMB 0
    (usedMB, h.setNextFMB usedMB 0)
  else
    let h := h.setPreUMB usedMB preUMB
    let h := h.setNextUMB usedMB (h.nextUMB nextFMB)
    (usedMB, h.setNextFMB usedMB (h.nextFMB nextFMB))

/-- Free a block that has no free neighbour: it becomes an entry of its own behind
`preFMB`. -/
def freeAlone (preFMB usedMB : Nat) (h : Heap) : Nat × Heap :=
  let preUMB := h.preMB usedMB
  let nextUMB := h.nextMB usedMB
  let nextFMB := nextOfFMB preFMB h
  let h := linkFMB preFMB usedMB h
  let h := h.setPreUMB usedMB preUMB
  let h := h.setNextUMB usedMB nextUMB
  (usedMB, h.setNextFMB usedMB nextFMB)

/-- The free block that a used one becomes or joins. -/
def toFMB (turns usedMB : Nat) (h : Heap) : Option (Nat × Heap) :=
  if h.nextMB usedMB &&& 1 = 0 ∧ h.preMB usedMB &&& 1 = 0 then
    some (freeBetween usedMB h)
  else if h.preMB usedMB &&& 1 = 0 then some (freeBehind usedMB h)
  else if h.nextMB usedMB &&& 1 = 0 then
    (getPreFMB h turns usedMB).map fun preFMB => freeFront preFMB usedMB h
  else (getPreFMB h turns usedMB).map fun preFMB => freeAlone preFMB usedMB h

/-- The used blocks on either side of a free one are linked to it. -/
def linkSides (curFMB : Nat) (h : Heap) : Heap :=
  let h := linkForward (h.preUMB curFMB) curFMB h
  linkBack (h.nextUMB curFMB) curFMB h

/-- `CoKfree`, in at most so many turns of each of its loops -/
def coKfree (turns memBuf : Nat) (h : Heap) : Option Heap :=
  if memBuf = 0 then some h
  else if memBuf < h.startAddr then some h
  else if h.endAddr < memBuf then some h
  else
    let usedMB := minus memBuf 8
    (inList turns usedMB h).bind fun found =>
      if found then (toFMB turns usedMB h).map fun r => linkSides r.1 r.2
      else some h

/-! ## Stores -/

section Stores

variable (h : Heap) (p v : Nat)

@[simp] theorem store_startAddr : (h.store p v).startAddr = h.startAddr := rfl
@[simp] theorem store_fmbList : (h.store p v).fmbList = h.fmbList := rfl
@[simp] theorem store_mem_self : (h.store p v).mem p = v := Function.update_self _ _ _

/-- A store changes no other word. -/
theorem store_mem_of_ne {x : Nat} (hx : x ≠ p) : (h.store p v).mem x = h.mem x :=
  Function.update_of_ne hx _ _

@[simp] theorem setFMBlist_mem : (h.setFMBlist v).mem = h.mem := rfl

end Stores

/-- Subtraction modulo `2^32` is that of the numbers where the result is not negative.
-/
theorem minus_eq {a b : Nat} (hb : b ≤ a) (ha : a < 4294967296) : minus a b = a - b := by
  unfold minus
  omega

/-- The tag bit of a multiple of four is set by adding one. -/
theorem or_one {a : Nat} (ha : a % 4 = 0) : a ||| 1 = a + 1 := by
  have hor := Nat.two_pow_add_eq_or_of_lt (i := 1) (b := 1) (by decide) (a / 2)
  rwa [show 2 ^ 1 * (a / 2) = a by omega, eq_comm] at hor

/-- An untagged word has its lowest bit clear. -/
theorem and_one_of_even {a : Nat} (ha : a % 4 = 0) : a &&& 1 = 0 := by
  rw [Nat.and_one_is_mod]
  omega

/-- A tagged word has its lowest bit set. -/
theorem and_one_of_odd {a : Nat} (ha : a % 4 = 0) : (a + 1) &&& 1 = 1 := by
  rw [Nat.and_one_is_mod]
  omega

/-! ## Links -/

/-- The link to a block. -/
def tag (a : Nat) (used : Bool) : Nat := if used then a + 1 else a

/-- The link to the first of the blocks at `a`, or to what is behind them. -/
def linkTo (next a : Nat) : List Extent → Nat
  | [] => next
  | e :: _ => tag a e.used

/-- The link to the last of the blocks at `a`, or to what is in front of them. -/
def linkFrom (prev a : Nat) : List Extent → Nat
  | [] => prev
  | e :: l => linkFrom (tag a e.used) (a + e.size) l

/-- The first free of the blocks at `a`, or the first behind them. -/
def firstFree (free a : Nat) : List Extent → Nat
  | [] => free
  | e :: l => if e.used then firstFree free (a + e.size) l else a

/-- The last free of the blocks at `a`, or the last in front of them. -/
def lastFree (free a : Nat) : List Extent → Nat
  | [] => free
  | e :: l => lastFree (if e.used then free else a) (a + e.size) l

/-- The link to two stretches is that to the first, and where this is empty to the
second. -/
theorem linkTo_append (next a : Nat) (l m : List Extent) :
    linkTo next a (l ++ m) = linkTo (linkTo next (a + total l) m) a l := by
  cases l with
  | nil => simp [linkTo]
  | cons e l => rfl

/-- The link from two stretches is that from the second, and where this is empty from
the first. -/
theorem linkFrom_append (prev a : Nat) (l m : List Extent) :
    linkFrom prev a (l ++ m) = linkFrom (linkFrom prev a l) (a + total l) m := by
  induction l generalizing prev a with
  | nil => simp [linkFrom]
  | cons e l ih => simp [linkFrom, ih, Nat.add_assoc]

/-- The first free block of two stretches lies in the first, if that has one. -/
theorem firstFree_append (free a : Nat) (l m : List Extent) :
    firstFree free a (l ++ m) = firstFree (firstFree free (a + total l) m) a l := by
  induction l generalizing a with
  | nil => simp [firstFree]
  | cons e l ih => simp [firstFree, ih, Nat.add_assoc]

/-- The last free block of two stretches lies in the second, if that has one. -/
theorem lastFree_append (free a : Nat) (l m : List Extent) :
    lastFree free a (l ++ m) = lastFree (lastFree free a l) (a + total l) m := by
  induction l generalizing free a with
  | nil => simp [lastFree]
  | cons e l ih => simp [lastFree, ih, Nat.add_assoc]

/-- All blocks are in use. -/
def AllUsed (l : List Extent) : Prop := ∀ e ∈ l, e.used = true

theorem allUsed_cons {e : Extent} {l : List Extent} :
    AllUsed (e :: l) ↔ e.used = true ∧ AllUsed l := by
  simp [AllUsed]

/-- A stretch in which nothing is free passes on the free block behind it. -/
theorem firstFree_of_allUsed {l : List Extent} (h : AllUsed l) (free a : Nat) :
    firstFree free a l = free := by
  induction l generalizing a with
  | nil => rfl
  | cons e l ih =>
      obtain ⟨he, hl⟩ := allUsed_cons.1 h
      rw [firstFree, if_pos he, ih hl]

/-- A stretch in which nothing is free passes on the free block in front of it. -/
theorem lastFree_of_allUsed {l : List Extent} (h : AllUsed l) (free a : Nat) :
    lastFree free a l = free := by
  induction l generalizing a with
  | nil => rfl
  | cons e l ih =>
      obtain ⟨he, hl⟩ := allUsed_cons.1 h
      rw [lastFree, if_pos he, ih hl]

/-- Where something is free, what lies behind does not matter. -/
theorem firstFree_congr {l : List Extent} (h : ¬AllUsed l) (free free' a : Nat) :
    firstFree free a l = firstFree free' a l := by
  induction l generalizing a with
  | nil => exact absurd (fun e he => absurd he (by simp)) h
  | cons e l ih =>
      rw [firstFree, firstFree]
      split
      · rename_i he
        exact ih (fun hl => h (allUsed_cons.2 ⟨he, hl⟩)) _
      · rfl

/-! ## Heads -/

/-- The heads of the blocks at `a`.  The links to what is outside are `prev` and
`next`, and the free list goes on with `free`. -/
def Heads (mem : Nat → Nat) (next free : Nat) : Nat → Nat → List Extent → Prop
  | _, _, [] => True
  | prev, a, e :: l =>
      (if e.used then mem a = linkTo next (a + e.size) l ∧ mem (a + 4) = prev
        else mem a = firstFree free (a + e.size) l ∧
          mem (a + 4) = linkTo next (a + e.size) l ∧ mem (a + 8) = prev) ∧
        Heads mem next free (tag a e.used) (a + e.size) l

/-- The words that belong to the heads of the blocks at `a`. -/
def IsHead : Nat → List Extent → Nat → Prop
  | _, [], _ => False
  | a, e :: l, x =>
      x = a ∨ x = a + 4 ∨ (e.used = false ∧ x = a + 8) ∨ IsHead (a + e.size) l x

/-- Blocks are whole words, with room for the head of a free block. -/
def Blocks (l : List Extent) : Prop := ∀ e ∈ l, 12 ≤ e.size ∧ e.size % 4 = 0

/-- A stretch of blocks begins with a block. -/
theorem blocks_cons {e : Extent} {l : List Extent} :
    Blocks (e :: l) ↔ (12 ≤ e.size ∧ e.size % 4 = 0) ∧ Blocks l := by
  simp [Blocks]

/-- Two stretches of blocks are a stretch of blocks. -/
theorem blocks_append {l m : List Extent} : Blocks (l ++ m) ↔ Blocks l ∧ Blocks m :=
  List.forall_mem_append

/-- Blocks fill whole words. -/
theorem Blocks.total_mod {l : List Extent} (h : Blocks l) : total l % 4 = 0 := by
  induction l with
  | nil => rfl
  | cons e l ih =>
      obtain ⟨he, hl⟩ := blocks_cons.1 h
      have := ih hl
      rw [total_cons]
      omega

/-- No block is empty. -/
theorem Blocks.pos {l : List Extent} (h : Blocks l) : ∀ e ∈ l, 0 < e.size := by
  intro e he
  have := h e he
  omega

variable {mem mem' : Nat → Nat} {next free prev a x : Nat} {l m : List Extent}

/-- The heads of two stretches are those of the one and of the other. -/
theorem isHead_append : IsHead a (l ++ m) x ↔ IsHead a l x ∨ IsHead (a + total l) m x := by
  induction l generalizing a with
  | nil => simp [IsHead]
  | cons e l ih => simp [IsHead, ih, Nat.add_assoc, or_assoc]

/-- A head lies inside the stretch. -/
theorem IsHead.bounds (h : IsHead a l x) (hb : Blocks l) : a ≤ x ∧ x + 4 ≤ a + total l := by
  induction l generalizing a with
  | nil => exact h.elim
  | cons e l ih =>
      obtain ⟨he, hl⟩ := blocks_cons.1 hb
      rw [total_cons]
      rcases h with rfl | rfl | ⟨-, rfl⟩ | h
      · omega
      · omega
      · omega
      · have := ih h hl
        omega

/-- The words in the heads of two stretches link them to each other. -/
theorem heads_append : Heads mem next free prev a (l ++ m) ↔
    Heads mem (linkTo next (a + total l) m) (firstFree free (a + total l) m) prev a l ∧
      Heads mem next free (linkFrom prev a l) (a + total l) m := by
  induction l generalizing prev a with
  | nil => simp [Heads, linkFrom]
  | cons e l ih =>
      simp only [List.cons_append, Heads, ih, linkTo_append, firstFree_append, linkFrom,
        total_cons, Nat.add_assoc, and_assoc]

/-- The heads are kept where the memory is. -/
theorem Heads.congr (h : Heads mem next free prev a l)
    (hmem : ∀ x, IsHead a l x → mem' x = mem x) : Heads mem' next free prev a l := by
  induction l generalizing prev a with
  | nil => trivial
  | cons e l ih =>
      obtain ⟨h₀, hl⟩ := h
      refine ⟨?_, ih hl fun x hx => hmem x (.inr (.inr (.inr hx)))⟩
      rw [hmem a (.inl rfl), hmem (a + 4) (.inr (.inl rfl))]
      split
      · rename_i he
        rwa [if_pos he] at h₀
      · rename_i he
        rw [hmem (a + 8) (.inr (.inr (.inl ⟨by simpa using he, rfl⟩)))]
        rwa [if_neg he] at h₀

/-- Used blocks do not know the free list. -/
theorem Heads.free_of_allUsed (h : Heads mem next free prev a l) (hl : AllUsed l)
    (free' : Nat) : Heads mem next free' prev a l := by
  induction l generalizing prev a with
  | nil => trivial
  | cons e l ih =>
      obtain ⟨he, hl⟩ := allUsed_cons.1 hl
      obtain ⟨h₀, h⟩ := h
      rw [if_pos he] at h₀
      exact ⟨by rwa [if_pos he], ih h hl⟩

/-- The last free block is made to lead on to `v`. -/
theorem heads_lastFree (h : Heads mem next free prev a l) (hb : Blocks l) (v : Nat)
    (hl : ¬AllUsed l) (k : Nat) :
    IsHead a l (lastFree k a l) ∧
      Heads (Function.update mem (lastFree k a l) v) next v prev a l := by
  induction l generalizing prev a k with
  | nil => exact absurd (fun e he => absurd he (by simp)) hl
  | cons e l ih =>
      obtain ⟨he, hbl⟩ := blocks_cons.1 hb
      obtain ⟨h₀, h⟩ := h
      rw [lastFree]
      by_cases hrest : AllUsed l
      · have hfree : e.used ≠ true := fun hu => hl (allUsed_cons.2 ⟨hu, hrest⟩)
        rw [if_neg hfree, lastFree_of_allUsed hrest]
        refine ⟨.inl rfl, ?_, ?_⟩
        · rw [if_neg hfree] at h₀ ⊢
          rw [Function.update_self, firstFree_of_allUsed hrest,
            Function.update_of_ne (by omega), Function.update_of_ne (by omega)]
          exact ⟨rfl, h₀.2⟩
        · refine (h.free_of_allUsed hrest v).congr fun x hx => ?_
          have := hx.bounds hbl
          rw [Function.update_of_ne (by omega)]
      · obtain ⟨hhead, hheads⟩ := ih h hbl hrest (if e.used then k else a)
        have hat := hhead.bounds hbl
        refine ⟨.inr (.inr (.inr hhead)), ?_, hheads⟩
        rw [Function.update_of_ne (by omega), Function.update_of_ne (by omega),
          Function.update_of_ne (by omega), firstFree_congr hrest v free]
        exact h₀

/-! ## The three links -/

/-- An address of the heap can be told from a null pointer and from the link of a
used block. -/
structure Placed (a n : Nat) : Prop where
  pos : 0 < a
  aligned : a % 4 = 0
  fits : a + n < 4294967296

/-- Whatever is stored, it is stored in a word of the heads. -/
def KeepsRest (a : Nat) (l : List Extent) (h h' : Heap) : Prop :=
  ∀ x, ¬IsHead a l x → h'.mem x = h.mem x

/-- The registers of the heap are kept. -/
structure SameArena (h h' : Heap) : Prop where
  startAddr : h'.startAddr = h.startAddr
  endAddr : h'.endAddr = h.endAddr

/-- The last free block in front, or the list itself, leads on to `v`. -/
theorem linkFMB_heads {h : Heap} (hp : Placed a (total l)) (hb : Blocks l)
    (hl : Heads h.mem next free prev a l) (hfirst : h.fmbList = firstFree free a l)
    (v : Nat) :
    Heads (linkFMB (lastFree 0 a l) v h).mem next v prev a l ∧
      (linkFMB (lastFree 0 a l) v h).fmbList = firstFree v a l ∧
      KeepsRest a l h (linkFMB (lastFree 0 a l) v h) ∧
      SameArena h (linkFMB (lastFree 0 a l) v h) := by
  by_cases hall : AllUsed l
  · rw [lastFree_of_allUsed hall, firstFree_of_allUsed hall]
    exact ⟨hl.free_of_allUsed hall v, rfl, fun _ _ => rfl, rfl, rfl⟩
  · obtain ⟨hhead, hheads⟩ := heads_lastFree hl hb v hall 0
    have hat := (hhead.bounds hb).1
    have hne : lastFree 0 a l ≠ 0 := by
      have := hp.pos
      omega
    rw [linkFMB, if_pos hne]
    refine ⟨hheads, ?_, fun x hx => ?_, rfl, rfl⟩
    · rw [firstFree_congr hall v free]
      exact hfirst
    · refine store_mem_of_ne _ _ _ ?_
      rintro rfl
      exact hx hhead

/-- The last block is in use, if there is one. -/
def EndsUsed (l : List Extent) : Prop := ∀ e ∈ l.getLast?, e.used = true

/-- A stretch whose last block is not free is empty or ends with one in use. -/
theorem endsUsed_cases (h : EndsUsed l) : l = [] ∨ ∃ m s, l = m ++ [⟨s, true⟩] := by
  rcases List.eq_nil_or_concat l with rfl | ⟨m, ⟨s, used⟩, rfl⟩
  · exact .inl rfl
  · rw [List.concat_eq_append] at h ⊢
    have : used = true := h ⟨s, used⟩ (by simp)
    exact .inr ⟨m, s, by rw [this]⟩

/-- A stretch whose first block is not free is empty or starts with one in use. -/
theorem startsUsed_cases (h : StartsUsed l) : l = [] ∨ ∃ s m, l = ⟨s, true⟩ :: m := by
  match l, h with
  | [], _ => exact .inl rfl
  | ⟨s, true⟩ :: m, _ => exact .inr ⟨s, m, rfl⟩
  | ⟨s, false⟩ :: m, h => exact absurd (h _ rfl) (by simp)

/-- The used block in front is linked to what is behind it. -/
theorem linkForward_heads {h : Heap} (hp : Placed a (total l)) (hb : Blocks l)
    (hl : Heads h.mem next free 0 a l) (hend : EndsUsed l) (v : Nat) :
    Heads (linkForward (linkFrom 0 a l) v h).mem v free 0 a l ∧
      (linkForward (linkFrom 0 a l) v h).fmbList = h.fmbList ∧
      KeepsRest a l h (linkForward (linkFrom 0 a l) v h) ∧
      SameArena h (linkForward (linkFrom 0 a l) v h) := by
  rcases endsUsed_cases hend with rfl | ⟨m, s, rfl⟩
  · exact ⟨trivial, rfl, fun _ _ => rfl, rfl, rfl⟩
  · have hlink : linkFrom 0 a (m ++ [⟨s, true⟩]) = a + total m + 1 := by
      rw [linkFrom_append]
      rfl
    have htotal : a + total m < 4294967295 := by
      have := hp.fits
      have := (blocks_append.1 hb).2 _ List.mem_cons_self
      simp only [total_append, total_cons, total_nil] at *
      omega
    rw [hlink, linkForward, if_pos (by omega), minus_eq (by omega) (by omega),
      Nat.add_sub_cancel]
    rw [heads_append] at hl ⊢
    obtain ⟨hm, ⟨-, hprev⟩, -⟩ := hl
    refine ⟨⟨hm.congr fun x hx => ?_, ⟨?_, ?_⟩, trivial⟩, rfl, fun x hx => ?_, rfl, rfl⟩
    · have := hx.bounds (blocks_append.1 hb).1
      exact store_mem_of_ne _ _ _ (by omega)
    · exact store_mem_self _ _ _
    · rw [← hprev]
      exact store_mem_of_ne _ _ _ (by omega)
    · refine store_mem_of_ne _ _ _ ?_
      rintro rfl
      exact hx (isHead_append.2 (.inr (.inl rfl)))

/-- The used block behind is linked to what is in front of it. -/
theorem linkBack_heads {h : Heap} (hp : Placed a (total l)) (hb : Blocks l)
    (hl : Heads h.mem next free prev a l) (hstart : StartsUsed l) (v : Nat) :
    Heads (linkBack (linkTo 0 a l) v h).mem next free v a l ∧
      (linkBack (linkTo 0 a l) v h).fmbList = h.fmbList ∧
      KeepsRest a l h (linkBack (linkTo 0 a l) v h) ∧
      SameArena h (linkBack (linkTo 0 a l) v h) := by
  rcases startsUsed_cases hstart with rfl | ⟨s, m, rfl⟩
  · exact ⟨trivial, rfl, fun _ _ => rfl, rfl, rfl⟩
  · obtain ⟨⟨hnext, -⟩, hm⟩ := hl
    obtain ⟨hs, hbm⟩ := blocks_cons.1 hb
    have hfits := hp.fits
    rw [total_cons] at hfits
    have hlink : linkTo 0 a (⟨s, true⟩ :: m) = a + 1 := rfl
    rw [hlink, linkBack, if_pos (by omega), minus_eq (by omega) (by omega),
      Nat.add_sub_cancel]
    refine ⟨⟨⟨?_, ?_⟩, hm.congr fun x hx => ?_⟩, rfl, fun x hx => ?_, rfl, rfl⟩
    · rw [← hnext]
      exact store_mem_of_ne _ _ _ (by omega)
    · exact store_mem_self _ _ _
    · have := hx.bounds hbm
      exact store_mem_of_ne _ _ _ (by omega)
    · refine store_mem_of_ne _ _ _ ?_
      rintro rfl
      exact hx (.inr (.inl rfl))

/-! ## A gap -/

/-- Blocks in front of a gap from `d` to `c`, and blocks behind it. -/
structure Gap (start : Nat) (l r : List Extent) (d c : Nat) : Prop where
  pos : 0 < start
  aligned : start % 4 = 0
  front : d = start + total l
  ordered : d ≤ c
  aligned_behind : c % 4 = 0
  fits : c + total r < 4294967296
  blocks_front : Blocks l
  blocks_behind : Blocks r
  endsUsed : EndsUsed l
  startsUsed : StartsUsed r

namespace Gap

variable {start d c : Nat} {r : List Extent}

/-- The stretch in front of a gap lies in the array. -/
theorem placed_front (g : Gap start l r d c) : Placed start (total l) :=
  ⟨g.pos, g.aligned, by have := g.front; have := g.ordered; have := g.fits; omega⟩

/-- The stretch behind a gap lies in the array. -/
theorem placed_behind (g : Gap start l r d c) : Placed c (total r) :=
  ⟨by have := g.pos; have := g.front; have := g.ordered; omega, g.aligned_behind, g.fits⟩

theorem aligned_front (g : Gap start l r d c) : d % 4 = 0 := by
  have := g.aligned
  have := g.blocks_front.total_mod
  have := g.front
  omega

/-- No head of the stretch in front lies in the gap. -/
theorem not_head_front (g : Gap start l r d c) (hx : d ≤ x) : ¬IsHead start l x := by
  intro h
  have := h.bounds g.blocks_front
  have := g.front
  omega

/-- No head of the stretch behind lies in the gap. -/
theorem not_head_behind (g : Gap start l r d c) (hx : x < c) : ¬IsHead c r x := by
  intro h
  have := h.bounds g.blocks_behind
  omega

end Gap

/-- A heap on the way from `h₀` to a new order of the words in the gap.  The
blocks in front have the links `next` and `free`, those behind have `prev`. -/
structure Opened (start : Nat) (l r : List Extent) (d c next free prev : Nat)
    (h₀ h : Heap) : Prop where
  front : Heads h.mem next free 0 start l
  behind : Heads h.mem 0 0 prev c r
  list : h.fmbList = firstFree free start l
  same : SameArena h₀ h
  kept : ∀ x, ¬IsHead start l x → ¬(d ≤ x ∧ x < c) → ¬IsHead c r x →
    h.mem x = h₀.mem x

/-- The words of the gap are kept. -/
def KeepsGap (d c : Nat) (h h' : Heap) : Prop :=
  ∀ x, d ≤ x → x < c → h'.mem x = h.mem x

namespace Opened

variable {start d c : Nat} {r : List Extent} {h₀ h : Heap}

/-- Writing the link of the free block in front changes that link and nothing in the
gap. -/
theorem linkFMB (g : Gap start l r d c) (o : Opened start l r d c next free prev h₀ h)
    (v : Nat) :
    Opened start l r d c next v prev h₀ (linkFMB (lastFree 0 start l) v h) ∧
      KeepsGap d c h (KernelHeap.linkFMB (lastFree 0 start l) v h) := by
  obtain ⟨hheads, hlist, hrest, hsame⟩ :=
    linkFMB_heads g.placed_front g.blocks_front o.front o.list v
  have hfront := g.front
  have hordered := g.ordered
  refine ⟨⟨hheads, o.behind.congr fun x hx => ?_, hlist, ?_, fun x h₁ h₂ h₃ => ?_⟩,
    fun x hx _ => hrest x (g.not_head_front hx)⟩
  · have := hx.bounds g.blocks_behind
    exact hrest x (g.not_head_front (by omega))
  · exact ⟨hsame.1.trans o.same.1, hsame.2.trans o.same.2⟩
  · exact (hrest x h₁).trans (o.kept x h₁ h₂ h₃)

/-- Writing the forward link of the block in front changes that link and nothing in the
gap. -/
theorem linkForward (g : Gap start l r d c)
    (o : Opened start l r d c next free prev h₀ h) (v : Nat) :
    Opened start l r d c v free prev h₀ (linkForward (linkFrom 0 start l) v h) ∧
      KeepsGap d c h (KernelHeap.linkForward (linkFrom 0 start l) v h) := by
  obtain ⟨hheads, hlist, hrest, hsame⟩ :=
    linkForward_heads g.placed_front g.blocks_front o.front g.endsUsed v
  have hordered := g.ordered
  refine ⟨⟨hheads, o.behind.congr fun x hx => ?_, hlist.trans o.list, ?_,
    fun x h₁ h₂ h₃ => ?_⟩, fun x hx _ => hrest x (g.not_head_front hx)⟩
  · have := hx.bounds g.blocks_behind
    exact hrest x (g.not_head_front (by omega))
  · exact ⟨hsame.1.trans o.same.1, hsame.2.trans o.same.2⟩
  · exact (hrest x h₁).trans (o.kept x h₁ h₂ h₃)

/-- Writing the backward link of the block behind changes that link and nothing in the
gap. -/
theorem linkBack (g : Gap start l r d c)
    (o : Opened start l r d c next free prev h₀ h) (v : Nat) :
    Opened start l r d c next free v h₀ (linkBack (linkTo 0 c r) v h) ∧
      KeepsGap d c h (KernelHeap.linkBack (linkTo 0 c r) v h) := by
  obtain ⟨hheads, hlist, hrest, hsame⟩ :=
    linkBack_heads g.placed_behind g.blocks_behind o.behind g.startsUsed v
  have hfront := g.front
  have hordered := g.ordered
  refine ⟨⟨o.front.congr fun x hx => ?_, hheads, hlist.trans o.list, ?_,
    fun x h₁ h₂ h₃ => ?_⟩, fun x _ hx => hrest x (g.not_head_behind hx)⟩
  · have := hx.bounds g.blocks_front
    exact hrest x (g.not_head_behind (by omega))
  · exact ⟨hsame.1.trans o.same.1, hsame.2.trans o.same.2⟩
  · exact (hrest x h₃).trans (o.kept x h₁ h₂ h₃)

/-- A word of the gap is written. -/
theorem store (g : Gap start l r d c) (o : Opened start l r d c next free prev h₀ h)
    {p : Nat} (hp : d ≤ p ∧ p < c) (v : Nat) :
    Opened start l r d c next free prev h₀ (h.store p v) := by
  refine ⟨o.front.congr fun x hx => ?_, o.behind.congr fun x hx => ?_, o.list,
    ⟨o.same.1, o.same.2⟩, fun x h₁ h₂ h₃ => ?_⟩
  · refine store_mem_of_ne _ _ _ ?_
    rintro rfl
    exact g.not_head_front hp.1 hx
  · refine store_mem_of_ne _ _ _ ?_
    rintro rfl
    exact g.not_head_behind hp.2 hx
  · have hxp : x ≠ p := by
      rintro rfl
      exact h₂ hp
    exact (store_mem_of_ne h p v hxp).trans (o.kept x h₁ h₂ h₃)

end Opened

/-! ## The heap as an arena -/

/-- The heap is cut up into these blocks. -/
structure Arena (h : Heap) (l : List Extent) : Prop where
  heads : Heads h.mem 0 0 0 h.startAddr l
  list : h.fmbList = firstFree 0 h.startAddr l
  blocks : Blocks l
  coalesced : Coalesced l
  covers : h.startAddr + total l = h.endAddr
  placed : Placed h.startAddr (total l)

/-- Free blocks that do not touch have blocks in use on either side. -/
theorem coalesced_split {e : Extent} (h : Coalesced (l ++ e :: m)) :
    Coalesced l ∧ Coalesced m ∧ (e.used = false → EndsUsed l ∧ StartsUsed m) := by
  obtain ⟨h₁, h₂, h₃⟩ := List.isChain_append.1 h
  refine ⟨h₁, h₂.tail, fun he => ⟨fun f hf => ?_, ?_⟩⟩
  · exact (h₃ f hf e rfl).resolve_right (by simp [he])
  · obtain ⟨s, used⟩ := e
    obtain rfl : used = false := he
    exact (coalesced_free.1 h₂).1

/-- What lies on either side of a free block. -/
theorem Arena.gap {h : Heap} {l₁ l₂ : List Extent} {s : Nat}
    (hl : Arena h (l₁ ++ ⟨s, false⟩ :: l₂)) :
    Gap h.startAddr l₁ l₂ (h.startAddr + total l₁)
      (h.startAddr + total l₁ + s) := by
  have hb := blocks_append.1 hl.blocks
  have hs : 12 ≤ s ∧ s % 4 = 0 := (blocks_cons.1 hb.2).1
  have hco := (coalesced_split hl.coalesced).2.2 rfl
  have hmod := hb.1.total_mod
  obtain ⟨hpos, haligned, hfits⟩ := hl.placed
  simp only [total_append, total_cons] at hfits
  refine ⟨hpos, haligned, rfl, by omega, by omega, by omega, hb.1,
    (blocks_cons.1 hb.2).2, hco.1, hco.2⟩

/-- The words of a free block, and the links of those on either side. -/
theorem Arena.opened {h : Heap} {l₁ l₂ : List Extent} {s : Nat}
    (hl : Arena h (l₁ ++ ⟨s, false⟩ :: l₂)) {d c : Nat}
    (hd : d = h.startAddr + total l₁) (hc : c = d + s) :
    Opened h.startAddr l₁ l₂ d c d d d h h ∧ h.mem d = firstFree 0 c l₂ ∧
      h.mem (d + 4) = linkTo 0 c l₂ ∧ h.mem (d + 8) = linkFrom 0 h.startAddr l₁ := by
  subst hd hc
  obtain ⟨h₁, ⟨hfree, hnext, hprev⟩, h₂⟩ := heads_append.1 hl.heads
  have hlist := hl.list
  rw [firstFree_append] at hlist
  exact ⟨⟨h₁, h₂, hlist, ⟨rfl, rfl⟩, fun _ _ _ _ => rfl⟩, hfree, hnext, hprev⟩

/-- The size of a free block is read off its forward link. -/
theorem freeSize_eq {h : Heap} {l₁ l₂ : List Extent} {s : Nat}
    (hl : Arena h (l₁ ++ ⟨s, false⟩ :: l₂)) :
    freeSize h (h.startAddr + total l₁) = s := by
  obtain ⟨-, -, hnext, -⟩ := hl.opened rfl rfl
  have hgap := hl.gap
  have hfits := hgap.fits
  have hend := hl.covers
  simp only [total_append, total_cons] at hend
  unfold freeSize Heap.nextUMB
  rw [hnext]
  rcases startsUsed_cases hgap.startsUsed with rfl | ⟨t, m, rfl⟩
  · rw [linkTo, if_pos rfl, ← hend, total_nil, minus_eq (by omega) (by simp at hfits; omega)]
    omega
  · have hlink : linkTo 0 (h.startAddr + total l₁ + s) (⟨t, true⟩ :: m) =
        h.startAddr + total l₁ + s + 1 := rfl
    have ht := (blocks_cons.1 hgap.blocks_behind).1
    rw [total_cons] at hfits
    have hback : minus (h.startAddr + total l₁ + s + 1) 1 = h.startAddr + total l₁ + s :=
      minus_eq (by omega) (by omega)
    rw [hlink, if_neg (by omega), hback, minus_eq (by omega) (by omega)]
    omega

/-! ## Allocation -/

section Allocation

variable {h : Heap} {l₁ l₂ : List Extent} {s n d c : Nat}

/-- A free block is used as it is. -/
theorem useWhole_opened (hl : Arena h (l₁ ++ ⟨s, false⟩ :: l₂))
    (hd : d = h.startAddr + total l₁) (hc : c = d + s) :
    Opened h.startAddr l₁ l₂ d c d (firstFree 0 c l₂) (d + 1) h
        (useWhole (lastFree 0 h.startAddr l₁) d h) ∧
      (useWhole (lastFree 0 h.startAddr l₁) d h).mem d = linkTo 0 c l₂ ∧
      (useWhole (lastFree 0 h.startAddr l₁) d h).mem (d + 4) =
        linkFrom 0 h.startAddr l₁ ∧
      (useWhole (lastFree 0 h.startAddr l₁) d h).mem (d + 8) =
        linkFrom 0 h.startAddr l₁ := by
  have hs : 12 ≤ s := ((blocks_append.1 hl.blocks).2 _ List.mem_cons_self).1
  have g : Gap h.startAddr l₁ l₂ d c := by
    rw [hc, hd]
    exact hl.gap
  obtain ⟨o, hfree, hnext, hprev⟩ := hl.opened hd hc
  obtain ⟨o₁, k₁⟩ := o.linkFMB g (firstFree 0 c l₂)
  obtain ⟨o₂, k₂⟩ := o₁.linkBack g (d + 1)
  have hnext₁ := (k₁ (d + 4) (by omega) (by omega)).trans hnext
  have hnext₂ := (k₂ (d + 4) (by omega) (by omega)).trans hnext₁
  have hprev₂ := (k₂ (d + 8) (by omega) (by omega)).trans
    ((k₁ (d + 8) (by omega) (by omega)).trans hprev)
  have hfold : useWhole (lastFree 0 h.startAddr l₁) d h =
      ((linkBack (linkTo 0 c l₂) (d + 1)
        (linkFMB (lastFree 0 h.startAddr l₁) (firstFree 0 c l₂) h)).store d
          (linkTo 0 c l₂)).store (d + 4) (linkFrom 0 h.startAddr l₁) := by
    simp only [useWhole, Heap.nextFMB, Heap.nextUMB, Heap.preUMB, Heap.setNextMB,
      Heap.setPreMB]
    rw [hfree, hnext₁, or_one g.aligned_front, hnext₂, store_mem_of_ne _ _ _ (by omega),
      hprev₂]
  rw [hfold]
  refine ⟨(o₂.store g (by omega) _).store g (by omega) _, ?_, ?_, ?_⟩
  · rw [store_mem_of_ne _ _ _ (by omega), store_mem_self]
  · rw [store_mem_self]
  · rw [store_mem_of_ne _ _ _ (by omega), store_mem_of_ne _ _ _ (by omega), hprev₂]

/-- The front of a free block is used. -/
theorem useFront_opened (hl : Arena h (l₁ ++ ⟨s, false⟩ :: l₂))
    (hd : d = h.startAddr + total l₁) (hc : c = d + s) {e : Nat} (he : e = d + n)
    (hn : 12 ≤ n) (hns : n + 12 ≤ s) :
    Opened h.startAddr l₁ l₂ d c d e e h
        (useFront n (lastFree 0 h.startAddr l₁) d h) ∧
      (useFront n (lastFree 0 h.startAddr l₁) d h).mem d = e ∧
      (useFront n (lastFree 0 h.startAddr l₁) d h).mem (d + 4) =
        linkFrom 0 h.startAddr l₁ ∧
      (useFront n (lastFree 0 h.startAddr l₁) d h).mem (d + 8) =
        linkFrom 0 h.startAddr l₁ ∧
      (useFront n (lastFree 0 h.startAddr l₁) d h).mem e = firstFree 0 c l₂ ∧
      (useFront n (lastFree 0 h.startAddr l₁) d h).mem (e + 4) = linkTo 0 c l₂ ∧
      (useFront n (lastFree 0 h.startAddr l₁) d h).mem (e + 8) = d + 1 := by
  have g : Gap h.startAddr l₁ l₂ d c := by
    rw [hc, hd]
    exact hl.gap
  have hfits := g.fits
  obtain ⟨o, hfree, hnext, hprev⟩ := hl.opened hd hc
  obtain ⟨o₁, k₁⟩ := o.linkFMB g e
  have hfree₁ := (k₁ d (by omega) (by omega)).trans hfree
  have hnext₁ := (k₁ (d + 4) (by omega) (by omega)).trans hnext
  have hprev₁ := (k₁ (d + 8) (by omega) (by omega)).trans hprev
  have hmod : (d + n) % 4294967296 = e := by omega
  have hfold : useFront n (lastFree 0 h.startAddr l₁) d h =
      ((linkBack (linkTo 0 c l₂) e
        ((((linkFMB (lastFree 0 h.startAddr l₁) e h).store (e + 8) (d + 1)).store
          (e + 4) (linkTo 0 c l₂)).store e (firstFree 0 c l₂))).store d e).store (d + 4)
            (linkFrom 0 h.startAddr l₁) := by
    have o₄ := ((o₁.store g (p := e + 8) (by omega) (d + 1)).store g (p := e + 4)
      (by omega) (linkTo 0 c l₂)).store g (p := e) (by omega) (firstFree 0 c l₂)
    obtain ⟨-, k₅⟩ := o₄.linkBack g e
    have hprev₅ := k₅ (d + 8) (by omega) (by omega)
    rw [store_mem_of_ne _ _ _ (by omega), store_mem_of_ne _ _ _ (by omega),
      store_mem_of_ne _ _ _ (by omega), hprev₁] at hprev₅
    simp only [useFront, Heap.nextFMB, Heap.nextUMB, Heap.preUMB, Heap.setNextMB,
      Heap.setPreMB, Heap.setNextFMB, Heap.setNextUMB, Heap.setPreUMB]
    rw [hmod, or_one g.aligned_front]
    rw [store_mem_of_ne (x := d + 4) _ (e + 8) _ (by omega), hnext₁]
    rw [store_mem_of_ne (x := d) _ (e + 4) _ (by omega),
      store_mem_of_ne (x := d) _ (e + 8) _ (by omega), hfree₁]
    rw [store_mem_of_ne (x := d + 4) _ e _ (by omega),
      store_mem_of_ne (x := d + 4) _ (e + 4) _ (by omega),
      store_mem_of_ne (x := d + 4) _ (e + 8) _ (by omega), hnext₁]
    rw [store_mem_of_ne (x := d + 8) _ d _ (by omega), hprev₅]
  have o₄ := ((o₁.store g (p := e + 8) (by omega) (d + 1)).store g (p := e + 4)
    (by omega) (linkTo 0 c l₂)).store g (p := e) (by omega) (firstFree 0 c l₂)
  obtain ⟨o₅, k₅⟩ := o₄.linkBack g e
  rw [hfold]
  refine ⟨(o₅.store g (by omega) _).store g (by omega) _, ?_, ?_, ?_, ?_, ?_, ?_⟩
  · rw [store_mem_of_ne _ _ _ (by omega), store_mem_self]
  · rw [store_mem_self]
  · rw [store_mem_of_ne _ _ _ (by omega), store_mem_of_ne _ _ _ (by omega),
      k₅ _ (by omega) (by omega), store_mem_of_ne _ _ _ (by omega),
      store_mem_of_ne _ _ _ (by omega), store_mem_of_ne _ _ _ (by omega), hprev₁]
  · rw [store_mem_of_ne _ _ _ (by omega), store_mem_of_ne _ _ _ (by omega),
      k₅ _ (by omega) (by omega), store_mem_self]
  · rw [store_mem_of_ne _ _ _ (by omega), store_mem_of_ne _ _ _ (by omega),
      k₅ _ (by omega) (by omega), store_mem_of_ne _ _ _ (by omega), store_mem_self]
  · rw [store_mem_of_ne _ _ _ (by omega), store_mem_of_ne _ _ _ (by omega),
      k₅ _ (by omega) (by omega), store_mem_of_ne _ _ _ (by omega),
      store_mem_of_ne _ _ _ (by omega), store_mem_self]

end Allocation

/-- The words that the owner of a block in use may write. -/
def Payload (b : Nat × Nat) (x : Nat) : Prop := b.1 + 8 ≤ x ∧ x + 4 ≤ b.1 + b.2

/-- What a caller may write to is no head. -/
theorem payload_not_head {b : Nat × Nat} (hb : Blocks l) (hlive : b ∈ live a l)
    (hx : Payload b x) : ¬IsHead a l x := by
  induction l generalizing a with
  | nil => simp [live] at hlive
  | cons e l ih =>
      obtain ⟨he, hbl⟩ := blocks_cons.1 hb
      have hrest : b ∈ live (a + e.size) l → ¬IsHead a (e :: l) x := by
        intro hlive
        have hbelow := (live_bounds hlive).1
        have hpay := hx.1
        rintro (rfl | rfl | ⟨-, rfl⟩ | hhead)
        · omega
        · omega
        · omega
        · exact ih hbl hlive hhead
      rw [live] at hlive
      split at hlive
      · rename_i hused
        rcases List.mem_cons.1 hlive with rfl | hlive
        · obtain ⟨h₁, h₂⟩ := hx
          rintro (rfl | rfl | ⟨hfree, -⟩ | hhead)
          · omega
          · omega
          · rw [hused] at hfree
            cases hfree
          · have := hhead.bounds hbl
            simp only at h₁ h₂
            omega
        · exact hrest hlive
      · exact hrest hlive

/-- What is stored in a gap and the heads around it leaves the payloads alone. -/
theorem Opened.payload {start d c next free prev : Nat} {r : List Extent}
    {h₀ h : Heap} (g : Gap start l r d c)
    (o : Opened start l r d c next free prev h₀ h) {b : Nat × Nat}
    (hb : b ∈ live start l ∨ b ∈ live c r) (hx : Payload b x) : h.mem x = h₀.mem x := by
  obtain ⟨h₁, h₂⟩ := hx
  have hfront := g.front
  rcases hb with hb | hb
  · have hat := (live_bounds hb).2
    exact o.kept x (payload_not_head g.blocks_front hb ⟨h₁, h₂⟩) (by omega)
      (g.not_head_behind (by have := g.ordered; omega))
  · have hat := (live_bounds hb).1
    exact o.kept x (g.not_head_front (by have := g.ordered; omega)) (by omega)
      (payload_not_head g.blocks_behind hb ⟨h₁, h₂⟩)

/-- A new order of the heads of the same arena. -/
theorem Arena.replace {h h' : Heap} (hl : Arena h l) (hsame : SameArena h h')
    (heads : Heads h'.mem 0 0 0 h.startAddr m)
    (list : h'.fmbList = firstFree 0 h.startAddr m) (blocks : Blocks m)
    (coalesced : Coalesced m) (htotal : total m = total l) : Arena h' m where
  heads := by rwa [hsame.startAddr]
  list := by rwa [hsame.startAddr]
  blocks := blocks
  coalesced := coalesced
  covers := by rw [hsame.startAddr, hsame.endAddr, htotal, hl.covers]
  placed := by rw [hsame.startAddr, htotal]; exact hl.placed

section Allocation

variable {h : Heap} {l₁ l₂ : List Extent} {s n d c : Nat}

/-- A block that is cut in two is cut into blocks. -/
theorem blocks_cut (hs : 12 ≤ s ∧ s % 4 = 0) (hn : 12 ≤ n ∧ n % 4 = 0) (hns : n ≤ s) :
    Blocks (cut 12 n s) := by
  rw [cut]
  split
  · exact blocks_cons.2 ⟨hs, fun e he => absurd he (by simp)⟩
  · refine blocks_cons.2 ⟨hn, blocks_cons.2 ⟨?_, fun e he => absurd he (by simp)⟩⟩
    simp only
    omega

/-- The part of the loop of `CoKmalloc` that takes a block. -/
theorem assign_refines (hl : Arena h (l₁ ++ ⟨s, false⟩ :: l₂))
    (hd : d = h.startAddr + total l₁) (hc : c = d + s) (hn : 12 ≤ n ∧ n % 4 = 0)
    (hns : n ≤ s) {h₁ h' : Heap}
    (hh₁ : h₁ = if minus s n < 12 then useWhole (lastFree 0 h.startAddr l₁) d h
      else useFront n (lastFree 0 h.startAddr l₁) d h)
    (hh' : h' = linkForward (h₁.preUMB d) (d ||| 1) h₁) :
    Arena h' (l₁ ++ (cut 12 n s ++ l₂)) ∧
      ∃ next free prev, Opened h.startAddr l₁ l₂ d c next free prev h h' := by
  have hb := blocks_append.1 hl.blocks
  have hs : 12 ≤ s ∧ s % 4 = 0 := (blocks_cons.1 hb.2).1
  have g : Gap h.startAddr l₁ l₂ d c := by
    rw [hc, hd]
    exact hl.gap
  have hfits := g.fits
  have hco := hl.coalesced.cut 12 n
  have hblocks : Blocks (l₁ ++ (cut 12 n s ++ l₂)) :=
    blocks_append.2 ⟨g.blocks_front, blocks_append.2 ⟨blocks_cut hs hn hns,
      g.blocks_behind⟩⟩
  have htotal : total (l₁ ++ (cut 12 n s ++ l₂)) = total (l₁ ++ ⟨s, false⟩ :: l₂) := by
    simp [total_cut hns]
  subst hh₁ hh'
  rw [minus_eq hns (by omega), or_one g.aligned_front]
  by_cases hwhole : s - n < 12
  · obtain ⟨o, hnext, hprev, hlink⟩ := useWhole_opened hl hd hc
    rw [if_pos hwhole, Heap.preUMB, hlink]
    obtain ⟨o', k⟩ := o.linkForward g (d + 1)
    refine ⟨hl.replace o'.same ?_ ?_ hblocks hco htotal, _, _, _, o'⟩
    · rw [cut, if_pos hwhole]
      refine heads_append.2 ⟨?_, ⟨?_, ?_⟩, ?_⟩
      · rw [← hd]
        simpa [linkTo, tag, firstFree, hc] using o'.front
      · simpa [← hd, ← hc] using (k d (by omega) (by omega)).trans hnext
      · simpa [← hd] using (k (d + 4) (by omega) (by omega)).trans hprev
      · simpa [← hd, ← hc, tag] using o'.behind
    · rw [cut, if_pos hwhole, firstFree_append, ← hd]
      simpa [firstFree, hc] using o'.list
  · obtain ⟨o, hnext, hprev, hlink, hfree, hbehind, hback⟩ :=
      useFront_opened hl hd hc rfl hn.1 (by omega)
    rw [if_neg hwhole, Heap.preUMB, hlink]
    obtain ⟨o', k⟩ := o.linkForward g (d + 1)
    refine ⟨hl.replace o'.same ?_ ?_ hblocks hco htotal, _, _, _, o'⟩
    · rw [cut, if_neg hwhole]
      have hsum : d + n + (s - n) = c := by omega
      refine heads_append.2 ⟨?_, ⟨?_, ?_⟩, ⟨?_, ?_, ?_⟩, ?_⟩
      · rw [← hd]
        simpa [linkTo, tag, firstFree] using o'.front
      · simpa [← hd, linkTo, tag] using (k d (by omega) (by omega)).trans hnext
      · simpa [← hd] using (k (d + 4) (by omega) (by omega)).trans hprev
      · simpa [← hd, hsum] using (k (d + n) (by omega) (by omega)).trans hfree
      · simpa [← hd, hsum] using (k (d + n + 4) (by omega) (by omega)).trans hbehind
      · simpa [← hd, tag] using (k (d + n + 8) (by omega) (by omega)).trans hback
      · simpa [← hd, hsum, tag] using o'.behind
    · rw [cut, if_neg hwhole, firstFree_append, ← hd]
      simpa [firstFree] using o'.list

end Allocation

section Allocation

variable {h : Heap} {n : Nat}

/-- The loop passes over the blocks that are in use or too small. -/
theorem mallocLoop_skip {l₁ l₂ : List Extent} (hl : Arena h (l₁ ++ (m ++ l₂)))
    (href : Refused n m) (turns : Nat) :
    ∃ turns' ≥ turns,
      mallocLoop n (turns + m.length) (lastFree 0 h.startAddr l₁)
          (firstFree 0 (h.startAddr + total l₁) (m ++ l₂)) h =
        mallocLoop n turns' (lastFree 0 h.startAddr (l₁ ++ m))
          (firstFree 0 (h.startAddr + total (l₁ ++ m)) l₂) h := by
  induction m generalizing l₁ turns with
  | nil => exact ⟨turns, le_rfl, by simp⟩
  | cons e m ih =>
      have hrest : Refused n m := fun f hf => href f (List.mem_cons_of_mem e hf)
      have hl' : Arena h ((l₁ ++ [e]) ++ (m ++ l₂)) := by simpa using hl
      obtain ⟨s, used⟩ := e
      cases used with
      | true =>
          obtain ⟨turns', hle, heq⟩ := ih hl' hrest (turns + 1)
          refine ⟨turns', by omega, ?_⟩
          simpa [firstFree, lastFree, lastFree_append, Nat.add_assoc, Nat.add_comm 1]
            using heq
      | false =>
          obtain ⟨turns', hle, heq⟩ := ih hl' hrest turns
          refine ⟨turns', hle, ?_⟩
          have hsmall : s < n := href _ List.mem_cons_self rfl
          have hpos := hl.placed.pos
          have hl'' : Arena h (l₁ ++ ⟨s, false⟩ :: (m ++ l₂)) := hl
          obtain ⟨-, hnext, -⟩ := hl''.opened rfl rfl
          have hfirst : firstFree 0 (h.startAddr + total l₁) (⟨s, false⟩ :: m ++ l₂) =
              h.startAddr + total l₁ := rfl
          rw [List.length_cons, ← Nat.add_assoc, mallocLoop, hfirst,
            if_neg (by omega), freeSize_eq hl'', if_neg (by omega), Heap.nextFMB, hnext]
          simpa [lastFree, lastFree_append, Nat.add_assoc] using heq

/-- Every block takes at least three words. -/
theorem total_pos_of_free {l : List Extent} (hb : Blocks l) : l.length * 12 ≤ total l := by
  induction l with
  | nil => simp
  | cons e l ih =>
      obtain ⟨he, hl⟩ := blocks_cons.1 hb
      have := ih hl
      rw [List.length_cons, total_cons]
      omega

/-- The size of a block is that of the request, rounded up, and of a head. -/
theorem blockSize_eq {size : Nat} (hsize : size ≤ 4294967284) :
    blockSize size = (size + 3) / 4 * 4 + 8 := by
  unfold blockSize
  omega

-- The sum wraps around for the largest requests, and the block that is handed out
-- has no room for anything but its head.
example : blockSize 4294967293 = 8 := by decide

/-- What `CoKmalloc` does is what the arena does. -/
theorem coKmalloc_refines (hl : Arena h l) {turns size : Nat}
    (hturns : l.length < turns) (hpos : 0 < size) (hsize : size ≤ 4294967284) :
    ∃ p h', coKmalloc turns size h = some (p, h') ∧
      match allocate 12 (blockSize size) h.startAddr l with
      | none => p = 0 ∧ h' = h
      | some (a, m) => p = a + 8 ∧ Arena h' m ∧ SameArena h h' ∧
          ∀ b ∈ live h.startAddr l, ∀ x, Payload b x → h'.mem x = h.mem x := by
  have hn : 12 ≤ blockSize size ∧ blockSize size % 4 = 0 := by
    rw [blockSize_eq hsize]
    omega
  generalize hnsize : blockSize size = n at hn
  rw [coKmalloc, if_neg (by omega), hnsize, hl.list]
  obtain ⟨k, rfl⟩ : ∃ k, turns = (k + 1) + l.length := ⟨turns - l.length - 1, by omega⟩
  have hnone : lastFree 0 h.startAddr [] = 0 := rfl
  by_cases href : Refused n l
  · obtain ⟨turns', hle, heq⟩ :=
      mallocLoop_skip (show Arena h ([] ++ (l ++ [])) by simpa using hl) href (k + 1)
    obtain ⟨j, rfl⟩ : ∃ j, turns' = j + 1 := ⟨turns' - 1, by omega⟩
    simp only [hnone, List.nil_append, List.append_nil, total_nil, Nat.add_zero] at heq
    rw [heq, allocate_refused href]
    exact ⟨0, h, rfl, rfl, rfl⟩
  · obtain ⟨l₁, s, l₂, rfl, href₁, hs⟩ := exists_first_fit href
    rw [allocate_append href₁, allocate_fits hs]
    obtain ⟨turns', hle, heq⟩ := mallocLoop_skip
      (show Arena h ([] ++ (l₁ ++ ⟨s, false⟩ :: l₂)) from hl) href₁
      (k + 1 + (⟨s, false⟩ :: l₂).length)
    obtain ⟨j, rfl⟩ : ∃ j, turns' = j + 1 := ⟨turns' - 1, by omega⟩
    have hlength : k + 1 + (l₁ ++ ⟨s, false⟩ :: l₂).length =
        k + 1 + (⟨s, false⟩ :: l₂ : List Extent).length + l₁.length := by
      rw [List.length_append]
      omega
    have hd : h.startAddr + total l₁ ≠ 0 := by
      have := hl.placed.pos
      omega
    have hfirst : firstFree 0 (h.startAddr + total l₁) (⟨s, false⟩ :: l₂) =
        h.startAddr + total l₁ := rfl
    simp only [hnone, List.nil_append, total_nil, Nat.add_zero, hfirst] at heq
    rw [hlength, heq, mallocLoop, if_neg hd, freeSize_eq hl, if_pos hs]
    have hg := hl.gap
    obtain ⟨harena, next, free, prev, ho⟩ := assign_refines hl rfl rfl hn hs rfl rfl
    have hfits := hg.fits
    have hs12 : 12 ≤ s := ((blocks_append.1 hl.blocks).2 _ List.mem_cons_self).1
    refine ⟨_, _, rfl, ?_, harena, ho.same, fun b hb x hx => ?_⟩
    · exact Nat.mod_eq_of_lt (by omega)
    · refine ho.payload hg ?_ hx
      rw [live_append, List.mem_append] at hb
      exact hb

end Allocation

/-! ## Release -/

section Release

variable {h : Heap} {l₁ l₂ : List Extent} {s d c e : Nat}

/-- The words of a used block, and the links of those on either side. -/
theorem Arena.used (hl : Arena h (l₁ ++ ⟨s, true⟩ :: l₂))
    (hd : d = h.startAddr + total l₁) (hc : c = d + s) :
    Heads h.mem (d + 1) (firstFree 0 c l₂) 0 h.startAddr l₁ ∧
      Heads h.mem 0 0 (d + 1) c l₂ ∧
      h.fmbList = firstFree (firstFree 0 c l₂) h.startAddr l₁ ∧
      h.mem d = linkTo 0 c l₂ ∧ h.mem (d + 4) = linkFrom 0 h.startAddr l₁ := by
  subst hd hc
  obtain ⟨h₁, ⟨hnext, hprev⟩, h₂⟩ := heads_append.1 hl.heads
  have hlist := hl.list
  rw [firstFree_append] at hlist
  exact ⟨h₁, h₂, hlist, hnext, hprev⟩

/-- A last free block leads on to what is free behind. -/
theorem Heads.lastFree_mem {k : Nat} (hl : Heads mem next free prev a l)
    (hall : ¬AllUsed l) : mem (lastFree k a l) = free := by
  induction l generalizing prev a k with
  | nil => exact absurd (fun e he => absurd he (by simp)) hall
  | cons e l ih =>
      obtain ⟨h₀, hl⟩ := hl
      rw [lastFree]
      by_cases hrest : AllUsed l
      · have hfree : e.used ≠ true := fun hu => hall (allUsed_cons.2 ⟨hu, hrest⟩)
        rw [if_neg hfree] at h₀ ⊢
        rw [lastFree_of_allUsed hrest, h₀.1, firstFree_of_allUsed hrest]
      · exact ih hl hrest

/-- The free block behind a gap is found through the one in front of it. -/
theorem nextOfFMB_eq {r : List Extent} {start : Nat} {h₀ : Heap} (g : Gap start l r d c)
    (o : Opened start l r d c next free prev h₀ h) :
    nextOfFMB (lastFree 0 start l) h = free := by
  by_cases hall : AllUsed l
  · rw [lastFree_of_allUsed hall, nextOfFMB, if_pos rfl, o.list, firstFree_of_allUsed hall]
  · have hat := ((heads_lastFree o.front g.blocks_front 0 hall 0).1.bounds g.blocks_front).1
    have := g.pos
    rw [nextOfFMB, if_neg (by omega)]
    exact o.front.lastFree_mem hall

/-- The walk back over used blocks to a free one. -/
theorem getPreFMB_eq (hl : Heads h.mem next free 0 a l) (hb : Blocks l)
    (hp : Placed a (total l)) (hd : h.preMB d = linkFrom 0 a l) {turns : Nat}
    (hturns : l.length < turns) : getPreFMB h turns d = some (lastFree 0 a l) := by
  induction l using List.reverseRecOn generalizing next free d turns with
  | nil =>
      obtain ⟨k, rfl⟩ : ∃ k, turns = k + 1 := ⟨turns - 1, by simp at hturns; omega⟩
      rw [getPreFMB, hd, linkFrom, if_neg (by decide), lastFree]
  | append_singleton l e ih =>
      obtain ⟨k, rfl⟩ : ∃ k, turns = k + 1 := ⟨turns - 1, by omega⟩
      obtain ⟨hbl, hbe⟩ := blocks_append.1 hb
      have hbe := (blocks_cons.1 hbe).1
      obtain ⟨hpos, haligned, hfits⟩ := hp
      have hmod := hbl.total_mod
      simp only [total_append, total_cons, total_nil] at hfits
      obtain ⟨h₁, h₂⟩ := heads_append.1 hl
      rw [linkFrom_append] at hd
      rw [lastFree_append, getPreFMB, hd]
      obtain ⟨u, used⟩ := e
      cases used with
      | true =>
          have htag : linkFrom (linkFrom 0 a l) (a + total l) [⟨u, true⟩] =
              a + total l + 1 := rfl
          rw [htag, and_one_of_odd (by omega), if_pos (by decide),
            minus_eq (by omega) (by omega), Nat.add_sub_cancel]
          exact ih h₁ hbl ⟨hpos, haligned, by omega⟩ h₂.1.2
            (by rw [List.length_append] at hturns; simp at hturns; omega)
      | false =>
          have htag : linkFrom (linkFrom 0 a l) (a + total l) [⟨u, false⟩] =
              a + total l := rfl
          rw [htag, and_one_of_even (by omega), if_neg (by decide)]
          rfl

/-- The walk back over used blocks to the one looked for. -/
theorem findBack_finds {a₀ : Nat} (hl : Heads h.mem next free (a₀ + 1) a l)
    (hall : AllUsed l) (hb : Blocks l) (hp : Placed a (total l)) (hlt : a₀ < a)
    {turns : Nat} (hturns : l.length < turns) :
    findBack h a₀ turns (minus (linkFrom (a₀ + 1) a l) 1) = some true := by
  induction l using List.reverseRecOn generalizing next free turns with
  | nil =>
      obtain ⟨k, rfl⟩ : ∃ k, turns = k + 1 := ⟨turns - 1, by simp at hturns; omega⟩
      have hfits := hp.fits
      rw [linkFrom, minus_eq (by omega) (by omega), Nat.add_sub_cancel, findBack, if_pos rfl]
  | append_singleton l e ih =>
      obtain ⟨k, rfl⟩ : ∃ k, turns = k + 1 := ⟨turns - 1, by omega⟩
      obtain ⟨hbl, hbe⟩ := blocks_append.1 hb
      have hbe := (blocks_cons.1 hbe).1
      obtain ⟨hpos, haligned, hfits⟩ := hp
      simp only [total_append, total_cons, total_nil] at hfits
      obtain ⟨h₁, h₂⟩ := heads_append.1 hl
      have hused : e.used = true := hall e (by simp)
      obtain ⟨u, used⟩ := e
      obtain rfl : used = true := hused
      have htag : linkFrom (a₀ + 1) a (l ++ [⟨u, true⟩]) = a + total l + 1 := by
        rw [linkFrom_append]
        rfl
      have hprev : h.preMB (a + total l) = linkFrom (a₀ + 1) a l := h₂.1.2
      rw [htag, minus_eq (by omega) (by omega), Nat.add_sub_cancel, findBack,
        if_neg (by omega), if_neg (by omega), hprev]
      exact ih h₁ (fun f hf => hall f (List.mem_append_left _ hf)) hbl
        ⟨hpos, haligned, by omega⟩ (by rw [List.length_append] at hturns; simp at hturns; omega)

/-- From a used block on to a used block. -/
theorem findForward_step {u p turns : Nat} (hnext : h.mem a = a + u + 1) (hp : a ≠ p)
    (hpos : 0 < a) (hmod : (a + u) % 4 = 0) (hfits : a + u + 1 < 4294967296) :
    findForward h p (turns + 1) a = findForward h p turns (a + u) := by
  rw [findForward, if_neg hp, if_neg (by omega), Heap.nextMB, hnext,
    and_one_of_odd hmod, if_neg (by decide), minus_eq (by omega) hfits, Nat.add_sub_cancel]

/-- The walk forward to the block looked for. -/
theorem findForward_finds (m : List Extent) {a prev turns : Nat}
    (hl : Heads h.mem 0 0 prev a (m ++ ⟨s, true⟩ :: l₂))
    (hb : Blocks (m ++ ⟨s, true⟩ :: l₂)) (hco : Coalesced (m ++ ⟨s, true⟩ :: l₂))
    (hstart : StartsUsed (m ++ ⟨s, true⟩ :: l₂))
    (hp : Placed a (total (m ++ ⟨s, true⟩ :: l₂))) (hturns : m.length < turns) :
    findForward h (a + total m) turns a = some true := by
  induction turns generalizing m a prev with
  | zero => omega
  | succ k ih =>
      have h12 : ∀ m' : List Extent, Blocks (m' ++ ⟨s, true⟩ :: l₂) →
          12 ≤ total (m' ++ ⟨s, true⟩ :: l₂) := by
        intro m' hb'
        have := total_pos_of_free hb'
        rw [List.length_append, List.length_cons] at this
        omega
      obtain ⟨hpos, haligned, hfits⟩ := hp
      match m with
      | [] => rw [findForward, total_nil, if_pos (by omega)]
      | ⟨u, false⟩ :: m => exact absurd (hstart _ rfl) (by simp)
      | [⟨u, true⟩] =>
          obtain ⟨⟨hnext, -⟩, hrest⟩ := hl
          obtain ⟨hbu, hb⟩ := blocks_cons.1 hb
          simp only [List.cons_append, List.nil_append, total_cons, total_nil] at hfits hbu hb ⊢
          have := h12 [] hb
          simp only [List.nil_append, total_cons] at this
          rw [findForward_step (u := u) hnext (by omega) hpos (by omega) (by omega)]
          exact ih [] (a := a + u) hrest hb (coalesced_used.1 hco) (by simp [StartsUsed])
            ⟨by omega, by omega, by simp only [List.nil_append, total_cons]; omega⟩
            (by simpa using hturns)
      | ⟨u, true⟩ :: ⟨v, true⟩ :: m =>
          obtain ⟨⟨hnext, -⟩, hrest⟩ := hl
          obtain ⟨hbu, hb⟩ := blocks_cons.1 hb
          have := h12 (⟨v, true⟩ :: m) hb
          simp only [List.cons_append, total_cons] at hfits hbu hb this ⊢
          rw [findForward_step (u := u) hnext (by omega) hpos (by omega) (by omega)]
          have ih := ih (⟨v, true⟩ :: m) (a := a + u) hrest hb
            (coalesced_used.1 hco) (by simp [StartsUsed])
            ⟨by omega, by omega, by simp only [List.cons_append, total_cons]; omega⟩
            (by simpa using hturns)
          simpa [Nat.add_assoc] using ih
      | ⟨u, true⟩ :: ⟨t, false⟩ :: m =>
          obtain ⟨⟨hnext, -⟩, ⟨-, hnext', -⟩, hrest⟩ := hl
          obtain ⟨hbu, hb⟩ := blocks_cons.1 hb
          obtain ⟨hbt, hb⟩ := blocks_cons.1 hb
          have h12' := h12 m hb
          simp only [List.cons_append, total_cons] at hfits hbu hbt hco ⊢
          have hco' := coalesced_free.1 (coalesced_used.1 hco)
          have hlink : h.nextMB a = a + u := hnext
          have hlink' : h.nextUMB (a + u) = a + u + t + 1 := by
            refine Eq.trans hnext' ?_
            rcases startsUsed_cases hco'.1 with hnil | ⟨v, r, hcons⟩
            · exact absurd hnil (by simp)
            · exact congrArg (linkTo 0 (a + u + t)) hcons
          rw [findForward, if_neg (by omega), if_neg (by omega), hlink,
            and_one_of_even (by omega), if_pos rfl, hlink', minus_eq (by omega) (by omega),
            Nat.add_sub_cancel]
          have ih := ih m (a := a + u + t) hrest hb hco'.2 hco'.1
            ⟨by omega, by omega, by omega⟩ (by simp at hturns; omega)
          simpa [Nat.add_assoc] using ih

end Release

/-- Where something is free, there is a first free block. -/
theorem exists_first_free {l : List Extent} (h : ¬AllUsed l) :
    ∃ m t r, l = m ++ ⟨t, false⟩ :: r ∧ AllUsed m := by
  have href : ¬Refused 0 l := fun href => h fun e he => by
    cases hu : e.used with
    | true => rfl
    | false => exact absurd (href e he hu) (by simp)
  obtain ⟨m, t, r, rfl, hm, -⟩ := exists_first_fit href
  refine ⟨m, t, r, rfl, fun e he => ?_⟩
  cases hu : e.used with
  | true => rfl
  | false => exact absurd (hm e he hu) (by simp)

theorem AllUsed.startsUsed {l : List Extent} (h : AllUsed l) : StartsUsed l :=
  fun e he => h e (List.mem_of_mem_head? he)

section Release

variable {h : Heap} {l₁ l₂ : List Extent} {s d c e : Nat}

/-- A block in use is found in the list. -/
theorem inList_finds (hl : Arena h (l₁ ++ ⟨s, true⟩ :: l₂))
    (hd : d = h.startAddr + total l₁) {turns : Nat}
    (hturns : (l₁ ++ ⟨s, true⟩ :: l₂).length < turns) :
    inList turns d h = some true := by
  obtain ⟨hfront, hbehind, hlist, hnext, hprev⟩ := hl.used hd rfl
  obtain ⟨hpos, haligned, hfits⟩ := hl.placed
  obtain ⟨hb₁, hb⟩ := blocks_append.1 hl.blocks
  obtain ⟨hs, hb₂⟩ := blocks_cons.1 hb
  have hmod₁ := hb₁.total_mod
  simp only [List.length_append, List.length_cons] at hturns
  simp only [total_append, total_cons] at hfits hs
  rw [inList]
  by_cases hall₁ : AllUsed l₁
  · by_cases hall₂ : AllUsed l₂
    · have hnone : h.fmbList = 0 := by
        rw [hlist, firstFree_of_allUsed hall₁, firstFree_of_allUsed hall₂]
      rw [hnone, if_neg (by omega), if_pos rfl, hd]
      refine findForward_finds l₁ hl.heads hl.blocks hl.coalesced ?_ hl.placed (by omega)
      exact AllUsed.startsUsed fun f hf => by
        rcases List.mem_append.1 hf with hf | hf
        · exact hall₁ f hf
        · rcases List.mem_cons.1 hf with rfl | hf
          · rfl
          · exact hall₂ f hf
    · obtain ⟨m, t, r, rfl, hm⟩ := exists_first_free hall₂
      have hfirst : h.fmbList = d + s + total m := by
        rw [hlist, firstFree_of_allUsed hall₁, firstFree_append, firstFree_of_allUsed hm]
        rfl
      obtain ⟨hm', ⟨-, -, hprev'⟩, -⟩ := heads_append.1 hbehind
      simp only [total_append] at hfits
      rw [hfirst, if_pos (by omega), Heap.preUMB, hprev']
      have hbm := (blocks_append.1 hb₂).1
      have hmod := hbm.total_mod
      refine findBack_finds hm' hm hbm ⟨by omega, by omega, by omega⟩ (by omega) ?_
      rw [List.length_append] at hturns
      omega
  · obtain ⟨m, t, r, rfl, hm⟩ := exists_first_free hall₁
    have hfirst : h.fmbList = h.startAddr + total m := by
      rw [hlist, firstFree_append, firstFree_of_allUsed hm]
      rfl
    have hl' : Arena h (m ++ ⟨t, false⟩ :: (r ++ ⟨s, true⟩ :: l₂)) := by
      simpa using hl
    obtain ⟨o, -, hnext', -⟩ := hl'.opened rfl rfl
    have g := hl'.gap
    have hlink : h.nextUMB (h.startAddr + total m) = h.startAddr + total m + t + 1 := by
      refine Eq.trans hnext' ?_
      rcases startsUsed_cases g.startsUsed with hnil | ⟨v, r', hcons⟩
      · exact absurd hnil (by simp)
      · rw [hcons]
        rfl
    have ht := (blocks_cons.1 (blocks_append.1 hb₁).2).1
    simp only [total_append, total_cons] at hfits hd ht
    rw [hfirst, if_neg (by omega), if_neg (by omega), hlink, if_pos (by omega),
      minus_eq (by omega) (by omega), Nat.add_sub_cancel,
      show d = h.startAddr + total m + t + total r by omega]
    refine findForward_finds r o.behind g.blocks_behind ?_ g.startsUsed g.placed_behind ?_
    · exact (coalesced_split hl'.coalesced).2.1
    · simp only [List.length_append, List.length_cons] at hturns
      omega

/-- A free block `e` is in the gap from `e` to `c`, and knows those around it. -/
structure Merged (h h₁ : Heap) (l r : List Extent) (e c : Nat) : Prop where
  gap : Gap h.startAddr l r e c
  room : e + 12 ≤ c
  opened : ∃ next prev, Opened h.startAddr l r e c next e prev h h₁
  nextFMB : h₁.mem e = firstFree 0 c r
  nextUMB : h₁.mem (e + 4) = linkTo 0 c r
  preUMB : h₁.mem (e + 8) = linkFrom 0 h.startAddr l

/-- With the links on either side the free block is in its place. -/
theorem linkSides_refines {h₁ : Heap} {r : List Extent} (hm : Merged h h₁ l r e c) :
    Heads (linkSides e h₁).mem 0 0 0 h.startAddr (l ++ ⟨c - e, false⟩ :: r) ∧
      (linkSides e h₁).fmbList = firstFree 0 h.startAddr (l ++ ⟨c - e, false⟩ :: r) ∧
      ∃ next free prev,
        Opened h.startAddr l r e c next free prev h (linkSides e h₁) := by
  obtain ⟨g, hroom, ⟨next, prev, o⟩, hnext, hnextU, hpre⟩ := hm
  obtain ⟨o₁, k₁⟩ := o.linkForward g e
  obtain ⟨o₂, k₂⟩ := o₁.linkBack g e
  have hfold : linkSides e h₁ =
      linkBack (linkTo 0 c r) e (linkForward (linkFrom 0 h.startAddr l) e h₁) := by
    rw [linkSides, Heap.preUMB, hpre, Heap.nextUMB, k₁ _ (by omega) (by omega), hnextU]
  have hsum : e + (c - e) = c := by omega
  rw [hfold]
  refine ⟨heads_append.2 ⟨?_, ⟨?_, ?_, ?_⟩, ?_⟩, ?_, _, _, _, o₂⟩
  · rw [← g.front]
    simpa [linkTo, tag, firstFree] using o₂.front
  · simpa [← g.front, hsum] using (k₂ e (by omega) (by omega)).trans
      ((k₁ e (by omega) (by omega)).trans hnext)
  · simpa [← g.front, hsum] using (k₂ (e + 4) (by omega) (by omega)).trans
      ((k₁ (e + 4) (by omega) (by omega)).trans hnextU)
  · simpa [← g.front] using (k₂ (e + 8) (by omega) (by omega)).trans
      ((k₁ (e + 8) (by omega) (by omega)).trans hpre)
  · simpa [← g.front, hsum, tag] using o₂.behind
  · rw [firstFree_append, ← g.front]
    exact o₂.list

end Release

/-- With nothing in front of the gap, the list of free blocks starts behind it. -/
theorem Opened.setFMBlist {start prev : Nat} {r : List Extent} {d c : Nat} {h₀ h : Heap}
    (o : Opened start [] r d c next free prev h₀ h) (v : Nat) :
    Opened start [] r d c next v prev h₀ (h.setFMBlist v) :=
  ⟨trivial, o.behind, rfl, ⟨o.same.1, o.same.2⟩, o.kept⟩

/-- With a used block in front there is a link to it. -/
theorem linkFrom_endsUsed {start : Nat} (hend : EndsUsed l) (hb : Blocks l)
    (hp : Placed start (total l)) :
    linkFrom 0 start l = 0 ∧ l = [] ∨ (linkFrom 0 start l &&& 1 = 1) := by
  rcases endsUsed_cases hend with rfl | ⟨m, u, rfl⟩
  · exact .inl ⟨rfl, rfl⟩
  · have hmod := (blocks_append.1 hb).1.total_mod
    have haligned := hp.aligned
    rw [linkFrom_append]
    exact .inr (and_one_of_odd (by omega))

/-- With a used block behind there is a link to it. -/
theorem linkTo_startsUsed {c : Nat} {r : List Extent} (hstart : StartsUsed r)
    (hc : c % 4 = 0) : linkTo 0 c r = 0 ∧ r = [] ∨ (linkTo 0 c r &&& 1 = 1) := by
  rcases startsUsed_cases hstart with rfl | ⟨u, m, rfl⟩
  · exact .inl ⟨rfl, rfl⟩
  · exact .inr (and_one_of_odd hc)

section Release

variable {h : Heap} {l₁ l₂ r : List Extent} {s t d c e : Nat}

/-- A block with no free one on either side is freed. -/
theorem toFMB_alone (hl : Arena h (l₁ ++ ⟨s, true⟩ :: l₂))
    (hd : d = h.startAddr + total l₁) (hc : c = d + s) (hend : EndsUsed l₁)
    (hstart : StartsUsed l₂) {turns : Nat} (hturns : l₁.length < turns) :
    ∃ h₁, toFMB turns d h = some (d, h₁) ∧ Merged h h₁ l₁ l₂ d c := by
  obtain ⟨hfront, hbehind, hlist, hnext, hprev⟩ := hl.used hd hc
  obtain ⟨hpos, haligned, hfits⟩ := hl.placed
  obtain ⟨hb₁, hb⟩ := blocks_append.1 hl.blocks
  obtain ⟨hs, hb₂⟩ := blocks_cons.1 hb
  have hmod := hb₁.total_mod
  simp only [total_append, total_cons] at hfits hs
  have g : Gap h.startAddr l₁ l₂ d c :=
    ⟨hpos, haligned, hd, by omega, by omega, by omega, hb₁, hb₂, hend, hstart⟩
  have o : Opened h.startAddr l₁ l₂ d c (d + 1) (firstFree 0 c l₂) (d + 1) h h :=
    ⟨hfront, hbehind, hlist, ⟨rfl, rfl⟩, fun _ _ _ _ => rfl⟩
  have hpre := getPreFMB_eq hfront hb₁ g.placed_front (d := d) hprev hturns
  have hnext' : h.nextMB d = linkTo 0 c l₂ := hnext
  have hprev' : h.preMB d = linkFrom 0 h.startAddr l₁ := hprev
  obtain ⟨o₁, k₁⟩ := o.linkFMB g d
  have hlistd := nextOfFMB_eq g o
  rcases linkFrom_endsUsed hend hb₁ g.placed_front with ⟨hfrom, rfl⟩ | hfrom <;>
    rcases linkTo_startsUsed hstart g.aligned_behind with ⟨hto, rfl⟩ | hto
  · refine ⟨_, ?_, g, by omega, ⟨_, _, (((o.store g (p := d) (by omega) 0).store g
      (p := d + 4) (by omega) 0).store g (p := d + 8) (by omega) 0).setFMBlist d⟩, ?_, ?_, ?_⟩
    · rw [toFMB, hnext', hprev', hfrom, hto, if_pos ⟨rfl, rfl⟩, freeBetween, hnext', hprev',
        hfrom, hto, if_pos ⟨rfl, rfl⟩]
      rfl
    all_goals simp (disch := omega) only [setFMBlist_mem, store_mem_of_ne, store_mem_self]
    · rfl
    · rfl
    · rfl
  · refine ⟨_, ?_, g, by omega, ⟨_, _, (((o.store g (p := d + 4) (by omega)
      (linkTo 0 c l₂)).store g (p := d + 8) (by omega) 0).store g (p := d) (by omega)
        (firstFree 0 c l₂)).setFMBlist d⟩, ?_, ?_, ?_⟩
    · rw [toFMB, hnext', hprev', hfrom, hto, if_neg (by simp), if_pos (by decide), freeBehind,
        hnext', hprev', hfrom, if_pos rfl]
      simp only [Heap.setNextUMB, Heap.setPreUMB, Heap.setNextFMB, store_fmbList, hlist,
        firstFree]
    all_goals simp (disch := omega) only [setFMBlist_mem, store_mem_of_ne, store_mem_self]
    rfl
  · refine ⟨_, ?_, g, by omega, ⟨_, _, ((o₁.store g (p := d + 8) (by omega)
      (linkFrom 0 h.startAddr l₁)).store g (p := d + 4) (by omega) 0).store g (p := d)
        (by omega) 0⟩, ?_, ?_, ?_⟩
    · rw [toFMB, hnext', hprev', hto, if_neg (by simp [hfrom]), if_neg (by simp [hfrom]),
        if_pos (by decide), hpre, Option.map_some, freeFront, hprev', hlistd]
      rfl
    all_goals simp (disch := omega) only [store_mem_of_ne, store_mem_self]
    · rfl
    · rfl
  · refine ⟨_, ?_, g, by omega, ⟨_, _, ((o₁.store g (p := d + 8) (by omega)
      (linkFrom 0 h.startAddr l₁)).store g (p := d + 4) (by omega) (linkTo 0 c l₂)).store g
        (p := d) (by omega) (firstFree 0 c l₂)⟩, ?_, ?_, ?_⟩
    · rw [toFMB, hnext', hprev', if_neg (by simp [hfrom]), if_neg (by simp [hfrom]),
        if_neg (by simp [hto]), hpre, Option.map_some, freeAlone, hprev', hnext', hlistd]
      rfl
    all_goals simp (disch := omega) only [store_mem_of_ne, store_mem_self]

/-- A block in front of a free one takes it in. -/
theorem toFMB_front (hl : Arena h (l₁ ++ ⟨s, true⟩ :: ⟨t, false⟩ :: r))
    (hd : d = h.startAddr + total l₁) (hc : c = d + s + t) (hend : EndsUsed l₁)
    {turns : Nat} (hturns : l₁.length < turns) :
    ∃ h₁, toFMB turns d h = some (d, h₁) ∧ Merged h h₁ l₁ r d c := by
  obtain ⟨hfront, ⟨⟨hfree, hnextU, -⟩, hbehind⟩, hlist, hnext, hprev⟩ := hl.used hd rfl
  obtain ⟨hpos, haligned, hfits⟩ := hl.placed
  obtain ⟨hb₁, hb⟩ := blocks_append.1 hl.blocks
  obtain ⟨hs, hb⟩ := blocks_cons.1 hb
  obtain ⟨ht, hb₂⟩ := blocks_cons.1 hb
  have hmod := hb₁.total_mod
  have hco := (coalesced_split hl.coalesced).2.1
  simp only [total_append, total_cons] at hfits hs ht hfree hnextU hbehind
  rw [← hc] at hfree hnextU hbehind
  have g : Gap h.startAddr l₁ r d c :=
    ⟨hpos, haligned, hd, by omega, by omega, by omega, hb₁, hb₂, hend,
      (coalesced_free.1 hco).1⟩
  have o : Opened h.startAddr l₁ r d c (d + 1) (d + s) (d + s) h h :=
    ⟨hfront, hbehind, hlist, ⟨rfl, rfl⟩, fun _ _ _ _ => rfl⟩
  have hpre := getPreFMB_eq hfront hb₁ g.placed_front (d := d) hprev hturns
  have hnext' : h.nextMB d = d + s := hnext
  have hprev' : h.preMB d = linkFrom 0 h.startAddr l₁ := hprev
  have heven : (d + s) &&& 1 = 0 := and_one_of_even (by omega)
  obtain ⟨o₁, k₁⟩ := o.linkFMB g d
  have hlistd := nextOfFMB_eq g o
  rcases linkFrom_endsUsed hend hb₁ g.placed_front with ⟨hfrom, rfl⟩ | hfrom
  · refine ⟨_, ?_, g, by omega, ⟨_, _, (((o.store g (p := d) (by omega)
      (firstFree 0 c r)).store g (p := d + 4) (by omega) (linkTo 0 c r)).store g
        (p := d + 8) (by omega) 0).setFMBlist d⟩, ?_, ?_, ?_⟩
    · rw [toFMB, hnext', hprev', hfrom, if_pos ⟨heven, rfl⟩, freeBetween, hnext', hprev',
        hfrom, if_neg (by omega), if_pos rfl]
      simp only [Heap.nextFMB, Heap.nextUMB, Heap.setNextFMB, Heap.setNextUMB,
        Heap.setPreUMB]
      rw [hfree, store_mem_of_ne _ _ _ (by omega), hnextU]
    all_goals simp (disch := omega) only [setFMBlist_mem, store_mem_of_ne, store_mem_self]
    rfl
  · refine ⟨_, ?_, g, by omega, ⟨_, _, ((o₁.store g (p := d + 8) (by omega)
      (linkFrom 0 h.startAddr l₁)).store g (p := d + 4) (by omega) (linkTo 0 c r)).store g
        (p := d) (by omega) (firstFree 0 c r)⟩, ?_, ?_, ?_⟩
    · rw [toFMB, hnext', hprev', if_neg (by simp [hfrom]), if_neg (by simp [hfrom]),
        if_pos heven, hpre, Option.map_some, freeFront, hprev', hlistd, if_neg (by omega)]
      simp only [Heap.nextFMB, Heap.nextUMB, Heap.setNextFMB, Heap.setNextUMB,
        Heap.setPreUMB]
      rw [store_mem_of_ne (x := d + s + 4) _ _ _ (by omega), k₁ _ (by omega) (by omega),
        hnextU, store_mem_of_ne (x := d + s) _ _ _ (by omega),
        store_mem_of_ne (x := d + s) _ _ _ (by omega), k₁ _ (by omega) (by omega), hfree]
    all_goals simp (disch := omega) only [store_mem_of_ne, store_mem_self]

end Release

section Release

variable {h : Heap} {l₁ l₂ r : List Extent} {s t u d c e : Nat}

/-- What a free block in front of a used one knows. -/
theorem Arena.free_used (hl : Arena h (l₁ ++ ⟨t, false⟩ :: ⟨s, true⟩ :: l₂))
    (he : e = h.startAddr + total l₁) (hd : d = e + t) (hc : c = d + s) :
    Heads h.mem e e 0 h.startAddr l₁ ∧ h.fmbList = firstFree e h.startAddr l₁ ∧
      h.mem e = firstFree 0 c l₂ ∧ h.mem (e + 8) = linkFrom 0 h.startAddr l₁ ∧
      h.nextMB d = linkTo 0 c l₂ ∧ h.preMB d = e ∧ Heads h.mem 0 0 (d + 1) c l₂ := by
  subst he hd hc
  obtain ⟨o, hfree, -, hprev⟩ := hl.opened rfl rfl
  obtain ⟨⟨hnext, hback⟩, hbehind⟩ := o.behind
  exact ⟨o.front, o.list, hfree, hprev, hnext, hback, hbehind⟩

/-- A block behind a free one is taken in by it. -/
theorem toFMB_behind (hl : Arena h (l₁ ++ ⟨t, false⟩ :: ⟨s, true⟩ :: l₂))
    (he : e = h.startAddr + total l₁) (hd : d = e + t) (hc : c = d + s)
    (hstart : StartsUsed l₂) (turns : Nat) :
    ∃ h₁, toFMB turns d h = some (e, h₁) ∧ Merged h h₁ l₁ l₂ e c := by
  obtain ⟨hfront, hlist, hfree, hprevU, hnext, hprev, hbehind⟩ := hl.free_used he hd hc
  obtain ⟨hpos, haligned, hfits⟩ := hl.placed
  obtain ⟨hb₁, hb⟩ := blocks_append.1 hl.blocks
  obtain ⟨ht, hb⟩ := blocks_cons.1 hb
  obtain ⟨hs, hb₂⟩ := blocks_cons.1 hb
  have hmod := hb₁.total_mod
  simp only [total_append, total_cons] at hfits hs ht
  have hend := ((coalesced_split hl.coalesced).2.2 rfl).1
  have g : Gap h.startAddr l₁ l₂ e c :=
    ⟨hpos, haligned, he, by omega, by omega, by omega, hb₁, hb₂, hend, hstart⟩
  have o : Opened h.startAddr l₁ l₂ e c e e (d + 1) h h :=
    ⟨hfront, hbehind, hlist, ⟨rfl, rfl⟩, fun _ _ _ _ => rfl⟩
  have heven : e &&& 1 = 0 := and_one_of_even (by omega)
  rcases linkTo_startsUsed hstart g.aligned_behind with ⟨hto, rfl⟩ | hto
  · refine ⟨_, ?_, g, by omega, ⟨_, _, (o.store g (p := e) (by omega) 0).store g
      (p := e + 4) (by omega) 0⟩, ?_, ?_, ?_⟩
    · rw [toFMB, hnext, hprev, hto, if_pos ⟨rfl, heven⟩, freeBetween, hnext, hprev, hto,
        if_neg (by omega), if_neg (by omega), if_pos rfl]
      rfl
    all_goals simp (disch := omega) only [store_mem_of_ne, store_mem_self]
    · rfl
    · rfl
    · exact hprevU
  · refine ⟨_, ?_, g, by omega, ⟨_, _, o.store g (p := e + 4) (by omega) (linkTo 0 c l₂)⟩,
      ?_, ?_, ?_⟩
    · rw [toFMB, hnext, hprev, if_neg (by simp [hto]), if_pos heven, freeBehind, hnext,
        hprev, if_neg (by omega)]
      rfl
    all_goals simp (disch := omega) only [store_mem_of_ne, store_mem_self]
    · exact hfree
    · exact hprevU

/-- A block between two free ones makes one of them. -/
theorem toFMB_between
    (hl : Arena h (l₁ ++ ⟨t, false⟩ :: ⟨s, true⟩ :: ⟨u, false⟩ :: r))
    (he : e = h.startAddr + total l₁) (hd : d = e + t) (hc : c = d + s + u)
    (turns : Nat) :
    ∃ h₁, toFMB turns d h = some (e, h₁) ∧ Merged h h₁ l₁ r e c := by
  obtain ⟨hfront, hlist, -, hprevU, hnext, hprev, ⟨hfree, hnextU, -⟩, hbehind⟩ :=
    hl.free_used he hd rfl
  obtain ⟨hpos, haligned, hfits⟩ := hl.placed
  obtain ⟨hb₁, hb⟩ := blocks_append.1 hl.blocks
  obtain ⟨ht, hb⟩ := blocks_cons.1 hb
  obtain ⟨hs, hb⟩ := blocks_cons.1 hb
  obtain ⟨hu, hb₂⟩ := blocks_cons.1 hb
  have hmod := hb₁.total_mod
  simp only [total_append, total_cons] at hfits hs ht hu hfree hnextU hbehind
  rw [← hc] at hfree hnextU hbehind
  obtain ⟨-, hco, hsides⟩ := coalesced_split hl.coalesced
  have g : Gap h.startAddr l₁ r e c :=
    ⟨hpos, haligned, he, by omega, by omega, by omega, hb₁, hb₂, (hsides rfl).1,
      (coalesced_free.1 (coalesced_used.1 hco)).1⟩
  have o : Opened h.startAddr l₁ r e c e e (d + s) h h :=
    ⟨hfront, hbehind, hlist, ⟨rfl, rfl⟩, fun _ _ _ _ => rfl⟩
  have hnext' : h.nextMB d = d + s := hnext
  have heven : e &&& 1 = 0 := and_one_of_even (by omega)
  have heven' : (d + s) &&& 1 = 0 := and_one_of_even (by omega)
  refine ⟨_, ?_, g, by omega, ⟨_, _, (o.store g (p := e) (by omega)
    (firstFree 0 c r)).store g (p := e + 4) (by omega) (linkTo 0 c r)⟩, ?_, ?_, ?_⟩
  · rw [toFMB, hnext', hprev, if_pos ⟨heven', heven⟩, freeBetween, hnext', hprev,
      if_neg (by omega), if_neg (by omega), if_neg (by omega)]
    simp only [Heap.nextFMB, Heap.nextUMB, Heap.setNextFMB, Heap.setNextUMB]
    rw [hfree, store_mem_of_ne _ _ _ (by omega), hnextU]
  all_goals simp (disch := omega) only [store_mem_of_ne, store_mem_self]
  exact hprevU

/-- The last block of a stretch is in use or free. -/
theorem endsUsed_or (l : List Extent) : EndsUsed l ∨ ∃ m t, l = m ++ [⟨t, false⟩] := by
  rcases List.eq_nil_or_concat l with rfl | ⟨m, ⟨t, used⟩, rfl⟩
  · exact .inl (by simp [EndsUsed])
  · rw [List.concat_eq_append]
    cases used with
    | true => exact .inl (by simp [EndsUsed])
    | false => exact .inr ⟨m, t, rfl⟩

/-- The first block of a stretch is in use or free. -/
theorem startsUsed_or (l : List Extent) : StartsUsed l ∨ ∃ t m, l = ⟨t, false⟩ :: m := by
  match l with
  | [] => exact .inl (by simp [StartsUsed])
  | ⟨t, true⟩ :: m => exact .inl (by simp [StartsUsed])
  | ⟨t, false⟩ :: m => exact .inr ⟨t, m, rfl⟩

/-- The free block that the freed one becomes is what the arena makes of it. -/
theorem toFMB_refines (hl : Arena h (l₁ ++ ⟨s, true⟩ :: l₂))
    (hd : d = h.startAddr + total l₁) {turns : Nat} (hturns : l₁.length < turns) :
    ∃ e c m r h₁, toFMB turns d h = some (e, h₁) ∧ Merged h h₁ m r e c ∧
      release d h.startAddr (l₁ ++ ⟨s, true⟩ :: l₂) = m ++ ⟨c - e, false⟩ :: r ∧
      ∀ b ∈ live h.startAddr (l₁ ++ ⟨s, true⟩ :: l₂), b.1 ≠ d →
        b ∈ live h.startAddr m ∨ b ∈ live c r := by
  have hpos := (blocks_append.1 hl.blocks).1.pos
  have hco := (coalesced_split hl.coalesced).1
  have hlive : ∀ b ∈ live h.startAddr (l₁ ++ ⟨s, true⟩ :: l₂), b.1 ≠ d →
      b ∈ live h.startAddr l₁ ∨ b ∈ live (d + s) l₂ := by
    intro b hb hne
    rw [live_append, live, if_pos rfl, List.mem_append, List.mem_cons, ← hd] at hb
    rcases hb with hb | rfl | hb
    · exact .inl hb
    · exact absurd rfl hne
    · exact .inr hb
  rcases endsUsed_or l₁ with hend | ⟨m, t, rfl⟩ <;>
    rcases startsUsed_or l₂ with hstart | ⟨u, r, rfl⟩
  · obtain ⟨h₁, heq, hm⟩ := toFMB_alone hl hd rfl hend hstart hturns
    refine ⟨_, _, _, _, h₁, heq, hm, ?_, hlive⟩
    rw [hd, release_append hpos hco _ _ _ hend, joinNext_used hstart, Nat.add_sub_cancel_left]
  · obtain ⟨h₁, heq, hm⟩ := toFMB_front hl hd rfl hend hturns
    refine ⟨_, _, _, _, h₁, heq, hm, ?_, hlive⟩
    rw [hd, release_append hpos hco _ _ _ hend, Nat.add_assoc, Nat.add_sub_cancel_left,
      joinNext]
  · have hl' : Arena h (m ++ ⟨t, false⟩ :: ⟨s, true⟩ :: l₂) := by simpa using hl
    have hd' : d = h.startAddr + total m + t := by simpa [Nat.add_assoc] using hd
    obtain ⟨h₁, heq, hm⟩ := toFMB_behind hl' rfl hd' rfl hstart turns
    refine ⟨_, _, _, _, h₁, heq, hm, ?_, fun b hb hne => ?_⟩
    · have hrel := release_append_free hpos hco h.startAddr s l₂
      rw [hd, List.append_assoc, List.singleton_append, hrel, joinNext_used hstart, joinNext]
      congr 3
      simp
      omega
    · simpa [live_append, live] using hlive b hb hne
  · have hl' : Arena h (m ++ ⟨t, false⟩ :: ⟨s, true⟩ :: ⟨u, false⟩ :: r) := by
      simpa using hl
    have hd' : d = h.startAddr + total m + t := by simpa [Nat.add_assoc] using hd
    obtain ⟨h₁, heq, hm⟩ := toFMB_between hl' rfl hd' rfl turns
    refine ⟨_, _, _, _, h₁, heq, hm, ?_, fun b hb hne => ?_⟩
    · have hrel := release_append_free hpos hco h.startAddr s (⟨u, false⟩ :: r)
      rw [hd, List.append_assoc, List.singleton_append, hrel, joinNext, joinNext]
      congr 3
      simp
      omega
    · simpa [live_append, live] using hlive b hb hne

end Release

/-- What `CoKfree` does with a block in use is what the arena does. -/
theorem coKfree_refines {h : Heap} (hl : Arena h l) {b : Nat × Nat}
    (hb : b ∈ live h.startAddr l) {turns : Nat} (hturns : l.length < turns) :
    ∃ h', coKfree turns (b.1 + 8) h = some h' ∧
      Arena h' (release b.1 h.startAddr l) ∧ SameArena h h' ∧
      ∀ b' ∈ live h.startAddr l, b'.1 ≠ b.1 → ∀ x, Payload b' x →
        h'.mem x = h.mem x := by
  obtain ⟨l₁, l₂, rfl, hd⟩ := exists_of_mem_live hb
  have hcovers := hl.covers
  obtain ⟨hpos, haligned, hfits⟩ := hl.placed
  have hs := ((blocks_append.1 hl.blocks).2 _ List.mem_cons_self).1
  have hlength := hturns
  simp only [total_append, total_cons, List.length_append] at hcovers hfits hs hlength
  have hturns₁ : l₁.length < turns := by omega
  obtain ⟨e, c, m, r, h₁, heq, hm, hrel, hlive⟩ :=
    toFMB_refines hl hd hturns₁
  obtain ⟨hheads, hlist, next, free, prev, o⟩ := linkSides_refines hm
  refine ⟨linkSides e h₁, ?_, ?_, o.same, fun b' hb' hne x hx => ?_⟩
  · rw [coKfree, if_neg (by omega), if_neg (by omega), if_neg (by omega),
      minus_eq (by omega) (by omega), Nat.add_sub_cancel]
    dsimp only
    rw [inList_finds hl hd hturns, Option.bind_some, if_pos rfl, heq, Option.map_some]
  · have hco := hl.coalesced.release b.1 h.startAddr
    have htotal := total_release b.1 h.startAddr (l₁ ++ ⟨b.2, true⟩ :: l₂)
    rw [hrel] at hco htotal ⊢
    refine hl.replace o.same hheads hlist ?_ hco htotal
    have hgap := hm.gap
    have hroom := hm.room
    have := hgap.aligned_front
    have := hgap.aligned_behind
    refine blocks_append.2 ⟨hgap.blocks_front, blocks_cons.2 ⟨?_, hgap.blocks_behind⟩⟩
    simp only
    omega
  · exact o.payload hm.gap (hlive b' hb' hne) hx

/-! ## Runs of calls -/

/-- A program that uses the heap, with the blocks it holds: where each starts, and
the size it asked for. -/
structure Client where
  heap : Heap
  held : List (Nat × Nat)

inductive Call
  | malloc (size : Nat)
  | free (memBuf : Nat)
  | write (addr value : Nat)

/-- Drop the block at a pointer. -/
def dropAt (p : Nat) (held : List (Nat × Nat)) : List (Nat × Nat) :=
  held.filter fun b => b.1 ≠ p

def Client.serve (turns : Nat) (c : Client) : Call → Option Client
  | .malloc size =>
      (coKmalloc turns size c.heap).map fun r =>
        ⟨r.2, if r.1 = 0 then c.held else (r.1, size) :: c.held⟩
  | .free memBuf => (coKfree turns memBuf c.heap).map fun h => ⟨h, dropAt memBuf c.held⟩
  | .write addr value => some ⟨c.heap.store addr value, c.held⟩

def Client.run (turns : Nat) : Client → List Call → Option Client
  | c, [] => some c
  | c, k :: ks => (c.serve turns k).bind fun c' => c'.run turns ks

/-- What is held decides what may be called: a null pointer or a block held may be
freed, and the words of a block held may be written.  A request must not be so
large that its block size wraps around. -/
def Allows (held : List (Nat × Nat)) : Call → Prop
  | .malloc size => size ≤ 4294967284
  | .free memBuf => memBuf = 0 ∨ ∃ n, (memBuf, n) ∈ held
  | .write addr _ => addr % 4 = 0 ∧ ∃ b ∈ held, b.1 ≤ addr ∧ addr < b.1 + b.2

/-! The same calls of an arena, without any words. -/

structure Model where
  extents : List Extent
  held : List (Nat × Nat)

def Model.serve (start : Nat) (m : Model) : Call → Model
  | .malloc size =>
      if size = 0 then m
      else
        match allocate 12 (blockSize size) start m.extents with
        | none => m
        | some (a, extents) => ⟨extents, (a + 8, size) :: m.held⟩
  | .free memBuf =>
      if memBuf = 0 then m
      else ⟨release (memBuf - 8) start m.extents, dropAt memBuf m.held⟩
  | .write _ _ => m

/-- All calls are allowed by what is held when they are made. -/
def Model.AllowsAll (start : Nat) : Model → List Call → Prop
  | _, [] => True
  | m, k :: ks => Allows m.held k ∧ (m.serve start k).AllowsAll start ks

/-- The arena of a new heap. -/
def Model.init : Model := ⟨[⟨kheapSize * 4, false⟩], []⟩

def Client.init (kernelHeap : Nat) (mem : Nat → Nat) : Client :=
  ⟨coCreateKheap kernelHeap mem, []⟩

/-- The heap is the arena, and what is held is in use. -/
structure Refines (start : Nat) (c : Client) (m : Model) : Prop where
  arena : Arena c.heap m.extents
  held : c.held = m.held
  startAddr : c.heap.startAddr = start
  endAddr : c.heap.endAddr = start + kheapSize * 4
  inUse : ((live start m.extents).map fun b => b.1 + 8).Perm (m.held.map Prod.fst)
  large : ∀ b ∈ m.held, ∀ e ∈ live start m.extents, e.1 + 8 = b.1 →
    (b.2 + 3) / 4 * 4 + 8 ≤ e.2

/-- A place for the array `KernelHeap`. -/
def Fits (kernelHeap : Nat) : Prop := Placed kernelHeap (kheapSize * 4)

/-- `CoCreateKheap` makes the whole array one free block. -/
theorem refines_init {kernelHeap : Nat} (hfits : Fits kernelHeap) (mem : Nat → Nat) :
    Refines kernelHeap (Client.init kernelHeap mem) Model.init where
  arena :=
    { heads := by
        refine ⟨⟨?_, ?_, ?_⟩, trivial⟩ <;>
          simp (disch := omega) [Client.init, coCreateKheap, Heap.setNextFMB,
            Heap.setNextUMB, Heap.setPreUMB, store_mem_of_ne, firstFree, linkTo]
      list := rfl
      blocks := fun e he => by
        rw [List.mem_singleton.1 he]
        decide
      coalesced := by simp [Coalesced, Model.init]
      covers := rfl
      placed := hfits }
  held := rfl
  startAddr := rfl
  endAddr := rfl
  inUse := by simp [Model.init, live]
  large := by simp [Model.init]

section Runs

variable {kernelHeap : Nat} {c : Client} {m : Model} {turns : Nat}

/-- The walk along the free blocks has turns to spare: the heap is too small for more
blocks. -/
theorem Refines.length_lt (hr : Refines kernelHeap c m) (hturns : 17 ≤ turns) :
    m.extents.length < turns := by
  have hlength := total_pos_of_free hr.arena.blocks
  have hcovers := hr.arena.covers
  rw [hr.startAddr, hr.endAddr] at hcovers
  simp only [kheapSize] at hcovers
  omega

/-- A block that is held is in use, and there is room in it. -/
theorem Refines.exists_live (hr : Refines kernelHeap c m) {b : Nat × Nat}
    (hb : b ∈ m.held) :
    ∃ e ∈ live kernelHeap m.extents, e.1 + 8 = b.1 ∧ (b.2 + 3) / 4 * 4 + 8 ≤ e.2 := by
  have hmem : b.1 ∈ (live kernelHeap m.extents).map fun e => e.1 + 8 :=
    hr.inUse.mem_iff.2 (List.mem_map_of_mem hb)
  obtain ⟨e, he, heq⟩ := List.mem_map.1 hmem
  exact ⟨e, he, heq, hr.large b hb e he heq⟩

end Runs

/-- No two blocks in use start at the same place. -/
theorem live_fst_nodup (hb : Blocks l) (a : Nat) : ((live a l).map Prod.fst).Nodup := by
  rw [List.nodup_iff_pairwise_ne, List.pairwise_map]
  refine (live_sorted a l).imp_of_mem fun {e f} he _ hle => ?_
  obtain ⟨l₁, l₂, hsplit, -⟩ := exists_of_mem_live he
  have := hb ⟨e.2, true⟩ (by rw [hsplit]; simp)
  simp only at this
  omega

/-- A word of a block in use is written. -/
theorem Arena.store {h : Heap} (hl : Arena h l) {b : Nat × Nat}
    (hb : b ∈ live h.startAddr l) (hx : Payload b x) (v : Nat) : Arena (h.store x v) l := by
  refine hl.replace ⟨rfl, rfl⟩ (hl.heads.congr fun y hy => ?_) hl.list hl.blocks
    hl.coalesced rfl
  refine store_mem_of_ne _ _ _ ?_
  rintro rfl
  exact payload_not_head hl.blocks hb hx hy

section Runs

variable {kernelHeap : Nat} {c : Client} {m : Model} {turns : Nat}

/-- No two blocks that are held start at the same place. -/
theorem Refines.nodup (hr : Refines kernelHeap c m) : (m.held.map Prod.fst).Nodup := by
  refine hr.inUse.nodup_iff.1 ?_
  have h := live_fst_nodup hr.arena.blocks kernelHeap
  have hinj : Function.Injective fun p : Nat => p + 8 := fun p q hpq => by
    simpa using hpq
  simpa [List.map_map, Function.comp_def] using h.map hinj

/-- The word of a block that is held is a word of a block in use. -/
theorem Refines.payload (hr : Refines kernelHeap c m) {b : Nat × Nat} (hb : b ∈ m.held)
    (hmod : x % 4 = 0) (hx : b.1 ≤ x ∧ x < b.1 + b.2) :
    ∃ e ∈ live kernelHeap m.extents, e.1 + 8 = b.1 ∧ Payload e x := by
  obtain ⟨e, he, heq, hroom⟩ := hr.exists_live hb
  obtain ⟨l₁, l₂, hsplit, hat⟩ := exists_of_mem_live he
  have hblocks := hr.arena.blocks
  rw [hsplit] at hblocks
  have hmod₁ := (blocks_append.1 hblocks).1.total_mod
  have haligned := hr.arena.placed.aligned
  rw [hr.startAddr] at haligned
  refine ⟨e, he, heq, ?_⟩
  unfold Payload
  omega

/-- A request is served as the arena serves it. -/
theorem Refines.malloc (hr : Refines kernelHeap c m) (hturns : 17 ≤ turns) {size : Nat}
    (hsize : size ≤ 4294967284) :
    ∃ c', c.serve turns (.malloc size) = some c' ∧
      Refines kernelHeap c' (m.serve kernelHeap (.malloc size)) ∧
      ∀ e ∈ live kernelHeap m.extents, ∀ x, Payload e x →
        c'.heap.mem x = c.heap.mem x := by
  by_cases hzero : size = 0
  · subst hzero
    refine ⟨c, ?_, ?_, fun _ _ _ _ => rfl⟩
    · simp [Client.serve, coKmalloc]
    · rwa [Model.serve, if_pos rfl]
  obtain ⟨p, h', heq, hcase⟩ := coKmalloc_refines hr.arena (hr.length_lt hturns)
    (Nat.pos_of_ne_zero hzero) hsize
  rw [hr.startAddr] at hcase
  rw [Client.serve, heq, Option.map_some, Model.serve, if_neg hzero]
  cases halloc : allocate 12 (blockSize size) kernelHeap m.extents with
  | none =>
      rw [halloc] at hcase
      obtain ⟨rfl, rfl⟩ := hcase
      exact ⟨_, rfl, hr, fun _ _ _ _ => rfl⟩
  | some r =>
      obtain ⟨a, extents⟩ := r
      rw [halloc] at hcase
      obtain ⟨rfl, harena, hsame, hkept⟩ := hcase
      obtain ⟨k, hk, hperm⟩ := live_allocate halloc
      have hnodup := live_fst_nodup harena.blocks kernelHeap
      rw [(hperm.map Prod.fst).nodup_iff, List.map_cons, List.nodup_cons] at hnodup
      have hfresh : ∀ e ∈ live kernelHeap m.extents, e.1 ≠ a := fun e he hea =>
        hnodup.1 (List.mem_map.2 ⟨e, he, hea⟩)
      refine ⟨_, rfl, ⟨harena, ?_, ?_, ?_, ?_, ?_⟩, hkept⟩
      · rw [if_neg (by omega), hr.held]
      · exact hsame.startAddr.trans hr.startAddr
      · exact hsame.endAddr.trans hr.endAddr
      · exact (hperm.map _).trans (hr.inUse.cons _)
      · intro b hb e he heb
        rcases List.mem_cons.1 hb with rfl | hb
        · rcases List.mem_cons.1 (hperm.mem_iff.1 he) with rfl | he
          · rwa [blockSize_eq hsize] at hk
          · exact absurd (by simpa using heb) (hfresh e he)
        · rcases List.mem_cons.1 (hperm.mem_iff.1 he) with rfl | he
          · obtain ⟨f, hf, hfb, -⟩ := hr.exists_live hb
            exact absurd (by omega) (hfresh f hf)
          · exact hr.large b hb e he heb

/-- A block is freed as the arena frees it. -/
theorem Refines.freed (hr : Refines kernelHeap c m) (hturns : 17 ≤ turns) {p : Nat}
    (hp : p = 0 ∨ ∃ n, (p, n) ∈ m.held) :
    ∃ c', c.serve turns (.free p) = some c' ∧
      Refines kernelHeap c' (m.serve kernelHeap (.free p)) ∧
      ∀ e ∈ live kernelHeap m.extents, e.1 + 8 ≠ p → ∀ x, Payload e x →
        c'.heap.mem x = c.heap.mem x := by
  have hpos : ∀ b ∈ m.held, b.1 ≠ 0 := by
    intro b hb
    obtain ⟨e, -, heb, -⟩ := hr.exists_live hb
    omega
  rcases hp with rfl | ⟨n, hn⟩
  · refine ⟨⟨c.heap, dropAt 0 c.held⟩, ?_, ?_, fun _ _ _ _ _ => rfl⟩
    · rw [Client.serve, coKfree, if_pos rfl]
      rfl
    rw [Model.serve, if_pos rfl]
    have hkeep : dropAt 0 c.held = c.held := by
      rw [hr.held]
      exact List.filter_eq_self.2 fun b hb => by simpa using hpos b hb
    exact ⟨hr.arena, hkeep.trans hr.held, hr.startAddr, hr.endAddr, hr.inUse, hr.large⟩
  · obtain ⟨e, he, rfl, -⟩ := hr.exists_live hn
    have he' := he
    rw [← hr.startAddr] at he'
    obtain ⟨h', heq, harena, hsame, hkept⟩ :=
      coKfree_refines hr.arena he' (hr.length_lt hturns)
    rw [hr.startAddr] at harena hkept
    have hlive := live_release hr.arena.blocks.pos e.1 kernelHeap
    rw [Client.serve, heq, Model.serve, if_neg (by omega), Nat.add_sub_cancel]
    refine ⟨_, rfl, ⟨harena, ?_, ?_, ?_, ?_, ?_⟩, fun f hf hne x hx => ?_⟩
    · show dropAt _ c.held = dropAt _ m.held
      rw [hr.held]
    · exact hsame.startAddr.trans hr.startAddr
    · exact hsame.endAddr.trans hr.endAddr
    · have hperm := hr.inUse.filter fun q => decide (q ≠ e.1 + 8)
      rw [List.filter_map, List.filter_map] at hperm
      rw [hlive]
      refine (List.Perm.of_eq ?_).trans hperm
      congr 1
      refine List.filter_congr fun f _ => ?_
      simp
    · intro b hb f hf
      rw [hlive] at hf
      exact hr.large b (List.mem_of_mem_filter hb) f (List.mem_of_mem_filter hf)
    · exact hkept f hf (by omega) x hx

/-- An allowed call is served, and leaves the other blocks alone. -/
theorem Refines.serve (hr : Refines kernelHeap c m) (hturns : 17 ≤ turns) {k : Call}
    (hk : Allows m.held k) :
    ∃ c', c.serve turns k = some c' ∧ Refines kernelHeap c' (m.serve kernelHeap k) ∧
      ∀ b ∈ m.held, k ≠ .free b.1 → ∀ x, x % 4 = 0 → b.1 ≤ x ∧ x < b.1 + b.2 →
        (∀ v, k ≠ .write x v) → c'.heap.mem x = c.heap.mem x := by
  cases k with
  | malloc size =>
      obtain ⟨c', heq, hr', hkept⟩ := hr.malloc hturns hk
      refine ⟨c', heq, hr', fun b hb _ x hmod hx _ => ?_⟩
      obtain ⟨e, he, -, hpay⟩ := hr.payload hb hmod hx
      exact hkept e he x hpay
  | free p =>
      obtain ⟨c', heq, hr', hkept⟩ := hr.freed hturns hk
      refine ⟨c', heq, hr', fun b hb hne x hmod hx _ => ?_⟩
      obtain ⟨e, he, heb, hpay⟩ := hr.payload hb hmod hx
      exact hkept e he (fun h => hne (by rw [← heb, h])) x hpay
  | write y v =>
      obtain ⟨hmod, b, hb, hy⟩ := hk
      obtain ⟨e, he, -, hpay⟩ := hr.payload hb hmod hy
      rw [← hr.startAddr] at he
      refine ⟨_, rfl, ⟨hr.arena.store he hpay v, hr.held, hr.startAddr, hr.endAddr,
        hr.inUse, hr.large⟩, fun b' _ _ x _ _ hne => ?_⟩
      refine store_mem_of_ne _ _ _ ?_
      rintro rfl
      exact hne v rfl

/-- A run of allowed calls returns, and the heap behind it is again the arena that the
calls make. -/
theorem Refines.run (hr : Refines kernelHeap c m) (hturns : 17 ≤ turns)
    {calls : List Call} (hall : m.AllowsAll kernelHeap calls) :
    ∃ c', c.run turns calls = some c' ∧
      Refines kernelHeap c' (calls.foldl (Model.serve kernelHeap) m) := by
  induction calls generalizing c m with
  | nil => exact ⟨c, rfl, hr⟩
  | cons k ks ih =>
      obtain ⟨c₁, heq, hr₁, -⟩ := hr.serve hturns hall.1
      obtain ⟨c', heq', hr'⟩ := ih hr₁ hall.2
      exact ⟨c', by rw [Client.run, heq, Option.bind_some, heq'], hr'⟩

end Runs

/-- Every run of allowed calls returns, and is a run of a first-fit arena: the same
pointers are handed out and refused, and the words in memory say how the arena is
cut up. -/
theorem run_refines {kernelHeap : Nat} (hfits : Fits kernelHeap) (mem : Nat → Nat)
    {turns : Nat} (hturns : 17 ≤ turns) {calls : List Call}
    (hall : Model.init.AllowsAll kernelHeap calls) :
    ∃ c, (Client.init kernelHeap mem).run turns calls = some c ∧
      c.held = (calls.foldl (Model.serve kernelHeap) Model.init).held ∧
      Arena c.heap (calls.foldl (Model.serve kernelHeap) Model.init).extents := by
  obtain ⟨c, heq, hr⟩ := (refines_init hfits mem).run hturns hall
  exact ⟨c, heq, hr.held, hr.arena⟩

/-! A run in which a block is freed between two others. -/

def sampleHeap : Nat := 268435456

def firstCalls : List Call := [.malloc 10, .malloc 20, .write (sampleHeap + 28) 7]

def laterCalls : List Call := [.malloc 30, .free (sampleHeap + 8)]

theorem sample_fits : Fits sampleHeap := ⟨by decide, by decide, by decide⟩

/-- The calls of the sample are those that the interface allows. -/
theorem sample_allowed : Model.init.AllowsAll sampleHeap (firstCalls ++ laterCalls) :=
  ⟨(by decide : 10 ≤ 4294967284), (by decide : 20 ≤ 4294967284),
    ⟨by decide, _, .head _, by decide⟩, (by decide : 30 ≤ 4294967284),
    .inr ⟨10, by decide⟩, trivial⟩

/-- The block that was freed is first in the array, and the two that are held follow it.
-/
theorem run_refines_sample :
    ∃ c, (Client.init sampleHeap fun _ => 0).run 17 (firstCalls ++ laterCalls) = some c ∧
      c.held = [(sampleHeap + 56, 30), (sampleHeap + 28, 20)] ∧
      Arena c.heap [⟨20, false⟩, ⟨28, true⟩, ⟨40, true⟩, ⟨112, false⟩] :=
  run_refines sample_fits _ le_rfl sample_allowed

/-- Two blocks in use do not overlap. -/
theorem live_disjoint {e f : Nat × Nat} (he : e ∈ live a l) (hf : f ∈ live a l)
    (hne : e.1 ≠ f.1) : e.1 + e.2 ≤ f.1 ∨ f.1 + f.2 ≤ e.1 := by
  have hpair : (live a l).Pairwise fun e f =>
      e.1 ≠ f.1 → e.1 + e.2 ≤ f.1 ∨ f.1 + f.2 ≤ e.1 :=
    (live_sorted a l).imp fun h _ => .inl h
  have hsymm : Std.Symm fun e f : Nat × Nat =>
      e.1 ≠ f.1 → e.1 + e.2 ≤ f.1 ∨ f.1 + f.2 ≤ e.1 :=
    ⟨fun e f h hne => (h hne.symm).symm⟩
  exact hpair.forall_of_forall (fun e _ h => absurd rfl h) he hf hne

/-- In every run the blocks handed out lie in the array, at whole words, and apart
from each other. -/
theorem held_apart {kernelHeap : Nat} (hfits : Fits kernelHeap) (mem : Nat → Nat)
    {turns : Nat} (hturns : 17 ≤ turns) {calls : List Call}
    (hall : Model.init.AllowsAll kernelHeap calls) {c : Client}
    (hrun : (Client.init kernelHeap mem).run turns calls = some c) :
    c.held.Pairwise (fun b b' => b.1 + b.2 ≤ b'.1 ∨ b'.1 + b'.2 ≤ b.1) ∧
      ∀ b ∈ c.held, b.1 % 4 = 0 ∧ kernelHeap + 8 ≤ b.1 ∧
        b.1 + b.2 ≤ kernelHeap + kheapSize * 4 := by
  obtain ⟨c', heq, hr⟩ := (refines_init hfits mem).run hturns hall
  obtain rfl : c' = c := Option.some.inj (heq.symm.trans hrun)
  have hnodup := hr.nodup
  rw [List.nodup_iff_pairwise_ne, List.pairwise_map] at hnodup
  rw [hr.held]
  refine ⟨hnodup.imp_of_mem fun {b b'} hb hb' hne => ?_, fun b hb => ?_⟩
  · obtain ⟨e, he, heb, hroom⟩ := hr.exists_live hb
    obtain ⟨f, hf, hfb, hroom'⟩ := hr.exists_live hb'
    have := live_disjoint he hf (by omega)
    omega
  · obtain ⟨e, he, heb, hroom⟩ := hr.exists_live hb
    have hat := live_bounds he
    have hcovers := hr.arena.covers
    obtain ⟨l₁, l₂, hsplit, he₁⟩ := exists_of_mem_live he
    have hmod := (blocks_append.1 (hsplit ▸ hr.arena.blocks)).1.total_mod
    have haligned := hr.arena.placed.aligned
    rw [hr.startAddr] at haligned hcovers
    rw [hr.endAddr] at hcovers
    omega

/-- The blocks of the sample do not overlap. -/
theorem held_apart_sample :
    ∃ c, (Client.init sampleHeap fun _ => 0).run 17 (firstCalls ++ laterCalls) = some c ∧
      c.held.Pairwise fun b b' => b.1 + b.2 ≤ b'.1 ∨ b'.1 + b'.2 ≤ b.1 := by
  obtain ⟨c, hrun, -⟩ := (refines_init sample_fits fun _ => 0).run le_rfl sample_allowed
  exact ⟨c, hrun, (held_apart sample_fits _ le_rfl sample_allowed hrun).1⟩

/-- Calls are allowed one after the other if the later ones are allowed where the
earlier ones lead. -/
theorem allowsAll_append {start : Nat} {m : Model} {calls calls' : List Call} :
    m.AllowsAll start (calls ++ calls') ↔
      m.AllowsAll start calls ∧
        (calls.foldl (Model.serve start) m).AllowsAll start calls' := by
  induction calls generalizing m with
  | nil => simp [Model.AllowsAll]
  | cons k ks ih => simp [Model.AllowsAll, ih, and_assoc]

/-- The calls that do not free a block leave it held, and its words as they are
unless they are written. -/
theorem Refines.kept {kernelHeap : Nat} {c c' : Client} {m : Model} {turns : Nat}
    (hr : Refines kernelHeap c m) (hturns : 17 ≤ turns) {calls : List Call}
    (hall : m.AllowsAll kernelHeap calls) (hrun : c.run turns calls = some c')
    {b : Nat × Nat} (hb : b ∈ m.held) (hfree : Call.free b.1 ∉ calls) :
    b ∈ c'.held ∧ ∀ x, x % 4 = 0 → b.1 ≤ x ∧ x < b.1 + b.2 →
      (∀ v, Call.write x v ∉ calls) → c'.heap.mem x = c.heap.mem x := by
  induction calls generalizing c m with
  | nil =>
      obtain rfl : c = c' := Option.some.inj hrun
      exact ⟨by rwa [hr.held], fun _ _ _ _ => rfl⟩
  | cons k ks ih =>
      obtain ⟨c₁, heq, hr₁, hkept⟩ := hr.serve hturns hall.1
      rw [Client.run, heq, Option.bind_some] at hrun
      have hk : k ≠ .free b.1 := fun h => hfree (by simp [h])
      have hb₁ : b ∈ (m.serve kernelHeap k).held := by
        cases k with
        | malloc size =>
            rw [Model.serve]
            split
            · exact hb
            · split
              · exact hb
              · exact List.mem_cons_of_mem _ hb
        | free p =>
            rw [Model.serve]
            split
            · exact hb
            · exact List.mem_filter.2 ⟨hb, by simpa using fun h => hk (by rw [h])⟩
        | write y v => exact hb
      obtain ⟨hheld, hmem⟩ := ih hr₁ hall.2 hrun hb₁ fun h => hfree (.tail _ h)
      refine ⟨hheld, fun x hmod hx hwrite => ?_⟩
      rw [hmem x hmod hx fun v h => hwrite v (.tail _ h)]
      exact hkept b hb hk x hmod hx fun v h => hwrite v (by simp [h])

/-- In every run a block stays held until it is freed, and its words hold what its
owner wrote last. -/
theorem held_kept {kernelHeap : Nat} (hfits : Fits kernelHeap) (mem : Nat → Nat)
    {turns : Nat} (hturns : 17 ≤ turns) {calls calls' : List Call}
    (hall : Model.init.AllowsAll kernelHeap (calls ++ calls')) {c c' : Client}
    (hrun : (Client.init kernelHeap mem).run turns calls = some c)
    (hrun' : c.run turns calls' = some c') {b : Nat × Nat} (hb : b ∈ c.held)
    (hfree : Call.free b.1 ∉ calls') :
    b ∈ c'.held ∧ ∀ x, x % 4 = 0 → b.1 ≤ x ∧ x < b.1 + b.2 →
      (∀ v, Call.write x v ∉ calls') → c'.heap.mem x = c.heap.mem x := by
  obtain ⟨hall₁, hall₂⟩ := allowsAll_append.1 hall
  obtain ⟨c₁, heq, hr⟩ := (refines_init hfits mem).run hturns hall₁
  obtain rfl : c₁ = c := Option.some.inj (heq.symm.trans hrun)
  rw [hr.held] at hb
  exact hr.kept hturns hall₂ hrun' hb hfree

/-- The word written to the second block survives the calls for the others. -/
theorem held_kept_sample :
    ∃ c c', (Client.init sampleHeap fun _ => 0).run 17 firstCalls = some c ∧
      c.run 17 laterCalls = some c' ∧
      c'.heap.mem (sampleHeap + 28) = c.heap.mem (sampleHeap + 28) := by
  obtain ⟨hall, hall'⟩ := allowsAll_append.1 sample_allowed
  obtain ⟨c, hrun, hr⟩ := (refines_init sample_fits fun _ => 0).run le_rfl hall
  obtain ⟨c', hrun', -⟩ := hr.run le_rfl hall'
  have hheld : (sampleHeap + 28, 20) ∈ c.held := by
    rw [hr.held]
    decide
  have hkept := held_kept sample_fits _ le_rfl sample_allowed hrun hrun' hheld
    (by simp [laterCalls, sampleHeap])
  exact ⟨c, c', hrun, hrun', hkept.2 _ (by decide) (by decide) (by simp [laterCalls])⟩

/-- When all that was handed out is freed, the heap is one free block again, and a
request for all of it succeeds. -/
theorem heap_whole {kernelHeap : Nat} (hfits : Fits kernelHeap) (mem : Nat → Nat)
    {turns : Nat} (hturns : 17 ≤ turns) {calls : List Call}
    (hall : Model.init.AllowsAll kernelHeap calls) {c : Client}
    (hrun : (Client.init kernelHeap mem).run turns calls = some c) (hnone : c.held = []) :
    Arena c.heap [⟨kheapSize * 4, false⟩] ∧
      ∀ size, 0 < size → size + 8 ≤ kheapSize * 4 →
        ∃ c', c.serve turns (.malloc size) = some c' ∧
          c'.held = [(kernelHeap + 8, size)] := by
  obtain ⟨c', heq, hr⟩ := (refines_init hfits mem).run hturns hall
  obtain rfl : c' = c := Option.some.inj (heq.symm.trans hrun)
  generalize calls.foldl (Model.serve kernelHeap) Model.init = m at hr
  have hheld : m.held = [] := hr.held.symm.trans hnone
  have hlive : live kernelHeap m.extents = [] := by
    have hperm := hr.inUse
    rw [hheld, List.map_nil, List.perm_nil, List.map_eq_nil_iff] at hperm
    exact hperm
  have hcovers := hr.arena.covers
  rw [hr.startAddr, hr.endAddr] at hcovers
  have hsize : total m.extents = kheapSize * 4 := by omega
  have hone : m.extents = [⟨kheapSize * 4, false⟩] := by
    rcases hr.arena.coalesced.eq_single hlive with hnil | hone
    · rw [hnil] at hsize
      exact absurd hsize (by decide)
    · rwa [hsize] at hone
  refine ⟨hone ▸ hr.arena, fun size hpos hroom => ?_⟩
  have hbound : size ≤ 4294967284 := by
    simp only [kheapSize] at hroom
    omega
  obtain ⟨c', heq', hr', -⟩ := hr.malloc hturns hbound
  refine ⟨c', heq', ?_⟩
  have hfit : blockSize size ≤ kheapSize * 4 := by
    rw [blockSize_eq hbound]
    simp only [kheapSize] at hroom ⊢
    omega
  rw [hr'.held, Model.serve, if_neg (by omega), hone, allocate_fits hfit, hheld]

/-- Three blocks, of which the one in the middle is freed last. -/
def emptyingCalls : List Call :=
  [.malloc 10, .malloc 20, .malloc 30, .free (sampleHeap + 8), .free (sampleHeap + 56),
    .free (sampleHeap + 28)]

/-- The array is one free block again, and is handed out as a whole. -/
theorem heap_whole_sample :
    ∃ c c', (Client.init sampleHeap fun _ => 0).run 17 emptyingCalls = some c ∧
      Arena c.heap [⟨kheapSize * 4, false⟩] ∧
      c.serve 17 (.malloc 192) = some c' ∧ c'.held = [(sampleHeap + 8, 192)] := by
  have hall : Model.init.AllowsAll sampleHeap emptyingCalls :=
    ⟨(by decide : 10 ≤ 4294967284), (by decide : 20 ≤ 4294967284),
      (by decide : 30 ≤ 4294967284), .inr ⟨10, by decide⟩, .inr ⟨30, by decide⟩,
      .inr ⟨20, by decide⟩, trivial⟩
  obtain ⟨c, hrun, hr⟩ := (refines_init sample_fits fun _ => 0).run le_rfl hall
  have hnone : c.held = [] := by
    rw [hr.held]
    decide
  obtain ⟨hone, hany⟩ := heap_whole sample_fits _ le_rfl hall hrun hnone
  obtain ⟨c', hserve, hheld⟩ := hany 192 (by decide) (by decide)
  exact ⟨c, c', hrun, hone, hserve, hheld⟩

end R2C2Firmware.Ports.KernelHeap
