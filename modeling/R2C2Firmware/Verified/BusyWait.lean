import Mathlib.Logic.Relation
import Mathlib.Order.Defs.Unbundled
import Mathlib.Tactic

/-!
# Sequential code that busy-waits

Firmware runs one thread of sequential code and a few interrupt handlers.  The
code waits by spinning on a condition that only an interrupt can make true.

A program runs on a `World`: the state, and the interrupts that will arrive.
`spinUntil` serves interrupts until its condition holds.  When the interrupts
run out first the program has not returned; its result is `none`, and the state
is the one in which it is still waiting.

Properties of programs are stated through what they may do to the state:
`Moves r x` says that `x` takes every state to an `r`-related one, returned or
not.  For a preorder `r` this is closed under sequencing and waiting.  A
program whose primitive operations are `r`-steps moves along
`Relation.ReflTransGen r`; `Moves.of_steps` takes that to any preorder the steps
respect.

## Main results

* `Moves.bind`, `Moves.spinUntil`, `Moves.doWhile` — the rules.
* `Moves.of_steps` — from single steps to whole programs.
* `spinUntil_of` — a wait for a condition that holds is no wait.
* `Returns.bind` — what can be said of a result.
* `Prompt.bind`, `spinUntil_stuck` — programs that do not wait, and waits that do
  not end.
* `Blind.bind`, `Blind.spinUntil` — what a program does not look at.
-/

namespace R2C2Firmware.Verified.BusyWait

/-- The state and the interrupts to come. -/
structure World (σ ι : Type) where
  state : σ
  irqs : List ι

/-- A program; the result is `none` while it is still waiting. -/
def Prog (σ ι α : Type) : Type := World σ ι → Option α × World σ ι

variable {σ ι α β : Type}

instance : Monad (Prog σ ι) where
  pure a := fun w => (some a, w)
  bind x f := fun w =>
    match x w with
    | (some a, w') => f a w'
    | (none, w') => (none, w')

/-- The current state. -/
def get : Prog σ ι σ := fun w => (some w.state, w)

/-- Change the state. -/
def modify (f : σ → σ) : Prog σ ι Unit :=
  fun w => (some (), { w with state := f w.state })

/-- `if (b) x;` -/
def when (b : Bool) (x : Prog σ ι Unit) : Prog σ ι Unit :=
  if b then x else pure ()

/-- Serve interrupts until the condition holds or none is left. -/
def spin (serve : ι → σ → σ) (cond : σ → Bool) :
    List ι → σ → Option Unit × World σ ι
  | [], s => (if cond s then some () else none, ⟨s, []⟩)
  | i :: is, s =>
      if cond s then (some (), ⟨s, i :: is⟩) else spin serve cond is (serve i s)

/-- `while (!cond) {}` -/
def spinUntil (serve : ι → σ → σ) (cond : σ → Bool) : Prog σ ι Unit :=
  fun w => spin serve cond w.irqs w.state

/-- Serve interrupts until one brings a result. -/
def awaitIn (serve : ι → σ → σ) (pick : ι → Option α) :
    List ι → σ → Option α × World σ ι
  | [], s => (none, ⟨s, []⟩)
  | i :: is, s =>
      match pick i with
      | some a => (some a, ⟨s, is⟩)
      | none => awaitIn serve pick is (serve i s)

/-- Wait for a result that an interrupt brings. -/
def await (serve : ι → σ → σ) (pick : ι → Option α) : Prog σ ι α :=
  fun w => awaitIn serve pick w.irqs w.state

/-- A `do` loop of so many turns; then it is still going on. -/
def doWhileFor (x : Prog σ ι α) (again : α → σ → Bool) : Nat → Prog σ ι α
  | 0 => fun w => (none, w)
  | n + 1 => do
      let a ← x
      let s ← get
      if again a s then doWhileFor x again n else pure a

/-- `do x while (again)`, where every turn but the last takes an interrupt: so
there are no more turns than interrupts, and one. -/
def doWhile (x : Prog σ ι α) (again : α → σ → Bool) : Prog σ ι α :=
  fun w => doWhileFor x again (w.irqs.length + 1) w

/-- Run a program a number of times, and collect the results. -/
def times : Nat → Prog σ ι α → Prog σ ι (List α)
  | 0, _ => pure []
  | n + 1, x => do
      let a ← x
      let as ← times n x
      return a :: as

/-! ## Running -/

@[simp] theorem pure_apply (a : α) (w : World σ ι) :
    (pure a : Prog σ ι α) w = (some a, w) :=
  rfl

theorem bind_apply (x : Prog σ ι α) (f : α → Prog σ ι β) (w : World σ ι) :
    (x >>= f) w =
      match x w with
      | (some a, w') => f a w'
      | (none, w') => (none, w') :=
  rfl

@[simp] theorem modify_apply (f : σ → σ) (w : World σ ι) :
    (modify f : Prog σ ι Unit) w =
      (some (), { w with state := f w.state }) :=
  rfl

@[simp] theorem get_bind_apply (f : σ → Prog σ ι β) (w : World σ ι) :
    ((get : Prog σ ι σ) >>= f) w = f w.state w :=
  rfl

@[simp] theorem modify_bind_apply (g : σ → σ) (f : Unit → Prog σ ι β)
    (w : World σ ι) :
    ((modify g : Prog σ ι Unit) >>= f) w =
      f () { w with state := g w.state } :=
  rfl

/-- A sequence returns when both its parts do. -/
theorem bind_eq_some {x : Prog σ ι α} {f : α → Prog σ ι β} {w w' : World σ ι}
    {b : β} :
    (x >>= f) w = (some b, w') ↔
      ∃ a w₁, x w = (some a, w₁) ∧ f a w₁ = (some b, w') := by
  rw [bind_apply]
  rcases x w with ⟨_ | a, w₁⟩
  · simp
  · simp only [Prod.mk.injEq, Option.some.injEq]
    constructor
    · intro h
      exact ⟨a, w₁, ⟨rfl, rfl⟩, h⟩
    · rintro ⟨_, _, ⟨rfl, rfl⟩, h⟩
      exact h

/-- Computing a result from another changes no state. -/
@[simp] theorem bind_pure_snd (x : Prog σ ι α) (f : α → β) (w : World σ ι) :
    ((x >>= fun a => pure (f a)) w).2 = (x w).2 := by
  rw [bind_apply]
  rcases x w with ⟨_ | a, w'⟩ <;> rfl

/-- A wait for a condition that holds is no wait. -/
theorem spinUntil_of {serve : ι → σ → σ} {cond : σ → Bool} {w : World σ ι}
    (h : cond w.state = true) : spinUntil serve cond w = (some (), w) := by
  obtain ⟨s, irqs⟩ := w
  unfold spinUntil
  cases irqs with
  | nil =>
      show (if cond s then some () else none, _) = _
      rw [if_pos h]
  | cons i is =>
      show (if cond s then _ else _) = _
      rw [if_pos h]

/-- A wait that returns has reached its condition. -/
theorem spinUntil_cond {serve : ι → σ → σ} {cond : σ → Bool} {w : World σ ι}
    (h : (spinUntil serve cond w).1 = some ()) :
    cond (spinUntil serve cond w).2.state = true := by
  obtain ⟨s, irqs⟩ := w
  unfold spinUntil at h ⊢
  dsimp only at h ⊢
  induction irqs generalizing s with
  | nil =>
      rw [spin] at h ⊢
      by_cases hc : cond s = true
      · exact hc
      · rw [if_neg hc] at h
        exact absurd h (by simp)
  | cons i is ih =>
      rw [spin] at h ⊢
      by_cases hc : cond s = true
      · rw [if_pos hc]
        exact hc
      · rw [if_neg hc] at h ⊢
        exact ih _ h

/-! ## What a program may do to the state -/

/-- The program takes every state to a related one. -/
def Moves (r : σ → σ → Prop) (x : Prog σ ι α) : Prop :=
  ∀ w, r w.state (x w).2.state

/-- A moving program takes the state it starts in to a related one, whatever its result.
-/
theorem Moves.of_eq {r : σ → σ → Prop} {x : Prog σ ι α} (h : Moves r x)
    {w w' : World σ ι} {o : Option α} (hx : x w = (o, w')) :
    r w.state w'.state := by
  have hw := h w
  rwa [hx] at hw

section Rules

variable {r : σ → σ → Prop} [IsPreorder σ r]

theorem Moves.pure (a : α) : Moves r (pure a : Prog σ ι α) :=
  fun w => refl_of r w.state

theorem Moves.get : Moves r (get : Prog σ ι σ) :=
  fun w => refl_of r w.state

/-- What follows a program that may rely on the state it starts in. -/
theorem moves_bind_at {x : Prog σ ι α} {f : α → Prog σ ι β} {w : World σ ι}
    (hx : r w.state (x w).2.state) (hf : ∀ a, Moves r (f a)) :
    r w.state ((x >>= f) w).2.state := by
  rw [bind_apply]
  rcases hxw : x w with ⟨_ | a, w'⟩
  · rw [hxw] at hx
    exact hx
  · rw [hxw] at hx
    exact trans_of r hx (hf a w')

/-- Programs that move along a preorder may be put one behind the other. -/
theorem Moves.bind {x : Prog σ ι α} {f : α → Prog σ ι β} (hx : Moves r x)
    (hf : ∀ a, Moves r (f a)) : Moves r (x >>= f) :=
  fun w => moves_bind_at (hx w) hf

theorem Moves.return {x : Prog σ ι Unit} (hx : Moves r x) (a : α) :
    Moves r (x >>= fun _ => Pure.pure a) :=
  hx.bind fun _ => Moves.pure a

/-- A wait moves along `r` when every interrupt served during it does, whether or not
the wait ends. -/
theorem Moves.spinUntil {serve : ι → σ → σ} (hserve : ∀ i s, r s (serve i s))
    (cond : σ → Bool) : Moves r (spinUntil serve cond) := by
  rintro ⟨s, irqs⟩
  show r s (spin serve cond irqs s).2.state
  induction irqs generalizing s with
  | nil => exact refl_of r s
  | cons i is ih =>
      rw [spin]
      split
      · exact refl_of r s
      · exact trans_of r (hserve i s) (ih _)

/-- What follows a wait may rely on its condition. -/
theorem Moves.spinUntil_modify {serve : ι → σ → σ} {cond : σ → Bool}
    {f : σ → σ} (hserve : ∀ i s, r s (serve i s))
    (hf : ∀ s, cond s = true → r s (f s)) :
    Moves r (BusyWait.spinUntil serve cond >>= fun _ =>
      BusyWait.modify f) := by
  intro w
  have h := Moves.spinUntil hserve cond w
  have hcond := @spinUntil_cond σ ι serve cond w
  rw [bind_apply]
  rcases hspin : BusyWait.spinUntil serve cond w with ⟨_ | ⟨⟨⟩⟩, w'⟩
  · rw [hspin] at h
    exact h
  · rw [hspin] at h hcond
    exact trans_of r h (hf _ (hcond rfl))

/-- Waiting for a result moves along `r` when every interrupt that brings none does. -/
theorem Moves.await {serve : ι → σ → σ} (hserve : ∀ i s, r s (serve i s))
    (pick : ι → Option α) : Moves r (await serve pick) := by
  rintro ⟨s, irqs⟩
  show r s (awaitIn serve pick irqs s).2.state
  induction irqs generalizing s with
  | nil => exact refl_of r s
  | cons i is ih =>
      rw [awaitIn]
      split
      · exact refl_of r s
      · exact trans_of r (hserve i s) (ih _)

/-- A loop moves along `r` when one turn does; the number of turns does not matter. -/
theorem Moves.doWhile {x : Prog σ ι α} (hx : Moves r x) (again : α → σ → Bool) :
    Moves r (doWhile x again) := by
  have hfor : ∀ n, Moves r (doWhileFor x again n) := by
    intro n
    induction n with
    | zero => exact fun w => refl_of r w.state
    | succ n ih =>
        refine hx.bind fun a => Moves.get.bind fun s => ?_
        split
        · exact ih
        · exact Moves.pure a
  exact fun w => hfor _ w

theorem Moves.times {x : Prog σ ι α} (hx : Moves r x) (n : Nat) :
    Moves r (times n x) := by
  induction n with
  | zero => exact Moves.pure []
  | succ n ih =>
      exact hx.bind fun a => ih.bind fun as => Moves.pure (a :: as)

theorem Moves.when {b : Bool} {x : Prog σ ι Unit} (hx : b = true → Moves r x) :
    Moves r (when b x) := by
  cases b with
  | true => exact hx rfl
  | false => exact Moves.pure ()

end Rules

theorem Moves.modify {r : σ → σ → Prop} {f : σ → σ} (h : ∀ s, r s (f s)) :
    Moves r (modify f : Prog σ ι Unit) :=
  fun w => h w.state

/-- What follows `get` may rely on the state it has read. -/
theorem Moves.get_bind {r : σ → σ → Prop} {f : σ → Prog σ ι β}
    (h : ∀ w : World σ ι, r w.state (f w.state w).2.state) :
    Moves r (BusyWait.get >>= f) :=
  h

/-- A program that moves along a relation moves along every larger one. -/
theorem Moves.mono {r q : σ → σ → Prop} {x : Prog σ ι α} (h : Moves r x)
    (hrq : ∀ s s', r s s' → q s s') : Moves q x :=
  fun w => hrq _ _ (h w)

/-- The rule for a branch on a fact that is known before the program runs. -/
theorem Moves.ite {r : σ → σ → Prop} {c : Prop} [Decidable c]
    {x y : Prog σ ι α} (hx : c → Moves r x) (hy : ¬c → Moves r y) :
    Moves r (if c then x else y) := by
  split
  · next h => exact hx h
  · next h => exact hy h

/-! ## What a program keeps -/

/-- The second state has the property if the first has it. -/
def Keeps (I : σ → Prop) (s s' : σ) : Prop := I s → I s'

instance keeps_isPreorder (I : σ → Prop) : IsPreorder σ (Keeps I) where
  refl _ := id
  trans _ _ _ h h' := h' ∘ h

/-! ## Single steps -/

instance reflTransGen_isPreorder (r : σ → σ → Prop) :
    IsPreorder σ (Relation.ReflTransGen r) where
  refl _ := .refl
  trans _ _ _ h h' := h.trans h'

/-- A preorder that contains every step contains every chain of steps. -/
theorem of_reflTransGen {r q : σ → σ → Prop} [IsPreorder σ q]
    (hrq : ∀ s s', r s s' → q s s') {s s' : σ}
    (h : Relation.ReflTransGen r s s') : q s s' := by
  induction h with
  | refl => exact refl_of q s
  | tail _ hstep ih => exact trans_of q ih (hrq _ _ hstep)

/-- What every step keeps, every chain of steps keeps. -/
theorem keep_of_reflTransGen {r : σ → σ → Prop} (I : σ → Prop) {s s' : σ}
    (h : Relation.ReflTransGen r s s') (hr : ∀ s s', r s s' → I s → I s')
    (hs : I s) : I s' := by
  induction h with
  | refl => exact hs
  | tail _ hstep ih => exact hr _ _ hstep ih

/-- A program built of single steps moves along every preorder that holds of each step.
-/
theorem Moves.of_steps {r q : σ → σ → Prop} [IsPreorder σ q]
    {x : Prog σ ι α} (h : Moves (Relation.ReflTransGen r) x)
    (hrq : ∀ s s', r s s' → q s s') : Moves q x :=
  h.mono fun _ _ => of_reflTransGen hrq

/-! ## Results -/

/-- Every result the program returns satisfies `Q`. -/
def Returns (Q : α → Prop) (x : Prog σ ι α) : Prop :=
  ∀ w a, (x w).1 = some a → Q a

theorem Returns.pure {Q : α → Prop} {a : α} (h : Q a) :
    Returns Q (Pure.pure a : Prog σ ι α) := by
  intro w b hb
  rw [← Option.some.inj hb]
  exact h

/-- The last part decides. -/
theorem Returns.bind {Q : β → Prop} {x : Prog σ ι α} {f : α → Prog σ ι β}
    (h : ∀ a, Returns Q (f a)) : Returns Q (x >>= f) := by
  intro w b hb
  rw [bind_apply] at hb
  rcases hx : x w with ⟨_ | a, w'⟩
  · rw [hx] at hb
    exact absurd hb (by simp)
  · rw [hx] at hb
    exact h a w' b hb

theorem Returns.ite {Q : α → Prop} {c : Prop} [Decidable c] {x y : Prog σ ι α}
    (hx : Returns Q x) (hy : Returns Q y) :
    Returns Q (if c then x else y) := by
  split
  · exact hx
  · exact hy

/-! ## Programs that do not wait -/

/-- The program returns at once, whatever interrupts are to come, and takes every
state to a related one. -/
def Prompt (r : σ → σ → Prop) (x : Prog σ ι α) : Prop :=
  ∀ s, ∃ a s', (∀ irqs, x ⟨s, irqs⟩ = (some a, ⟨s', irqs⟩)) ∧ r s s'

section Promptness

variable {r : σ → σ → Prop}

/-- A change of the state moves along `r` and does not wait. -/
theorem Prompt.modify {f : σ → σ} (h : ∀ s, r s (f s)) :
    Prompt r (BusyWait.modify f : Prog σ ι Unit) :=
  fun s => ⟨(), f s, fun _ => rfl, h s⟩

theorem Prompt.ite {c : Prop} [Decidable c] {x y : Prog σ ι α}
    (hx : Prompt r x) (hy : Prompt r y) : Prompt r (if c then x else y) := by
  split
  · exact hx
  · exact hy

variable [IsPreorder σ r]

theorem Prompt.pure (a : α) : Prompt r (Pure.pure a : Prog σ ι α) :=
  fun s => ⟨a, s, fun _ => rfl, refl_of r s⟩

theorem Prompt.get : Prompt r (BusyWait.get : Prog σ ι σ) :=
  fun s => ⟨s, s, fun _ => rfl, refl_of r s⟩

/-- A program made of two that do not wait does not wait either. -/
theorem Prompt.bind {x : Prog σ ι α} {f : α → Prog σ ι β} (hx : Prompt r x)
    (hf : ∀ a, Prompt r (f a)) : Prompt r (x >>= f) := by
  intro s
  obtain ⟨a, s', hrun, hr⟩ := hx s
  obtain ⟨b, s'', hrun', hr'⟩ := hf a s'
  refine ⟨b, s'', fun irqs => ?_, trans_of r hr hr'⟩
  rw [bind_apply, hrun]
  exact hrun' irqs

theorem Prompt.return {x : Prog σ ι Unit} (hx : Prompt r x) (a : α) :
    Prompt r (x >>= fun _ => Pure.pure a) :=
  hx.bind fun _ => Prompt.pure a

theorem Prompt.when {b : Bool} {x : Prog σ ι Unit} (hx : Prompt r x) :
    Prompt r (when b x) := by
  cases b with
  | true => exact hx
  | false => exact Prompt.pure ()

end Promptness

/-- A wait for what no interrupt brings about lasts for ever. -/
theorem spinUntil_stuck {serve : ι → σ → σ} {cond : σ → Bool} {S : ι → Prop}
    (hserve : ∀ i s, S i → cond (serve i s) = cond s) {s : σ} {irqs : List ι}
    (hirqs : ∀ i ∈ irqs, S i) (h : cond s = false) :
    (spinUntil serve cond ⟨s, irqs⟩).1 = none := by
  show (spin serve cond irqs s).1 = none
  induction irqs generalizing s with
  | nil =>
      rw [spin, h]
      rfl
  | cons i is ih =>
      rw [spin, h, if_neg (by decide)]
      refine ih (fun j hj => hirqs j (List.mem_cons_of_mem _ hj)) ?_
      rw [hserve i s (hirqs i List.mem_cons_self)]
      exact h

/-- A wait for what some interrupt brings about ends with it. -/
theorem spinUntil_ends {serve : ι → σ → σ} {cond : σ → Bool} {i : ι}
    (h : ∀ s, cond (serve i s) = true) (s : σ) (irqs : List ι) :
    (spinUntil serve cond ⟨s, irqs ++ [i]⟩).1 = some () := by
  show (spin serve cond (irqs ++ [i]) s).1 = some ()
  induction irqs generalizing s with
  | nil =>
      show (if cond s then (some (), (⟨s, [i]⟩ : World σ ι))
        else spin serve cond [] (serve i s)).1 = some ()
      split
      · rfl
      · rw [spin, h s]
        rfl
  | cons j is ih =>
      rw [List.cons_append, spin]
      split
      · rfl
      · exact ih (serve j s)

/-- What the interrupts that arrive respect, a wait for them respects. -/
theorem spinUntil_within {r : σ → σ → Prop} [IsPreorder σ r]
    {serve : ι → σ → σ} {S : ι → Prop} (hserve : ∀ i s, S i → r s (serve i s))
    (cond : σ → Bool) (s : σ) {irqs : List ι} (hirqs : ∀ i ∈ irqs, S i) :
    r s (spinUntil serve cond ⟨s, irqs⟩).2.state := by
  show r s (spin serve cond irqs s).2.state
  induction irqs generalizing s with
  | nil => exact refl_of r s
  | cons i is ih =>
      rw [spin]
      split
      · exact refl_of r s
      · exact trans_of r (hserve i s (hirqs i List.mem_cons_self))
          (ih _ fun j hj => hirqs j (List.mem_cons_of_mem _ hj))

/-! ## What a program does not look at -/

/-- The program does not look at the part of the state that `act` changes: run
from a changed state, it does the same, and leaves a changed state. -/
def Blind {κ : Type} (act : κ → σ → σ) (x : Prog σ ι α) : Prop :=
  ∀ k w, ∃ k', x ⟨act k w.state, w.irqs⟩ =
    ((x w).1, ⟨act k' (x w).2.state, (x w).2.irqs⟩)

section Blindness

variable {κ : Type} {act : κ → σ → σ}

theorem Blind.pure (a : α) : Blind act (Pure.pure a : Prog σ ι α) :=
  fun k _ => ⟨k, rfl⟩

/-- Two programs in a row do not look at what `act` changes if neither does. -/
theorem Blind.bind {x : Prog σ ι α} {f : α → Prog σ ι β} (hx : Blind act x)
    (hf : ∀ a, Blind act (f a)) : Blind act (x >>= f) := by
  intro k w
  obtain ⟨k', h⟩ := hx k w
  rw [bind_apply, bind_apply, h]
  rcases x w with ⟨_ | a, w'⟩
  · exact ⟨k', rfl⟩
  · exact hf a k' w'

/-- What follows `get` may look at the rest of the state. -/
theorem Blind.get_bind {f : σ → Prog σ ι β} (hf : ∀ s, Blind act (f s))
    (hsame : ∀ k s, f (act k s) = f s) : Blind act (BusyWait.get >>= f) := by
  intro k w
  obtain ⟨k', h⟩ := hf w.state k w
  refine ⟨k', ?_⟩
  rw [get_bind_apply, get_bind_apply, hsame]
  exact h

/-- A change of the state that commutes with `act`, up to which action it is, does not
look at what `act` changes. -/
theorem Blind.modify {f : σ → σ} (h : ∀ k s, ∃ k', f (act k s) = act k' (f s)) :
    Blind act (BusyWait.modify f : Prog σ ι Unit) := by
  intro k w
  obtain ⟨k', h⟩ := h k w.state
  refine ⟨k', ?_⟩
  rw [modify_apply, modify_apply, h]

/-- A wait is blind to `act` when its condition is, and when each interrupt commutes
with `act` up to which action it is. -/
theorem Blind.spinUntil {serve : ι → σ → σ} {cond : σ → Bool}
    (hserve : ∀ i k s, ∃ k', serve i (act k s) = act k' (serve i s))
    (hcond : ∀ k s, cond (act k s) = cond s) :
    Blind act (spinUntil serve cond) := by
  rintro k ⟨s, irqs⟩
  show ∃ k', spin serve cond irqs (act k s) = _
  induction irqs generalizing k s with
  | nil =>
      refine ⟨k, ?_⟩
      rw [spin, hcond]
      rfl
  | cons i is ih =>
      unfold BusyWait.spinUntil
      dsimp only
      rw [spin, spin, hcond]
      split
      · exact ⟨k, rfl⟩
      · obtain ⟨k', h⟩ := hserve i k s
        rw [h]
        exact ih k' (serve i s)

theorem Blind.when {b : Bool} {x : Prog σ ι Unit} (hx : Blind act x) :
    Blind act (when b x) := by
  cases b with
  | true => exact hx
  | false => exact Blind.pure ()

theorem Blind.ite {c : Prop} [Decidable c] {x y : Prog σ ι α}
    (hx : Blind act x) (hy : Blind act y) : Blind act (if c then x else y) := by
  split
  · exact hx
  · exact hy

theorem Blind.return {x : Prog σ ι Unit} (hx : Blind act x) (a : α) :
    Blind act (x >>= fun _ => Pure.pure a) :=
  hx.bind fun _ => Blind.pure a

end Blindness

end R2C2Firmware.Verified.BusyWait
