import R2C2Firmware.Verified.BusyWait

/-!
# Watching a program

What a program does to the state need not show which of its operations did it.
To speak of every call of an operation, the program is written down a second
time with a `note` at each call; `Watches` says that it is the same program
otherwise.  The record then holds the calls, in whatever order and number they
are made, also while the program is still waiting.

## Main results

* `Watches.bind`, `Watches.noted` — a watched program does what the program
  does.
* `keeps_plain`, `keeps_note` — what can be said of every event.
* `Settles.bind`, `Settles.plain` — programs that return at once or never.
-/

namespace R2C2Firmware.Verified.BusyWait

variable {σ ι ε α β : Type}

/-- A state with a record of events, latest first. -/
structure Watched (σ ε : Type) where
  state : σ
  events : List ε

/-- The world without the record. -/
def World.unwatch (w : World (Watched σ ε) ι) : World σ ι :=
  ⟨w.state.state, w.irqs⟩

/-- A program in which there is nothing to note. -/
def plain (x : Prog σ ι α) : Prog (Watched σ ε) ι α := fun w =>
  ((x w.unwatch).1,
    { state := ⟨(x w.unwatch).2.state, w.state.events⟩
      irqs := (x w.unwatch).2.irqs })

/-- Note an event. -/
def note (e : σ → ε) : Prog (Watched σ ε) ι Unit :=
  modify fun s => { s with events := e s.state :: s.events }

/-- The record apart, the first program is the second. -/
def Watches (x' : Prog (Watched σ ε) ι α) (x : Prog σ ι α) : Prop :=
  ∀ w, ((x' w).1, (x' w).2.unwatch) = x w.unwatch

section Rules

variable {x' : Prog (Watched σ ε) ι α} {x : Prog σ ι α}

theorem watches_plain (x : Prog σ ι α) :
    Watches (plain x : Prog (Watched σ ε) ι α) x :=
  fun _ => rfl

theorem Watches.pure (a : α) :
    Watches (pure a : Prog (Watched σ ε) ι α) (pure a : Prog σ ι α) :=
  fun _ => rfl

theorem Watches.bind {f' : α → Prog (Watched σ ε) ι β} {f : α → Prog σ ι β}
    (hx : Watches x' x) (hf : ∀ a, Watches (f' a) (f a)) :
    Watches (x' >>= f') (x >>= f) := by
  intro w
  have h := hx w
  rw [bind_apply, bind_apply, ← h]
  rcases x' w with ⟨_ | a, w'⟩
  · rfl
  · exact hf a w'

theorem Watches.noted (h : Watches x' x) (e : σ → ε) :
    Watches (note e >>= fun _ => x') x :=
  fun w => h { w with state := ⟨w.state.state, e w.state.state :: w.state.events⟩ }

theorem Watches.return {x' : Prog (Watched σ ε) ι Unit} {x : Prog σ ι Unit}
    (h : Watches x' x) (a : α) :
    Watches (x' >>= fun _ => Pure.pure a) (x >>= fun _ => Pure.pure a) :=
  h.bind fun _ => Watches.pure a

theorem Watches.when {x' : Prog (Watched σ ε) ι Unit} {x : Prog σ ι Unit}
    (h : Watches x' x) (b : Bool) : Watches (when b x') (when b x) := by
  cases b with
  | true => exact h
  | false => exact Watches.pure ()

theorem Watches.ite {c : Prop} [Decidable c] {y' : Prog (Watched σ ε) ι α}
    {y : Prog σ ι α} (hx : Watches x' x) (hy : Watches y' y) :
    Watches (if c then x' else y') (if c then x else y) := by
  split
  · exact hx
  · exact hy

end Rules

/-! ## Every event -/

/-- The state has a property, and all events noted have one. -/
def Noted (I : σ → Prop) (Q : ε → Prop) (s : Watched σ ε) : Prop :=
  I s.state ∧ ∀ e ∈ s.events, Q e

variable {I : σ → Prop} {Q : ε → Prop}

theorem keeps_plain {x : Prog σ ι α} (h : Moves (Keeps I) x) :
    Moves (Keeps (Noted I Q)) (plain x : Prog (Watched σ ε) ι α) :=
  fun w hs => ⟨h w.unwatch hs.1, hs.2⟩

/-- What follows a look at the state may rely on it. -/
theorem Moves.plain_get_bind {r : Watched σ ε → Watched σ ε → Prop}
    {f : σ → Prog (Watched σ ε) ι β}
    (h : ∀ w : World (Watched σ ε) ι, r w.state (f w.state.state w).2.state) :
    Moves r (plain BusyWait.get >>= f) :=
  h

/-- What follows a wait may rely on its condition. -/
theorem Moves.plain_spinUntil_bind {r : Watched σ ε → Watched σ ε → Prop}
    [IsPreorder (Watched σ ε) r] {serve : ι → σ → σ} {cond : σ → Bool}
    {f : Prog (Watched σ ε) ι β}
    (hspin : Moves r (plain (BusyWait.spinUntil serve cond) :
      Prog (Watched σ ε) ι Unit))
    (hf : ∀ w, cond w.state.state = true → r w.state (f w).2.state) :
    Moves r (plain (BusyWait.spinUntil serve cond) >>= fun _ => f) := by
  intro w
  have h := hspin w
  have hcond := @spinUntil_cond σ ι serve cond w.unwatch
  rw [bind_apply]
  unfold plain at h ⊢
  rcases hres : BusyWait.spinUntil serve cond w.unwatch with ⟨_ | ⟨⟨⟩⟩, w'⟩
  · rw [hres] at h
    exact h
  · rw [hres] at h hcond
    exact trans_of r h (hf _ (hcond rfl))

/-- An event that is noted where it has the property. -/
theorem keeps_note {e : σ → ε} {w : World (Watched σ ε) ι}
    (h : I w.state.state → Q (e w.state.state)) :
    Keeps (Noted I Q) w.state (note e w).2.state := by
  rintro ⟨hI, hQ⟩
  refine ⟨hI, fun e' he' => ?_⟩
  rcases List.mem_cons.1 he' with rfl | he'
  · exact h hI
  · exact hQ e' he'

/-! ## Programs that settle -/

/-- Which interrupts arrive makes no difference, as long as all are in `S`: the
program returns at once, or it waits for ever.  The events noted tell: one that
is not good is noted where the program waits, and where `J` is lost.  `I` is an
invariant. -/
def Settles (S : ι → Prop) (I J : σ → Prop) (good : ε → Prop)
    (x : Prog (Watched σ ε) ι α) : Prop :=
  ∀ s : Watched σ ε, I s.state → ∃ new,
    (∃ a s', (∀ irqs, (∀ i ∈ irqs, S i) →
          x ⟨s, irqs⟩ = (some a, ⟨⟨s', new ++ s.events⟩, irqs⟩)) ∧
        I s' ∧ (J s' ↔ J s.state ∧ ∀ e ∈ new, good e)) ∨
    ((∀ irqs, (∀ i ∈ irqs, S i) → (x ⟨s, irqs⟩).1 = none ∧
        (x ⟨s, irqs⟩).2.state.events = new ++ s.events) ∧
      ∃ e ∈ new, ¬good e)

section Settling

variable {S : ι → Prop} {J : σ → Prop} {good : ε → Prop}

theorem Settles.pure (a : α) :
    Settles S I J good (pure a : Prog (Watched σ ε) ι α) :=
  fun s hs => ⟨[], .inl ⟨a, s.state, fun _ _ => rfl, hs, by simp⟩⟩

theorem Settles.bind {x : Prog (Watched σ ε) ι α}
    {f : α → Prog (Watched σ ε) ι β} (hx : Settles S I J good x)
    (hf : ∀ a, Settles S I J good (f a)) : Settles S I J good (x >>= f) := by
  intro s hs
  obtain ⟨new, ⟨a, s', hrun, hI, hJ⟩ | ⟨hstuck, hbad⟩⟩ := hx s hs
  · have hbind : ∀ irqs, (∀ i ∈ irqs, S i) →
        (x >>= f) ⟨s, irqs⟩ = f a ⟨⟨s', new ++ s.events⟩, irqs⟩ := by
      intro irqs hirqs
      rw [bind_apply, hrun irqs hirqs]
    obtain ⟨new', ⟨b, s'', hrun', hI', hJ'⟩ | ⟨hstuck', e, he, hbad⟩⟩ :=
      hf a ⟨s', new ++ s.events⟩ hI
    · refine ⟨new' ++ new, .inl ⟨b, s'', fun irqs hirqs => ?_, hI', ?_⟩⟩
      · rw [hbind irqs hirqs, hrun' irqs hirqs, List.append_assoc]
      · rw [hJ', hJ, List.forall_mem_append]
        tauto
    · refine ⟨new' ++ new, .inr ⟨fun irqs hirqs => ?_, e, ?_, hbad⟩⟩
      · rw [hbind irqs hirqs, List.append_assoc]
        exact hstuck' irqs hirqs
      · exact List.mem_append_left _ he
  · refine ⟨new, .inr ⟨fun irqs hirqs => ?_, hbad⟩⟩
    obtain ⟨hnone, hevents⟩ := hstuck irqs hirqs
    rw [bind_apply]
    rcases hrun : x ⟨s, irqs⟩ with ⟨_ | a, w⟩
    · rw [hrun] at hevents
      exact ⟨rfl, hevents⟩
    · rw [hrun] at hnone
      exact absurd hnone (by simp)

theorem Settles.return {x : Prog (Watched σ ε) ι Unit}
    (hx : Settles S I J good x) (a : α) :
    Settles S I J good (x >>= fun _ => Pure.pure a) :=
  hx.bind fun _ => Settles.pure a

theorem Settles.when {b : Bool} {x : Prog (Watched σ ε) ι Unit}
    (hx : Settles S I J good x) : Settles S I J good (when b x) := by
  cases b with
  | true => exact hx
  | false => exact Settles.pure ()

theorem Settles.ite {c : Prop} [Decidable c] {x y : Prog (Watched σ ε) ι α}
    (hx : Settles S I J good x) (hy : Settles S I J good y) :
    Settles S I J good (if c then x else y) := by
  split
  · exact hx
  · exact hy

/-- A program without waits and without events. -/
theorem Settles.plain {r : σ → σ → Prop} (hr : ∀ s s', r s s' →
      (I s → I s') ∧ (J s' ↔ J s))
    {x : Prog σ ι α} (hx : Prompt r x) :
    Settles S I J good (BusyWait.plain x : Prog (Watched σ ε) ι α) := by
  intro s hs
  obtain ⟨a, s', hrun, hrel⟩ := hx s.state
  refine ⟨[], .inl ⟨a, s', fun irqs _ => ?_, (hr _ _ hrel).1 hs, ?_⟩⟩
  · unfold BusyWait.plain World.unwatch
    dsimp only
    rw [hrun]
    rfl
  · simp [(hr _ _ hrel).2]

end Settling

end R2C2Firmware.Verified.BusyWait
