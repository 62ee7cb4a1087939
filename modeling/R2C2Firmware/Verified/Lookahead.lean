import Mathlib.Order.MinMax
import Mathlib.Order.Monotone.Basic
import Mathlib.Data.List.Forall2
import Mathlib.Tactic

/-!
# Two-pass look-ahead planning

A path is a list of segments.  Segment `s` limits the speed at its entry by
`s.cap`, and from speed `v` at one end the speed at the other end can be
anything up to `s.reach v`: braking and accelerating are symmetric, so one
function serves both directions.

A *profile* assigns an entry speed to every segment.  It is

* `Capped` when no entry speed exceeds its cap,
* `Stoppable` when every segment can brake from its entry speed to the next
  one, and the last segment to the final speed `stop`,
* `Startable` when every segment can accelerate from its entry speed to the
  next one.

The planner runs two passes.  `backward` computes from the end the greatest
capped and stoppable profile (`le_backward`); `forward` then lowers it from the
front, starting at a given speed of the first segment, until it is startable.
The theory needs only that speeds are linearly ordered, that `reach` is
monotone from `stop` on and least there, and that keeping the speed is always
possible (`v ≤ reach v`).  Caps may lie below `stop`; a speed below `stop` is
then the cap itself (`Low`), and neither pass can move it.

## Main results

* `backward_stoppable`, `backward_capped`, `le_backward` — the backward pass
  is the greatest capped stoppable profile.
* `forward_stoppable`, `forward_startable` — the forward pass keeps
  stoppability and establishes startability.
* `Stoppable.append` — a stoppable profile stays one when a segment is added.
* `twoPass_stoppable` — replanning a stoppable profile from the same first
  speed gives a stoppable one.
* `le_twoPass` — no executable profile is faster than the two-pass plan.
-/

namespace R2C2Firmware.Verified.Lookahead

/-- One segment of the path. -/
structure Seg (V : Type*) where
  cap : V
  reach : V → V

variable {V : Type*} [LinearOrder V]

/-- `reach` is monotone from `stop` on, least at `stop`, and never below its
argument. -/
structure Seg.Lawful (stop : V) (s : Seg V) : Prop where
  mono : MonotoneOn s.reach (Set.Ici stop)
  least : ∀ v, s.reach stop ≤ s.reach v
  le_reach : ∀ v, v ≤ s.reach v

theorem Seg.Lawful.stop_le {stop : V} {s : Seg V} (h : s.Lawful stop) (v : V) :
    stop ≤ s.reach v :=
  (h.le_reach stop).trans (h.least v)

/-! ## Profiles -/

/-- No entry speed exceeds its cap. -/
def Capped (segs : List (Seg V)) (vs : List V) : Prop :=
  List.Forall₂ (fun s v => v ≤ s.cap) segs vs

/-- An entry speed below the final speed is the cap of its segment. -/
def Low (stop : V) (segs : List (Seg V)) (vs : List V) : Prop :=
  List.Forall₂ (fun s v => stop ≤ v ∨ v = s.cap) segs vs

/-- Speeds from the final speed on need no cap. -/
theorem Capped.low {stop : V} {segs : List (Seg V)} {vs : List V}
    (h : Capped segs vs) (hvs : ∀ v ∈ vs, stop ≤ v) : Low stop segs vs := by
  induction h with
  | nil => exact .nil
  | cons _ _ ih =>
      exact .cons (.inl (hvs _ (by simp)))
        (ih fun w hw => hvs w (List.mem_cons_of_mem _ hw))

/-- Every segment can brake to the entry speed of its successor, the last one
to `stop`. -/
def Stoppable (stop : V) : List (Seg V) → List V → Prop
  | [], [] => True
  | s :: segs, v :: vs => v ≤ s.reach (vs.headD stop) ∧ Stoppable stop segs vs
  | _, _ => False

/-- Every segment can accelerate to the entry speed of its successor. -/
def Startable : List (Seg V) → List V → Prop
  | s :: segs, v :: w :: vs => w ≤ s.reach v ∧ Startable segs (w :: vs)
  | _, _ => True

/-- The backward pass. -/
def backward (stop : V) : List (Seg V) → List V
  | [] => []
  | s :: segs =>
      min s.cap (s.reach ((backward stop segs).headD stop)) ::
        backward stop segs

/-- The forward pass: `v` is the entry speed of the first segment, the list of
speeds starts with the second. -/
def forward : V → List (Seg V) → List V → List V
  | v, s :: segs, r :: rs =>
      min r (s.reach v) :: forward (min r (s.reach v)) segs rs
  | _, _, _ => []

/-- Both passes, with the entry speed of the first segment given. -/
def twoPass (stop v : V) (segs : List (Seg V)) : List V :=
  v :: forward v segs (backward stop segs).tail

theorem length_backward (stop : V) (segs : List (Seg V)) :
    (backward stop segs).length = segs.length := by
  induction segs with
  | nil => rfl
  | cons s segs ih => simp [backward, ih]

/-! ## The backward pass -/

theorem backward_capped (stop : V) (segs : List (Seg V)) :
    Capped segs (backward stop segs) := by
  induction segs with
  | nil => exact .nil
  | cons s segs ih => exact .cons (min_le_left _ _) ih

theorem backward_stoppable (stop : V) (segs : List (Seg V)) :
    Stoppable stop segs (backward stop segs) := by
  induction segs with
  | nil => trivial
  | cons s segs ih => exact ⟨min_le_right _ _, ih⟩

/-- Raising a speed within its cap does not lower what can be reached from it:
a speed below `stop` cannot be raised at all. -/
theorem Seg.Lawful.reach_le {stop v w : V} {s t : Seg V} (h : s.Lawful stop)
    (hlow : stop ≤ v ∨ v = t.cap) (hcap : w ≤ t.cap) (hvw : v ≤ w) :
    s.reach v ≤ s.reach w := by
  rcases hlow with hv | hv
  · exact h.mono hv (hv.trans hvw) hvw
  · rw [le_antisymm hvw (hv ▸ hcap)]

/-- What can be reached from the head of a profile grows with the profile. -/
theorem Seg.Lawful.reach_head_le {stop : V} {s : Seg V} {segs : List (Seg V)}
    {vs ws : List V} (h : s.Lawful stop) (hlow : Low stop segs vs)
    (hcap : Capped segs ws) (hle : List.Forall₂ (· ≤ ·) vs ws) :
    s.reach (vs.headD stop) ≤ s.reach (ws.headD stop) := by
  cases hle with
  | nil => exact le_refl _
  | @cons v w vs ws hvw _ =>
      cases hlow with
      | cons hv _ =>
          cases hcap with
          | cons hw _ => exact h.reach_le hv hw hvw

/-- The backward pass dominates every capped stoppable profile. -/
theorem le_backward {stop : V} {segs : List (Seg V)} {vs : List V}
    (hlaw : ∀ s ∈ segs, s.Lawful stop) (hlow : Low stop segs vs)
    (hcap : Capped segs vs) (hstop : Stoppable stop segs vs) :
    List.Forall₂ (· ≤ ·) vs (backward stop segs) := by
  induction hcap with
  | nil => exact .nil
  | @cons s v segs vs hv _ ih =>
      have hrest := (List.forall₂_cons.1 hlow).2
      have htail := ih (fun t ht => hlaw t (by simp [ht])) hrest hstop.2
      refine .cons (le_min hv (hstop.1.trans ?_)) htail
      -- the successor's speed is dominated, and `reach` grows with it
      exact (hlaw s (by simp)).reach_head_le hrest (backward_capped stop segs)
        htail

/-! ## The forward pass -/

/-- The forward pass only lowers speeds. -/
theorem forward_le {v : V} {segs : List (Seg V)} {rs : List V}
    (hlen : rs.length ≤ segs.length) :
    List.Forall₂ (· ≤ ·) (forward v segs rs) rs := by
  induction segs generalizing v rs with
  | nil =>
      have hnil : rs = [] := List.length_eq_zero_iff.1 (Nat.le_zero.1 hlen)
      subst hnil
      exact .nil
  | cons s segs ih =>
      cases rs with
      | nil => exact .nil
      | cons r rs =>
          exact .cons (min_le_left _ _) (ih (by simpa using hlen))

theorem forward_startable (v : V) (segs : List (Seg V)) (rs : List V) :
    Startable segs (v :: forward v segs rs) := by
  induction segs generalizing v rs with
  | nil => simp [Startable]
  | cons s segs ih =>
      cases rs with
      | nil => simp [forward, Startable]
      | cons r rs => exact ⟨min_le_right _ _, ih _ rs⟩

/-- Lowering the first speed of a stoppable profile keeps it stoppable. -/
theorem Stoppable.lower {stop v w : V} {segs : List (Seg V)} {vs : List V}
    (h : Stoppable stop segs (v :: vs)) (hw : w ≤ v) :
    Stoppable stop segs (w :: vs) := by
  cases segs with
  | nil => exact h
  | cons s segs => exact ⟨hw.trans h.1, h.2⟩

/-- The forward pass keeps a profile stoppable: a speed is lowered only to what
its predecessor reaches, which is no less than the predecessor's own. -/
theorem forward_stoppable {stop v : V} {segs : List (Seg V)} {rs : List V}
    (hlaw : ∀ s ∈ segs, s.Lawful stop) (h : Stoppable stop segs (v :: rs)) :
    Stoppable stop segs (v :: forward v segs rs) := by
  induction segs generalizing v rs with
  | nil => exact h
  | cons s segs ih =>
      obtain ⟨hv, hrest⟩ := h
      have hs : s.Lawful stop := hlaw s (by simp)
      cases rs with
      | nil => exact ⟨hv, hrest⟩
      | cons r rs =>
          refine ⟨?_, ih (fun t ht => hlaw t (by simp [ht]))
            (hrest.lower (min_le_left _ _))⟩
          change v ≤ s.reach (min r (s.reach v))
          rcases min_choice r (s.reach v) with hmin | hmin
          · rw [hmin]; exact hv
          · rw [hmin]; exact (hs.le_reach v).trans (hs.le_reach _)

/-! ## Adding a segment -/

/-- A stoppable profile stays stoppable when a segment is added behind it that
can itself stop. -/
theorem Stoppable.append {stop v : V} {segs : List (Seg V)} {vs : List V}
    {s : Seg V} (hlaw : ∀ t ∈ segs, t.Lawful stop)
    (h : Stoppable stop segs vs) (hv : v ≤ s.reach stop) :
    Stoppable stop (segs ++ [s]) (vs ++ [v]) := by
  induction segs generalizing vs with
  | nil =>
      cases vs with
      | nil => exact ⟨hv, trivial⟩
      | cons w ws => exact absurd h (by simp [Stoppable])
  | cons t segs ih =>
      cases vs with
      | nil => exact absurd h (by simp [Stoppable])
      | cons w ws =>
          refine ⟨?_, ih (fun u hu => hlaw u (by simp [hu])) h.2⟩
          cases ws with
          | nil => exact h.1.trans ((hlaw t (by simp)).least v)
          | cons u us => exact h.1

/-! ## Both passes -/

/-- The backward pass goes below the final speed only where a cap does. -/
theorem backward_low {stop : V} {segs : List (Seg V)}
    (hlaw : ∀ s ∈ segs, s.Lawful stop) :
    Low stop segs (backward stop segs) := by
  induction segs with
  | nil => exact .nil
  | cons s segs ih =>
      refine .cons ?_ (ih fun t ht => hlaw t (by simp [ht]))
      rcases le_total stop s.cap with hcap | hcap
      · exact .inl (le_min hcap ((hlaw s (by simp)).stop_le _))
      · exact .inr (min_eq_left (hcap.trans ((hlaw s (by simp)).stop_le _)))

/-- The forward pass leaves a speed below the final speed alone. -/
theorem forward_low {stop v : V} {s : Seg V} {segs : List (Seg V)}
    {rs : List V} (hlaw : ∀ t ∈ s :: segs, t.Lawful stop)
    (hrs : Low stop segs rs) : Low stop segs (forward v (s :: segs) rs) := by
  induction hrs generalizing v s with
  | nil => exact .nil
  | @cons t r segs rs hr _ ih =>
      have hreach := (hlaw s (by simp)).stop_le v
      refine .cons ?_ (ih fun u hu => hlaw u (List.mem_cons_of_mem _ hu))
      rcases hr with hr | hr
      · exact .inl (le_min hr hreach)
      · by_cases hcap : stop ≤ t.cap
        · exact .inl (le_min (hr ▸ hcap) hreach)
        · refine .inr ((min_eq_left ?_).trans hr)
          exact hr ▸ (not_le.1 hcap).le.trans hreach

theorem twoPass_low {stop v : V} {s : Seg V} {segs : List (Seg V)}
    (hlaw : ∀ t ∈ s :: segs, t.Lawful stop) (hv : stop ≤ v ∨ v = s.cap) :
    Low stop (s :: segs) (twoPass stop v (s :: segs)) :=
  .cons hv (forward_low hlaw
    (backward_low fun t ht => hlaw t (List.mem_cons_of_mem _ ht)))

theorem twoPass_capped {stop v : V} {s : Seg V} {segs : List (Seg V)}
    (hv : v ≤ s.cap) : Capped (s :: segs) (twoPass stop v (s :: segs)) := by
  refine .cons hv ?_
  have hle : List.Forall₂ (· ≤ ·)
      (forward v (s :: segs) (backward stop segs)) (backward stop segs) :=
    forward_le (by rw [length_backward]; exact Nat.le_succ _)
  have hcap := backward_capped stop segs
  change Capped segs (forward v (s :: segs) (backward stop segs))
  revert hle hcap
  generalize forward v (s :: segs) (backward stop segs) = fs
  generalize backward stop segs = rs
  intro hle hcap
  induction hcap generalizing fs with
  | nil => cases hle; exact .nil
  | cons hr _ ih =>
      cases hle with
      | cons hf hrest => exact .cons (hf.trans hr) (ih _ hrest)

theorem twoPass_startable (stop v : V) (segs : List (Seg V)) :
    Startable segs (twoPass stop v segs) :=
  forward_startable v segs _

/-- Replanning a stoppable profile from the same first speed gives a stoppable
one. -/
theorem twoPass_stoppable {stop v : V} {s : Seg V} {segs : List (Seg V)}
    {vs : List V} (hlaw : ∀ t ∈ s :: segs, t.Lawful stop)
    (hlow : Low stop segs vs) (hcap : Capped segs vs)
    (h : Stoppable stop (s :: segs) (v :: vs)) :
    Stoppable stop (s :: segs) (twoPass stop v (s :: segs)) := by
  have hdom := le_backward (fun t ht => hlaw t (by simp [ht])) hlow hcap h.2
  refine forward_stoppable hlaw ⟨h.1.trans ?_, backward_stoppable stop segs⟩
  exact (hlaw s (by simp)).reach_head_le hlow (backward_capped stop segs) hdom

/-! ## The greatest profile -/

/-- The forward pass dominates every startable profile that starts no faster
and lies below the speeds it lowers. -/
theorem le_forward {stop v w : V} {segs : List (Seg V)} {vs rs : List V}
    (hlaw : ∀ s ∈ segs, s.Lawful stop) (hlen : vs.length ≤ segs.length)
    (hlow : ∀ u ∈ w :: vs, stop ≤ u) (hwv : w ≤ v)
    (hstart : Startable segs (w :: vs)) (hle : List.Forall₂ (· ≤ ·) vs rs) :
    List.Forall₂ (· ≤ ·) vs (forward v segs rs) := by
  induction hle generalizing segs v w with
  | nil => cases segs <;> exact .nil
  | @cons u r us rs hur _ ih =>
      cases segs with
      | nil => exact absurd hlen (by simp)
      | cons s segs =>
          obtain ⟨hreach, hrest⟩ := hstart
          have hw : stop ≤ w := hlow w (by simp)
          have hmono := (hlaw s (by simp)).mono
          have hfirst : u ≤ min r (s.reach v) :=
            le_min hur (hreach.trans (hmono hw (hw.trans hwv) hwv))
          refine .cons hfirst ?_
          exact ih (fun t ht => hlaw t (by simp [ht])) (by simpa using hlen)
            (fun x hx => hlow x (List.mem_cons_of_mem _ hx)) hfirst hrest

/-- No executable profile that starts no faster is faster anywhere. -/
theorem le_twoPass {stop v w : V} {segs : List (Seg V)} {vs : List V}
    (hlaw : ∀ s ∈ segs, s.Lawful stop) (hlow : ∀ u ∈ w :: vs, stop ≤ u)
    (hcap : Capped segs (w :: vs)) (hstop : Stoppable stop segs (w :: vs))
    (hstart : Startable segs (w :: vs)) (hwv : w ≤ v) :
    List.Forall₂ (· ≤ ·) (w :: vs) (twoPass stop v segs) := by
  cases segs with
  | nil => cases hcap
  | cons s segs =>
      have hcap' : Capped segs vs := (List.forall₂_cons.1 hcap).2
      have hlow' : Low stop segs vs :=
        hcap'.low fun u hu => hlow u (List.mem_cons_of_mem _ hu)
      have hback := le_backward (fun t ht => hlaw t (by simp [ht])) hlow' hcap'
        hstop.2
      have hlen : vs.length ≤ (s :: segs).length := by
        rw [← hcap'.length_eq]
        exact Nat.le_succ _
      exact .cons hwv (le_forward hlaw hlen hlow hwv hstart hback)

/-- Once the first segment is done, the rest of the plan is the plan of the
rest. -/
theorem twoPass_tail {stop v w : V} {s : Seg V} {segs : List (Seg V)}
    {ws : List V} (h : twoPass stop v (s :: segs) = v :: w :: ws) :
    w :: ws = twoPass stop w segs := by
  cases segs with
  | nil => exact absurd h (by simp [twoPass, backward, forward])
  | cons t segs =>
      obtain ⟨rfl, rfl⟩ := List.cons.inj (List.cons.inj h).2
      rfl

/-- A startable profile stays one when a segment entered at the final speed is
added behind it. -/
theorem Startable.append {stop : V} {segs : List (Seg V)} {vs : List V}
    (s : Seg V) (hlaw : ∀ t ∈ segs, t.Lawful stop) (hlow : ∀ w ∈ vs, stop ≤ w)
    (hlen : vs.length = segs.length) (h : Startable segs vs) :
    Startable (segs ++ [s]) (vs ++ [stop]) := by
  induction segs generalizing vs with
  | nil =>
      cases vs with
      | nil => trivial
      | cons w ws => exact absurd hlen (by simp)
  | cons t segs ih =>
      cases vs with
      | nil => trivial
      | cons w ws =>
          have hrest : ∀ x ∈ ws, stop ≤ x := fun x hx => hlow x (by simp [hx])
          cases ws with
          | nil =>
              have hreach := (hlaw t (by simp)).le_reach w
              refine ⟨(hlow w (by simp)).trans hreach, ?_⟩
              cases segs <;> trivial
          | cons x ws =>
              exact ⟨h.1, ih (fun u hu => hlaw u (by simp [hu])) hrest
                (by simpa using hlen) h.2⟩

end R2C2Firmware.Verified.Lookahead
