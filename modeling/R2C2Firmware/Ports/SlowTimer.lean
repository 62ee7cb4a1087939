import R2C2Firmware.Verified.LinkedList
import R2C2Firmware.Verified.Number

/-!
# Slow timers

A transcription of the slow timers of `r2c2_timer.c`.  The timers that have been
added form a list through their `pNext` fields, and the system tick visits them all:
it counts a running timer down, and at zero reloads or stops it and calls its
function.

The functions called are assumed not to touch the timers; a call is recorded.  The
`pNext` fields stand apart from the other fields of a timer.  A schedule is a list of
calls and ticks in any order, where a timer is added at most once.

What happens to one timer depends on the operations on it and on the ticks alone:
`Solo` is that timer by itself, and `run_solo` says that in a schedule every timer
behaves as if it were.

## Main results

* `run_solo` — the handler returns in every schedule, and each timer runs alone.
* `slow_timers` — the ticks at which a timer fires.
-/

namespace R2C2Firmware.Ports.SlowTimer

open R2C2Firmware.Verified.Number
open R2C2Firmware.Verified.LinkedList

variable {ι γ : Type}

/-! ## Timers -/

/-- `tTimer` without the link; the function is `none` for `NULL`. -/
structure Timer (γ : Type) where
  timerCallback : Option γ
  current : Nat
  reload : Nat
  running : Bool
  expired : Bool
  autoReload : Bool

/-- The statics of `r2c2_timer.c` and the timers they point to. -/
structure SlowTimers (ι γ : Type) where
  millisTicks : Int
  counter : Int
  slowTimerHead : Option ι
  slowTimerTail : Option ι
  pNext : ι → Option ι
  timers : ι → Timer γ

/-- The turn of the handler for one timer, and the function called. -/
def visitTimer (t : Timer γ) : Timer γ × List γ :=
  if t.running then
    let current := if t.current > 0 then t.current - 1 else t.current
    if current = 0 then
      let t :=
        if t.autoReload then { t with current := t.reload }
        else { t with current, running := false }
      ({ t with expired := true }, t.timerCallback.toList)
    else ({ t with current }, [])
  else (t, [])

section Memory

variable [DecidableEq ι]

/-- The visit of a timer in memory; the call it makes is put behind those made so far.
-/
def visit (i : ι) (s : (ι → Timer γ) × List (ι × γ)) :
    (ι → Timer γ) × List (ι × γ) :=
  let (t, called) := visitTimer (s.1 i)
  (Function.update s.1 i t, s.2 ++ called.map fun c => (i, c))

/-- `R2C2_SysTick_Handler`, in at most so many turns of its loop: the timers, whether
`MMC_disk_timerproc` was called, and the functions called, in order. -/
def sysTickHandler (fuel : Nat) (s : SlowTimers ι γ) :
    Option (SlowTimers ι γ × Bool × List (ι × γ)) :=
  let counter := uint8 (s.counter + 1)
  let disk := decide (counter > 99)
  (walk s.pNext visit fuel s.slowTimerHead (s.timers, [])).map fun (timers, called) =>
    ({ s with
       millisTicks := int32 (s.millisTicks + 1)
       counter := if disk then 0 else counter
       timers }, disk, called)

/-- `R2C2_AddSlowTimer` -/
def addSlowTimer (i : ι) (s : SlowTimers ι γ) : SlowTimers ι γ :=
  let s := { s with pNext := Function.update s.pNext i none }
  match s.slowTimerHead, s.slowTimerTail with
  | none, _ => { s with slowTimerHead := some i, slowTimerTail := some i }
  | some _, some last =>
      { s with
        pNext := Function.update s.pNext last (some i)
        slowTimerTail := some i }
  | some _, none => s

/-- The assignments of `R2C2_StartSlowTimer`. -/
def startTimer (interval : Nat) (callback : Option γ) (t : Timer γ) : Timer γ :=
  { t with
    reload := interval
    current := interval
    timerCallback := callback
    expired := false
    running := true }

/-- `R2C2_StartSlowTimer` -/
def startSlowTimer (i : ι) (interval : Nat) (callback : Option γ)
    (s : SlowTimers ι γ) : SlowTimers ι γ :=
  { s with
    timers := Function.update s.timers i (startTimer interval callback (s.timers i)) }

/-- `R2C2_StopSlowTimer` -/
def stopSlowTimer (i : ι) (s : SlowTimers ι γ) : SlowTimers ι γ :=
  { s with
    timers := Function.update s.timers i { s.timers i with running := false } }

/-! ## Schedules -/

/-- A call, or a tick of the system. -/
inductive Op (ι γ : Type) where
  | add (i : ι)
  | start (i : ι) (interval : Nat) (callback : Option γ)
  | stop (i : ι)
  | tick

/-- Run a schedule: the timers, and the functions called at each tick. -/
def run (fuel : Nat) :
    List (Op ι γ) → SlowTimers ι γ → Option (SlowTimers ι γ × List (List (ι × γ)))
  | [], s => some (s, [])
  | .add i :: ops, s => run fuel ops (addSlowTimer i s)
  | .start i interval callback :: ops, s =>
      run fuel ops (startSlowTimer i interval callback s)
  | .stop i :: ops, s => run fuel ops (stopSlowTimer i s)
  | .tick :: ops, s =>
      match sysTickHandler fuel s with
      | some (s, _, called) =>
          (run fuel ops s).map fun (s, log) => (s, called :: log)
      | none => none

end Memory

/-- The timers that are added. -/
def added (ops : List (Op ι γ)) : List ι :=
  ops.filterMap fun | .add i => some i | _ => none

/-- The number of ticks. -/
def ticks (ops : List (Op ι γ)) : Nat :=
  ops.countP fun | .tick => true | _ => false

/-- The timers at power-up: none has been added. -/
def powerUp (pNext : ι → Option ι) (timers : ι → Timer γ) : SlowTimers ι γ where
  millisTicks := 0
  counter := 0
  slowTimerHead := none
  slowTimerTail := none
  pNext
  timers

/-! ## One timer alone -/

/-- A timer, and whether it has been added. -/
structure Solo (γ : Type) where
  linked : Bool
  timer : Timer γ

section Alone

variable [DecidableEq ι]

/-- The functions called for a timer. -/
def callsOf (i : ι) (called : List (ι × γ)) : List γ :=
  called.filterMap fun x => if x.1 = i then some x.2 else none

/-- A tick of a timer. -/
def Solo.tick (s : Solo γ) : Solo γ × List γ :=
  if s.linked then ({ s with timer := (visitTimer s.timer).1 }, (visitTimer s.timer).2)
  else (s, [])

/-- An operation, as far as it concerns a timer. -/
def Solo.apply (i : ι) (op : Op ι γ) (s : Solo γ) : Solo γ :=
  match op with
  | .add j => if j = i then { s with linked := true } else s
  | .start j interval callback =>
      if j = i then { s with timer := startTimer interval callback s.timer } else s
  | .stop j => if j = i then { s with timer := { s.timer with running := false } } else s
  | .tick => s.tick.1

/-- What is called for a timer at an operation, if that is a tick. -/
def Solo.calls (op : Op ι γ) (s : Solo γ) : List (List γ) :=
  match op with
  | .tick => [s.tick.2]
  | _ => []

/-- A schedule for one timer: the timer, and the functions called at each tick. -/
def soloRun (i : ι) : List (Op ι γ) → Solo γ → Solo γ × List (List γ)
  | [], s => (s, [])
  | op :: ops, s =>
      let r := soloRun i ops (s.apply i op)
      (r.1, s.calls op ++ r.2)

/-! ## The list -/

/-- The timers in the list, in order. -/
structure Linked (s : SlowTimers ι γ) (l : List ι) : Prop where
  chain : Chain s.pNext s.slowTimerHead l
  tail : s.slowTimerTail = l.getLast?
  nodup : l.Nodup

omit [DecidableEq ι] in
theorem linked_powerUp (pNext : ι → Option ι) (timers : ι → Timer γ) :
    Linked (powerUp pNext timers) [] :=
  ⟨.nil, rfl, List.nodup_nil⟩

variable {s : SlowTimers ι γ} {l : List ι}

theorem Linked.add (h : Linked s l) {i : ι} (hnodup : (l ++ [i]).Nodup) :
    Linked (addSlowTimer i s) (l ++ [i]) ∧ (addSlowTimer i s).timers = s.timers := by
  have hchain := h.chain
  have htail := h.tail
  unfold addSlowTimer
  dsimp only
  rcases List.eq_nil_or_concat l with rfl | ⟨l, last, rfl⟩
  · have hhead : s.slowTimerHead = none := hchain.head_eq_none_iff.2 rfl
    rw [hhead]
    refine ⟨⟨.cons ?_, rfl, hnodup⟩, rfl⟩
    show Chain (Function.update s.pNext i none) (Function.update s.pNext i none i) []
    rw [Function.update_self]
    exact .nil
  · rw [List.concat_eq_append] at hchain htail hnodup ⊢
    obtain ⟨first, hhead⟩ : ∃ first, s.slowTimerHead = some first := by
      cases hhead : s.slowTimerHead with
      | none => exact absurd (hchain.head_eq_none_iff.1 hhead) (by simp)
      | some first => exact ⟨first, rfl⟩
    have hlast : (l ++ [last]).getLast? = some last := List.getLast?_concat
    rw [hlast] at htail
    have hlonger := hchain.append hlast hnodup
    rw [hhead] at hlonger
    rw [hhead, htail]
    exact ⟨⟨hlonger, List.getLast?_concat.symm, hnodup⟩, rfl⟩

/-- In one tick each timer is visited once, and the calls come in the order of the list.
-/
theorem foldl_visit (hnodup : l.Nodup) :
    ∀ (m : ι → Timer γ) (called : List (ι × γ)),
      l.foldl (fun s i => visit i s) (m, called) =
        (l.foldl (fun m i => Function.update m i (visitTimer (m i)).1) m,
          called ++ l.flatMap fun i => (visitTimer (m i)).2.map fun c => (i, c)) := by
  induction l with
  | nil => simp
  | cons i l ih =>
      intro m called
      obtain ⟨hi, hl⟩ := List.nodup_cons.1 hnodup
      have hlater : (l.flatMap fun j => (visitTimer (Function.update m i
          (visitTimer (m i)).1 j)).2.map fun c => (j, c)) =
          l.flatMap fun j => (visitTimer (m j)).2.map fun c => (j, c) := by
        refine List.flatMap_congr fun j hj => ?_
        have hji : j ≠ i := by
          rintro rfl
          exact hi hj
        rw [Function.update_of_ne hji]
      rw [List.foldl_cons, visit, ih hl, List.foldl_cons, List.flatMap_cons,
        List.append_assoc, hlater]

theorem callsOf_append (i : ι) (c c' : List (ι × γ)) :
    callsOf i (c ++ c') = callsOf i c ++ callsOf i c' :=
  List.filterMap_append

theorem callsOf_map (i j : ι) (cs : List γ) :
    callsOf i (cs.map fun c => (j, c)) = if j = i then cs else [] := by
  unfold callsOf
  rw [List.filterMap_map]
  split
  · next h => simp [h]
  · next h => simp [h]

theorem callsOf_flatMap (i : ι) (hnodup : l.Nodup) (f : ι → List γ) :
    callsOf i (l.flatMap fun j => (f j).map fun c => (j, c)) =
      if i ∈ l then f i else [] := by
  induction l with
  | nil => rfl
  | cons j l ih =>
      obtain ⟨hj, hl⟩ := List.nodup_cons.1 hnodup
      rw [List.flatMap_cons, callsOf_append, callsOf_map, ih hl]
      by_cases hji : j = i
      · subst hji
        rw [if_pos rfl, if_neg hj, if_pos List.mem_cons_self, List.append_nil]
      · rw [if_neg hji, List.nil_append]
        simp [Ne.symm hji]

/-- A timer of the state, by itself. -/
def soloOf (i : ι) (s : SlowTimers ι γ) (l : List ι) : Solo γ :=
  ⟨decide (i ∈ l), s.timers i⟩

/-- The handler returns, and every timer has had its tick. -/
theorem Linked.tick (h : Linked s l) :
    ∃ s' disk called,
      (∀ fuel, l.length ≤ fuel → sysTickHandler fuel s = some (s', disk, called)) ∧
      Linked s' l ∧
      ∀ i, soloOf i s' l = (soloOf i s l).tick.1 ∧
        callsOf i called = (soloOf i s l).tick.2 := by
  have hvisit := foldl_visit h.nodup s.timers []
  refine
    ⟨{ s with
        millisTicks := int32 (s.millisTicks + 1)
        counter := if uint8 (s.counter + 1) > 99 then 0 else uint8 (s.counter + 1)
        timers := l.foldl (fun m i => Function.update m i (visitTimer (m i)).1) s.timers },
      decide (uint8 (s.counter + 1) > 99),
      l.flatMap fun i => (visitTimer (s.timers i)).2.map fun c => (i, c),
      fun fuel hfuel => ?_, ⟨h.chain, h.tail, h.nodup⟩, fun i => ⟨?_, ?_⟩⟩
  · unfold sysTickHandler
    rw [walk_eq_foldl h.chain visit hfuel, hvisit]
    simp
  · have htimer := foldl_update (fun t : Timer γ => (visitTimer t).1) h.nodup s.timers i
    unfold soloOf Solo.tick
    by_cases hi : i ∈ l
    · simp [hi, htimer]
    · simp [hi, htimer]
  · rw [callsOf_flatMap i h.nodup]
    unfold soloOf Solo.tick
    by_cases hi : i ∈ l
    · simp [hi]
    · simp [hi]

/-- In a schedule the handler returns at every tick, and every timer runs alone. -/
theorem run_solo :
    ∀ (ops : List (Op ι γ)) {s : SlowTimers ι γ} {l : List ι}, Linked s l →
      (l ++ added ops).Nodup →
      ∃ s' log,
        (∀ fuel, (l ++ added ops).length ≤ fuel → run fuel ops s = some (s', log)) ∧
        Linked s' (l ++ added ops) ∧
        ∀ i, soloRun i ops (soloOf i s l) =
          (soloOf i s' (l ++ added ops), log.map (callsOf i))
  | [], s, l, h, _ => by
      refine ⟨s, [], fun _ _ => rfl, ?_, fun i => ?_⟩
      · simpa [added] using h
      · simp [added, soloRun]
  | .add j :: ops, s, l, h, hnodup => by
      have hsplit : l ++ added (.add j :: ops) = (l ++ [j]) ++ added ops := by
        simp [added]
      rw [hsplit] at hnodup ⊢
      obtain ⟨hlinked, htimers⟩ := h.add (List.nodup_append.1 hnodup).1
      obtain ⟨s', log, hrun, hlinked', hsolo⟩ := run_solo ops hlinked hnodup
      refine ⟨s', log, hrun, hlinked', fun i => ?_⟩
      have happly :
          (soloOf i s l).apply i (.add j : Op ι γ) = soloOf i (addSlowTimer j s) (l ++ [j]) := by
        unfold Solo.apply soloOf
        rw [htimers]
        by_cases hji : j = i
        · simp [hji]
        · simp [hji, Ne.symm hji]
      rw [soloRun, happly, hsolo i]
      rfl
  | .start j interval callback :: ops, s, l, h, hnodup => by
      obtain ⟨s', log, hrun, hlinked', hsolo⟩ :=
        run_solo ops (s := startSlowTimer j interval callback s)
          ⟨h.chain, h.tail, h.nodup⟩ hnodup
      refine ⟨s', log, hrun, hlinked', fun i => ?_⟩
      have happly : (soloOf i s l).apply i (.start j interval callback) =
          soloOf i (startSlowTimer j interval callback s) l := by
        unfold Solo.apply soloOf startSlowTimer
        by_cases hji : j = i
        · subst hji
          simp
        · simp [hji, Function.update_of_ne (Ne.symm hji)]
      rw [soloRun, happly, hsolo i]
      rfl
  | .stop j :: ops, s, l, h, hnodup => by
      obtain ⟨s', log, hrun, hlinked', hsolo⟩ :=
        run_solo ops (s := stopSlowTimer j s) ⟨h.chain, h.tail, h.nodup⟩ hnodup
      refine ⟨s', log, hrun, hlinked', fun i => ?_⟩
      have happly : (soloOf i s l).apply i (.stop j : Op ι γ) =
          soloOf i (stopSlowTimer j s) l := by
        unfold Solo.apply soloOf stopSlowTimer
        by_cases hji : j = i
        · subst hji
          simp
        · simp [hji, Function.update_of_ne (Ne.symm hji)]
      rw [soloRun, happly, hsolo i]
      rfl
  | .tick :: ops, s, l, h, hnodup => by
      obtain ⟨s₁, disk, called, htick, hlinked, hone⟩ := h.tick
      obtain ⟨s', log, hrun, hlinked', hsolo⟩ := run_solo ops hlinked hnodup
      refine ⟨s', called :: log, fun fuel hfuel => ?_, hlinked', fun i => ?_⟩
      · have hl : l.length ≤ fuel := by
          rw [List.length_append] at hfuel
          omega
        rw [run, htick fuel hl]
        dsimp only
        rw [hrun fuel hfuel]
        rfl
      · obtain ⟨hstate, hcalls⟩ := hone i
        rw [soloRun, Solo.apply, ← hstate, hsolo i, Solo.calls, ← hcalls]
        rfl

/-! ## A timer by itself -/

/-- Whether an operation starts or stops a timer. -/
def Op.sets (i : ι) : Op ι γ → Bool
  | .start j _ _ => decide (j = i)
  | .stop j => decide (j = i)
  | _ => false

/-- Whether an operation starts a timer. -/
def Op.starts (i : ι) : Op ι γ → Bool
  | .start j _ _ => decide (j = i)
  | _ => false

/-- Whether an operation is one on a timer, or a tick. -/
def Op.concerns (i : ι) : Op ι γ → Bool
  | .add j => decide (j = i)
  | .start j _ _ => decide (j = i)
  | .stop j => decide (j = i)
  | .tick => true

theorem soloRun_append (i : ι) (ops ops' : List (Op ι γ)) (s : Solo γ) :
    soloRun i (ops ++ ops') s =
      ((soloRun i ops' (soloRun i ops s).1).1,
        (soloRun i ops s).2 ++ (soloRun i ops' (soloRun i ops s).1).2) := by
  induction ops generalizing s with
  | nil => rfl
  | cons op ops ih => simp [soloRun, ih]

theorem length_soloRun (i : ι) (ops : List (Op ι γ)) (s : Solo γ) :
    (soloRun i ops s).2.length = ticks ops := by
  induction ops generalizing s with
  | nil => rfl
  | cons op ops ih =>
      have hone : (s.calls op).length = if op matches .tick then 1 else 0 := by
        cases op <;> rfl
      rw [soloRun, List.length_append, ih, hone, ticks, ticks, List.countP_cons]
      cases op <;> simp [Nat.add_comm]

@[simp] theorem visitTimer_autoReload (t : Timer γ) :
    (visitTimer t).1.autoReload = t.autoReload := by
  unfold visitTimer
  dsimp only
  split_ifs <;> simp_all

@[simp] theorem Solo.tick_autoReload (s : Solo γ) :
    s.tick.1.timer.autoReload = s.timer.autoReload := by
  unfold Solo.tick
  split
  · exact visitTimer_autoReload s.timer
  · rfl

@[simp] theorem Solo.tick_linked (s : Solo γ) : s.tick.1.linked = s.linked := by
  unfold Solo.tick
  split <;> rfl

theorem autoReload_soloRun (i : ι) (ops : List (Op ι γ)) (s : Solo γ) :
    (soloRun i ops s).1.timer.autoReload = s.timer.autoReload := by
  induction ops generalizing s with
  | nil => rfl
  | cons op ops ih =>
      have hone : (s.apply i op).timer.autoReload = s.timer.autoReload := by
        cases op with
        | tick => exact s.tick_autoReload
        | _ =>
            simp only [Solo.apply]
            split <;> rfl
      rw [soloRun, ih, hone]

theorem linked_soloRun (i : ι) (ops : List (Op ι γ)) (s : Solo γ) :
    (soloRun i ops s).1.linked = (s.linked || decide (i ∈ added ops)) := by
  induction ops generalizing s with
  | nil => simp [soloRun, added]
  | cons op ops ih =>
      rw [soloRun, ih]
      cases op with
      | add j =>
          by_cases hji : j = i
          · simp [Solo.apply, added, hji]
          · simp [Solo.apply, added, hji, Ne.symm hji]
      | tick => simp [Solo.apply, added]
      | _ =>
          simp only [Solo.apply, added]
          split <;> rfl

/-- Between the operations that set it, a timer goes from tick to tick. -/
theorem soloRun_untouched {i : ι} {ops : List (Op ι γ)}
    (hops : ∀ op ∈ ops, op.sets i = false) {s : Solo γ} (hlinked : s.linked = true) :
    soloRun i ops s =
      (⟨true, (fun t => (visitTimer t).1)^[ticks ops] s.timer⟩,
        (List.range (ticks ops)).map fun k =>
          (visitTimer ((fun t => (visitTimer t).1)^[k] s.timer)).2) := by
  induction ops generalizing s with
  | nil =>
      obtain ⟨linked, timer⟩ := s
      obtain rfl : linked = true := hlinked
      rfl
  | cons op ops ih =>
      obtain ⟨hop, hrest⟩ := List.forall_mem_cons.1 hops
      cases op with
      | tick =>
          have hticks : ticks (.tick :: ops) = ticks ops + 1 := by simp [ticks]
          have htick : s.tick = (⟨true, (visitTimer s.timer).1⟩, (visitTimer s.timer).2) := by
            rw [Solo.tick, if_pos hlinked, hlinked]
          rw [soloRun, Solo.apply, Solo.calls, htick, ih hrest rfl, hticks,
            Function.iterate_succ_apply, List.range_succ_eq_map, List.map_cons,
            List.map_map]
          rfl
      | add j =>
          have happly : (s.apply i (.add j : Op ι γ)) = s := by
            unfold Solo.apply
            dsimp only
            split
            · rw [← hlinked]
            · rfl
          rw [soloRun, happly, ih hrest hlinked]
          rfl
      | start j interval callback =>
          have hji : j ≠ i := by simpa [Op.sets] using hop
          rw [soloRun, Solo.apply, if_neg hji, ih hrest hlinked]
          rfl
      | stop j =>
          have hji : j ≠ i := by simpa [Op.sets] using hop
          rw [soloRun, Solo.apply, if_neg hji, ih hrest hlinked]
          rfl

/-- A timer that is not running calls nothing until it is started. -/
theorem soloRun_stopped {i : ι} {ops : List (Op ι γ)}
    (hops : ∀ op ∈ ops, op.starts i = false) {s : Solo γ}
    (hstopped : s.timer.running = false) :
    ∀ called ∈ (soloRun i ops s).2, called = [] := by
  have hvisit : ∀ t : Timer γ, t.running = false → visitTimer t = (t, []) := by
    intro t ht
    rw [visitTimer, if_neg (by simp [ht])]
  induction ops generalizing s with
  | nil => simp [soloRun]
  | cons op ops ih =>
      obtain ⟨hop, hops⟩ := List.forall_mem_cons.1 hops
      have htick : s.tick = (s, []) := by
        unfold Solo.tick
        rw [hvisit s.timer hstopped]
        split <;> rfl
      have hcalls : ∀ called ∈ s.calls op, called = [] := by
        cases op with
        | tick => simp [Solo.calls, htick]
        | _ => simp [Solo.calls]
      have happly : (s.apply i op).timer.running = false := by
        cases op with
        | tick => rw [Solo.apply, htick, hstopped]
        | start j interval callback =>
            have hji : j ≠ i := by simpa [Op.starts] using hop
            rw [Solo.apply, if_neg hji, hstopped]
        | _ =>
            simp only [Solo.apply]
            split
            · first | exact hstopped | rfl
            · exact hstopped
      rw [soloRun, List.forall_mem_append]
      exact ⟨hcalls, ih hops happly⟩

/-- The operations on other timers make no difference to a timer. -/
theorem soloRun_filter (i : ι) (ops : List (Op ι γ)) (s : Solo γ) :
    soloRun i (ops.filter (Op.concerns i)) s = soloRun i ops s := by
  induction ops generalizing s with
  | nil => rfl
  | cons op ops ih =>
      by_cases hop : op.concerns i = true
      · rw [List.filter_cons_of_pos hop, soloRun, soloRun, ih]
      · have happly : s.apply i op = s ∧ s.calls op = [] := by
          cases op with
          | tick => exact absurd rfl hop
          | _ =>
              have hji := of_decide_eq_false (Bool.eq_false_of_not_eq_true hop)
              exact ⟨if_neg hji, rfl⟩
        rw [List.filter_cons_of_neg hop, ih, soloRun, happly.1, happly.2]
        rfl

/-! ## Exact time -/

/-- Whether a timer started with an interval fires at a tick, the first one being
number 1. -/
def due (autoReload : Bool) (n k : Nat) : Bool :=
  if autoReload then decide (n ∣ k) else decide (k = n)

/-- A timer so many ticks after it was started. -/
def after (t : Timer γ) (n : Nat) (callback : Option γ) (k : Nat) : Timer γ :=
  { t with
    timerCallback := callback
    current := if t.autoReload then n - k % n else n - k
    reload := n
    running := t.autoReload || decide (k < n)
    expired := decide (n ≤ k) }

theorem startTimer_eq_after (t : Timer γ) {n : Nat} (hn : 1 ≤ n) (callback : Option γ) :
    startTimer n callback t = after t n callback 0 := by
  have hpos : 0 < n := hn
  simp [startTimer, after, hpos, Nat.ne_of_gt hpos]

theorem succ_mod_cases {n : Nat} (hn : 1 ≤ n) (k : Nat) :
    n ∣ k + 1 ∧ k % n + 1 = n ∧ (k + 1) % n = 0 ∨
      ¬n ∣ k + 1 ∧ k % n + 1 < n ∧ (k + 1) % n = k % n + 1 := by
  have hmod : (k + 1) % n = (k % n + 1) % n := (Nat.mod_add_mod k n 1).symm
  have hlt := Nat.mod_lt k hn
  rw [Nat.dvd_iff_mod_eq_zero, hmod]
  rcases Nat.lt_or_ge (k % n + 1) n with hk | hk
  · rw [Nat.mod_eq_of_lt hk]
    exact .inr ⟨by omega, hk, rfl⟩
  · have heq : k % n + 1 = n := by omega
    rw [heq, Nat.mod_self]
    exact .inl ⟨rfl, rfl, rfl⟩

/-- What `Current` has to do with the ticks since the start. -/
theorem visitTimer_after (t : Timer γ) {n : Nat} (hn : 1 ≤ n) (callback : Option γ)
    (k : Nat) :
    visitTimer (after t n callback k) =
      (after t n callback (k + 1),
        if due t.autoReload n (k + 1) then callback.toList else []) := by
  cases hauto : t.autoReload with
  | true =>
      rcases succ_mod_cases hn k with ⟨hdvd, hk, hmod⟩ | ⟨hdvd, hk, hmod⟩
      · have hpos : 0 < n - k % n := by omega
        have hcurrent : n - k % n - 1 = 0 := by omega
        have hle : n ≤ k + 1 := Nat.le_of_dvd (by omega) hdvd
        simp [visitTimer, after, due, hauto, hpos, hdvd, hcurrent, hmod, hle]
      · have hpos : 0 < n - k % n := by omega
        have hcurrent : n - (k % n + 1) ≠ 0 := by omega
        have hexpired : n ≤ k ↔ n ≤ k + 1 := by
          have hne : n ≠ k + 1 := by
            rintro rfl
            exact hdvd dvd_rfl
          omega
        simp [visitTimer, after, due, hauto, hpos, hdvd, hcurrent, hmod, hexpired,
          Nat.sub_sub]
  | false =>
      rcases Nat.lt_trichotomy (k + 1) n with hk | hk | hk
      · have hrunning : k < n := by omega
        have hcurrent : n - (k + 1) ≠ 0 := by omega
        have hexpired : ¬n ≤ k := by omega
        have hexpired' : ¬n ≤ k + 1 := by omega
        simp [visitTimer, after, due, hauto, hk, hk.ne, hrunning, hcurrent, hexpired,
          hexpired', Nat.sub_sub]
      · subst hk
        simp [visitTimer, after, due, hauto]
      · have hstopped : ¬k < n := by omega
        have hstopped' : ¬k + 1 < n := by omega
        have hcurrent : n - k = n - (k + 1) := by omega
        have hexpired : n ≤ k := by omega
        have hexpired' : n ≤ k + 1 := by omega
        simp [visitTimer, after, due, hauto, hk.ne', hstopped, hstopped', hexpired,
          hexpired', hcurrent]

/-- A timer that is started while it is in the list, until it is set again. -/
theorem soloRun_started {i : ι} {ops : List (Op ι γ)}
    (hops : ∀ op ∈ ops, op.sets i = false) {s : Solo γ} (hlinked : s.linked = true)
    {n : Nat} (hn : 1 ≤ n) (callback : Option γ) :
    soloRun i (.start i n callback :: ops) s =
      (⟨true, after s.timer n callback (ticks ops)⟩,
        (List.range (ticks ops)).map fun k =>
          if due s.timer.autoReload n (k + 1) then callback.toList else []) := by
  have hiterate : ∀ k, (fun t => (visitTimer t).1)^[k] (startTimer n callback s.timer) =
      after s.timer n callback k := by
    intro k
    induction k with
    | zero => exact startTimer_eq_after s.timer hn callback
    | succ k ih => rw [Function.iterate_succ_apply', ih, visitTimer_after s.timer hn]
  have hlinked' : (⟨s.linked, startTimer n callback s.timer⟩ : Solo γ).linked = true := hlinked
  rw [soloRun, Solo.apply, if_pos rfl, soloRun_untouched hops hlinked']
  simp only [hiterate, visitTimer_after s.timer hn]
  rfl

/-! ## Schedules of many timers -/

/-- The handler returns at every tick of a schedule, and these are the timers and the
functions called. -/
def Returns (ops : List (Op ι γ)) (s s' : SlowTimers ι γ) (log : List (List (ι × γ))) :
    Prop :=
  ∃ enough, ∀ fuel, enough ≤ fuel → run fuel ops s = some (s', log)

theorem length_run {fuel : Nat} {ops : List (Op ι γ)} {s s' : SlowTimers ι γ}
    {log : List (List (ι × γ))} (h : run fuel ops s = some (s', log)) :
    log.length = ticks ops := by
  induction ops generalizing s log with
  | nil =>
      cases h
      rfl
  | cons op ops ih =>
      cases op with
      | tick =>
          rw [run] at h
          split at h
          · obtain ⟨⟨s₁, rest⟩, hrest, heq⟩ := Option.map_eq_some_iff.1 h
            cases heq
            rw [List.length_cons, ih hrest]
            simp [ticks]
          · cases h
      | _ => exact ih h

/-- The timers keep time in a schedule. -/
structure KeepsTime (timers : ι → Timer γ) (ops : List (Op ι γ)) (s' : SlowTimers ι γ)
    (log : List (List (ι × γ))) : Prop where
  /-- Every tick has been served. -/
  served : log.length = ticks ops
  /-- A timer fires when it is due, and a timer that is not reloaded then stops. -/
  started : ∀ before i n callback rest,
    ops = before ++ .start i n callback :: rest → i ∈ added before → 1 ≤ n →
    (∀ op ∈ rest, op.sets i = false) →
      (∀ k < ticks rest, log[ticks before + k]?.map (callsOf i) =
        some (if due (timers i).autoReload n (k + 1) then callback.toList else [])) ∧
      (s'.timers i).running = ((timers i).autoReload || decide (ticks rest < n))
  /-- A timer that is stopped does not fire. -/
  stopped : ∀ before i rest, ops = before ++ .stop i :: rest →
    (∀ op ∈ rest, op.starts i = false) →
      ∀ called ∈ log.drop (ticks before), callsOf i called = []

theorem keepsTime {timers : ι → Timer γ} {ops : List (Op ι γ)} {s' : SlowTimers ι γ}
    {log : List (List (ι × γ))} (hserved : log.length = ticks ops)
    (hsolo : ∀ i, soloRun i ops ⟨false, timers i⟩ =
      (soloOf i s' (added ops), log.map (callsOf i))) :
    KeepsTime timers ops s' log := by
  refine ⟨hserved, ?_, ?_⟩
  · rintro before i n callback rest rfl hi hn hrest
    have h := hsolo i
    have hlinked : (soloRun i before ⟨false, timers i⟩).1.linked = true := by
      rw [linked_soloRun]
      simpa using hi
    have hauto := autoReload_soloRun i before ⟨false, timers i⟩
    rw [soloRun_append, soloRun_started hrest hlinked hn, hauto] at h
    obtain ⟨hstate, hlog⟩ := Prod.mk.inj h
    refine ⟨fun k hk => ?_, ?_⟩
    · rw [← List.getElem?_map, ← hlog, List.getElem?_append_right (by rw [length_soloRun]; omega),
        length_soloRun, Nat.add_sub_cancel_left]
      simp [hk]
    · have hrunning := congrArg (fun s : Solo γ => s.timer.running) hstate
      rw [← show _ = (s'.timers i).running from hrunning]
      simp [after, hauto]
  · rintro before i rest rfl hrest called hcalled
    have h := hsolo i
    rw [soloRun_append] at h
    have hlog := (Prod.mk.inj h).2
    have hmem : callsOf i called ∈ (log.map (callsOf i)).drop (ticks before) := by
      rw [← List.map_drop]
      exact List.mem_map_of_mem hcalled
    rw [← hlog, List.drop_left' (length_soloRun i before _), soloRun] at hmem
    refine soloRun_stopped hrest ?_ _ hmem
    rw [Solo.apply, if_pos rfl]

/-- The timers keep exact time, independently of each other. -/
theorem slow_timers (pNext : ι → Option ι) (timers : ι → Timer γ) {ops : List (Op ι γ)}
    (hadd : (added ops).Nodup) :
    ∃ s' log, Returns ops (powerUp pNext timers) s' log ∧ KeepsTime timers ops s' log ∧
      ∀ i ops', (added ops').Nodup →
        ops'.filter (Op.concerns i) = ops.filter (Op.concerns i) →
          ∃ s'' log', Returns ops' (powerUp pNext timers) s'' log' ∧
            s''.timers i = s'.timers i ∧ log'.map (callsOf i) = log.map (callsOf i) := by
  obtain ⟨s', log, hrun, _, hsolo⟩ := run_solo ops (linked_powerUp pNext timers) hadd
  refine ⟨s', log, ⟨_, hrun⟩, keepsTime (length_run (hrun _ le_rfl)) hsolo, ?_⟩
  intro i ops' hadd' hfilter
  obtain ⟨s'', log', hrun', _, hsolo'⟩ := run_solo ops' (linked_powerUp pNext timers) hadd'
  refine ⟨s'', log', ⟨_, hrun'⟩, ?_⟩
  have hboth := hsolo i
  rw [← soloRun_filter, ← hfilter, soloRun_filter, hsolo' i] at hboth
  obtain ⟨hstate, hlog⟩ := Prod.mk.inj hboth
  exact ⟨congrArg Solo.timer hstate, hlog⟩

end Alone

/-- A one-shot timer and a reloaded one, started a tick apart. -/
def twoTimers : List (Op Nat Char) :=
  [.add 0, .add 1, .start 0 2 (some 'a'), .tick, .start 1 2 (some 'b'), .tick, .tick,
    .tick, .tick]

theorem slow_timers_two :
    ∃ s' log,
      Returns twoTimers
        (powerUp (fun _ => none) fun i => ⟨none, 0, 0, false, false, decide (i = 1)⟩)
        s' log ∧
      log[4]?.map (callsOf 1) = some ['b'] ∧ (s'.timers 1).running = true := by
  obtain ⟨s', log, hreturns, hkeeps, _⟩ :=
    slow_timers (fun _ => none)
      (fun i => ⟨none, 0, 0, false, false, decide (i = 1)⟩)
      (show (added twoTimers).Nodup by decide)
  obtain ⟨hfires, hrunning⟩ := hkeeps.started
    [.add 0, .add 1, .start 0 2 (some 'a'), .tick] 1 2 (some 'b')
    [.tick, .tick, .tick, .tick] rfl (by decide) (by decide) (by simp [Op.sets])
  exact ⟨s', log, hreturns, hfires 3 (by decide), hrunning⟩

end R2C2Firmware.Ports.SlowTimer
