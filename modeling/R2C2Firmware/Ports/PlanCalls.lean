import R2C2Firmware.Verified.Watch
import R2C2Firmware.Ports.CommandFrame

/-!
# The calls of the planner

The commands that queue something, with every call of `plan_buffer_action`
noted: once where the call begins, and once where the wait for room is over and
the block is written.  Everything a command does to the plan it does there, so
`planEvents` has every call of `plan_buffer_line`, `plan_buffer_wait` and, behind
them, `planner_recalculate` that a line makes.  The calls of `synch_queue` are
noted too: with those of `plan_buffer_action` they are all a line can wait for,
but for the buzzer.

## Main results

* `watches_processGcodeCommand` — the record apart, the commands are those of
  `process_gcode_command`.
* `CallFrame.processGcodeCommand` — what holds across every call holds across
  every command.
-/

set_option linter.unusedSectionVars false

namespace R2C2Firmware.Ports.PlanCalls

open R2C2Firmware.Verified
open R2C2Firmware.Verified.Number
open R2C2Firmware.Verified.BusyWait
open R2C2Firmware.Ports.Config
open R2C2Firmware.Ports.MotionPlanner
open R2C2Firmware.Ports.Stepper
open R2C2Firmware.Ports.Temp
open R2C2Firmware.Ports.GcodeParse
open R2C2Firmware.Ports.Mendel (Platform Firmware Irq FwM serveIrq)
open R2C2Firmware.Ports.GcodeProcess
open R2C2Firmware.Ports.MainLoop

variable {R σ : Type} [Field R] [LinearOrder R] [HasSqrt R] [FloorRing R]

/-- A call of the planner, with the firmware at that point. -/
inductive PlanEvent (R σ : Type) where
  /-- the call -/
  | called (fw : Firmware R σ) (request : ActionRequest R)
  /-- there is room for the block -/
  | queued (fw : Firmware R σ) (request : ActionRequest R)
  /-- a call of `synch_queue` -/
  | synched (fw : Firmware R σ)

/-- A handler with its calls noted. -/
abbrev PlanM (R σ α : Type) := Prog (Watched (Firmware R σ) (PlanEvent R σ)) Irq α

/-- `plan_buffer_action` -/
def planBufferAction (P : Platform σ) (request : ActionRequest R) :
    PlanM R σ Unit := do
  note (.called · request)
  plain (spinUntil (serveIrq P) fun fw => !planQueueFull fw.machine.planner)
  note (.queued · request)
  plain (modify fun fw => { fw with machine := bufferAction request fw.machine })

/-- `synch_queue` -/
def synchQueue (P : Platform σ) : PlanM R σ Unit := do
  note .synched
  plain (Mendel.synchQueue P)

/-! ## Moves -/

/-- `enqueue_moved` -/
def enqueueMoved (P : Platform σ) (t : Target R) : PlanM R σ Unit := do
  let fw ← plain get
  if Mendel.departs t fw then planBufferAction P (Mendel.moveRequest t fw)
  else plain (Mendel.onPlanner fun _ => planSetFeedRate t)

/-- `enqueue_wait_temp` -/
def enqueueWaitTemp (P : Platform σ) : PlanM R σ Unit :=
  planBufferAction P waitRequest

/-- A move that stops at the endstops. -/
def specialMove (P : Platform σ) (t : Target R) (feedRate : R) :
    PlanM R σ Unit :=
  planBufferAction P
    { actionType := .moveEndstop
      target := { t with feedRate, invertFeedRate := false } }

/-- `SpecialMoveXY` -/
def specialMoveXY (P : Platform σ) (x y f : R) : PlanM R σ Unit := do
  let fw ← plain get
  specialMove P { fw.startpoint with x, y } f

/-- `SpecialMoveZ` -/
def specialMoveZ (P : Platform σ) (z f : R) : PlanM R σ Unit := do
  let fw ← plain get
  specialMove P { fw.startpoint with z } f

/-- `SpecialMoveE` -/
def specialMoveE (P : Platform σ) (e feedRate : R) : PlanM R σ Unit := do
  let fw ← plain get
  if fw.config.enableExtruder1 ≠ 0 then
    enqueueMoved P (Mendel.extrusion e feedRate fw)

/-- `zero_x` -/
def zeroX (P : Platform σ) : PlanM R σ Unit := do
  let fw ← plain get
  specialMoveXY P (fw.startpoint.x - 300) fw.startpoint.y
    (fw.config.homingFeedrateX : R)
  synchQueue P
  let fw ← plain get
  specialMoveXY P (fw.startpoint.x + 3) fw.startpoint.y
    (fw.config.searchFeedrate .x : R)
  let fw ← plain get
  specialMoveXY P (fw.startpoint.x - 6) fw.startpoint.y
    (fw.config.searchFeedrate .x : R)
  synchQueue P
  let fw ← plain get
  plain (Mendel.setCurrentPosition
    { fw.startpoint with x := (fw.config.homePosX : R) })

/-- `zero_y` -/
def zeroY (P : Platform σ) : PlanM R σ Unit := do
  let fw ← plain get
  let dir : R := if fw.config.homeDirectionY < 0 then -1 else 1
  specialMoveXY P fw.startpoint.x (fw.startpoint.y + dir * 250)
    (fw.config.homingFeedrateY : R)
  synchQueue P
  let fw ← plain get
  specialMoveXY P fw.startpoint.x (fw.startpoint.y - dir * 3)
    (fw.config.searchFeedrate .y : R)
  let fw ← plain get
  specialMoveXY P fw.startpoint.x (fw.startpoint.y + dir * 6)
    (fw.config.searchFeedrate .y : R)
  synchQueue P
  let fw ← plain get
  plain (Mendel.setCurrentPosition
    { fw.startpoint with y := (fw.config.homePosY : R) })

/-- `zero_z` -/
def zeroZ (P : Platform σ) : PlanM R σ Unit := do
  let fw ← plain get
  specialMoveZ P (fw.startpoint.z - 250) (fw.config.homingFeedrateZ : R)
  synchQueue P
  let fw ← plain get
  specialMoveZ P (fw.startpoint.z + 1) (fw.config.searchFeedrate .z : R)
  synchQueue P
  let fw ← plain get
  specialMoveZ P (fw.startpoint.z - 6) (fw.config.searchFeedrate .z : R)
  synchQueue P
  let fw ← plain get
  plain (Mendel.setCurrentPosition
    { fw.startpoint with z := (fw.config.homePosZ : R) })

/-! ## Commands -/

/-- Home every axis, after clearing the Z endstop. -/
def homeAll (P : Platform σ) : PlanM R σ Unit := do
  let fw ← plain get
  enqueueMoved P
    { fw.startpoint with
      z := fw.startpoint.z + 3
      feedRate := (fw.config.homingFeedrateZ : R) }
  zeroX P
  zeroY P
  zeroZ P
  plain Mendel.zeroE

/-- `G28` -/
def g28 (P : Platform σ) (c : GcodeCommand R) : PlanM R σ Unit := do
  when c.seenX (zeroX P)
  when c.seenY (zeroY P)
  when c.seenZ (zeroZ P)
  when c.seenE (plain Mendel.zeroE)
  when (noAxis c) (homeAll P)

/-- `G0` -/
def g0 (P : Platform σ) (c : GcodeCommand R) : PlanM R σ Unit := do
  let fw ← plain get
  enqueueMoved P (g0Target c fw)

/-- `G1` -/
def g1 (P : Platform σ) (c : GcodeCommand R) : PlanM R σ Unit := do
  let fw ← plain get
  enqueueMoved P (g1Target c fw)

/-- `G4` -/
def g4 (P : Platform σ) (c : GcodeCommand R) : PlanM R σ Unit := do
  synchQueue P
  plain (Mendel.delayMs c.p)

/-- `G92` -/
def g92 (P : Platform σ) (c : GcodeCommand R) : PlanM R σ Unit := do
  synchQueue P
  let fw ← plain get
  plain (Mendel.setCurrentPosition (g92Position c fw.startpoint))

/-- `G30`, which goes on as `G28`. -/
def g30 (P : Platform σ) (c : GcodeCommand R) : PlanM R σ Unit := do
  let fw ← plain get
  enqueueMoved P (nextTargetd c fw.startpoint)
  g28 P c

/-- `M101` -/
def m101 (P : Platform σ) : PlanM R σ Unit := do
  plain (modify fun fw => { fw with extrudersOn := 1 })
  let fw ← plain get
  when (fw.autoPrimeSteps ≠ 0)
    (specialMoveE P ((fw.autoPrimeSteps : R) / 640) 18000)

/-- `M103` -/
def m103 (P : Platform σ) : PlanM R σ Unit := do
  plain (modify fun fw => { fw with extrudersOn := 0 })
  let fw ← plain get
  when (fw.autoReverseSteps ≠ 0)
    (specialMoveE P (-(fw.autoReverseSteps : R) / 640) 18000)

/-- `M104` -/
def m104 (P : Platform σ) (c : GcodeCommand R) : PlanM R σ Unit := do
  let fw ← plain get
  when (fw.config.enableExtruder1 ≠ 0) do
    plain (Mendel.tempSet (uint16 c.s) .extruder0)
    when (fw.config.waitOnTemp ≠ 0) (enqueueWaitTemp P)

/-- `M109` -/
def m109 (P : Platform σ) (c : GcodeCommand R) : PlanM R σ Unit := do
  let fw ← plain get
  when (fw.config.enableExtruder1 ≠ 0) do
    plain (Mendel.tempSet (uint16 c.s) .extruder0)
    enqueueWaitTemp P

/-- `M542` -/
def m542 (P : Platform σ) (c : GcodeCommand R) : PlanM R σ Unit := do
  let fw ← plain get
  let cfg := fw.config
  when (cfg.haveRestPos ≠ 0) do
    let above : Target R :=
      { fw.startpoint with
        z := 2
        feedRate := (cfg.maximumFeedrate .z : R) }
    let low := decide (fw.startpoint.z < 2)
    when low (enqueueMoved P above)
    let fw' ← plain get
    enqueueMoved P
      { (if low then above else nextTargetd c fw.startpoint) with
        x := (cfg.restPosX : R)
        y := (cfg.restPosY : R)
        z := fw'.startpoint.z
        feedRate := (cfg.maximumFeedrate .x : R) }

/-- `M551` -/
def m551 (P : Platform σ) (c : GcodeCommand R) : PlanM R σ Unit :=
  when (c.seenS && c.seenP)
    (specialMoveE P ((c.p : R) / 256) (c.s : R))

/-- The cases of the switch over `next_target.G`. -/
def processG (P : Platform σ) (c : GcodeCommand R) :
    GCode → PlanM R σ (Outcome R)
  | .g0 => do g0 P c; return .plain
  | .g1 => do g1 P c; return .plain
  | .g4 => do g4 P c; return .plain
  | .g28 => do g28 P c; return .plain
  | .g30 => do g30 P c; return .plain
  | .g92 => do g92 P c; return .plain
  | code => plain (GcodeProcess.processG P c code)

/-- The cases of the switch over `next_target.M`. -/
def processM (P : Platform σ) (c : GcodeCommand R) :
    MCode → PlanM R σ (Outcome R)
  | .m101 => do m101 P; return .plain
  | .m103 => do m103 P; return .plain
  | .m104 => do m104 P c; return .plain
  | .m109 => do m109 P c; return .plain
  | .m542 => do m542 P c; return .plain
  | .m551 => do m551 P c; return .plain
  | code => plain (GcodeProcess.processM P c code)

/-- The switches of `process_gcode_command`. -/
def runCommand (P : Platform σ) (c : GcodeCommand R) : PlanM R σ (Outcome R) :=
  match commandOf c with
  | .g code => processG P c code
  | .m code => processM P c code
  | _ => plain (GcodeProcess.runCommand P c)

/-- `process_gcode_command` -/
def processGcodeCommand (P : Platform σ) (c : GcodeCommand R) :
    PlanM R σ (Change R) := do
  let out ← runCommand P c
  plain (when (!out.replySent) (Mendel.serialWritestr "ok\r\n"))
  return out.change

/-- The calls a line makes while the interrupts given arrive. -/
def planEvents (P : Platform σ) (s : Session R σ) (data : List UInt8)
    (irqs : List Irq) : List (PlanEvent R σ) :=
  if Processes s data then
    (processGcodeCommand P (parsed s data) ⟨⟨s.fw, []⟩, irqs⟩).2.state.events
  else []

/-! ## The record apart -/

section Watches

variable {P : Platform σ}

theorem watches_get :
    Watches (plain get : PlanM R σ (Firmware R σ)) (get : FwM R σ _) :=
  watches_plain _

/-- Recording the request does not change what waiting for room and buffering it does.
-/
theorem watches_planBufferAction (request : ActionRequest R) :
    Watches (planBufferAction P request)
      (Mendel.planBufferActionWait P request) :=
  ((watches_plain _).bind fun _ => (watches_plain _).noted _).noted _

theorem watches_synchQueue :
    Watches (synchQueue (R := R) P) (Mendel.synchQueue P) :=
  (watches_plain _).noted _

/-- The recorded `enqueue_moved` is the one of the command layer. -/
theorem watches_enqueueMoved (t : Target R) :
    Watches (enqueueMoved P t) (Mendel.enqueueMoved P t) :=
  watches_get.bind fun _ =>
    (watches_planBufferAction _).ite (watches_plain _)

/-- The recorded homing move along X and Y is the one of the command layer. -/
theorem watches_specialMoveXY (x y f : R) :
    Watches (specialMoveXY P x y f) (Mendel.specialMoveXY P x y f) :=
  watches_get.bind fun _ => watches_planBufferAction _

theorem watches_specialMoveZ (z f : R) :
    Watches (specialMoveZ P z f) (Mendel.specialMoveZ P z f) :=
  watches_get.bind fun _ => watches_planBufferAction _

theorem watches_specialMoveE (e f : R) :
    Watches (specialMoveE P e f) (Mendel.specialMoveE P e f) :=
  watches_get.bind fun _ => (watches_enqueueMoved _).ite (Watches.pure ())

theorem watches_zeroX : Watches (zeroX (R := R) P) (Mendel.zeroX P) :=
  watches_get.bind fun _ => (watches_specialMoveXY _ _ _).bind fun _ =>
    watches_synchQueue.bind fun _ =>
    watches_get.bind fun _ => (watches_specialMoveXY _ _ _).bind fun _ =>
    watches_get.bind fun _ => (watches_specialMoveXY _ _ _).bind fun _ =>
    watches_synchQueue.bind fun _ => watches_get.bind fun _ => watches_plain _

theorem watches_zeroY : Watches (zeroY (R := R) P) (Mendel.zeroY P) :=
  watches_get.bind fun _ => (watches_specialMoveXY _ _ _).bind fun _ =>
    watches_synchQueue.bind fun _ =>
    watches_get.bind fun _ => (watches_specialMoveXY _ _ _).bind fun _ =>
    watches_get.bind fun _ => (watches_specialMoveXY _ _ _).bind fun _ =>
    watches_synchQueue.bind fun _ => watches_get.bind fun _ => watches_plain _

theorem watches_zeroZ : Watches (zeroZ (R := R) P) (Mendel.zeroZ P) :=
  watches_get.bind fun _ => (watches_specialMoveZ _ _).bind fun _ =>
    watches_synchQueue.bind fun _ =>
    watches_get.bind fun _ => (watches_specialMoveZ _ _).bind fun _ =>
    watches_synchQueue.bind fun _ =>
    watches_get.bind fun _ => (watches_specialMoveZ _ _).bind fun _ =>
    watches_synchQueue.bind fun _ => watches_get.bind fun _ => watches_plain _

/-- Homing all axes plans through the recorded calls, and does otherwise what it did. -/
theorem watches_homeAll : Watches (homeAll (R := R) P) (GcodeProcess.homeAll P) :=
  watches_get.bind fun _ => (watches_enqueueMoved _).bind fun _ =>
    watches_zeroX.bind fun _ => watches_zeroY.bind fun _ =>
    watches_zeroZ.bind fun _ => watches_plain _

/-- The recorded `G28` is the one of the command layer, for each choice of axes. -/
theorem watches_g28 (c : GcodeCommand R) :
    Watches (g28 P c) (GcodeProcess.g28 P c) :=
  (watches_zeroX.when _).bind fun _ => (watches_zeroY.when _).bind fun _ =>
    (watches_zeroZ.when _).bind fun _ =>
    ((watches_plain _).when _).bind fun _ => watches_homeAll.when _

theorem watches_m104 (c : GcodeCommand R) :
    Watches (m104 P c) (GcodeProcess.m104 P c) :=
  watches_get.bind fun _ => Watches.when
    ((watches_plain _).bind fun _ => (watches_planBufferAction _).when _) _

theorem watches_m109 (c : GcodeCommand R) :
    Watches (m109 P c) (GcodeProcess.m109 P c) :=
  watches_get.bind fun _ => Watches.when
    ((watches_plain _).bind fun _ => watches_planBufferAction _) _

theorem watches_m542 (c : GcodeCommand R) :
    Watches (m542 P c) (GcodeProcess.m542 P c) :=
  watches_get.bind fun _ => Watches.when
    (((watches_enqueueMoved _).when _).bind fun _ =>
      watches_get.bind fun _ => watches_enqueueMoved _) _

/-- Every G command does what it does in the command layer, and its requests are on
record. -/
theorem watches_processG (c : GcodeCommand R) (code : GCode) :
    Watches (processG P c code) (GcodeProcess.processG P c code) := by
  cases code with
  | g0 | g1 =>
      exact Watches.return (watches_get.bind fun _ => watches_enqueueMoved _) _
  | g4 =>
      exact Watches.return (watches_synchQueue.bind fun _ => watches_plain _) _
  | g28 => exact (watches_g28 c).return _
  | g30 =>
      exact Watches.return (watches_get.bind fun _ =>
        (watches_enqueueMoved _).bind fun _ => watches_g28 c) _
  | g92 =>
      exact Watches.return (watches_synchQueue.bind fun _ =>
        watches_get.bind fun _ => watches_plain _) _
  | g20 | g21 | g90 | g91 => exact watches_plain _

/-- Every M command does what it does in the command layer, and its requests are on
record. -/
theorem watches_processM (c : GcodeCommand R) (code : MCode) :
    Watches (processM P c code) (GcodeProcess.processM P c code) := by
  cases code with
  | m101 | m103 =>
      exact Watches.return ((watches_plain _).bind fun _ =>
        watches_get.bind fun _ => (watches_specialMoveE _ _).when _) _
  | m104 => exact (watches_m104 c).return _
  | m109 => exact (watches_m109 c).return _
  | m542 => exact (watches_m542 c).return _
  | m551 => exact Watches.return ((watches_specialMoveE _ _).when _) _
  | _ => exact watches_plain _

/-- The commands are those of the firmware. -/
theorem watches_processGcodeCommand (c : GcodeCommand R) :
    Watches (processGcodeCommand P c) (GcodeProcess.processGcodeCommand P c) := by
  have hrun : Watches (runCommand P c) (GcodeProcess.runCommand P c) := by
    cases hcmd : commandOf c with
    | g code =>
        rw [runCommand, GcodeProcess.runCommand, hcmd]
        exact watches_processG c code
    | m code =>
        rw [runCommand, GcodeProcess.runCommand, hcmd]
        exact watches_processM c code
    | _ =>
        rw [runCommand, hcmd]
        exact watches_plain _
  exact hrun.bind fun _ => Watches.return (watches_plain _) _

end Watches

/-! ## Calls that need not wait -/

section Room

variable {P : Platform σ} {request : ActionRequest R} {irqs : List Irq}
  {s : Watched (Firmware R σ) (PlanEvent R σ)}

/-- With room in the queue a request is buffered at once, and no interrupt is served. -/
theorem planBufferAction_of_room
    (hroom : planQueueFull s.state.machine.planner = false) :
    planBufferAction P request ⟨s, irqs⟩ =
      (some (),
        ⟨⟨{ s.state with machine := bufferAction request s.state.machine },
          .queued s.state request :: .called s.state request :: s.events⟩,
          irqs⟩) := by
  have hspin : spinUntil (serveIrq P)
      (fun fw : Firmware R σ => !planQueueFull fw.machine.planner)
      ⟨s.state, irqs⟩ = (some (), ⟨s.state, irqs⟩) :=
    spinUntil_of (by simp [hroom])
  unfold planBufferAction
  show (plain (spinUntil (serveIrq P)
    (fun fw : Firmware R σ => !planQueueFull fw.machine.planner)) >>= _ :
      PlanM R σ Unit) _ = _
  rw [bind_apply]
  unfold plain World.unwatch
  dsimp only
  rw [hspin]
  rfl

/-- The calls of a `G1` that finds room in the queue. -/
theorem planEvents_g1 {s : Session R σ} {data : List UInt8}
    (hproc : Processes s data) (hcmd : commandOf (parsed s data) = .g .g1)
    (hdeparts : Mendel.departs (g1Target (parsed s data) s.fw) s.fw = true)
    (hroom : planQueueFull s.fw.machine.planner = false) :
    planEvents P s data irqs =
      [.queued s.fw (Mendel.moveRequest (g1Target (parsed s data) s.fw) s.fw),
        .called s.fw
          (Mendel.moveRequest (g1Target (parsed s data) s.fw) s.fw)] := by
  have hrun : runCommand P (parsed s data) = (do
      g1 P (parsed s data); return .plain : PlanM R σ (Outcome R)) := by
    rw [runCommand, hcmd]
    rfl
  have hmove : g1 P (parsed s data) ⟨⟨s.fw, []⟩, irqs⟩ =
      planBufferAction P (Mendel.moveRequest (g1Target (parsed s data) s.fw) s.fw)
        ⟨⟨s.fw, []⟩, irqs⟩ := by
    show (if Mendel.departs (g1Target (parsed s data) s.fw) s.fw = true then _
      else _ : PlanM R σ Unit) _ = _
    rw [if_pos hdeparts]
    rfl
  rw [planEvents, if_pos hproc, processGcodeCommand, hrun, bind_apply, bind_apply,
    hmove, planBufferAction_of_room hroom]
  rfl

end Room

/-! ## Across the calls -/

section CallFrame

variable {P : Platform σ} {q : Firmware R σ → Firmware R σ → Prop}
  [IsPreorder (Firmware R σ) q]
  {r : Watched (Firmware R σ) (PlanEvent R σ) → Watched (Firmware R σ)
    (PlanEvent R σ) → Prop}
  [IsPreorder (Watched (Firmware R σ) (PlanEvent R σ)) r]

/-- A relation that every call of the planner respects, and everything that
respects another relation between the calls. -/
structure CallFrame (P : Platform σ) (q : Firmware R σ → Firmware R σ → Prop)
    (r : Watched (Firmware R σ) (PlanEvent R σ) →
      Watched (Firmware R σ) (PlanEvent R σ) → Prop) : Prop where
  frame : Frame P q
  plain : ∀ {α : Type} {x : FwM R σ α}, Moves q x → Moves r (plain x)
  call : ∀ request, Moves r (planBufferAction P request)
  synch : Moves r (synchQueue P)

namespace CallFrame

theorem get (h : CallFrame P q r) :
    Moves r (BusyWait.plain BusyWait.get : PlanM R σ (Firmware R σ)) :=
  h.plain Moves.get

/-- The filter for moves that go nowhere stays inside the frame. -/
theorem enqueueMoved (h : CallFrame P q r) (t : Target R) :
    Moves r (enqueueMoved P t) :=
  h.get.bind fun _ =>
    Moves.ite (fun _ => h.call _) fun _ => h.plain (h.frame.setFeedRate t)

/-- A homing move along X and Y consists of planner calls and is inside the frame. -/
theorem specialMoveXY (h : CallFrame P q r) (x y f : R) :
    Moves r (specialMoveXY P x y f) :=
  h.get.bind fun _ => h.call _

theorem specialMoveZ (h : CallFrame P q r) (z f : R) :
    Moves r (specialMoveZ P z f) :=
  h.get.bind fun _ => h.call _

theorem specialMoveE (h : CallFrame P q r) (e f : R) :
    Moves r (specialMoveE P e f) :=
  h.get.bind fun _ => Moves.ite (fun _ => h.enqueueMoved _) fun _ => Moves.pure _

/-- Setting the position from the state read before it is a planner call of the frame.
-/
theorem setPosition (h : CallFrame P q r) (f : Firmware R σ → Target R) :
    Moves r (do
      let fw ← BusyWait.plain BusyWait.get
      BusyWait.plain (Mendel.setCurrentPosition (f fw)) : PlanM R σ Unit) :=
  h.get.bind fun _ => h.plain (h.frame.setCurrentPosition _)

theorem zeroX (h : CallFrame P q r) : Moves r (zeroX P) :=
  h.get.bind fun _ => (h.specialMoveXY _ _ _).bind fun _ =>
    h.synch.bind fun _ =>
    h.get.bind fun _ => (h.specialMoveXY _ _ _).bind fun _ =>
    h.get.bind fun _ => (h.specialMoveXY _ _ _).bind fun _ =>
    h.synch.bind fun _ => h.setPosition _

theorem zeroY (h : CallFrame P q r) : Moves r (zeroY P) :=
  h.get.bind fun _ => (h.specialMoveXY _ _ _).bind fun _ =>
    h.synch.bind fun _ =>
    h.get.bind fun _ => (h.specialMoveXY _ _ _).bind fun _ =>
    h.get.bind fun _ => (h.specialMoveXY _ _ _).bind fun _ =>
    h.synch.bind fun _ => h.setPosition _

theorem zeroZ (h : CallFrame P q r) : Moves r (zeroZ P) :=
  h.get.bind fun _ => (h.specialMoveZ _ _).bind fun _ =>
    h.synch.bind fun _ =>
    h.get.bind fun _ => (h.specialMoveZ _ _).bind fun _ =>
    h.synch.bind fun _ =>
    h.get.bind fun _ => (h.specialMoveZ _ _).bind fun _ =>
    h.synch.bind fun _ => h.setPosition _

theorem zeroE (h : CallFrame P q r) :
    Moves r (BusyWait.plain Mendel.zeroE : PlanM R σ Unit) :=
  h.plain (h.frame.setPosition _)

/-- Homing all axes is the homing of each, and inside the frame. -/
theorem homeAll (h : CallFrame P q r) : Moves r (homeAll P) :=
  h.get.bind fun _ => (h.enqueueMoved _).bind fun _ => h.zeroX.bind fun _ =>
    h.zeroY.bind fun _ => h.zeroZ.bind fun _ => h.zeroE

/-- Each choice of axes of `G28` is inside the frame. -/
theorem g28 (h : CallFrame P q r) (c : GcodeCommand R) : Moves r (g28 P c) :=
  (Moves.when fun _ => h.zeroX).bind fun _ =>
    (Moves.when fun _ => h.zeroY).bind fun _ =>
    (Moves.when fun _ => h.zeroZ).bind fun _ =>
    (Moves.when fun _ => h.zeroE).bind fun _ => Moves.when fun _ => h.homeAll

/-- Every G command is inside the frame of the calls to the planner. -/
theorem processG (h : CallFrame P q r) (c : GcodeCommand R) (code : GCode) :
    Moves r (processG P c code) := by
  cases code with
  | g0 | g1 => exact Moves.return (h.get.bind fun _ => h.enqueueMoved _) _
  | g4 =>
      exact Moves.return (h.synch.bind fun _ =>
        h.plain (h.frame.delayMs c.p)) _
  | g28 => exact (h.g28 c).return _
  | g30 =>
      exact Moves.return (h.get.bind fun _ => (h.enqueueMoved _).bind fun _ =>
        h.g28 c) _
  | g92 => exact Moves.return (h.synch.bind fun _ => h.setPosition _) _
  | g20 | g21 | g90 | g91 =>
      exact h.plain (h.frame.processG c fun hq => by cases hq)

/-- Every M command is inside the frame, given the frames for the card, the settings and
the heaters where it uses them. -/
theorem processM (h : CallFrame P q r) {c : GcodeCommand R} {code : MCode}
    (hcard : Command.usesCard (.m code) = true → CardFrame q)
    (hset : Command.configures (.m code) = true → SettingsFrame q)
    (hheat : Command.heats (.m code) = true → HeatFrame q (uint16 c.s)) :
    Moves r (processM P c code) := by
  cases code with
  | m101 | m103 =>
      exact Moves.return
        ((h.plain (Moves.modify fun fw => h.frame.extruder _ fw.extruder1Speed
          fw.autoPrimeSteps fw.autoReverseSteps fw)).bind fun _ =>
        h.get.bind fun _ => Moves.when fun _ => h.specialMoveE _ _) _
  | m104 =>
      exact Moves.return (h.get.bind fun _ => Moves.when fun _ =>
        (h.plain (h.frame.tempSet (hheat rfl) _)).bind fun _ =>
        Moves.when fun _ => h.call _) _
  | m109 =>
      exact Moves.return (h.get.bind fun _ => Moves.when fun _ =>
        (h.plain (h.frame.tempSet (hheat rfl) _)).bind fun _ => h.call _) _
  | m542 =>
      exact Moves.return (h.get.bind fun _ => Moves.when fun _ =>
        (Moves.when fun _ => h.enqueueMoved _).bind fun _ =>
        h.get.bind fun _ => h.enqueueMoved _) _
  | m551 => exact Moves.return (Moves.when fun _ => h.specialMoveE _ _) _
  | _ =>
      exact h.plain (h.frame.processM (fun hq => by cases hq) hcard hset hheat)

/-- What holds across every call holds across every command. -/
theorem processGcodeCommand (h : CallFrame P q r) {c : GcodeCommand R}
    (hcard : (commandOf c).usesCard = true → CardFrame q)
    (hset : (commandOf c).configures = true → SettingsFrame q)
    (hheat : (commandOf c).heats = true → HeatFrame q (uint16 c.s)) :
    Moves r (processGcodeCommand P c) := by
  have hrun : Moves r (runCommand P c) := by
    cases hcmd : commandOf c with
    | g code =>
        rw [runCommand, hcmd]
        exact h.processG c code
    | m code =>
        rw [runCommand, hcmd]
        rw [hcmd] at hcard hset hheat
        exact h.processM hcard hset hheat
    | badG | badM | nothing =>
        rw [runCommand, hcmd]
        refine h.plain ?_
        unfold GcodeProcess.runCommand
        rw [hcmd]
        first
          | exact (h.frame.serialWrite _).return _
          | exact Moves.pure _
  exact hrun.bind fun _ =>
    Moves.return (h.plain (Moves.when fun _ => h.frame.serialWrite _)) _

end CallFrame

end CallFrame

end R2C2Firmware.Ports.PlanCalls
