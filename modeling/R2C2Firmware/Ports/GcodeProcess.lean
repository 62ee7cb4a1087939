import R2C2Firmware.Ports.GcodeParse
import R2C2Firmware.Ports.Mendel

/-!
# Acting on a line

A transcription of `process_gcode_command` and of `gcode_parse_line`.

The switch over the G and M numbers is an enumeration with one handler per
case.  A handler acts on the firmware; what it does to the parser's own record
`next_target` is handed back as a `Change`, together with `reply_sent`.

Empty bodies of the source (the PID commands, `M111`, `M113` and their like)
share one case.
-/

namespace R2C2Firmware.Ports.GcodeProcess

open R2C2Firmware.Verified.Number
open R2C2Firmware.Verified.BusyWait
open R2C2Firmware.Ports.Config
open R2C2Firmware.Ports.MotionPlanner
open R2C2Firmware.Ports.Stepper
open R2C2Firmware.Ports.Temp
open R2C2Firmware.Ports.Sermsg
open R2C2Firmware.Ports.GcodeParse
open R2C2Firmware.Ports.Mendel

/-! ## Codes -/

/-- The G-codes with a case of their own. -/
inductive GCode where
  | g0 | g1 | g4 | g20 | g21 | g28 | g30 | g90 | g91 | g92
  deriving DecidableEq, Repr

/-- The M-codes with a case of their own. -/
inductive MCode where
  | m20 | m21 | m22 | m23 | m24 | m25 | m26 | m27 | m28 | m29
  | m82 | m101 | m103 | m104 | m105 | m106 | m107 | m108 | m109 | m110
  | m111 | m112 | m113 | m114 | m115 | m119 | m130 | m131 | m132 | m133
  | m134 | m140 | m141 | m142 | m190 | m191 | m200 | m202 | m206 | m227
  | m228 | m229 | m300 | m500 | m501 | m542 | m543 | m551 | m600
  deriving DecidableEq, Repr

/-- The cases of the switch over `next_target.G`. -/
def gcodes : List (Int × GCode) :=
  [(0, .g0), (1, .g1), (4, .g4), (20, .g20), (21, .g21), (28, .g28),
   (30, .g30), (90, .g90), (91, .g91), (92, .g92)]

/-- The cases of the switch over `next_target.M`. -/
def mcodes : List (Int × MCode) :=
  [(20, .m20), (21, .m21), (22, .m22), (23, .m23), (24, .m24), (25, .m25),
   (26, .m26), (27, .m27), (28, .m28), (29, .m29), (82, .m82), (101, .m101),
   (103, .m103), (104, .m104), (105, .m105), (106, .m106), (107, .m107),
   (108, .m108), (109, .m109), (110, .m110), (111, .m111), (112, .m112),
   (113, .m113), (114, .m114), (115, .m115), (119, .m119), (130, .m130),
   (131, .m131), (132, .m132), (133, .m133), (134, .m134), (140, .m140),
   (141, .m141), (142, .m142), (190, .m190), (191, .m191), (200, .m200),
   (202, .m202), (206, .m206), (227, .m227), (228, .m228), (229, .m229),
   (300, .m300), (500, .m500), (501, .m501), (542, .m542), (543, .m543),
   (551, .m551), (600, .m600)]

/-- The case a G number selects. -/
def gcodeOf (g : Int) : Option GCode := gcodes.lookup g

/-- The case an M number selects. -/
def mcodeOf (m : Int) : Option MCode := mcodes.lookup m

/-- What a line asks for. -/
inductive Command where
  | g (code : GCode)
  | badG (g : Int)
  | m (code : MCode)
  | badM (m : Int)
  | nothing
  deriving DecidableEq, Repr

variable {R σ : Type}

/-- The command of a line; a G-code comes before an M-code. -/
def commandOf (c : GcodeCommand R) : Command :=
  if c.seenG then
    match gcodeOf c.g with
    | some code => .g code
    | none => .badG c.g
  else if c.seenM then
    match mcodeOf c.m with
    | some code => .m code
    | none => .badM c.m
  else .nothing

/-! ## What a command leaves -/

/-- What a handler writes to `next_target`. -/
inductive Change (R : Type) where
  | none
  | optionInches (on : Bool)
  | optionRelative (on : Bool)
  | nExpected (n : Int)
  | feedRate (f : R)

/-- Carry out a change. -/
def Change.apply (change : Change R) (c : GcodeCommand R) : GcodeCommand R :=
  match change with
  | .none => c
  | .optionInches on => { c with optionInches := on }
  | .optionRelative on => { c with optionRelative := on }
  | .nExpected n => { c with nExpected := n }
  | .feedRate f => { c with target := { c.target with feedRate := f } }

/-- `reply_sent`, and the change of `next_target`. -/
structure Outcome (R : Type) where
  replySent : Bool
  change : Change R

/-- Nothing changed; the caller replies. -/
def Outcome.plain : Outcome R := ⟨false, .none⟩

/-- Nothing changed; the handler has replied. -/
def Outcome.replied : Outcome R := ⟨true, .none⟩

/-- Something changed; the caller replies. -/
def Outcome.changed (change : Change R) : Outcome R := ⟨false, change⟩

/-! ## Words of a line -/

/-- `seen_X` to `seen_E` -/
def seenAxis (c : GcodeCommand R) : Axis → Bool
  | .x => c.seenX
  | .y => c.seenY
  | .z => c.seenZ
  | .e => c.seenE

/-- None of `seen_X`, `seen_Y`, `seen_Z`, `seen_E` is set. -/
def noAxis (c : GcodeCommand R) : Bool :=
  !(c.seenX || c.seenY || c.seenZ || c.seenE)

/-- `next_target.filename` as a C string. -/
def filenameOf (c : GcodeCommand R) : List UInt8 :=
  c.filename.takeWhile (· ≠ 0)

/-- Store the axis words of a line in a family of settings. -/
def setAxes {α : Type} (c : GcodeCommand R) (value : R → α) (old : Axis → α) :
    Axis → α :=
  fun a => if seenAxis c a then value (c.target.coord a) else old a

section Handlers

variable [Field R] [LinearOrder R] [HasSqrt R] [FloorRing R] [HasDouble R]

/-- `next_targetd`: the target of the line in absolute coordinates, given the
current point. -/
def nextTargetd (c : GcodeCommand R) (start : Target R) : Target R :=
  let feedRate := if c.seenF then c.target.feedRate else start.feedRate
  if c.optionRelative then
    { start with
      x := start.x + c.target.x
      y := start.y + c.target.y
      z := start.z + c.target.z
      e := start.e + c.target.e
      feedRate }
  else
    { start with
      x := if c.seenX then c.target.x else start.x
      y := if c.seenY then c.target.y else start.y
      z := if c.seenZ then c.target.z else start.z
      e := if c.seenE then c.target.e else start.e
      feedRate }

/-! ## G-codes -/

/-- The target of a `G0`: the feed rate of the line is replaced. -/
def g0Target (c : GcodeCommand R) (fw : Firmware R σ) : Target R :=
  { nextTargetd c fw.startpoint with
    feedRate := (int32 (fw.config.maximumFeedrate .x * 2) : R) }

/-- `G0` -/
def g0 (P : Platform σ) (c : GcodeCommand R) : FwM R σ Unit := do
  let fw ← get
  enqueueMoved P (g0Target c fw)

/-- `calc_distance` -/
def calcDistance (dx dy : R) : R := HasSqrt.sqrt (dx * dx + dy * dy)

/-- The target of a `G1`.  With the extruder on, a line without E extrudes in
proportion to its length. -/
def g1Target (c : GcodeCommand R) (fw : Firmware R σ) : Target R :=
  let start := fw.startpoint
  let t := nextTargetd c start
  if fw.extrudersOn = 1 ∧ !c.seenE then
    let d := calcDistance |t.x - start.x| |t.y - start.y|
    { t with e := start.e + d * fw.extruder1Speed / t.feedRate * 24 }
  else t

/-- `G1` -/
def g1 (P : Platform σ) (c : GcodeCommand R) : FwM R σ Unit := do
  let fw ← get
  enqueueMoved P (g1Target c fw)

/-- `G4` -/
def g4 (P : Platform σ) (c : GcodeCommand R) : FwM R σ Unit := do
  synchQueue P
  delayMs c.p

/-- Home every axis, after clearing the Z endstop. -/
def homeAll (P : Platform σ) : FwM R σ Unit := do
  let fw ← get
  enqueueMoved P
    { fw.startpoint with
      z := fw.startpoint.z + 3
      feedRate := (fw.config.homingFeedrateZ : R) }
  zeroX P
  zeroY P
  zeroZ P
  zeroE

/-- `G28` -/
def g28 (P : Platform σ) (c : GcodeCommand R) : FwM R σ Unit := do
  when c.seenX (zeroX P)
  when c.seenY (zeroY P)
  when c.seenZ (zeroZ P)
  when c.seenE zeroE
  when (noAxis c) (homeAll P)

/-- `G30`, which goes on as `G28`. -/
def g30 (P : Platform σ) (c : GcodeCommand R) : FwM R σ Unit := do
  let fw ← get
  enqueueMoved P (nextTargetd c fw.startpoint)
  g28 P c

/-- The origin set by `G92`: zero for the axes named, or for all. -/
def g92Position (c : GcodeCommand R) (start : Target R) : Target R :=
  { start with
    x := if c.seenX || noAxis c then 0 else start.x
    y := if c.seenY || noAxis c then 0 else start.y
    z := if c.seenZ || noAxis c then 0 else start.z
    e := if c.seenE || noAxis c then 0 else start.e }

/-- `G92` -/
def g92 (P : Platform σ) (c : GcodeCommand R) : FwM R σ Unit := do
  synchQueue P
  let fw ← get
  setCurrentPosition (g92Position c fw.startpoint)

/-- The cases of the switch over `next_target.G`. -/
def processG (P : Platform σ) (c : GcodeCommand R) :
    GCode → FwM R σ (Outcome R)
  | .g0 => do g0 P c; return .plain
  | .g1 => do g1 P c; return .plain
  | .g4 => do g4 P c; return .plain
  | .g20 => return .changed (.optionInches true)
  | .g21 => return .changed (.optionInches false)
  | .g28 => do g28 P c; return .plain
  | .g30 => do g30 P c; return .plain
  | .g90 => return .changed (.optionRelative false)
  | .g91 => return .changed (.optionRelative true)
  | .g92 => do g92 P c; return .plain

/-! ## Files -/

/-- `M20` -/
def m20 (P : Platform σ) : FwM R σ Unit := do
  serialWritestr "Begin file list\r\n"
  sdListDir P
  serialWritestr "End file list\r\n"

/-- `M21` -/
def m21 : FwM R σ Unit := do
  modify fun fw => { fw with sdPrinting := false }
  sdInitialise

/-- `M22` -/
def m22 : FwM R σ Unit :=
  modify fun fw => { fw with sdPrinting := false, sdActive := false }

/-- Send formatted text. -/
def send (format : String) (args : List (Arg R)) : FwM R σ Unit :=
  serialWrite (sersendf format args)

/-- `M23`.  The card counts as active from here on. -/
def m23 (P : Platform σ) (c : GcodeCommand R) : FwM R σ Unit := do
  sdInitialise
  modify fun fw => { fw with sdPrinting := false }
  sdClose P
  let opened ← sdOpen P (filenameOf c) false
  if opened then
    modify fun fw => { fw with filesize := uint32 (P.fSize fw.fs) }
    let fw ← get
    send "File opened: %s Size: %d\r\n"
      [.string (filenameOf c), .int fw.filesize]
    modify fun fw => { fw with sdPos := 0 }
    send "File selected\r\n" []
  else send "file.open failed\r\n" []

/-- `M24` -/
def m24 : FwM R σ Unit :=
  modify fun fw => { fw with sdPrinting := fw.sdPrinting || fw.sdActive }

/-- `M25` -/
def m25 : FwM R σ Unit :=
  modify fun fw => { fw with sdPrinting := false }

/-- `M26` -/
def m26 (P : Platform σ) (c : GcodeCommand R) : FwM R σ Unit :=
  modify fun fw =>
    if fw.sdActive && c.seenS then
      { fw with sdPos := uint32 c.s, fs := P.fLseek (uint32 c.s) fw.fs }
    else fw

/-- `M27` -/
def m27 : FwM R σ Unit := do
  let fw ← get
  if fw.sdActive then
    send "SD printing byte %d/%d\r\n" [.int fw.sdPos, .int fw.filesize]
  else serialWritestr "Not SD printing\r\n"

/-- `M28`.  The card counts as active from here on. -/
def m28 (P : Platform σ) (c : GcodeCommand R) : FwM R σ Unit := do
  sdInitialise
  sdClose P
  modify fun fw => { fw with sdPrinting := false }
  let opened ← sdOpen P (filenameOf c) true
  if opened then
    modify fun fw => { fw with sdWritingFile := true }
    send "Writing to file: %s\r\n" [.string (filenameOf c)]
  else send "open failed, File: %s.\r\n" [.string (filenameOf c)]

/-! ## Extruder and heaters -/

/-- `M101` -/
def m101 (P : Platform σ) : FwM R σ Unit := do
  modify fun fw => { fw with extrudersOn := 1 }
  let fw ← get
  when (fw.autoPrimeSteps ≠ 0)
    (specialMoveE P ((fw.autoPrimeSteps : R) / 640) 18000)

/-- `M103` -/
def m103 (P : Platform σ) : FwM R σ Unit := do
  modify fun fw => { fw with extrudersOn := 0 }
  let fw ← get
  when (fw.autoReverseSteps ≠ 0)
    (specialMoveE P (-(fw.autoReverseSteps : R) / 640) 18000)

/-- `M104` -/
def m104 (P : Platform σ) (c : GcodeCommand R) : FwM R σ Unit := do
  let fw ← get
  when (fw.config.enableExtruder1 ≠ 0) do
    tempSet (uint16 c.s) .extruder0
    when (fw.config.waitOnTemp ≠ 0) (enqueueWaitTemp P)

/-- `temp_print` -/
def tempPrint : FwM R σ Unit := do
  let fw ← get
  send "ok T:%u.0 B:%u.0\r\n"
    [.int (fw.temp.currentTemp .extruder0),
     .int (fw.temp.currentTemp .heatedBed0)]

/-- `extruder_fan_on` and `extruder_fan_off` -/
def extruderFan (on : Bool) : FwM R σ Unit := modify (digitalWrite 2 3 on)

/-- `M108` -/
def m108 (c : GcodeCommand R) : FwM R σ Unit :=
  when c.seenS (modify fun fw => { fw with extruder1Speed := (c.s : R) / 10 })

/-- `M109` -/
def m109 (P : Platform σ) (c : GcodeCommand R) : FwM R σ Unit := do
  let fw ← get
  when (fw.config.enableExtruder1 ≠ 0) do
    tempSet (uint16 c.s) .extruder0
    enqueueWaitTemp P

/-! ## Machine -/

/-- `M112`; `power_off` is empty. -/
def m112 : FwM R σ Unit :=
  modify fun fw =>
    { fw with
      machine := { fw.machine with timers := disableHwTimer 0 fw.machine.timers } }

/-- `M114` -/
def m114 (c : GcodeCommand R) : FwM R σ Unit := do
  let fw ← get
  when (!c.optionInches)
    (send "ok C: X:%g Y:%g Z:%g E:%g\r\n"
      [.double fw.startpoint.x, .double fw.startpoint.y,
       .double fw.startpoint.z, .double fw.startpoint.e])

/-- `M115` -/
def m115 : FwM R σ Unit :=
  send ("FIRMWARE_NAME:Teacup_R2C2 " ++
    "FIRMWARE_URL:http%%3A//github.com/bitboxelectronics/R2C2 " ++
    "PROTOCOL_VERSION:1.0 MACHINE_TYPE:Mendel\r\n") []

/-- `M119` -/
def m119 : FwM R σ Unit := do
  let fw ← get
  let level (a : Axis) : List UInt8 :=
    if fw.endstop a then str "H " else str "L "
  serialWrite
    (str "x_min:" ++ level .x ++ str "y_min:" ++ level .y ++ str "z_min:"
      ++ level .z ++ str "\r\n")

/-- `x_enable` to `e_enable`, `x_disable` to `e_disable`: the pins are active
low. -/
def enablePins (disabled : Bool) : FwM R σ Unit :=
  modify fun fw =>
    digitalWrite 2 10 disabled
      (digitalWrite 0 1 disabled
        (digitalWrite 1 28 disabled (digitalWrite 1 24 disabled fw)))

/-- `M190`; `power_on` is empty. -/
def m190 : FwM R σ Unit := do
  enablePins false
  modify fun fw => { fw with steptimeout := 0 }

/-- `M191` -/
def m191 : FwM R σ Unit := enablePins true

/-! ## Settings -/

/-- `M200` with axis words. -/
def m200 (c : GcodeCommand R) : FwM R σ Unit :=
  setConfig fun cfg => { cfg with stepsPerMm := setAxes c id cfg.stepsPerMm }

/-- `M202` with axis words. -/
def m202 (c : GcodeCommand R) : FwM R σ Unit :=
  setConfig fun cfg =>
    { cfg with
      maximumFeedrate :=
        setAxes c (fun v => int32 (truncate v)) cfg.maximumFeedrate }

/-- `M206` with axis words. -/
def m206 (c : GcodeCommand R) : FwM R σ Unit :=
  setConfig fun cfg =>
    { cfg with
      acceleration := if c.seenX then c.target.x else cfg.acceleration }

/-- The report of `M200` without axis words. -/
def reportSteps : FwM R σ Unit := do
  let fw ← get
  send "ok X%g Y%g Z%g E%g\r\n"
    [.double (fw.config.stepsPerMm .x), .double (fw.config.stepsPerMm .y),
     .double (fw.config.stepsPerMm .z), .double (fw.config.stepsPerMm .e)]

/-- The report of `M202` without axis words. -/
def reportFeedrates : FwM R σ Unit := do
  let fw ← get
  send "ok X%d Y%d Z%d E%d\r\n"
    [.int (fw.config.maximumFeedrate .x), .int (fw.config.maximumFeedrate .y),
     .int (fw.config.maximumFeedrate .z), .int (fw.config.maximumFeedrate .e)]

/-- The report of `M206` without axis words. -/
def reportAcceleration : FwM R σ Unit := do
  let fw ← get
  send "ok X%g\r\n" [.double fw.config.acceleration]

/-- `M227` and `M229`: prime and reverse distances, in the unit given. -/
def setAutoPrime (c : GcodeCommand R) (unit : Firmware R σ → Int) :
    FwM R σ Unit :=
  when (c.seenS && c.seenP) (modify fun fw =>
    { fw with
      autoPrimeSteps := uint32 (c.s * unit fw)
      autoReverseSteps := uint32 (c.p * unit fw) })

/-- `M228` -/
def m228 : FwM R σ Unit :=
  modify fun fw => { fw with autoPrimeSteps := 0, autoReverseSteps := 0 }

/-- `M300` -/
def m300 (P : Platform σ) (c : GcodeCommand R) : FwM R σ Unit := do
  buzzerWait P
  buzzerPlay (if c.seenS then uint16 c.s else 1000)
    (if c.seenP then c.p else 1000)

/-- `M500` and `M501`: set or print an entry of the temperature table.  Only
the print replies by itself. -/
def tableEntry (sensor : Sensor) (c : GcodeCommand R) :
    FwM R σ (Outcome R) :=
  if c.seenS && c.seenP then do
    modify fun fw =>
      { fw with temp := tempSetTableEntry sensor (uint16 c.s) c.p fw.temp }
    return .plain
  else if c.seenS then do
    let fw ← get
    send "ok [%d] = %d\r\n"
      [.int c.s, .int (tempGetTableEntry sensor (uint16 c.s) fw.temp)]
    return .replied
  else do
    serialWritestr "E: bad param\r\n"
    return .plain

/-- `M542`: above the bed, then to the rest position. -/
def m542 (P : Platform σ) (c : GcodeCommand R) : FwM R σ Unit := do
  let fw ← get
  let cfg := fw.config
  when (cfg.haveRestPos ≠ 0) do
    let above : Target R :=
      { fw.startpoint with
        z := 2
        feedRate := (cfg.maximumFeedrate .z : R) }
    let low := decide (fw.startpoint.z < 2)
    when low (enqueueMoved P above)
    let fw' ← get
    enqueueMoved P
      { (if low then above else nextTargetd c fw.startpoint) with
        x := (cfg.restPosX : R)
        y := (cfg.restPosY : R)
        z := fw'.startpoint.z
        feedRate := (cfg.maximumFeedrate .x : R) }

/-- `M551` -/
def m551 (P : Platform σ) (c : GcodeCommand R) : FwM R σ Unit :=
  when (c.seenS && c.seenP)
    (specialMoveE P ((c.p : R) / 256) (c.s : R))

/-- One turn of the loop of `print_config`. -/
def printItem (cfg : Configuration R) (item : ConfigItem R) : List UInt8 :=
  match item.value with
  | .int read _ _ =>
      sersendf "%s = %d\r\n"
        [(.string (str item.name) : Arg R), .int (read cfg)]
  | .double read _ _ =>
      sersendf "%s = %g\r\n" [.string (str item.name), .double (read cfg)]
  | .other => []

/-- `print_config` -/
def printConfig : FwM R σ Unit := do
  let fw ← get
  serialWrite (configLookup.flatMap (printItem fw.config))

/-- `gcode_parse_init`, as a change of `next_target`. -/
def parseInitChange (fw : Firmware R σ) : Change R :=
  .feedRate (fw.config.homingFeedrateZ : R)

/-- The cases of the switch over `next_target.M`. -/
def processM (P : Platform σ) (c : GcodeCommand R) :
    MCode → FwM R σ (Outcome R)
  | .m20 => do m20 P; return .plain
  | .m21 => do m21; return .plain
  | .m22 => do m22; return .plain
  | .m23 => do m23 P c; return .plain
  | .m24 => do m24; return .plain
  | .m25 => do m25; return .plain
  | .m26 => do m26 P c; return .plain
  | .m27 => do m27; return .plain
  | .m28 => do m28 P c; return .plain
  | .m101 => do m101 P; return .plain
  | .m103 => do m103 P; return .plain
  | .m104 => do m104 P c; return .plain
  | .m105 => do tempPrint; return .replied
  | .m106 => do extruderFan true; return .plain
  | .m107 => do extruderFan false; return .plain
  | .m108 => do m108 c; return .plain
  | .m109 => do m109 P c; return .plain
  | .m110 => return .changed (.nExpected (uint32 (c.s - 1)))
  | .m112 => do m112; return .plain
  | .m114 => do m114 c; return .replied
  | .m115 => do m115; return .plain
  | .m119 => do m119; return .plain
  | .m140 => do tempSet (uint16 c.s) .heatedBed0; return .plain
  | .m190 => do m190; return .plain
  | .m191 => do m191; return .plain
  | .m200 =>
      if noAxis c then do reportSteps; return .replied
      else do
        m200 c
        let fw ← get
        return .changed (parseInitChange fw)
  | .m202 =>
      if noAxis c then do reportFeedrates; return .replied
      else do m202 c; return .plain
  | .m206 =>
      if noAxis c then do reportAcceleration; return .replied
      else do m206 c; return .plain
  | .m227 => do setAutoPrime c (fun _ => 1); return .plain
  | .m228 => do m228; return .plain
  | .m229 => do
      setAutoPrime c (fun fw => fw.config.stepsPerRevolutionE)
      return .plain
  | .m300 => do m300 P c; return .plain
  | .m500 => tableEntry .extruder0 c
  | .m501 => tableEntry .heatedBed0 c
  | .m542 => do m542 P c; return .plain
  | .m551 => do m551 P c; return .plain
  | .m600 => do printConfig; return .plain
  | .m29 | .m82 | .m111 | .m113 | .m130 | .m131 | .m132 | .m133 | .m134
  | .m141 | .m142 | .m543 => return .plain

/-! ## Lines -/

/-- The switches of `process_gcode_command`. -/
def runCommand (P : Platform σ) (c : GcodeCommand R) :
    FwM R σ (Outcome R) :=
  match commandOf c with
  | .g code => processG P c code
  | .badG g => do
      serialWrite
        (str "E: Bad G-code " ++ serwriteUint32 g.toNat ++ str "\r\n")
      return .plain
  | .m code => processM P c code
  | .badM m => do
      serialWrite
        (str "E: Bad M-code " ++ serwriteUint32 m.toNat ++ str "\r\n")
      return .plain
  | .nothing => return .plain

/-- `process_gcode_command` -/
def processGcodeCommand (P : Platform σ) (c : GcodeCommand R) :
    FwM R σ (Change R) := do
  let out ← runCommand P c
  when (!out.replySent) (serialWritestr "ok\r\n")
  return out.change

/-- A line for the file: it must be LF terminated. -/
def storedLine (data : List UInt8) : List UInt8 :=
  if data.getLast? = some 13 then data.dropLast ++ [10] else data

/-- An accepted line while a file is being written. -/
def writeLine (P : Platform σ) (c : GcodeCommand R) (data : List UInt8) :
    FwM R σ Unit :=
  if c.seenM ∧ 20 ≤ c.m ∧ c.m ≤ 29 then
    if c.m = 29 then do
      modify fun fw => { fw with sdWritingFile := false }
      sdClose P
      serialWritestr "Done saving file\r\n"
    else serialWritestr "ok\r\n"
  else do
    let written ← sdWriteToFile P (storedLine data)
    if written then serialWritestr "ok\r\n"
    else serialWritestr "error writing to file\r\n"

/-- A line with a wrong checksum: `request_resend` and the text before it. -/
def rejectLine (c : GcodeCommand R) : FwM R σ Unit :=
  serialWrite
    (str "Expected checksum " ++ serwriteUint32 c.checksumCalculated.toNat
      ++ str "\r\n" ++ str "rs " ++ serwriteUint32 c.n.toNat ++ str "\r\n")

/-- Expect the next line number. -/
def expectNext (c : GcodeCommand R) : GcodeCommand R :=
  if c.seenN then { c with nExpected := uint32 (c.n + 1) } else c

/-- What an accepted line does; the result is `next_target` afterwards. -/
def acceptLine (P : Platform σ) (c : GcodeCommand R) (data : List UInt8) :
    FwM R σ (GcodeCommand R) := do
  let fw ← get
  if fw.sdWritingFile then
    writeLine P c data
    return c
  else
    let change ← processGcodeCommand P c
    return expectNext (change.apply c)

/-- `gcode_parse_line`.  The result is the parser left for the next line. -/
def gcodeParseLine (P : Platform σ) (p : Parser R) (data : List UInt8) :
    FwM R σ (Parser R) :=
  let p := parseChars p data
  if checksumAccepted p.nextTarget then do
    let c ← acceptLine P p.nextTarget data
    return endOfLine { p with nextTarget := c }
  else do
    rejectLine p.nextTarget
    return endOfLine p

end Handlers

end R2C2Firmware.Ports.GcodeProcess
