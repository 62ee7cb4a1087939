import R2C2Firmware.Ports.GcodeProcess

/-!
# Runs of the firmware

What `app_main` does with the parts modelled so far.  A `Session` is the
firmware between two lines, together with the parser.  It moves on by an
interrupt, by a turn of the main loop that reads the card or counts the time
out, and by a line handed to `gcode_parse_line`.  Where the line comes from,
the serial port or the card, makes no difference to what it does, so any line
may come at any time.

A line may wait for interrupts.  While it does, no other line is taken up; the
firmware states it waits in are reached too, and `Visited` counts them.

`read_config` plays `autoexec.g` before `plan_init` and `st_init`, so lines can
come before the machine is initialised.
-/

namespace R2C2Firmware.Ports.MainLoop

open R2C2Firmware.Verified.Number
open R2C2Firmware.Verified.BusyWait
open R2C2Firmware.Ports.Config
open R2C2Firmware.Ports.MotionPlanner
open R2C2Firmware.Ports.Stepper
open R2C2Firmware.Ports.Temp
open R2C2Firmware.Ports.Sermsg
open R2C2Firmware.Ports.GcodeParse
open R2C2Firmware.Ports.Mendel
open R2C2Firmware.Ports.GcodeProcess

variable {R σ : Type}

/-- The firmware between two lines. -/
structure Session (R σ : Type) where
  fw : Firmware R σ
  parser : Parser R

/-! ## Start -/

section Boot

variable [Field R]

/-- The firmware when the configuration has been read. -/
def bootFirmware (config : Configuration R) (fs : σ) : Firmware R σ where
  machine := .zero config
  temp := .zero
  steptimeout := 0
  fs
  filesize := 0
  sdPos := 0
  sdPrinting := false
  sdActive := false
  sdWritingFile := false
  extrudersOn := 0
  extruder1Speed := 0
  autoPrimeSteps := 0
  autoReverseSteps := 0
  endstop := fun _ => false
  buzzerRunning := true
  tx := str "Start\r\nOK\r\n"
  effects := [.buzzerPlay 2500 200, .buzzerPlay 1500 100]

/-- The session in which `autoexec.g` is played.  Until then `gcode_parse_init` has
only run before the configuration was read, on a feed rate of zero. -/
def Session.boot (config : Configuration R) (fs : σ) : Session R σ where
  fw := bootFirmware config fs
  parser := .zero

/-- `plan_init` and `st_init` -/
def initMachine (m : Machine R) : Machine R :=
  stInit { m with planner := planInit m.planner }

/-- The session when `app_main` enters its main loop.  `read_config` ends with
`gcode_parse_init`. -/
def Session.init (s : Session R σ) : Session R σ where
  fw := { s.fw with machine := initMachine s.fw.machine }
  parser :=
    { s.parser with
      nextTarget :=
        gcodeParseInit (s.fw.config.homingFeedrateZ : R) s.parser.nextTarget }

end Boot

/-! ## Steps -/

/-- `MAX_LINE` -/
def maxLine : Nat := 120

/-- `sd_read_file` in the main loop, at the end of the file with its message.
The line read is processed later. -/
def sdPoll (P : Platform σ) (fw : Firmware R σ) : Firmware R σ :=
  if fw.sdPrinting then
    match P.fGets maxLine fw.fs with
    | (some line, fs) =>
        { fw with fs, sdPos := uint32 (fw.sdPos + line.length) }
    | (none, fs) =>
        { fw with
          fs
          sdPrinting := false
          tx := fw.tx ++ str "Done printing file\r\n" }
  else fw

/-- The time-out count of the main loop; `power_off` is empty. -/
def countTimeout (fw : Firmware R σ) : Firmware R σ :=
  if fw.steptimeout > 300 then fw
  else { fw with steptimeout := fw.steptimeout + 1 }

/-- The commands of a line as the parser leaves them. -/
def parsed [Field R] [LinearOrder R] [FloorRing R] [HasDouble R] (s : Session R σ)
    (data : List UInt8) : GcodeCommand R :=
  (parseChars s.parser data).nextTarget

/-- The line is handed to `process_gcode_command`. -/
def Processes [Field R] [LinearOrder R] [FloorRing R] [HasDouble R] (s : Session R σ)
    (data : List UInt8) : Prop :=
  checksumAccepted (parsed s data) = true ∧ s.fw.sdWritingFile = false

instance [Field R] [LinearOrder R] [FloorRing R] [HasDouble R] (s : Session R σ)
    (data : List UInt8) : Decidable (Processes s data) :=
  inferInstanceAs (Decidable (_ ∧ _))

section Steps

variable [Field R] [LinearOrder R] [HasSqrt R] [FloorRing R] [HasDouble R]

/-- A line is taken up while the interrupts given arrive. -/
def takeLine (P : Platform σ) (s : Session R σ) (data : List UInt8)
    (irqs : List Irq) : Option (Parser R) × World (Firmware R σ) Irq :=
  gcodeParseLine P s.parser data ⟨s.fw, irqs⟩

/-- The session has processed a line. -/
def LineDone (P : Platform σ) (s : Session R σ) (data : List UInt8)
    (s' : Session R σ) : Prop :=
  ∃ irqs rest, takeLine P s data irqs = (some s'.parser, ⟨s'.fw, rest⟩)

/-- What can happen between two lines. -/
inductive Background (P : Platform σ) :
    Firmware R σ → Firmware R σ → Prop where
  | irq (i : Irq) (fw : Firmware R σ) : Background P fw (serveIrq P i fw)
  | sdPoll (fw : Firmware R σ) : Background P fw (sdPoll P fw)
  | countTimeout (fw : Firmware R σ) : Background P fw (countTimeout fw)

/-- A run from `s₀`, with the lines taken up so far, latest first, each with the
session it was taken up in. -/
inductive Run (P : Platform σ) (s₀ : Session R σ) :
    List (Session R σ × List UInt8) → Session R σ → Prop where
  | refl : Run P s₀ [] s₀
  | background {hist : List (Session R σ × List UInt8)} {s : Session R σ}
      {fw : Firmware R σ} (h : Run P s₀ hist s) (hb : Background P s.fw fw) :
      Run P s₀ hist { s with fw }
  | line {hist : List (Session R σ × List UInt8)} {s s' : Session R σ}
      {data : List UInt8} (h : Run P s₀ hist s) (hl : LineDone P s data s') :
      Run P s₀ ((s, data) :: hist) s'

/-- The firmware states of a run: those between lines, and those in which the
line taken up last is still waiting. -/
inductive Visited (P : Platform σ) (s₀ : Session R σ) :
    List (Session R σ × List UInt8) → Firmware R σ → Prop where
  | between {hist : List (Session R σ × List UInt8)} {s : Session R σ}
      (h : Run P s₀ hist s) : Visited P s₀ hist s.fw
  | waiting {hist : List (Session R σ × List UInt8)} {s : Session R σ}
      (h : Run P s₀ hist s) (data : List UInt8) (irqs : List Irq) :
      Visited P s₀ ((s, data) :: hist) (takeLine P s data irqs).2.state

/-- The sessions that can be reached from power-up, before the machine is
initialised or after. -/
inductive Reachable (P : Platform σ) : Session R σ → Prop where
  | boot (config : Configuration R) (fs : σ)
      {hist : List (Session R σ × List UInt8)} {s : Session R σ}
      (h : Run P (Session.boot config fs) hist s) : Reachable P s
  | main (config : Configuration R) (fs : σ)
      {hist hist' : List (Session R σ × List UInt8)} {s s' : Session R σ}
      (h : Run P (Session.boot config fs) hist s)
      (h' : Run P s.init hist' s') : Reachable P s'

variable {P : Platform σ} {s s' : Session R σ}

theorem Reachable.line {data : List UInt8} (h : Reachable P s)
    (hl : LineDone P s data s') : Reachable P s' := by
  cases h with
  | boot config fs h => exact .boot config fs (h.line hl)
  | main config fs h h' => exact .main config fs h (h'.line hl)

/-- The session in which a line of the history was taken up is on the run. -/
theorem Run.of_suffix {s₀ : Session R σ}
    {hist hist' : List (Session R σ × List UInt8)} {data : List UInt8}
    (h : Run P s₀ hist s) (hx : (s', data) :: hist' <:+ hist) :
    Run P s₀ hist' s' := by
  induction h with
  | refl => simp at hx
  | background h _ ih => exact ih hx
  | line h _ ih =>
      rcases List.suffix_cons_iff.1 hx with heq | hx
      · obtain ⟨hpair, rfl⟩ := List.cons.inj heq
        obtain ⟨rfl, rfl⟩ := Prod.mk.inj hpair
        exact h
      · exact ih hx

theorem Visited.of_suffix {s₀ : Session R σ}
    {hist hist' : List (Session R σ × List UInt8)} {fw : Firmware R σ}
    {data : List UInt8} (h : Visited P s₀ hist fw)
    (hx : (s', data) :: hist' <:+ hist) : Run P s₀ hist' s' := by
  cases h with
  | between h => exact h.of_suffix hx
  | waiting h data' irqs =>
      rcases List.suffix_cons_iff.1 hx with heq | hx
      · obtain ⟨hpair, rfl⟩ := List.cons.inj heq
        obtain ⟨rfl, rfl⟩ := Prod.mk.inj hpair
        exact h
      · exact h.of_suffix hx

/-- An invariant of the firmware: the background keeps it, and so do the lines
that meet a condition. -/
theorem Visited.invariant {I : Firmware R σ → Prop}
    {ok : Session R σ → List UInt8 → Prop}
    (hback : ∀ fw fw', Background P fw fw' → I fw → I fw')
    (hline : ∀ s data irqs, ok s data → I s.fw →
      I (takeLine P s data irqs).2.state)
    {s₀ : Session R σ} {hist : List (Session R σ × List UInt8)}
    {fw : Firmware R σ} (h : Visited P s₀ hist fw) (h₀ : I s₀.fw)
    (hok : ∀ x ∈ hist, ok x.1 x.2) : I fw := by
  have hrun : ∀ {hist : List (Session R σ × List UInt8)} {s : Session R σ},
      Run P s₀ hist s → (∀ x ∈ hist, ok x.1 x.2) → I s.fw := by
    intro hist s h
    induction h with
    | refl => exact fun _ => h₀
    | background _ hb ih => exact fun hok => hback _ _ hb (ih hok)
    | @line hist s s' data _ hl ih =>
        intro hok
        obtain ⟨irqs, rest, hl⟩ := hl
        have h := hline s data irqs (hok (s, data) List.mem_cons_self)
          (ih fun x hx => hok x (List.mem_cons_of_mem _ hx))
        rw [hl] at h
        exact h
  cases h with
  | between h => exact hrun h hok
  | @waiting hist s h data irqs =>
      exact hline s data irqs (hok (s, data) List.mem_cons_self)
        (hrun h fun x hx => hok x (List.mem_cons_of_mem _ hx))

theorem visited_irq (i : Irq) : Visited P s [] (serveIrq P i s.fw) :=
  .between (.background .refl (.irq i s.fw))

/-! ## Executing lines -/

/-- Process a line while no interrupt arrives. -/
def playLine (P : Platform σ) (s : Session R σ) (data : List UInt8) :
    Option (Session R σ) :=
  match takeLine P s data [] with
  | (some parser, w) => some ⟨w.state, parser⟩
  | (none, _) => none

theorem lineDone_of_playLine {data : List UInt8}
    (h : playLine P s data = some s') : LineDone P s data s' := by
  unfold playLine at h
  split at h
  · next parser w heq =>
      obtain rfl := Option.some.inj h
      exact ⟨[], w.irqs, heq⟩
  · exact absurd h (by simp)

theorem takeLine_of_isSome {data : List UInt8} {irqs : List Irq}
    (h : (takeLine P s data irqs).1.isSome = true) :
    takeLine P s data irqs =
      (some ((takeLine P s data irqs).1.get h), (takeLine P s data irqs).2) :=
  Prod.ext (Option.some_get h).symm rfl

/-- Process lines one after another. -/
def playLines (P : Platform σ) (s : Session R σ) (lines : List (List UInt8)) :
    Option (Session R σ) :=
  lines.foldlM (playLine P) s

theorem reachable_of_playLines {lines : List (List UInt8)}
    (h : Reachable P s) (hp : playLines P s lines = some s') :
    Reachable P s' := by
  induction lines generalizing s with
  | nil =>
      obtain rfl := Option.some.inj hp
      exact h
  | cons data lines ih =>
      obtain ⟨s₁, h₁, h₂⟩ := Option.bind_eq_some_iff.1 hp
      exact ih (h.line (lineDone_of_playLine h₁)) h₂

theorem reachable_init (config : Configuration R) (fs : σ) :
    Reachable P (Session.boot config fs).init :=
  .main config fs .refl .refl

end Steps

/-- A machine without a card in its slot: FatFs reports `FR_NOT_READY` and
`FR_INVALID_OBJECT`.  The endstops of X and Z are those of a machine that homes
towards the minimum. -/
def noCard : Platform Unit where
  fOpen _ _ _ := (3, ())
  fClose _ := ()
  fWrite _ _ := (9, ())
  fGets _ _ := (none, ())
  fSize _ := 0
  fLseek _ _ := ()
  root _ := .done false
  hitHomeStopX pressed dir := pressed && !dir
  hitHomeStopZ pressed dir := pressed && !dir

/-- Power-up with the default configuration. -/
def defaultBoot : Session ℚ Unit := Session.boot .default ()

/-- The main loop is entered with the default configuration. -/
def defaultStart : Session ℚ Unit := defaultBoot.init

end R2C2Firmware.Ports.MainLoop
