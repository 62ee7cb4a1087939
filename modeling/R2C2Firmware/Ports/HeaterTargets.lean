import R2C2Firmware.Ports.CommandFrame

/-!
# The temperatures to be reached

`temp_tick` switches a heater off when the reading has come up to the target,
and a block that waits for a temperature waits for that.  `read_temp` returns
nothing above the first row of its table, 300 degrees, so a target above that is
never reached.

No limit stands between the text and the target: `M104`, `M109` and `M140` store
the parameter `S` as it is, and a negative `S` becomes a target near 65536.  So
the targets stay within reach exactly as long as the parameters do, and the
parameter counts that the command finds, be it from its own line or left from an
earlier one.

## Main results

* `visited_readings` — the readings stay in the range of the table.
* `targets_in_reach_iff` — when the targets do.
* `target_out_of_reach` — a target of 1000 degrees.
-/

set_option linter.unusedSectionVars false

namespace R2C2Firmware.Ports.HeaterTargets

open R2C2Firmware.Verified.Number
open R2C2Firmware.Verified.BusyWait
open R2C2Firmware.Ports.Config
open R2C2Firmware.Ports.MotionPlanner
open R2C2Firmware.Ports.Stepper
open R2C2Firmware.Ports.Temp
open R2C2Firmware.Ports.Sermsg
open R2C2Firmware.Ports.GcodeParse
open R2C2Firmware.Ports.Mendel
open R2C2Firmware.Ports.GcodeProcess
open R2C2Firmware.Ports.MainLoop

variable {R σ : Type} [Field R] [LinearOrder R] [HasSqrt R] [FloorRing R]
variable {P : Platform σ}

/-! ## The readings -/

/-- The temperature of the first row of `temptable`. -/
def maxCelsius : Int := 300

/-- The rows of the table stand in the order of falling temperature, between
`maxCelsius` and zero. -/
def Falling (celsius : List Int) : Prop :=
  celsius.Pairwise (fun a b => b ≤ a) ∧ ∀ c ∈ celsius, 0 ≤ c ∧ c ≤ maxCelsius

theorem Falling.tail {c : Int} {celsius : List Int} (h : Falling (c :: celsius)) :
    Falling celsius :=
  ⟨h.1.of_cons, fun d hd => h.2 d (List.mem_cons_of_mem c hd)⟩

/-- A value between two rows lies between their temperatures. -/
theorem between_rows {x a c d : Int} (hx : 0 ≤ x) (hxa : x < a) (hdc : d ≤ c) :
    d ≤ c + (x * (d - c)).tdiv a ∧ c + (x * (d - c)).tdiv a ≤ c := by
  have hneg : x * (d - c) = -(x * (c - d)) := by ring
  have hnonneg : 0 ≤ x * (c - d) := mul_nonneg hx (by omega)
  rw [hneg, Int.neg_tdiv, Int.tdiv_eq_ediv_of_nonneg hnonneg]
  have hle : x * (c - d) ≤ (c - d) * a := by
    rw [mul_comm]
    exact mul_le_mul_of_nonneg_left hxa.le (by omega)
  have hup : x * (c - d) / a ≤ c - d := Int.ediv_le_of_le_mul (by omega) hle
  have hlow : 0 ≤ x * (c - d) / a := Int.ediv_nonneg hnonneg (by omega)
  omega

theorem interpolate_range (sensor : Sensor) (raw : Int) (rows : List TempEntry) :
    ∀ {row : TempEntry}, row.adc sensor ≤ raw →
      Falling ((row :: rows).map TempEntry.celsius) →
      0 ≤ interpolate sensor raw row rows ∧
        interpolate sensor raw row rows ≤ maxCelsius := by
  induction rows with
  | nil => exact fun _ _ => ⟨le_rfl, Int.le.intro 300 rfl⟩
  | cons next rows ih =>
      intro row hrow hfall
      rw [interpolate]
      split
      · next hlt =>
        have hnext := hfall.2 next.celsius (by simp)
        have hfirst := hfall.2 row.celsius (by simp)
        have hdown : next.celsius ≤ row.celsius :=
          (List.pairwise_cons.1 hfall.1).1 _ (by simp)
        have hb := between_rows (x := raw - row.adc sensor)
          (a := next.adc sensor - row.adc sensor) (by omega) (by omega) hdown
        omega
      · next hge => exact ih (by omega) hfall.tail

theorem celsiusOf_range (sensor : Sensor) (raw : Int) {table : List TempEntry}
    (hfall : Falling (table.map TempEntry.celsius)) :
    0 ≤ celsiusOf sensor raw table ∧ celsiusOf sensor raw table ≤ maxCelsius := by
  cases table with
  | nil => exact ⟨le_rfl, Int.le.intro 300 rfl⟩
  | cons first rows =>
      rw [celsiusOf]
      split
      · exact hfall.2 _ (by simp)
      · next hge =>
        split
        · next last hlast =>
          split
          · exact hfall.2 _ (List.mem_map_of_mem
              (List.mem_cons_of_mem _ (List.mem_of_getLast? hlast)))
          · exact interpolate_range sensor raw rows (by omega) hfall
        · exact ⟨le_rfl, Int.le.intro 300 rfl⟩

/-- The readings are in the range of the table, and the temperatures of the
table are those it started with. -/
structure Readings (s : TempState) : Prop where
  column : s.table.map TempEntry.celsius = temptable.map TempEntry.celsius
  nonneg : ∀ sensor, 0 ≤ s.currentTemp sensor
  le : ∀ sensor, s.currentTemp sensor ≤ maxCelsius

theorem falling_temptable : Falling (temptable.map TempEntry.celsius) :=
  ⟨by decide, by decide⟩

theorem Readings.readTemp {s : TempState} (h : Readings s) (sensor : Sensor)
    (analog : Int) : Readings (readTemp sensor analog s) := by
  have hrange : ∀ raw, 0 ≤ celsiusOf sensor raw s.table ∧
      celsiusOf sensor raw s.table ≤ maxCelsius := fun raw =>
    celsiusOf_range sensor raw (h.column ▸ falling_temptable)
  have hval : ∀ raw, uint16 (int16 (celsiusOf sensor raw s.table)) =
      celsiusOf sensor raw s.table := by
    intro raw
    obtain ⟨h0, h1⟩ := hrange raw
    unfold maxCelsius at h1
    rw [int16, wrapSigned_of_range (by omega) (by omega), uint16,
      wrapUnsigned_of_range h0 (by omega)]
  refine ⟨h.column, fun sensor' => ?_, fun sensor' => ?_⟩
  all_goals
    by_cases heq : sensor' = sensor
    · subst heq
      simp [Temp.readTemp, hval, hrange]
    · simp [Temp.readTemp, heq, h.nonneg, h.le]

theorem Readings.tempTick {s : TempState} (h : Readings s)
    (analog : Sensor → Int) : Readings (tempTick analog s).1 := by
  have hread := (h.readTemp .extruder0 (analog .extruder0)).readTemp .heatedBed0
    (analog .heatedBed0)
  unfold Temp.tempTick
  dsimp only
  split <;> exact ⟨hread.column, hread.nonneg, hread.le⟩

theorem setEntry_celsius (sensor : Sensor) (temp adcVal : Int)
    (table : List TempEntry) :
    (setEntry sensor temp adcVal table).map TempEntry.celsius =
      table.map TempEntry.celsius := by
  induction table with
  | nil => rfl
  | cons row rows ih =>
      rw [setEntry]
      split
      · rfl
      · simp [ih]

theorem serveIrq_temp {r : TempState → TempState → Prop} (hrefl : ∀ s, r s s)
    (htick : ∀ analog s, r s (tempTick analog s).1) (i : Irq)
    (fw : Firmware R σ) : r fw.temp (serveIrq P i fw).temp := by
  cases i with
  | step =>
      show r _ (if _ then _ else _ : Firmware R σ).temp
      split <;> exact hrefl _
  | accel =>
      show r _ (if _ then _ else _ : Firmware R σ).temp
      split <;> exact hrefl _
  | temperature extruder bed =>
      show r _ (temperatureTimerCallback extruder bed fw).temp
      unfold temperatureTimerCallback
      dsimp only
      split <;> exact htick _ _
  | buzzerOff => exact hrefl _
  | endstops x y z => exact hrefl _

/-- The temperatures of the table stay, and the readings stay in their range. -/
def KeepsReadings (fw fw' : Firmware R σ) : Prop :=
  Readings fw.temp → Readings fw'.temp

instance keepsReadings_isPreorder :
    IsPreorder (Firmware R σ) (KeepsReadings : Firmware R σ → _ → Prop) where
  refl _ := id
  trans _ _ _ h h' := h' ∘ h

theorem serveIrq_readings (i : Irq) (fw : Firmware R σ) :
    KeepsReadings fw (serveIrq P i fw) :=
  serveIrq_temp (r := fun s s' => Readings s → Readings s') (fun _ => id)
    (fun analog _ h => h.tempTick analog) i fw

theorem frame_readings : Frame P (KeepsReadings : Firmware R σ → _ → Prop) where
  irq := serveIrq_readings
  machine _ _ _ := id
  text _ _ := id
  effect _ _ _ := id
  extruder _ _ _ _ _ := id
  table sensor temp adcVal fw h :=
    ⟨(setEntry_celsius sensor temp adcVal fw.temp.table).trans h.column,
      h.nonneg, h.le⟩
  timeout _ _ := id

theorem background_temp {fw fw' : Firmware R σ} (h : Background P fw fw') :
    (∃ i, fw' = serveIrq P i fw) ∨ fw'.temp = fw.temp := by
  cases h with
  | irq i => exact .inl ⟨i, rfl⟩
  | sdPoll =>
      right
      unfold sdPoll
      split
      · split <;> rfl
      · rfl
  | countTimeout =>
      right
      unfold countTimeout
      split <;> rfl

/-- Whatever lines and interrupts come, no reading is above `maxCelsius`. -/
theorem visited_readings {s₀ : Session R σ}
    {hist : List (Session R σ × List UInt8)} {fw : Firmware R σ}
    (h : Visited P s₀ hist fw) (h₀ : Readings s₀.fw.temp) : Readings fw.temp := by
  refine Visited.invariant (I := fun fw => Readings fw.temp) ?_
    (fun s data irqs (_ : True) => ?_) h h₀ fun _ _ => trivial
  · intro fw fw' hb hr
    rcases background_temp hb with ⟨i, rfl⟩ | heq
    · exact serveIrq_readings i fw hr
    · exact heq ▸ hr
  · exact frame_readings.takeLine (fun _ _ _ _ _ _ _ => id)
      (fun _ _ _ _ _ => id) (fun _ _ _ _ => id) (fun _ _ _ _ h => ⟨h.column, h.nonneg, h.le⟩) irqs

/-! ## The targets -/

/-- The targets are the same. -/
def SameTargets (fw fw' : Firmware R σ) : Prop :=
  fw'.temp.targetTemp = fw.temp.targetTemp

instance sameTargets_isPreorder :
    IsPreorder (Firmware R σ) (SameTargets : Firmware R σ → _ → Prop) where
  refl _ := rfl
  trans _ _ _ h h' := h'.trans h

theorem tempTick_targetTemp (analog : Sensor → Int) (s : TempState) :
    (tempTick analog s).1.targetTemp = s.targetTemp := by
  unfold tempTick
  dsimp only
  split <;> rfl

theorem serveIrq_targets (i : Irq) (fw : Firmware R σ) :
    SameTargets fw (serveIrq P i fw) :=
  serveIrq_temp (r := fun s s' => s'.targetTemp = s.targetTemp) (fun _ => rfl)
    tempTick_targetTemp i fw

theorem frame_targets : Frame P (SameTargets : Firmware R σ → _ → Prop) where
  irq := serveIrq_targets
  machine _ _ _ := rfl
  text _ _ := rfl
  effect _ _ _ := rfl
  extruder _ _ _ _ _ := rfl
  table _ _ _ _ := rfl
  timeout _ _ := rfl

theorem queue_targets : QueueFrame (SameTargets : Firmware R σ → _ → Prop) :=
  fun _ _ _ => rfl

/-- The sensor whose target a command sets.  `M104` and `M109` do nothing on a
machine whose extruder is not enabled. -/
def heaterOf (config : Configuration R) : Command → Option Sensor
  | .m .m104 | .m .m109 =>
      if config.enableExtruder1 ≠ 0 then some .extruder0 else none
  | .m .m140 => some .heatedBed0
  | _ => none

theorem heaterOf_of_not_heats (config : Configuration R) {command : Command}
    (h : command.heats = false) : heaterOf config command = none := by
  cases command with
  | m code => cases code <;> first | rfl | cases h
  | _ => rfl

theorem eq_m_of_heats {command : Command} (h : command.heats = true) :
    ∃ code, command = .m code := by
  cases command with
  | m code => exact ⟨code, rfl⟩
  | _ => cases h

/-- The targets once `t` is asked of a sensor, if of any. -/
def withTarget (sensor : Option Sensor) (t : Int) (target : Sensor → Int) :
    Sensor → Int :=
  match sensor with
  | some sensor => Function.update target sensor t
  | none => target

/-- The targets behind the first part of a program that keeps them afterwards. -/
theorem bind_targets {α β : Type} {x : FwM R σ α} {f : α → FwM R σ β}
    (hf : ∀ a, Moves SameTargets (f a)) (w : World (Firmware R σ) Irq) :
    ((x >>= f) w).2.state.temp.targetTemp = (x w).2.state.temp.targetTemp := by
  rw [bind_apply]
  split
  · next a w' heq =>
    rw [heq]
    exact hf a w'
  · next w' heq => rw [heq]

/-- A heater that is asked for only when the extruder is enabled. -/
theorem extruder_targets {x : FwM R σ Unit} (hx : Moves SameTargets x) (t : Int)
    (w : World (Firmware R σ) Irq) :
    (when (w.state.config.enableExtruder1 ≠ 0)
        (do tempSet t .extruder0; x) w).2.state.temp.targetTemp =
      withTarget (if w.state.config.enableExtruder1 ≠ 0 then some .extruder0
        else none) t w.state.temp.targetTemp := by
  by_cases hon : w.state.config.enableExtruder1 ≠ 0
  · rw [if_pos hon, decide_eq_true hon]
    exact bind_targets (fun _ => hx) w
  · rw [if_neg hon, decide_eq_false hon]
    rfl

theorem m104_targets (c : GcodeCommand R) (w : World (Firmware R σ) Irq) :
    (m104 P c w).2.state.temp.targetTemp =
      withTarget (heaterOf w.state.config (.m .m104)) (uint16 c.s)
        w.state.temp.targetTemp := by
  rw [m104, get_bind_apply]
  exact extruder_targets
    (Moves.when fun _ => frame_targets.planBufferActionWait queue_targets _) _ w

theorem m109_targets (c : GcodeCommand R) (w : World (Firmware R σ) Irq) :
    (m109 P c w).2.state.temp.targetTemp =
      withTarget (heaterOf w.state.config (.m .m109)) (uint16 c.s)
        w.state.temp.targetTemp := by
  rw [m109, get_bind_apply]
  exact extruder_targets (frame_targets.planBufferActionWait queue_targets _) _ w

theorem processM_targets (c : GcodeCommand R) {code : MCode}
    (h : Command.heats (.m code) = true) (w : World (Firmware R σ) Irq) :
    (processM P c code w).2.state.temp.targetTemp =
      withTarget (heaterOf w.state.config (.m code)) (uint16 c.s)
        w.state.temp.targetTemp := by
  cases code with
  | m104 => exact (bind_targets (fun _ => Moves.pure _) w).trans (m104_targets c w)
  | m109 => exact (bind_targets (fun _ => Moves.pure _) w).trans (m109_targets c w)
  | m140 => rfl
  | _ => cases h

/-- What a command does to the targets. -/
theorem processGcodeCommand_targets (c : GcodeCommand R)
    (w : World (Firmware R σ) Irq) :
    (processGcodeCommand P c w).2.state.temp.targetTemp =
      withTarget (heaterOf w.state.config (commandOf c)) (uint16 c.s)
        w.state.temp.targetTemp := by
  by_cases hheat : (commandOf c).heats = true
  · have hreply : ∀ out : Outcome R, Moves SameTargets (do
        when (!out.replySent) (serialWritestr "ok\r\n")
        return out.change : FwM R σ (Change R)) := fun out =>
      Moves.return (Moves.when fun _ => (frame_targets (P := P)).serialWrite _) _
    obtain ⟨code, hcode⟩ := eq_m_of_heats hheat
    have hrun : runCommand P c = processM P c code := by rw [runCommand, hcode]
    rw [processGcodeCommand, bind_targets hreply, hrun, hcode]
    exact processM_targets c (hcode ▸ hheat) w
  · rw [heaterOf_of_not_heats _ (by simpa using hheat)]
    exact frame_targets.processGcodeCommand (fun _ => queue_targets)
      (fun _ _ _ _ _ _ _ _ => rfl) (fun _ _ _ => rfl) (fun h => absurd h hheat) w

/-- The sensor whose target a line sets. -/
def heaterSet (s : Session R σ) (data : List UInt8) : Option Sensor :=
  if Processes s data then heaterOf s.fw.config (commandOf (parsed s data))
  else none

/-- What a line does to the targets, however long it waits. -/
theorem takeLine_targets (s : Session R σ) (data : List UInt8)
    (irqs : List Irq) :
    (takeLine P s data irqs).2.state.temp.targetTemp =
      withTarget (heaterSet s data) (uint16 (parsed s data).s)
        s.fw.temp.targetTemp := by
  by_cases hproc : Processes s data
  · rw [takeLine_processes hproc, heaterSet, if_pos hproc]
    exact processGcodeCommand_targets _ _
  · rw [heaterSet, if_neg hproc]
    exact frame_targets.takeLine (fun _ _ _ _ _ _ _ => rfl)
      (fun _ _ => queue_targets) (fun _ _ _ _ => rfl) (fun h => absurd h hproc) irqs

/-- Both targets are values that `read_temp` can return. -/
def TargetsInReach (fw : Firmware R σ) : Prop :=
  ∀ sensor, fw.temp.targetTemp sensor ≤ maxCelsius

/-- If the line sets a heater, then to a temperature within reach. -/
def AsksInReach (s : Session R σ) (data : List UInt8) : Prop :=
  heaterSet s data ≠ none → uint16 (parsed s data).s ≤ maxCelsius

theorem takeLine_inReach {s : Session R σ} {data : List UInt8}
    (hfw : TargetsInReach s.fw) (irqs : List Irq) :
    TargetsInReach (takeLine P s data irqs).2.state ↔ AsksInReach s data := by
  unfold TargetsInReach AsksInReach
  rw [takeLine_targets]
  cases heaterSet s data with
  | none => exact ⟨fun _ h => absurd rfl h, fun _ => hfw⟩
  | some sensor =>
      constructor
      · intro h _
        simpa [withTarget] using h sensor
      · intro h sensor'
        by_cases heq : sensor' = sensor
        · subst heq
          simpa [withTarget] using h (by simp)
        · simpa [withTarget, heq] using hfw sensor'

theorem background_inReach {fw fw' : Firmware R σ} (h : Background P fw fw')
    (hfw : TargetsInReach fw) : TargetsInReach fw' := by
  have hsame : fw'.temp.targetTemp = fw.temp.targetTemp := by
    rcases background_temp h with ⟨i, rfl⟩ | heq
    · exact serveIrq_targets i fw
    · rw [heq]
  intro sensor
  rw [hsame]
  exact hfw sensor

/-- In the states a run has been in, the targets are in reach exactly when every
line has asked for temperatures in reach. -/
theorem run_inReach_iff {s₀ s : Session R σ}
    {hist : List (Session R σ × List UInt8)} (h : Run P s₀ hist s)
    (h₀ : TargetsInReach s₀.fw) :
    (∀ hist' fw, hist' <:+ hist → Visited P s₀ hist' fw → TargetsInReach fw) ↔
      ∀ x ∈ hist, AsksInReach x.1 x.2 := by
  constructor
  · intro hall x hx
    obtain ⟨later, earlier, rfl⟩ := List.append_of_mem hx
    have hsuffix : (x.1, x.2) :: earlier <:+ later ++ x :: earlier :=
      List.suffix_append later (x :: earlier)
    have hrun : Run P s₀ earlier x.1 := h.of_suffix hsuffix
    have hbefore : TargetsInReach x.1.fw :=
      hall earlier x.1.fw ((List.suffix_cons x earlier).trans hsuffix)
        (.between hrun)
    exact (takeLine_inReach (P := P) hbefore []).1
      (hall _ _ hsuffix (.waiting hrun x.2 []))
  · intro hasks hist' fw hsuffix hv
    exact hv.invariant (fun _ _ => background_inReach)
      (fun _ _ irqs hask hfw => (takeLine_inReach hfw irqs).2 hask) h₀
      fun x hx => hasks x (hsuffix.subset hx)

/-- From power-up, through `autoexec.g` and in the main loop: in every state the
firmware has been in, both targets are at most `maxCelsius`, exactly when every
line that set a heater found a parameter `S` of at most that, as a `uint16_t`. -/
theorem targets_in_reach_iff (config : Configuration R) (fs : σ)
    {hist₁ hist₂ : List (Session R σ × List UInt8)} {s₁ s₂ : Session R σ}
    (h₁ : Run P (Session.boot config fs) hist₁ s₁)
    (h₂ : Run P s₁.init hist₂ s₂) :
    ((∀ hist fw, hist <:+ hist₁ → Visited P (Session.boot config fs) hist fw →
        TargetsInReach fw) ∧
      ∀ hist fw, hist <:+ hist₂ → Visited P s₁.init hist fw →
        TargetsInReach fw) ↔
      ∀ x ∈ hist₂ ++ hist₁, AsksInReach x.1 x.2 := by
  have hboot : TargetsInReach (Session.boot (R := R) config fs).fw :=
    fun _ => Int.le.intro 300 rfl
  have hiff₁ := run_inReach_iff h₁ hboot
  constructor
  · rintro ⟨hall₁, hall₂⟩ x hx
    have hinit : TargetsInReach s₁.init.fw :=
      hall₂ [] s₁.init.fw List.nil_suffix (.between .refl)
    rcases List.mem_append.1 hx with hx | hx
    · exact (run_inReach_iff h₂ hinit).1 hall₂ x hx
    · exact hiff₁.1 hall₁ x hx
  · intro hasks
    have hall₁ := hiff₁.2 fun x hx => hasks x (List.mem_append_right _ hx)
    have hinit : TargetsInReach s₁.init.fw :=
      hall₁ hist₁ s₁.fw List.suffix_rfl (.between h₁)
    exact ⟨hall₁, (run_inReach_iff h₂ hinit).2 fun x hx =>
      hasks x (List.mem_append_left _ hx)⟩

/-- The machine is switched on, its `autoexec.g` is empty, and the first line
asks for 200 degrees. -/
def heatedStart : Session ℚ Unit :=
  (playLine noCard defaultStart (str "M104 S200\n")).get (by decide +kernel)

theorem targets_in_reach_heated :
    (∀ x ∈ [(defaultStart, str "M104 S200\n")], AsksInReach x.1 x.2) ∧
      ∀ hist fw, hist <:+ [(defaultStart, str "M104 S200\n")] →
        Visited noCard defaultStart hist fw → TargetsInReach fw := by
  have hask : ∀ x ∈ [(defaultStart, str "M104 S200\n")], AsksInReach x.1 x.2 := by
    simp only [List.mem_singleton, forall_eq]
    exact fun _ => by decide +kernel
  have hrun : Run noCard defaultStart [(defaultStart, str "M104 S200\n")]
      heatedStart :=
    .line .refl (lineDone_of_playLine (Option.some_get _).symm)
  exact ⟨hask, ((targets_in_reach_iff .default () .refl hrun).2 hask).2⟩

/-- `M104 S1000`, and the heater is on for ever: the target is above everything
`read_temp` returns. -/
theorem target_out_of_reach :
    ¬ ∀ (config : Configuration ℚ) (fs : Unit)
        (hist₁ hist₂ : List (Session ℚ Unit × List UInt8))
        (s₁ : Session ℚ Unit) (fw : Firmware ℚ Unit),
        Run noCard (Session.boot config fs) hist₁ s₁ →
        Visited noCard s₁.init hist₂ fw → TargetsInReach fw := by
  intro h
  have hreach := h .default () [] _ _ _ .refl
    (.waiting .refl (str "M104 S1000\n") []) .extruder0
  revert hreach
  decide +kernel

end R2C2Firmware.Ports.HeaterTargets
