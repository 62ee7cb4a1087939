import R2C2Firmware.Ports.CommandNumbers
import R2C2Firmware.Ports.PositionAgreement
import R2C2Firmware.Ports.SdCard

/-!
# Relative moves

In relative mode a move starts from `startpoint`, which holds the exact sum of the
displacements, and only the sum is rounded to steps.  A move that rounds to no steps
is dropped by `plan_buffer_line` before `startpoint` is updated, and so is its
displacement: many small moves can add up to nothing.

## Main results

* `move_step` — what one line does to `startpoint`.
* `relative_moves_accumulate` — runs of which no line is dropped.
* `small_moves_lost` — three moves of 0.005 mm.
-/

set_option linter.unusedSectionVars false

namespace R2C2Firmware.Ports.RelativeMoves

open R2C2Firmware.Verified.Number
open R2C2Firmware.Verified.BusyWait
open R2C2Firmware.Ports.Config
open R2C2Firmware.Ports.MotionPlanner
open R2C2Firmware.Ports.Stepper
open R2C2Firmware.Ports.Sermsg
open R2C2Firmware.Ports.GcodeParse
open R2C2Firmware.Ports.Mendel
open R2C2Firmware.Ports.GcodeProcess
open R2C2Firmware.Ports.MainLoop
open R2C2Firmware.Ports.Checksum
open R2C2Firmware.Ports.StaleWords
open R2C2Firmware.Ports.LineIndependence
open R2C2Firmware.Ports.PositionAgreement
open R2C2Firmware.Ports.NumberWords
open R2C2Firmware.Ports.AxisWords
open R2C2Firmware.Ports.WordOrder

variable {R σ : Type} [Field R] [LinearOrder R] [FloorRing R]

/-! ## Lines -/

/-- The letter of an axis. -/
def axisLetter : Axis → UInt8
  | .x => 88
  | .y => 89
  | .z => 90
  | .e => 69

theorem axisLetter_word (a : Axis) :
    wordOf (uppercase (axisLetter a)) = some (axisWord a) := by
  cases a <;> rfl

/-- The words `G1`, a displacement along an axis, and a feed rate, if it is given. -/
def moveWords (a : Axis) (d : Decimal) (feed : Option Decimal) : List NumberWord :=
  g1Word :: ⟨axisLetter a, axisWord a, axisLetter_word a, d⟩ ::
    feed.toList.map fun f => ⟨70, .f, rfl, f⟩

/-- A line with a displacement along an axis. -/
structure MoveLine (a : Axis) (data : List UInt8) (d : Decimal) : Prop where
  line : ∃ blanks feed c, blanks.length = (moveWords a d feed).length ∧
    isLineEnd c = true ∧ data = lineOf blanks (moveWords a d feed) c

theorem mem_moveWords {a : Axis} {d : Decimal} {feed : Option Decimal} {e : NumberWord}
    (h : e ∈ moveWords a d feed) :
    e = g1Word ∨ e = ⟨axisLetter a, axisWord a, axisLetter_word a, d⟩ ∨ e.word = .f := by
  rcases List.mem_cons.1 h with rfl | h
  · exact .inl rfl
  · rcases List.mem_cons.1 h with rfl | h
    · exact .inr (.inl rfl)
    · obtain ⟨f, -, rfl⟩ := List.mem_map.1 h
      exact .inr (.inr rfl)

theorem axisWord_ne (a : Axis) :
    axisWord a ≠ .g ∧ axisWord a ≠ .m ∧ axisWord a ≠ .f ∧ axisWord a ≠ .p ∧
      axisWord a ≠ .checksum ∧ axisWord a ≠ .unknown := by
  cases a <;> decide

theorem moveWords_one (a : Axis) (d : Decimal) (feed : Option Decimal) :
    OneCommand (moveWords a d feed) := by
  obtain ⟨hg, hm, hf, -⟩ := axisWord_ne a
  constructor
  · refine List.pairwise_cons.2 ⟨fun e he heq => ?_, List.pairwise_cons.2
      ⟨fun e he heq => ?_, ?_⟩⟩
    · rcases List.mem_cons.1 he with rfl | he
      · exact absurd (show Word.g = axisWord a from heq).symm hg
      · obtain ⟨f, -, rfl⟩ := List.mem_map.1 he
        exact absurd (show Word.g = .f from heq) (by decide)
    · obtain ⟨f, -, rfl⟩ := List.mem_map.1 he
      exact absurd (show axisWord a = .f from heq) hf
    · cases feed with
      | none => exact List.Pairwise.nil
      | some f => exact List.pairwise_singleton _ _
  · intro e _ _ e' he'
    rcases mem_moveWords he' with rfl | rfl | hf'
    · decide
    · exact hm
    · rw [hf']
      decide

/-- What the parser reads from a line that moves axis `a` by `d`. -/
structure Says (s : Session R σ) (a : Axis) (d : R) (c : GcodeCommand R) : Prop where
  command : commandOf c = .g .g1
  accepted : checksumAccepted c = true
  relative : c.optionRelative = s.parser.nextTarget.optionRelative
  inches : c.optionInches = s.parser.nextTarget.optionInches
  closed : c.gettingString = false
  moved : c.target.coord a = inUnits s.parser.nextTarget d
  extrudes : c.seenE = true ↔ a = .e

section Sessions

variable [HasSqrt R] [IsStrictOrderedRing R] {P : Platform σ} {s s' : Session R σ}
  {a : Axis} {data : List UInt8} {d : Decimal}

theorem coord_of_valueOf {c c' : GcodeCommand R}
    (h : valueOf (axisWord a) c = valueOf (axisWord a) c') :
    c.target.coord a = c'.target.coord a := by
  cases a <;> exact Sum.inr.inj h

theorem MoveLine.tells (h : MoveLine a data d) (hr : Rested s.parser)
    (hclosed : s.parser.nextTarget.gettingString = false) :
    Says s a (d.number R) (parsed s data) := by
  obtain ⟨blanks, feed, c, hblanks, hc, rfl⟩ := h.line
  have hone := moveWords_one a d feed
  have haxis := axisWord_ne a
  have hnames : ∀ e ∈ moveWords a d feed, ¬e.Names R := by
    rintro e he ⟨hm, -⟩
    rcases mem_moveWords he with rfl | rfl | hf
    · exact absurd hm (by decide)
    · exact haxis.2.1 hm
    · exact absurd (hf.symm.trans hm) (by decide)
  have hunchecked : ∀ e ∈ moveWords a d feed, e.word ≠ .checksum := by
    intro e he hsum
    rcases mem_moveWords he with rfl | rfl | hf
    · exact absurd hsum (by decide)
    · exact haxis.2.2.2.2.1 hsum
    · exact absurd (hf.symm.trans hsum) (by decide)
  have hordinary : Ordinary s (moveWords a d feed) :=
    ⟨hr, hclosed, hone, hnames, hunchecked⟩
  obtain ⟨k, hk⟩ := parsed_lineOf hr hclosed hnames hblanks hc
  have hsettings := settings_words (moveWords a d feed) s.parser.nextTarget
  have hstored : CommandNumbers.Stored (moveWords a d feed) s.parser.nextTarget
      (parsed s (lineOf blanks (moveWords a d feed) c)) := by
    refine ⟨hone, rested_unseen hr, rested_g hr, fun w => ?_, fun w => ?_⟩
    · rw [hk]
      cases w <;> rfl
    · rw [hk]
      cases w <;> rfl
  have hmem : (⟨axisLetter a, axisWord a, axisLetter_word a, d⟩ : NumberWord) ∈
      moveWords a d feed := List.mem_cons_of_mem _ List.mem_cons_self
  refine ⟨?_, hordinary.accepted hblanks hc, ?_, ?_, ?_, ?_, ?_⟩
  · refine (hstored.commandOf_g (e := g1Word) List.mem_cons_self rfl .g1).2 ?_
    have hnumber : g1Word.number.read R = ((1 : Nat) : R) :=
      (read_exact _).trans (oneDigit_number 49 ⟨by decide, by decide⟩)
    rw [hnumber, truncate_natCast]
    rfl
  · rw [hk]
    exact congrArg (·.1) hsettings
  · rw [hk]
    exact congrArg (·.2.1) hsettings
  · rw [hk]
    refine Eq.trans (keep_words (f := fun t : GcodeCommand R => t.gettingString)
      (fun e he t => ?_) s.parser.nextTarget) hclosed
    have hm : e.word ≠ .m := hone.single g1Word List.mem_cons_self rfl e he
    unfold NumberWord.store
    generalize e.word = w at hm
    cases w <;> first | rfl | exact absurd rfl hm
  · rw [coord_of_valueOf (hstored.value hmem haxis.2.2.2.2.2 haxis.2.2.2.1),
      coord_storeWord, read_exact]
  · rw [show (parsed s (lineOf blanks (moveWords a d feed) c)).seenE = seen .e _ from rfl,
      hstored.seen (by decide)]
    constructor
    · rintro ⟨e, he, hword⟩
      rcases mem_moveWords he with rfl | rfl | hf
      · exact absurd hword (by decide)
      · have haxis : axisWord a = .e := hword
        cases a <;> first | rfl | exact absurd haxis (by decide)
      · exact absurd (hf.symm.trans hword) (by decide)
    · rintro rfl
      exact ⟨_, hmem, rfl⟩

/-! ## The handler -/

/-- The target of the line. -/
theorem Says.target {c : GcodeCommand R} {δ : R} (h : Says s a δ c)
    (hrelative : s.parser.nextTarget.optionRelative = true)
    (fw : Firmware R σ) :
    (g1Target c fw).coord a =
      fw.startpoint.coord a + inUnits s.parser.nextTarget δ := by
  have hon : c.optionRelative = true := h.relative.trans hrelative
  have hnext : (nextTargetd c fw.startpoint).coord a =
      fw.startpoint.coord a + c.target.coord a := by
    unfold nextTargetd
    dsimp only
    rw [if_pos hon]
    cases a <;> rfl
  rw [← h.moved, ← hnext]
  unfold g1Target
  dsimp only
  split
  · next hauto =>
    have hunseen : ¬a = .e := fun ha => by
      rw [h.extrudes.2 ha] at hauto
      exact absurd hauto.2 (by simp)
    cases a with
    | e => exact absurd rfl hunseen
    | x | y | z => rfl
  · rfl

/-- The move is dropped: its target is another point, but rounds to the position. -/
def Dropped (fw : Firmware R σ) (t : Target R) : Prop :=
  departs t fw = true ∧
    zeroLength fw.machine.config (moveRequest t fw) fw.machine.planner = true

/-- The place of the machine, its settings, and whether a file is being saved. -/
def place (fw : Firmware R σ) : (Axis → Int) × Target R × Configuration R × Bool :=
  (fw.machine.planner.position, fw.machine.planner.startpoint, fw.machine.config,
    fw.sdWritingFile)

/-- The place is the same. -/
def SamePlace (fw fw' : Firmware R σ) : Prop := place fw' = place fw

instance : IsPreorder (Firmware R σ) SamePlace where
  refl _ := rfl
  trans _ _ _ h h' := h'.trans h

theorem serveIrq_place (P : Platform σ) (i : Irq) (fw : Firmware R σ) :
    SamePlace fw (serveIrq P i fw) := by
  have hd := serveIrq_discards P i fw
  obtain ⟨hposition, hstart⟩ := hd.position
  have hcard := congrArg SdCard.Card.sdWritingFile (SdCard.serveIrq_card P i fw)
  show (_, _, _, _) = (_, _, _, _)
  rw [hposition, hstart, hd.1]
  exact congrArg (fun b => (_, _, _, b)) hcard

/-- On an axis, the position in steps is the rounded position in millimetres. -/
def AgreesOn (a : Axis) (fw : Firmware R σ) : Prop :=
  fw.machine.planner.position a =
    int32 (lround (fw.startpoint.coord a * fw.config.stepsPerMm a))

theorem agreesOn_of_place {fw fw' : Firmware R σ} (h : SamePlace fw fw')
    (ha : AgreesOn a fw) : AgreesOn a fw' := by
  have hposition : fw'.machine.planner.position = fw.machine.planner.position :=
    congrArg (·.1) h
  have hstart : fw'.startpoint = fw.startpoint := congrArg (·.2.1) h
  have hconfig : fw'.config = fw.config := congrArg (·.2.2.1) h
  unfold AgreesOn
  rw [hposition, hstart, hconfig]
  exact ha

theorem departs_eq_false {t : Target R} {fw : Firmware R σ} (h : departs t fw = false)
    (a : Axis) : t.coord a = fw.startpoint.coord a := by
  unfold departs at h
  dsimp only at h
  rw [decide_eq_false_iff_not] at h
  push Not at h
  obtain ⟨hx, hy, hz, he⟩ := h
  cases a with
  | x => exact hx
  | y => exact hy
  | z => exact hz
  | e => exact he

/-- A move that is not dropped ends at its target. -/
theorem enqueueMoved_place {t : Target R} {w w' : World (Firmware R σ) Irq}
    (hdrop : ¬Dropped w.state t) (h : enqueueMoved P t w = (some (), w')) :
    w'.state.startpoint.coord = (moveRequest t w.state).target.coord ∧
      w'.state.config = w.state.config ∧
      w'.state.sdWritingFile = w.state.sdWritingFile ∧
      (AgreesOn a w.state → AgreesOn a w'.state) := by
  unfold enqueueMoved at h
  rw [get_bind_apply] at h
  cases hdeparts : departs t w.state with
  | true =>
      rw [if_pos hdeparts, planBufferActionWait] at h
      obtain ⟨⟨⟩, w₁, hspin, hmodify⟩ := bind_eq_some.1 h
      have hplace : place w₁.state = place w.state := by
        have hmoves := Moves.spinUntil (r := SamePlace) (serveIrq_place P)
          (fun fw => !planQueueFull fw.machine.planner) w
        rw [hspin] at hmoves
        exact hmoves
      have hposition : w₁.state.machine.planner.position =
          w.state.machine.planner.position := congrArg (·.1) hplace
      have hconfig : w₁.state.machine.config = w.state.machine.config :=
        congrArg (·.2.2.1) hplace
      have hw' : w'.state = { w₁.state with
          machine := bufferAction (moveRequest t w.state) w₁.state.machine } :=
        (congrArg (fun r => r.2.state) hmodify).symm
      have hzero : zeroLength w₁.state.machine.config (moveRequest t w.state)
          w₁.state.machine.planner = false := by
        have hlength : ¬zeroLength w.state.machine.config (moveRequest t w.state)
            w.state.machine.planner = true := fun hzero => hdrop ⟨hdeparts, hzero⟩
        unfold zeroLength at hlength ⊢
        rw [hconfig, hposition]
        simpa using hlength
      obtain ⟨hframe, hplanner, -⟩ :=
        bufferAction_frame (moveRequest t w.state) w₁.state.machine
      have hends : (bufferAction (moveRequest t w.state)
            w₁.state.machine).planner.startpoint = (moveRequest t w.state).target ∧
          (bufferAction (moveRequest t w.state) w₁.state.machine).planner.position =
            targetSteps w₁.state.machine.config (moveRequest t w.state).target := by
        rw [hplanner]
        show (planBufferLine _ _ _).1.startpoint = _ ∧
          (planBufferLine _ _ _).1.position = _
        rw [planBufferLine_fst hzero, finishPlan_eq]
        exact ⟨rfl, rfl⟩
      rw [hw']
      refine ⟨congrArg Target.coord hends.1, hframe.trans hconfig,
        congrArg (·.2.2.2) hplace, fun _ => ?_⟩
      show (bufferAction (moveRequest t w.state) w₁.state.machine).planner.position a =
        int32 (lround ((bufferAction (moveRequest t w.state)
            w₁.state.machine).planner.startpoint.coord a *
          (bufferAction (moveRequest t w.state)
            w₁.state.machine).config.stepsPerMm a))
      rw [hends.1, hends.2, hframe]
      rfl
  | false =>
      rw [if_neg (by simp [hdeparts])] at h
      have hw' : w'.state = { w.state with machine := { w.state.machine with
          planner := planSetFeedRate t w.state.machine.planner } } :=
        (congrArg (fun r => r.2.state) h).symm
      rw [hw']
      refine ⟨funext fun b => ?_, rfl, rfl, fun ha => ?_⟩
      · have hcoord := departs_eq_false hdeparts b
        show (planSetFeedRate t w.state.machine.planner).startpoint.coord b = _
        cases b with
        | x | y | z => exact hcoord.symm
        | e =>
            show w.state.startpoint.e =
              if w.state.config.enableExtruder1 = 0 then w.state.startpoint.e else t.e
            split
            · rfl
            · exact hcoord.symm
      · cases a <;> exact ha

/-! ## Runs -/

/-- Relative mode, with the settings of a session. -/
structure Relative (a : Axis) (s₀ s : Session R σ) : Prop where
  rested : Rested s.parser
  closed : s.parser.nextTarget.gettingString = false
  relative : s.parser.nextTarget.optionRelative = true
  inches : s.parser.nextTarget.optionInches = s₀.parser.nextTarget.optionInches
  config : s.fw.config = s₀.fw.config
  writing : s.fw.sdWritingFile = false
  agrees : AgreesOn a s.fw

/-- A `G1` that returns has queued its target, or dropped it, and replied `ok`. -/
theorem g1_returns {c : GcodeCommand R} (hcommand : commandOf c = .g .g1)
    {w w' : World (Firmware R σ) Irq} {change : Change R}
    (h : processGcodeCommand P c w = (some change, w')) :
    change = .none ∧ ∃ w₁, enqueueMoved P (g1Target c w.state) w = (some (), w₁) ∧
      w'.state = { w₁.state with tx := w₁.state.tx ++ str "ok\r\n" } := by
  unfold processGcodeCommand runCommand at h
  rw [hcommand] at h
  obtain ⟨out, w₁, hout, hrest⟩ := bind_eq_some.1 h
  obtain ⟨⟨⟩, w₂, hg1, hplain⟩ := bind_eq_some.1 hout
  obtain ⟨hout', hw⟩ := Prod.mk.inj
    (show (some Outcome.plain, w₂) = (some out, w₁) from hplain)
  obtain rfl := Option.some.inj hout'
  subst hw
  have hmove : enqueueMoved P (g1Target c w.state) w = (some (), w₂) := hg1
  obtain ⟨hchange, hw'⟩ := Prod.mk.inj hrest
  exact ⟨(Option.some.inj hchange).symm, w₂, hmove, by rw [← hw']⟩

/-- One line that is not dropped moves the start point of its axis by its number, and
leaves the next line relative. -/
theorem move_step {s₀ : Session R σ} (h : Relative a s₀ s) (hline : MoveLine a data d)
    (hextruder : a = .e → s₀.fw.config.enableExtruder1 ≠ 0)
    (hdone : LineDone P s data s')
    (hdrop : ¬Dropped s.fw (g1Target (parsed s data) s.fw)) :
    Relative a s₀ s' ∧
      s'.fw.startpoint.coord a =
        s.fw.startpoint.coord a + inUnits s₀.parser.nextTarget (d.number R) := by
  obtain ⟨irqs, rest, htake⟩ := hdone
  have htells := hline.tells h.rested h.closed
  have hproc : Processes s data := ⟨htells.accepted, h.writing⟩
  obtain ⟨change, hprocess, hparser⟩ := takeLine_returns hproc htake
  obtain ⟨rfl, w₁, hmove, hstate⟩ := g1_returns htells.command hprocess
  obtain ⟨hcoord, hconfig, hwriting, hagrees⟩ := enqueueMoved_place hdrop hmove
  have hfw : s'.fw = { w₁.state with tx := w₁.state.tx ++ str "ok\r\n" } := hstate
  have hexpect : (expectNext (parsed s data)).optionRelative =
        (parsed s data).optionRelative ∧
      (expectNext (parsed s data)).optionInches = (parsed s data).optionInches ∧
      (expectNext (parsed s data)).gettingString = (parsed s data).gettingString := by
    unfold expectNext
    split <;> exact ⟨rfl, rfl, rfl⟩
  refine ⟨⟨lineDone_rested h.rested ⟨irqs, rest, htake⟩, ?_, ?_, ?_, ?_, ?_, ?_⟩, ?_⟩
  · rw [hparser]
    exact hexpect.2.2.trans htells.closed
  · rw [hparser]
    exact hexpect.1.trans (htells.relative.trans h.relative)
  · rw [hparser]
    exact hexpect.2.1.trans (htells.inches.trans h.inches)
  · rw [hfw]
    exact hconfig.trans h.config
  · rw [hfw]
    exact hwriting.trans h.writing
  · rw [hfw]
    exact hagrees h.agrees
  · have htarget := htells.target h.relative s.fw
    have hunits : inUnits s.parser.nextTarget (d.number R) =
        inUnits s₀.parser.nextTarget (d.number R) := by
      unfold inUnits
      rw [h.inches]
    rw [hfw, ← hunits, ← htarget]
    show w₁.state.startpoint.coord a = _
    rw [hcoord]
    cases a with
    | x | y | z => rfl
    | e =>
        have hon := hextruder rfl
        rw [← h.config] at hon
        exact if_neg hon

theorem background_relative {s₀ : Session R σ} (h : Relative a s₀ s)
    {fw : Firmware R σ} (hb : Background P s.fw fw) :
    Relative a s₀ { s with fw } ∧ fw.startpoint = s.fw.startpoint := by
  have hplace : place fw = place s.fw := by
    cases hb with
    | irq i => exact serveIrq_place P i s.fw
    | sdPoll =>
        unfold sdPoll
        split
        · split <;> rfl
        · rfl
    | countTimeout =>
        unfold countTimeout
        split <;> rfl
  exact ⟨⟨h.rested, h.closed, h.relative, h.inches,
    (congrArg (·.2.2.1) hplace).trans h.config,
    (congrArg (·.2.2.2) hplace).trans h.writing, agreesOn_of_place hplace h.agrees⟩,
    congrArg (·.2.1) hplace⟩

/-- The displacements of a run add up, latest first. -/
theorem run_relative {s₀ : Session R σ} {hist : List (Session R σ × List UInt8)}
    {ds : List Decimal} (h₀ : Relative a s₀ s₀)
    (hextruder : a = .e → s₀.fw.config.enableExtruder1 ≠ 0) (hrun : Run P s₀ hist s)
    (hlines : List.Forall₂ (fun x d => MoveLine a x.2 d) hist ds)
    (hcarried : ∀ x ∈ hist, ¬Dropped x.1.fw (g1Target (parsed x.1 x.2) x.1.fw)) :
    Relative a s₀ s ∧
      s.fw.startpoint.coord a = s₀.fw.startpoint.coord a +
        (ds.map fun d => inUnits s₀.parser.nextTarget (d.number R)).sum := by
  induction hrun generalizing ds with
  | refl =>
      cases hlines
      exact ⟨h₀, by simp⟩
  | background hrun hb ih =>
      obtain ⟨hrel, hstart⟩ := ih hlines hcarried
      obtain ⟨hrel', hsame⟩ := background_relative hrel hb
      exact ⟨hrel', (congrArg (Target.coord · a) hsame).trans hstart⟩
  | line hrun hdone ih =>
      cases hlines with
      | cons hline hlines =>
          obtain ⟨hrel, hstart⟩ := ih hlines fun x hx =>
            hcarried x (List.mem_cons_of_mem _ hx)
          obtain ⟨hrel', hmoved⟩ := move_step hrel hline hextruder hdone
            (hcarried _ List.mem_cons_self)
          refine ⟨hrel', ?_⟩
          rw [hmoved, hstart, List.map_cons, List.sum_cons]
          ring

/-- The sum of the displacements, from where the axis stands, in steps. -/
def total (a : Axis) (s₀ : Session R σ) (ds : List Decimal) : Int :=
  lround ((s₀.fw.startpoint.coord a +
    (ds.map fun d => inUnits s₀.parser.nextTarget (d.number R)).sum) *
      s₀.fw.config.stepsPerMm a)

/-- In relative mode the displacements of a run of lines `G1` add up exactly and the
sum is rounded, if no move of the run is dropped. -/
theorem relative_moves_accumulate {s₀ : Session R σ}
    {hist : List (Session R σ × List UInt8)} {ds : List Decimal} (hs : Reachable P s₀)
    (hclosed : s₀.parser.nextTarget.gettingString = false)
    (hrelative : s₀.parser.nextTarget.optionRelative = true)
    (hwriting : s₀.fw.sdWritingFile = false) (hagrees : AgreesOn a s₀.fw)
    (hextruder : a = .e → s₀.fw.config.enableExtruder1 ≠ 0) (hrun : Run P s₀ hist s)
    (hlines : List.Forall₂ (fun x d => MoveLine a x.2 d) hist.reverse ds)
    (hcarried : ∀ x ∈ hist, ¬Dropped x.1.fw (g1Target (parsed x.1 x.2) x.1.fw))
    (hrange : -2147483648 ≤ total a s₀ ds ∧ total a s₀ ds < 2147483648) :
    s.fw.machine.planner.position a = total a s₀ ds := by
  have h₀ : Relative a s₀ s₀ :=
    ⟨reachable_rested hs, hclosed, hrelative, rfl, rfl, hwriting, hagrees⟩
  have hlines' : List.Forall₂ (fun x d => MoveLine a x.2 d) hist ds.reverse := by
    rw [← List.forall₂_reverse_iff, List.reverse_reverse]
    exact hlines
  obtain ⟨hrel, hstart⟩ := run_relative h₀ hextruder hrun hlines' hcarried
  rw [List.map_reverse, List.sum_reverse] at hstart
  rw [hrel.agrees, hstart, hrel.config]
  exact int32_of_range hrange.1 hrange.2

end Sessions

/-! ## Two runs -/

section Example

/-- `G91` has been processed. -/
def relativeStart : Session ℚ Unit :=
  (playLines noCard defaultStart [str "G91\n"]).get (by decide +kernel)

theorem relativeStart_reachable : Reachable noCard relativeStart :=
  reachable_of_playLines (reachable_init _ _) (Option.some_get _).symm

/-- The number 600 -/
def sixHundred : Decimal where
  neg := false
  whole := [54, 48, 48]
  frac := none
  whole_digits := by decide +kernel
  frac_digits := no_frac_digits
  nonempty := .inl (by simp)

/-- Some thousandths. -/
def thousandths (tens ones : Fin 10) : Decimal where
  neg := false
  whole := [48]
  frac := some [48, digit tens, digit ones]
  whole_digits := zero_digits
  frac_digits := by
    intro b hb
    obtain rfl := Option.some.inj hb
    simp only [List.forall_mem_cons, List.not_mem_nil, false_implies, implies_true,
      and_true]
    exact ⟨by decide, digit_isDigit tens.isLt, digit_isDigit ones.isLt⟩
  nonempty := .inl (by simp)

/-- `G1 X0.017` -/
def unevenLine : List UInt8 := str "G1 X0.017 F600\n"

theorem moveLine_uneven : MoveLine .x unevenLine (thousandths 1 7) :=
  ⟨[0, 1, 1], some sixHundred, 10, rfl, rfl, by decide +kernel⟩

/-- One and two moves of 0.017 mm after `G91`. -/
def unevenOne : Session ℚ Unit :=
  (playLine noCard relativeStart unevenLine).get (by decide +kernel)

@[inherit_doc unevenOne]
def unevenTwo : Session ℚ Unit :=
  (playLine noCard unevenOne unevenLine).get (by decide +kernel)

/-- A move of 0.017 mm is 1.36 steps: the first makes one, and the second two, for
together they are 2.72. -/
theorem relative_moves_uneven :
    unevenOne.fw.machine.planner.position .x = 1 ∧
      unevenTwo.fw.machine.planner.position .x = 3 := by
  have hone : LineDone noCard relativeStart unevenLine unevenOne :=
    lineDone_of_playLine (Option.some_get _).symm
  have htwo : LineDone noCard unevenOne unevenLine unevenTwo :=
    lineDone_of_playLine (Option.some_get _).symm
  have htotal : total .x relativeStart [thousandths 1 7, thousandths 1 7] = 3 := by
    decide +kernel
  refine ⟨by decide +kernel, ?_⟩
  rw [← htotal]
  refine relative_moves_accumulate relativeStart_reachable (by decide +kernel)
    (by decide +kernel) (by decide +kernel) (show _ = _ by decide +kernel)
    (fun h => absurd h (by decide)) (.line (.line .refl hone) htwo)
    (.cons moveLine_uneven (.cons moveLine_uneven .nil)) (fun x hx => ?_)
    (by rw [htotal]; decide)
  rcases List.mem_pair.1 hx with rfl | rfl <;> rintro ⟨-, hzero⟩
  · exact absurd hzero (by decide +kernel)
  · exact absurd hzero (by decide +kernel)

/-- `G1 X0.005` -/
def smallLine : List UInt8 := str "G1 X0.005 F600\n"

theorem moveLine_small : MoveLine .x smallLine (thousandths 0 5) :=
  ⟨[0, 1, 1], some sixHundred, 10, rfl, rfl, by decide +kernel⟩

/-- One, two and three moves of 0.005 mm after `G91`. -/
def smallOne : Session ℚ Unit :=
  (playLine noCard relativeStart smallLine).get (by decide +kernel)

@[inherit_doc smallOne]
def smallTwo : Session ℚ Unit :=
  (playLine noCard smallOne smallLine).get (by decide +kernel)

@[inherit_doc smallOne]
def smallThree : Session ℚ Unit :=
  (playLine noCard smallTwo smallLine).get (by decide +kernel)

/-- Three moves of 0.005 mm make a step and a fifth, but none is made. -/
theorem small_moves_lost :
    Reachable noCard relativeStart ∧
      relativeStart.parser.nextTarget.gettingString = false ∧
      relativeStart.parser.nextTarget.optionRelative = true ∧
      relativeStart.fw.sdWritingFile = false ∧
      AgreesOn .x relativeStart.fw ∧
      MoveLine .x smallLine (thousandths 0 5) ∧
      Run noCard relativeStart
        [(smallTwo, smallLine), (smallOne, smallLine), (relativeStart, smallLine)]
        smallThree ∧
      total .x relativeStart [thousandths 0 5, thousandths 0 5, thousandths 0 5] = 1 ∧
      smallThree.fw.machine.planner.position .x = 0 := by
  have hone : LineDone noCard relativeStart smallLine smallOne :=
    lineDone_of_playLine (Option.some_get _).symm
  have htwo : LineDone noCard smallOne smallLine smallTwo :=
    lineDone_of_playLine (Option.some_get _).symm
  have hthree : LineDone noCard smallTwo smallLine smallThree :=
    lineDone_of_playLine (Option.some_get _).symm
  refine ⟨relativeStart_reachable, by decide +kernel, by decide +kernel,
    by decide +kernel, show _ = _ by decide +kernel, moveLine_small,
    .line (.line (.line .refl hone) htwo) hthree, by decide +kernel, by decide +kernel⟩

end Example

end R2C2Firmware.Ports.RelativeMoves
