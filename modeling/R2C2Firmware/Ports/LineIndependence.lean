import R2C2Firmware.Ports.Oblivious
import R2C2Firmware.Ports.Resend
import R2C2Firmware.Ports.StaleWords

/-!
# What earlier lines leave behind

Two sessions in which everything agrees that a line is meant to depend on: the
firmware, the units, relative or absolute coordinates.  They may differ in what
earlier lines have left in the parser.

A line does the same in both exactly if they agree on what is read without
having been given: the number that a request for a line names, an open file
name, and, unless lines are being stored, the numbers of `M104`, `M109` and
`M140`, the file name of `M23` and `M28`, and the time of `G4`, if that is ever
reached.

## Main results

* `independent_iff` — all lines do the same in two sessions.
* `stale_temperature` — a heater is set to a number from an unrelated line.
-/

set_option linter.unusedSectionVars false

namespace R2C2Firmware.Ports.LineIndependence

open R2C2Firmware.Verified.Number
open R2C2Firmware.Verified.BusyWait
open R2C2Firmware.Ports.Config
open R2C2Firmware.Ports.MotionPlanner
open R2C2Firmware.Ports.Stepper
open R2C2Firmware.Ports.Temp
open R2C2Firmware.Ports.Sermsg
open R2C2Firmware.Ports.GcodeParse
open R2C2Firmware.Ports.Mendel
open R2C2Firmware.Ports.GcodeProcess
open R2C2Firmware.Ports.MainLoop
open R2C2Firmware.Ports.Checksum
open R2C2Firmware.Ports.Oblivious
open R2C2Firmware.Ports.StaleWords

variable {R σ : Type}

/-! ## Outcomes -/

/-- The firmware after something, with what it has sent and done since. -/
def since (fw fw' : Firmware R σ) : Firmware R σ :=
  { fw' with
    tx := fw'.tx.drop fw.tx.length
    effects := fw'.effects.take (fw'.effects.length - fw.effects.length)
    steptimeout := 0 }

/-- The firmware without its record. -/
def forget (fw : Firmware R σ) : Firmware R σ :=
  { fw with tx := [], effects := [], steptimeout := 0 }

/-- The session without the record. -/
def Fresh (s : Session R σ) : Session R σ := { s with fw := forget s.fw }

/-- Putting the record back where it was forgotten gives the firmware again. -/
theorem relog_forget (fw : Firmware R σ) :
    relog fw.tx fw.effects fw.steptimeout (forget fw) = fw := by
  show { fw with tx := fw.tx ++ [] } = fw
  rw [List.append_nil]

/-- A firmware that continues the record of an earlier state has since sent and done
what it has of its own. -/
theorem since_relog (fw fw' : Firmware R σ) (k : Int) :
    since fw (relog fw.tx fw.effects k fw') = { fw' with steptimeout := 0 } := by
  have htx : (fw.tx ++ fw'.tx).drop fw.tx.length = fw'.tx :=
    List.drop_left
  have heffects : (fw'.effects ++ fw.effects).take
      ((fw'.effects ++ fw.effects).length - fw.effects.length) = fw'.effects := by
    rw [List.length_append, Nat.add_sub_cancel]
    exact List.take_left
  show { fw' with tx := _, effects := _, steptimeout := 0 } = _
  rw [show (relog fw.tx fw.effects k fw').tx = fw.tx ++ fw'.tx from rfl, htx,
    show (relog fw.tx fw.effects k fw').effects = fw'.effects ++ fw.effects from
      rfl, heffects]

section Lines

variable [Field R] [LinearOrder R] [HasSqrt R] [FloorRing R] {P : Platform σ}

section Outcomes

variable [HasDouble R]

/-- A line does the same in both sessions: it returns in both or in none, sends
the same, and leaves the same firmware. -/
def SameOutcome (P : Platform σ) (s₁ s₂ : Session R σ) (data : List UInt8)
    (irqs : List Irq) : Prop :=
  (takeLine P s₁ data irqs).1.isSome = (takeLine P s₂ data irqs).1.isSome ∧
    since s₁.fw (takeLine P s₁ data irqs).2.state =
      since s₂.fw (takeLine P s₂ data irqs).2.state

/-- What is sent during a line does not depend on what was sent before. -/
theorem takeLine_fresh (s : Session R σ) (data : List UInt8) (irqs : List Irq) :
    (takeLine P s data irqs).1 = (takeLine P (Fresh s) data irqs).1 ∧
      since s.fw (takeLine P s data irqs).2.state =
        { (takeLine P (Fresh s) data irqs).2.state with steptimeout := 0 } := by
  obtain ⟨k, h⟩ := gcodeParseLine_ignores (P := P) (t := s.fw.tx)
    (e := s.fw.effects) s.parser data s.fw.steptimeout ⟨forget s.fw, irqs⟩
  dsimp only at h
  rw [relog_forget] at h
  rw [takeLine, h]
  exact ⟨rfl, since_relog _ _ k⟩

/-- Two sessions do the same with a line if and only if they do when both start without
a record. -/
theorem sameOutcome_iff {s₁ s₂ : Session R σ} {data : List UInt8}
    {irqs : List Irq} :
    SameOutcome P s₁ s₂ data irqs ↔
      (takeLine P (Fresh s₁) data irqs).1.isSome =
          (takeLine P (Fresh s₂) data irqs).1.isSome ∧
        { (takeLine P (Fresh s₁) data irqs).2.state with steptimeout := 0 } =
          { (takeLine P (Fresh s₂) data irqs).2.state with steptimeout := 0 } := by
  obtain ⟨hret₁, hstate₁⟩ := takeLine_fresh (P := P) s₁ data irqs
  obtain ⟨hret₂, hstate₂⟩ := takeLine_fresh (P := P) s₂ data irqs
  rw [SameOutcome, hret₁, hret₂, hstate₁, hstate₂]

/-! ## Sessions that agree -/

/-- The sessions agree on what a line may depend on. -/
structure SameModal (s₁ s₂ : Session R σ) : Prop where
  fw : forget s₁.fw = forget s₂.fw
  relative : s₁.parser.nextTarget.optionRelative =
    s₂.parser.nextTarget.optionRelative
  inches : s₁.parser.nextTarget.optionInches = s₂.parser.nextTarget.optionInches
  nExpected : s₁.parser.nextTarget.nExpected = s₂.parser.nextTarget.nExpected

/-- The queue empties, if the right interrupts arrive. -/
def Drains (P : Platform σ) (fw : Firmware R σ) : Prop :=
  ∃ irqs, ((synchQueue P : FwM R σ Unit) ⟨fw, irqs⟩).1 = some ()

/-- The sessions agree on what is read without having been given. -/
structure SameLeft (P : Platform σ) (s₁ s₂ : Session R σ) : Prop where
  getting : s₁.parser.nextTarget.gettingString =
    s₂.parser.nextTarget.gettingString
  n : s₁.parser.nextTarget.n = s₂.parser.nextTarget.n
  s : s₁.fw.sdWritingFile = false →
    s₁.parser.nextTarget.s = s₂.parser.nextTarget.s
  name : s₁.fw.sdWritingFile = false →
    filenameOf s₁.parser.nextTarget = filenameOf s₂.parser.nextTarget
  p : s₁.fw.sdWritingFile = false → Drains P s₁.fw →
    s₁.parser.nextTarget.p = s₂.parser.nextTarget.p

/-- The words whose numbers are read without having been given. -/
def needed (relative writing drains : Prop) : Word → Prop
  | .g | .n | .checksum => True
  | .x | .y | .z | .e => relative
  | .s => ¬writing
  | .p => ¬writing ∧ drains
  | .m | .f | .unknown => False

/-- The parsers between lines. -/
theorem alike_start {relative writing drains : Prop} {p q : Parser R}
    (hp : Rested p) (hq : Rested q)
    (hget : p.nextTarget.gettingString = q.nextTarget.gettingString)
    (hrel : p.nextTarget.optionRelative = q.nextTarget.optionRelative)
    (hinches : p.nextTarget.optionInches = q.nextTarget.optionInches)
    (hrelative : relative → p.nextTarget.optionRelative = true)
    (hn : p.nextTarget.n = q.nextTarget.n)
    (hs : ¬writing → p.nextTarget.s = q.nextTarget.s)
    (hname : ¬writing → filenameOf p.nextTarget = filenameOf q.nextTarget)
    (hpp : ¬writing → drains → p.nextTarget.p = q.nextTarget.p) :
    Alike (needed relative writing drains) (¬writing) p q := by
  have hreset : ∀ {r : Parser R}, Rested r →
      r.nextTarget.optionRelative = true →
      r.nextTarget.target.x = 0 ∧ r.nextTarget.target.y = 0 ∧
        r.nextTarget.target.z = 0 ∧ r.nextTarget.target.e = 0 := by
    intro r hr hon
    rw [← hr.fixed]
    show (resetTarget r.nextTarget).x = 0 ∧ (resetTarget r.nextTarget).y = 0 ∧
      (resetTarget r.nextTarget).z = 0 ∧ (resetTarget r.nextTarget).e = 0
    rw [resetTarget, if_pos hon]
    exact ⟨rfl, rfl, rfl, rfl⟩
  refine ⟨?_, fun w hw => .inr ?_, .inr ⟨?_, hname⟩⟩
  · rw [← hp.fixed, ← hq.fixed]
    simp only [shape, endOfLine, hget, hrel, hinches]
  · have hunseen : seen w p.nextTarget = false := by
      rw [← hp.fixed]
      cases w <;> rfl
    have hneed : needed relative writing drains w :=
      hw.resolve_right fun h => absurd (hunseen.symm.trans h) (by decide)
    have haxis : relative → p.nextTarget.target.x = q.nextTarget.target.x ∧
        p.nextTarget.target.y = q.nextTarget.target.y ∧
        p.nextTarget.target.z = q.nextTarget.target.z ∧
        p.nextTarget.target.e = q.nextTarget.target.e := by
      intro h
      obtain ⟨hx, hy, hz, he⟩ := hreset hp (hrelative h)
      obtain ⟨hx', hy', hz', he'⟩ := hreset hq (hrel ▸ hrelative h)
      exact ⟨hx.trans hx'.symm, hy.trans hy'.symm, hz.trans hz'.symm,
        he.trans he'.symm⟩
    cases w with
    | g =>
        rw [← hp.fixed, ← hq.fixed]
        rfl
    | checksum =>
        rw [← hp.fixed, ← hq.fixed]
        rfl
    | n => exact congrArg Sum.inl hn
    | s => exact congrArg Sum.inl (hs hneed)
    | p => exact congrArg Sum.inl (hpp hneed.1 hneed.2)
    | x => exact congrArg Sum.inr (haxis hneed).1
    | y => exact congrArg Sum.inr (haxis hneed).2.1
    | z => exact congrArg Sum.inr (haxis hneed).2.2.1
    | e => exact congrArg Sum.inr (haxis hneed).2.2.2
    | m | f | unknown => exact absurd hneed id
  · rw [← hp.fixed]
    rfl

/-- The line ends in a line feed or a carriage return. -/
def IsTerminated (data : List UInt8) : Prop :=
  data.getLast? = some 10 ∨ data.getLast? = some 13

/-- A line end closes the field that was being read. -/
theorem gcodeParseChar_lineEnd (p : Parser R) {c : UInt8} (h : c = 10 ∨ c = 13) :
    (gcodeParseChar p c).lastField = none := by
  have hfacts : uppercase c = c ∧ isFieldEnd c = true ∧ wordOf c = none := by
    rcases h with rfl | rfl <;> decide
  obtain ⟨hupper, hend, hword⟩ := hfacts
  have hprocess : ∀ r : Parser R, (processChar c r).lastField = r.lastField := by
    intro r
    unfold processChar
    dsimp only
    split
    · exact (scanChar_sameWords hword r).lastField
    · split <;> rfl
  show (updateChecksum c (processChar (uppercase c) _)).lastField = none
  rw [(updateChecksum_sameWords c _).lastField, hupper, hprocess]
  exact commitField_lastField hend p

/-- No field is open behind a line that is terminated. -/
theorem parseChars_lineEnd (p : Parser R) {data : List UInt8}
    (h : IsTerminated data) : (parseChars p data).lastField = none := by
  have hsplit : ∃ c, (c = 10 ∨ c = 13) ∧ data = data.dropLast ++ [c] := by
    rcases h with h | h
    · exact ⟨10, .inl rfl, (List.dropLast_append_getLast? 10 h).symm⟩
    · exact ⟨13, .inr rfl, (List.dropLast_append_getLast? 13 h).symm⟩
  obtain ⟨c, hc, hdata⟩ := hsplit
  rw [hdata, parseChars_append]
  exact gcodeParseChar_lineEnd _ hc

section Alike

variable {relative writing drains : Prop} {p q : Parser R}

/-- Alike parsers with no open field agree on each word that is needed or was seen. -/
theorem Alike.valueOf_eq {need : Word → Prop} {named : Prop}
    (h : Alike need named p q) (hlast : p.lastField = none) {w : Word}
    (hw : need w ∨ seen w p.nextTarget = true) :
    valueOf w p.nextTarget = valueOf w q.nextTarget := by
  refine (h.words w hw).resolve_left fun hpending => ?_
  rw [hlast] at hpending
  exact absurd hpending (by simp)

/-- Alike parsers come to the same verdict on the checksum. -/
theorem Alike.accepted (h : Alike (needed relative writing drains) (¬writing) p q)
    (hlast : p.lastField = none) :
    checksumAccepted p.nextTarget = checksumAccepted q.nextTarget := by
  have hread : p.nextTarget.checksumRead = q.nextTarget.checksumRead :=
    Sum.inl.inj (Alike.valueOf_eq h hlast (w := .checksum) (.inl trivial))
  have hsum := h.part (·.nextTarget.checksumCalculated) fun _ => rfl
  have hseen := h.part (·.nextTarget.seenChecksum) fun _ => rfl
  unfold checksumAccepted
  rw [hread, hsum, hseen]

/-- Alike parsers ask for the line again with the same words. -/
theorem Alike.rejected (h : Alike (needed relative writing drains) (¬writing) p q)
    (hlast : p.lastField = none) :
    (rejectLine p.nextTarget : FwM R σ Unit) = rejectLine q.nextTarget := by
  have hn : p.nextTarget.n = q.nextTarget.n :=
    Sum.inl.inj (Alike.valueOf_eq h hlast (w := .n) (.inl trivial))
  have hsum := h.part (·.nextTarget.checksumCalculated) fun _ => rfl
  unfold rejectLine
  rw [hn, hsum]

/-- Alike parsers write the same line to the card. -/
theorem Alike.stored (h : Alike (needed relative writing drains) (¬writing) p q)
    (hlast : p.lastField = none) (data : List UInt8) :
    (writeLine P p.nextTarget data : FwM R σ Unit) =
      writeLine P q.nextTarget data :=
  writeLine_congr (h.part (·.nextTarget.seenM) fun _ => rfl)
    (fun hseen => Sum.inl.inj (Alike.valueOf_eq h hlast (w := .m) (.inr hseen)))
    data

/-- The commands are the same, where the time of a `G4` is. -/
theorem Alike.sameCommand
    (h : Alike (needed relative writing drains) (¬writing) p q)
    (hlast : p.lastField = none) (hoff : ¬writing)
    (hrelative : p.nextTarget.optionRelative = true → relative)
    (hdwell : commandOf p.nextTarget = .g .g4 → drains) :
    SameCommand p.nextTarget q.nextTarget where
  flags w := by
    cases w with
    | unknown => rfl
    | g => exact h.part (·.nextTarget.seenG) fun _ => rfl
    | m => exact h.part (·.nextTarget.seenM) fun _ => rfl
    | x => exact h.part (·.nextTarget.seenX) fun _ => rfl
    | y => exact h.part (·.nextTarget.seenY) fun _ => rfl
    | z => exact h.part (·.nextTarget.seenZ) fun _ => rfl
    | e => exact h.part (·.nextTarget.seenE) fun _ => rfl
    | f => exact h.part (·.nextTarget.seenF) fun _ => rfl
    | s => exact h.part (·.nextTarget.seenS) fun _ => rfl
    | p => exact h.part (·.nextTarget.seenP) fun _ => rfl
    | n => exact h.part (·.nextTarget.seenN) fun _ => rfl
    | checksum => exact h.part (·.nextTarget.seenChecksum) fun _ => rfl
  words w hw := Alike.valueOf_eq h hlast (.inr hw)
  relative := h.part (·.nextTarget.optionRelative) fun _ => rfl
  inches := h.part (·.nextTarget.optionInches) fun _ => rfl
  s := Sum.inl.inj (Alike.valueOf_eq h hlast (w := .s) (.inl hoff))
  name := by
    rcases h.name with hname | ⟨-, hname⟩
    · rw [filenameOf, filenameOf, hname]
    · exact hname hoff
  axes hon a := by
    have hrel := hrelative hon
    cases a with
    | x => exact Sum.inr.inj (Alike.valueOf_eq h hlast (w := .x) (.inl hrel))
    | y => exact Sum.inr.inj (Alike.valueOf_eq h hlast (w := .y) (.inl hrel))
    | z => exact Sum.inr.inj (Alike.valueOf_eq h hlast (w := .z) (.inl hrel))
    | e => exact Sum.inr.inj (Alike.valueOf_eq h hlast (w := .e) (.inl hrel))
  dwell hg4 :=
    Sum.inl.inj (Alike.valueOf_eq h hlast (w := .p) (.inl ⟨hoff, hdwell hg4⟩))

end Alike

/-- A `G4` does not return when the wait for the empty queue does not. -/
theorem g4_waits {c : GcodeCommand R} (hc : commandOf c = .g .g4)
    {w : World (Firmware R σ) Irq}
    (h : ((synchQueue P : FwM R σ Unit) w).1 = none) :
    (processGcodeCommand P c w : Option (Change R) × _) =
      (none, ((synchQueue P : FwM R σ Unit) w).2) := by
  unfold processGcodeCommand runCommand
  rw [hc]
  show (((synchQueue P >>= fun _ => delayMs c.p) >>= fun _ => _) >>= fun _ => _) w
    = _
  rw [bind_apply, bind_apply, bind_apply]
  rcases hx : (synchQueue P : FwM R σ Unit) w with ⟨_ | _, w'⟩
  · rfl
  · rw [hx] at h
    exact absurd h (by simp)

/-- Whether a program returns, and where it ends up. -/
def ran {α : Type} (x : FwM R σ α) (w : World (Firmware R σ) Irq) :
    Bool × World (Firmware R σ) Irq :=
  ((x w).1.isSome, (x w).2)

theorem ran_bind_pure {α β : Type} (x : FwM R σ α) (f : α → β)
    (w : World (Firmware R σ) Irq) :
    ran (x >>= fun a => pure (f a)) w = ran x w := by
  unfold ran
  rw [bind_apply]
  rcases x w with ⟨_ | a, w'⟩ <;> rfl

/-- What becomes of a line. -/
theorem takeLine_ran (s : Session R σ) (data : List UInt8) (irqs : List Irq) :
    ((takeLine P s data irqs).1.isSome, (takeLine P s data irqs).2) =
      if checksumAccepted (parsed s data) then
        if s.fw.sdWritingFile then ran (writeLine P (parsed s data) data) ⟨s.fw, irqs⟩
        else ran (processGcodeCommand P (parsed s data)) ⟨s.fw, irqs⟩
      else ran (rejectLine (parsed s data)) ⟨s.fw, irqs⟩ := by
  rw [takeLine_eq]
  by_cases hsum : checksumAccepted (parsed s data) = true
  · rw [if_pos hsum, if_pos hsum]
    refine (ran_bind_pure _ _ _).trans ?_
    unfold ran
    rw [acceptLine, get_bind_apply]
    split
    · exact ran_bind_pure _ _ _
    · exact ran_bind_pure _ _ _
  · rw [if_neg hsum, if_neg hsum]
    exact ran_bind_pure _ _ _

/-- A line in two sessions that differ in the parser only. -/
theorem takeLine_alike {s₁ s₂ : Session R σ} {relative : Prop}
    {data : List UInt8} (hfw : s₁.fw = s₂.fw)
    (h : Alike (needed relative (s₁.fw.sdWritingFile = true) (Drains P s₁.fw))
      (¬s₁.fw.sdWritingFile = true) (parseChars s₁.parser data)
      (parseChars s₂.parser data))
    (hrelative : (parsed s₁ data).optionRelative = true → relative)
    (hend : IsTerminated data) (irqs : List Irq) :
    ((takeLine P s₁ data irqs).1.isSome, (takeLine P s₁ data irqs).2) =
      ((takeLine P s₂ data irqs).1.isSome, (takeLine P s₂ data irqs).2) := by
  have hlast := parseChars_lineEnd s₁.parser hend
  have haccepted : checksumAccepted (parsed s₁ data) =
      checksumAccepted (parsed s₂ data) := Alike.accepted h hlast
  rw [takeLine_ran, takeLine_ran, ← haccepted, ← hfw]
  split
  · split
    · have hstored : (writeLine P (parsed s₁ data) data : FwM R σ Unit) =
          writeLine P (parsed s₂ data) data := Alike.stored h hlast data
      rw [hstored]
    · next hoff =>
      by_cases hdwell : commandOf (parsed s₁ data) = .g .g4 → Drains P s₁.fw
      · have hsame : SameCommand (parsed s₁ data) (parsed s₂ data) :=
          Alike.sameCommand h hlast hoff hrelative hdwell
        rw [processGcodeCommand_congr hsame]
      · -- the time of the dwell is never read
        obtain ⟨hg4, hnever⟩ := Classical.not_imp.1 hdwell
        have hwaits : ((synchQueue P : FwM R σ Unit) ⟨s₁.fw, irqs⟩).1 = none := by
          rw [Option.eq_none_iff_forall_not_mem]
          exact fun _ hret => hnever ⟨irqs, hret⟩
        have hG : (parsed s₁ data).seenG = (parsed s₂ data).seenG :=
          h.part (·.nextTarget.seenG) fun _ => rfl
        have hg : (parsed s₁ data).g = (parsed s₂ data).g :=
          Sum.inl.inj (Alike.valueOf_eq h hlast (w := .g) (.inl trivial))
        have hM : (parsed s₁ data).seenM = (parsed s₂ data).seenM :=
          h.part (·.nextTarget.seenM) fun _ => rfl
        have hg4' : commandOf (parsed s₂ data) = .g .g4 := by
          rw [← hg4]
          unfold commandOf
          rw [← hG, ← hg, ← hM]
          by_cases hseen : (parsed s₁ data).seenG = true
          · rw [if_pos hseen, if_pos hseen]
          · unfold commandOf at hg4
            rw [if_neg hseen] at hg4
            split at hg4
            · split at hg4 <;> exact absurd hg4 (by simp)
            · exact absurd hg4 (by simp)
        unfold ran
        rw [g4_waits hg4 hwaits, g4_waits hg4' hwaits]
  · have hrejected : (rejectLine (parsed s₁ data) : FwM R σ Unit) =
        rejectLine (parsed s₂ data) := Alike.rejected h hlast
    rw [hrejected]

/-- Whether the queue drains does not depend on the record. -/
theorem drains_forget {fw : Firmware R σ} (h : Drains P (forget fw)) :
    Drains P fw := by
  obtain ⟨irqs, h⟩ := h
  obtain ⟨k, hrun⟩ := synchQueue_ignores (P := P) (t := fw.tx) (e := fw.effects)
    fw.steptimeout ⟨forget fw, irqs⟩
  rw [relog_forget] at hrun
  refine ⟨irqs, ?_⟩
  rw [hrun]
  exact h

/-- Where the sessions agree on what is left, every line does the same. -/
theorem SameLeft.sameOutcome {s₁ s₂ : Session R σ} (h₁ : Rested s₁.parser)
    (h₂ : Rested s₂.parser) (hmodal : SameModal s₁ s₂)
    (hleft : SameLeft P s₁ s₂) {data : List UInt8} (hend : IsTerminated data)
    (irqs : List Irq) : SameOutcome P s₁ s₂ data irqs := by
  have halike : Alike
      (needed (s₁.parser.nextTarget.optionRelative = true)
        (s₁.fw.sdWritingFile = true) (Drains P (forget s₁.fw)))
      (¬s₁.fw.sdWritingFile = true) s₁.parser s₂.parser :=
    alike_start h₁ h₂ hleft.getting hmodal.relative hmodal.inches id hleft.n
      (fun hoff => hleft.s (by simpa using hoff))
      (fun hoff => hleft.name (by simpa using hoff))
      fun hoff hd => hleft.p (by simpa using hoff) (drains_forget hd)
  have hrelative : (parsed (Fresh s₁) data).optionRelative = true →
      s₁.parser.nextTarget.optionRelative = true := by
    intro hon
    have hoptions := congrArg Prod.fst (parseChars_options data s₁.parser)
    exact hoptions.symm.trans hon
  have hsame : ((takeLine P (Fresh s₁) data irqs).1.isSome,
        (takeLine P (Fresh s₁) data irqs).2) =
      ((takeLine P (Fresh s₂) data irqs).1.isSome,
        (takeLine P (Fresh s₂) data irqs).2) :=
    takeLine_alike hmodal.fw (halike.run trivial data) hrelative hend irqs
  rw [sameOutcome_iff]
  obtain ⟨hret, hworld⟩ := Prod.mk.inj hsame
  exact ⟨hret, by rw [hworld]⟩

/-- A command that returns and leaves the reply to its caller. -/
theorem processGcodeCommand_plain {c : GcodeCommand R} {x : FwM R σ Unit}
    (hrun : runCommand P c = x >>= fun _ => pure .plain)
    {w w' : World (Firmware R σ) Irq} (hx : x w = (some (), w')) :
    (processGcodeCommand P c w).2.state =
      { w'.state with tx := w'.state.tx ++ str "ok\r\n" } := by
  unfold processGcodeCommand
  rw [hrun, bind_apply, bind_apply, hx]
  rfl

end Outcomes

/-! ## Reading a word -/

/-- A blank, a word, and the end of the line.  The blank ends a file name. -/
def wordLine (c : UInt8) (n : Nat) : List UInt8 :=
  32 :: c :: (serwriteUint32 n ++ [10])

/-- Between words, outside comments and file names. -/
structure Ready (p : Parser R) : Prop where
  open_ : (marks p.nextTarget).isOpen = true
  plain : p.nextTarget.gettingString = false
  lastField : p.lastField = none
  sign : p.sign = false
  exponent : p.exponent = 0
  value : p.value = 0

/-- The letter of a word. -/
theorem Ready.letter {p : Parser R} (h : Ready p) {c : UInt8} {w : Word}
    (hupper : uppercase c = c) (hw : wordOf c = some w) :
    ∃ k, gcodeParseChar p c =
      { p with
        lastField := some w
        nextTarget :=
          { seeWord w p.nextTarget with checksumCalculated := k } } := by
  obtain ⟨hsemi, hparens⟩ := isOpen_eq h.open_
  have hcapture : captureString c p.nextTarget = p.nextTarget := by
    rw [captureString, if_neg (by simp [h.plain])]
  have hscan : processChar c p =
      { p with lastField := some w, nextTarget := seeWord w p.nextTarget } := by
    rw [processChar, if_pos (by simp [hsemi, hparens, h.plain]), scanChar, hw]
  unfold gcodeParseChar
  dsimp only
  rw [hupper, commitField_none h.lastField, hcapture, hscan]
  exact updateChecksum_eq c _

/-- Digits behind a letter change only the number under construction and the running
checksum. -/
theorem parseChars_digits {ds : List UInt8} (hds : ∀ c ∈ ds, IsDigit c)
    {p : Parser R} (hopen : (marks p.nextTarget).isOpen = true)
    (hplain : p.nextTarget.gettingString = false) :
    ∃ k, parseChars p ds =
      { p with
        nextTarget := { p.nextTarget with checksumCalculated := k }
        exponent := (pushDigits (p.exponent, p.value) ds).1
        value := (pushDigits (p.exponent, p.value) ds).2 } := by
  induction ds generalizing p with
  | nil => exact ⟨p.nextTarget.checksumCalculated, rfl⟩
  | cons c ds ih =>
      obtain ⟨k, hk⟩ := updateChecksum_eq c
        { p with
          exponent := (pushDigit (p.exponent, p.value) (c.toNat - 48)).1
          value := (pushDigit (p.exponent, p.value) (c.toNat - 48)).2 }
      have hstep := (gcodeParseChar_digit hopen hplain
        (hds c List.mem_cons_self)).trans hk
      rw [parseChars_cons, hstep]
      exact ih (fun d hd => hds d (List.mem_cons_of_mem _ hd)) hopen hplain

/-- A line end stores the number of the word in front of it, and closes a file name. -/
theorem gcodeParseChar_lineFeed {p : Parser R} {w : Word}
    (hopen : (marks p.nextTarget).isOpen = true)
    (hfield : p.lastField = some w) :
    ∃ k, (gcodeParseChar p 10).nextTarget =
      { storeWord w (if p.sign then -p.value else p.value) p.nextTarget with
        gettingString := false
        checksumCalculated := k } := by
  obtain ⟨t, ht⟩ : ∃ t, t =
      storeWord w (if p.sign then -p.value else p.value) p.nextTarget := ⟨_, rfl⟩
  have hcommit : commitField 10 p = ⟨t, none, false, 0, 0⟩ := by
    rw [commitField, hfield, ht]
    rfl
  have hcapture : captureString 10 t = { t with gettingString := false } := by
    unfold captureString
    split
    · rfl
    · next hplain =>
      rw [← (Bool.not_eq_true _).mp hplain]
  have hmarks : marks t = marks p.nextTarget := by
    rw [ht, storeWord_marks]
  have hclosed : t.seenSemiComment = false ∧ t.seenParensComment = false :=
    isOpen_eq (p := { p with nextTarget := t }) (by rw [← hopen, ← hmarks])
  have hscan : processChar 10
      (⟨{ t with gettingString := false }, none, false, 0, 0⟩ : Parser R) =
      ⟨{ t with gettingString := false }, none, false, 0, 0⟩ := by
    rw [processChar, if_pos (by simp [hclosed.1, hclosed.2])]
    rfl
  obtain ⟨k, hk⟩ := updateChecksum_eq 10
    (⟨{ t with gettingString := false }, none, false, 0, 0⟩ : Parser R)
  refine ⟨k, ?_⟩
  show (updateChecksum 10 (processChar 10
    { commitField 10 p with
      nextTarget :=
        captureString 10 (commitField 10 p).nextTarget })).nextTarget = _
  rw [hcommit]
  dsimp only
  rw [hcapture, hscan, hk, ht]

/-- A word and the end of the line. -/
theorem Ready.word [IsStrictOrderedRing R] {p : Parser R} (h : Ready p)
    {c : UInt8} {w : Word} (hupper : uppercase c = c) (hw : wordOf c = some w)
    {n : Nat} (hn : n < 10000000000) :
    ∃ k, (parseChars p (c :: (serwriteUint32 n ++ [10]))).nextTarget =
      { storeWord w (n : R) (seeWord w p.nextTarget) with
        gettingString := false
        checksumCalculated := k } := by
  obtain ⟨hvalue, hdigits⟩ := serwriteUint32_spec hn
  obtain ⟨k₁, hletter⟩ := h.letter hupper hw
  have hopen : (marks (gcodeParseChar p c).nextTarget).isOpen = true := by
    rw [hletter]
    show (marks (seeWord w p.nextTarget)).isOpen = true
    rw [seeWord_marks]
    exact h.open_
  have hplain : (gcodeParseChar p c).nextTarget.gettingString = false := by
    rw [hletter, ← h.plain]
    cases w <;> rfl
  obtain ⟨k₂, hread⟩ := parseChars_digits hdigits hopen hplain
  have hfield : (parseChars (gcodeParseChar p c) (serwriteUint32 n)).lastField =
      some w := by
    rw [hread, hletter]
  have hopen' : (marks (parseChars (gcodeParseChar p c)
      (serwriteUint32 n)).nextTarget).isOpen = true := by
    rw [hread]
    exact hopen
  obtain ⟨k₃, hend⟩ := gcodeParseChar_lineFeed hopen' hfield
  refine ⟨k₃, ?_⟩
  rw [parseChars_cons, parseChars_append, parseChars_cons, parseChars_nil, hend,
    hread, hletter]
  dsimp only
  rw [h.sign, h.exponent, h.value, pushDigits_eq, if_pos rfl, hvalue]
  simp only [Bool.false_eq_true, if_false, zero_mul, zero_add]
  cases w <;> rfl

/-- A blank between two lines leaves the parser ready for a word. -/
theorem rested_blank {p : Parser R} (h : Rested p) :
    Ready (gcodeParseChar p 32) ∧
      (gcodeParseChar p 32).nextTarget =
        { p.nextTarget with
          gettingString := false
          checksumCalculated := 32 } := by
  rw [← h.fixed]
  cases hgetting : p.nextTarget.gettingString with
  | true =>
      have hblank : gcodeParseChar (endOfLine p) 32 =
          { endOfLine p with
            nextTarget :=
              { (endOfLine p).nextTarget with
                gettingString := false
                checksumCalculated := 32 } } := by
        simp [gcodeParseChar, uppercase, commitField, captureString, processChar,
          scanChar, updateChecksum, wordOf, endOfLine, hgetting]
      rw [hblank]
      exact ⟨⟨rfl, rfl, rfl, rfl, rfl, rfl⟩, rfl⟩
  | false =>
      have hblank : gcodeParseChar (endOfLine p) 32 =
          { endOfLine p with
            nextTarget :=
              { (endOfLine p).nextTarget with
                checksumCalculated := 32 } } := by
        simp [gcodeParseChar, uppercase, commitField, captureString, processChar,
          scanChar, updateChecksum, wordOf, endOfLine, hgetting]
      rw [hblank]
      refine ⟨⟨rfl, hgetting, rfl, rfl, rfl, rfl⟩, ?_⟩
      simp [endOfLine, hgetting]

section Probes

variable [IsStrictOrderedRing R] {s : Session R σ}

/-- What is read of a line with one word. -/
theorem parsed_wordLine (h : Rested s.parser) {c : UInt8} {w : Word}
    (hupper : uppercase c = c) (hw : wordOf c = some w) {n : Nat}
    (hn : n < 10000000000) :
    ∃ k, parsed s (wordLine c n) =
      { storeWord w (n : R) (seeWord w s.parser.nextTarget) with
        gettingString := false
        checksumCalculated := k } := by
  obtain ⟨hready, hblank⟩ := rested_blank h
  obtain ⟨k, hk⟩ := hready.word hupper hw hn
  refine ⟨k, ?_⟩
  show (parseChars s.parser (wordLine c n)).nextTarget = _
  rw [wordLine, parseChars_cons, hk, hblank]
  cases w <;> rfl

/-- An M word, with what it leaves unread. -/
theorem parsed_m (h : Rested s.parser) {n : Nat} (hn : n < 65536) :
    let c := parsed s (wordLine 77 n)
    checksumAccepted c = true ∧ c.seenG = false ∧ c.seenM = true ∧ c.m = n ∧
      c.s = s.parser.nextTarget.s ∧
      filenameOf c = filenameOf s.parser.nextTarget := by
  intro c
  obtain ⟨k, hk⟩ := parsed_wordLine h (c := 77) rfl rfl (n := n) (by omega)
  have hflags := rested_marks h
  have hunseen : s.parser.nextTarget.seenChecksum = false :=
    congrArg Marks.seen hflags
  have hm : uint16 (truncate (n : R)) = n := by
    rw [truncate_natCast]
    exact wrapUnsigned_of_range (by omega) (by omega)
  have hc : c = _ := hk
  rw [hc]
  exact ⟨accepted_hidden hunseen, rfl, rfl, hm, rfl, rfl⟩

/-- A G word, with what it leaves unread. -/
theorem parsed_g (h : Rested s.parser) {n : Nat} (hn : n < 256) :
    let c := parsed s (wordLine 71 n)
    checksumAccepted c = true ∧ c.seenG = true ∧ c.g = n ∧
      c.p = s.parser.nextTarget.p := by
  intro c
  obtain ⟨k, hk⟩ := parsed_wordLine h (c := 71) rfl rfl (n := n) (by omega)
  have hunseen : s.parser.nextTarget.seenChecksum = false :=
    congrArg Marks.seen (rested_marks h)
  have hg : uint8 (truncate (n : R)) = n := by
    rw [truncate_natCast]
    exact wrapUnsigned_of_range (by omega) (by omega)
  have hc : c = _ := hk
  rw [hc]
  exact ⟨accepted_hidden hunseen, rfl, hg, rfl⟩

theorem wordLine_terminated (c : UInt8) (n : Nat) :
    IsTerminated (wordLine c n) := by
  have hsplit : wordLine c n = (32 :: c :: serwriteUint32 n) ++ [10] := rfl
  rw [IsTerminated, hsplit, List.getLast?_concat]
  exact .inl rfl

/-- The line `*1` has a checksum that is not accepted, and leaves the line number of the
parser as it was. -/
theorem parsed_star (h : Rested s.parser) :
    checksumAccepted (parsed s (wordLine 42 1)) = false ∧
      (parsed s (wordLine 42 1)).checksumCalculated = 32 ∧
      (parsed s (wordLine 42 1)).n = s.parser.nextTarget.n := by
  have hline : wordLine 42 1 = [32] ++ 42 :: [49] ++ [10] := by decide
  have hmarks : marks (parsed s (wordLine 42 1)) = ⟨true, false, false, 32⟩ := by
    have hshown : ¬Hides s.parser [32] 42 [49] := by
      rintro ⟨-, h | h | ⟨h, -⟩⟩ <;> exact absurd h (by decide)
    have hstar := shown_marks (rested_marks h) (a := [32]) (by decide +kernel)
      (by decide +kernel) hshown
    have hkeep : ∀ b, Marks.next ⟨decide ((42 : UInt8) = 42), false, false,
        xorSum (covered [32] 42 [49])⟩ b 10 = ⟨true, false, false, 32⟩ := by
      intro b
      cases b <;> rfl
    rw [parsed, hline, parseChars_append, parseChars_cons, parseChars_nil,
      gcodeParseChar_marks, hstar]
    exact hkeep _
  obtain ⟨k, hk⟩ := parsed_wordLine h (c := 42) rfl rfl (n := 1) (by omega)
  generalize parsed s (wordLine 42 1) = c at hk hmarks
  have hsum : c.checksumCalculated = 32 := congrArg Marks.sum hmarks
  have hseen : c.seenChecksum = true := congrArg Marks.seen hmarks
  have hone : uint8 (truncate ((1 : Nat) : R)) = 1 := by
    rw [truncate_natCast]
    rfl
  have hread : c.checksumRead = 1 := by
    rw [hk, ← hone]
    rfl
  refine ⟨?_, hsum, ?_⟩
  · rw [checksumAccepted, hsum, hseen, hread]
    rfl
  · rw [hk]
    rfl

/-! ## File names -/

/-- A file name is being read. -/
structure Capturing (p : Parser R) : Prop where
  getting : p.nextTarget.gettingString = true
  lastField : p.lastField = none
  seenG : p.nextTarget.seenG = false
  seenM : p.nextTarget.seenM = false
  seenChecksum : p.nextTarget.seenChecksum = false
  parens : p.nextTarget.seenParensComment = false

/-- A character of the name. -/
theorem Capturing.step {p : Parser R} (h : Capturing p) {c : UInt8}
    (hc : ¬(uppercase c = 10 ∨ uppercase c = 13 ∨ uppercase c = 32 ∨
      uppercase c = 42)) : Capturing (gcodeParseChar p c) := by
  have hcapture : ∃ name pos, captureString (uppercase c) p.nextTarget =
      { p.nextTarget with filename := name, chpos := pos } := by
    rw [captureString, if_pos h.getting, if_neg hc]
    split
    · exact ⟨_, _, rfl⟩
    · exact ⟨p.nextTarget.filename, p.nextTarget.chpos, rfl⟩
  obtain ⟨name, pos, hcapture⟩ := hcapture
  let q : Parser R :=
    { p with nextTarget := { p.nextTarget with filename := name, chpos := pos } }
  have hskip : processChar (uppercase c) q = q := by
    rw [processChar, if_neg (by simp [q, h.getting]),
      if_neg (by simp [q, h.parens])]
  obtain ⟨k, hk⟩ := updateChecksum_eq c q
  have hstep : gcodeParseChar p c = updateChecksum c q := by
    unfold gcodeParseChar
    dsimp only
    rw [commitField_none h.lastField, hcapture]
    exact congrArg (updateChecksum c) hskip
  rw [hstep, hk]
  exact ⟨h.getting, h.lastField, h.seenG, h.seenM, h.seenChecksum, h.parens⟩

/-- Text without a blank, a `*` or a line end stays part of an open file name. -/
theorem Capturing.run {p : Parser R} (h : Capturing p) {u : List UInt8}
    (hu : ∀ c ∈ u, ¬(uppercase c = 10 ∨ uppercase c = 13 ∨ uppercase c = 32 ∨
      uppercase c = 42)) : Capturing (parseChars p u) := by
  induction u generalizing p with
  | nil => exact h
  | cons c u ih =>
      rw [parseChars_cons]
      exact ih (h.step (hu c List.mem_cons_self))
        fun d hd => hu d (List.mem_cons_of_mem _ hd)

/-- The end of the line behind the name. -/
theorem Capturing.lineFeed {p : Parser R} (h : Capturing p) :
    checksumAccepted (gcodeParseChar p 10).nextTarget = true ∧
      (gcodeParseChar p 10).nextTarget.seenG = false ∧
      (gcodeParseChar p 10).nextTarget.seenM = false := by
  have hcapture : captureString 10 p.nextTarget =
      { p.nextTarget with gettingString := false } := by
    rw [captureString, if_pos h.getting, if_pos (.inl rfl)]
  let q : Parser R :=
    { p with nextTarget := { p.nextTarget with gettingString := false } }
  have hskip : processChar 10 q = q := by
    unfold processChar
    dsimp only
    split
    · rfl
    · rw [if_neg (by simp [q, h.parens])]
  obtain ⟨k, hk⟩ := updateChecksum_eq 10 q
  have hstep : gcodeParseChar p 10 = updateChecksum 10 q := by
    show updateChecksum 10 (processChar 10
      { commitField 10 p with
        nextTarget := captureString 10 (commitField 10 p).nextTarget }) = _
    rw [commitField_none h.lastField, hcapture]
    exact congrArg (updateChecksum 10) hskip
  rw [hstep, hk]
  exact ⟨accepted_hidden h.seenChecksum, h.seenG, h.seenM⟩

/-! ## Probes -/

/-- The parser does not look at the record of the firmware. -/
theorem parsed_fresh (s : Session R σ) (data : List UInt8) :
    parsed (Fresh s) data = parsed s data :=
  rfl

/-- An M word at the very start of a line. -/
def bareLine (n : Nat) : List UInt8 := 77 :: (serwriteUint32 n ++ [10])

theorem bareLine_terminated (n : Nat) : IsTerminated (bareLine n) := by
  have hsplit : bareLine n = (77 :: serwriteUint32 n) ++ [10] := rfl
  rw [IsTerminated, hsplit, List.getLast?_concat]
  exact .inl rfl

/-- A line `M` with a number is the M command of that number, unless a file name is
open: then it is part of the name. -/
theorem parsed_bareLine (h : Rested s.parser) {n : Nat} (hn : n < 65536) :
    checksumAccepted (parsed s (bareLine n)) = true ∧
      (parsed s (bareLine n)).seenG = false ∧
      (parsed s (bareLine n)).seenM = !s.parser.nextTarget.gettingString ∧
      (s.parser.nextTarget.gettingString = false →
        (parsed s (bareLine n)).m = n) := by
  have hfixed := h.fixed
  have hunseen : s.parser.nextTarget.seenChecksum = false :=
    congrArg Marks.seen (rested_marks h)
  cases hgetting : s.parser.nextTarget.gettingString with
  | true =>
      have hcapturing : Capturing s.parser :=
        ⟨hgetting, by rw [← hfixed]; rfl, by rw [← hfixed]; rfl,
          by rw [← hfixed]; rfl, hunseen, by rw [← hfixed]; rfl⟩
      have hname := hcapturing.run (u := 77 :: serwriteUint32 n) fun c hc => by
        rcases List.mem_cons.1 hc with rfl | hc
        · decide
        · have hdigit := (serwriteUint32_spec (by omega)).2 c hc
          rw [(digit_cases hdigit).1]
          rintro (rfl | rfl | rfl | rfl) <;> exact absurd hdigit.1 (by decide)
      obtain ⟨haccepted, hG, hM⟩ := hname.lineFeed
      have hparsed : parsed s (bareLine n) = (gcodeParseChar
          (parseChars s.parser (77 :: serwriteUint32 n)) 10).nextTarget := by
        rw [parsed, show bareLine n = (77 :: serwriteUint32 n) ++ [10] from rfl,
          parseChars_append, parseChars_cons, parseChars_nil]
      rw [hparsed]
      exact ⟨haccepted, hG, hM, fun hfalse => absurd hfalse (by simp)⟩
  | false =>
      have hready : Ready s.parser :=
        ⟨by rw [rested_marks h]; rfl, hgetting, by rw [← hfixed]; rfl,
          by rw [← hfixed]; rfl, by rw [← hfixed]; rfl, by rw [← hfixed]; rfl⟩
      obtain ⟨k, hk⟩ := hready.word (c := 77) rfl rfl (n := n) (by omega)
      have hm : uint16 (truncate (n : R)) = n := by
        rw [truncate_natCast]
        exact wrapUnsigned_of_range (by omega) (by omega)
      have hparsed : parsed s (bareLine n) = _ := hk
      rw [hparsed]
      exact ⟨accepted_hidden hunseen, rfl, rfl, fun _ => hm⟩

end Probes

/-- What is seen of a line in one session is seen in the other. -/
theorem SameOutcome.observe {s₁ s₂ : Session R σ} {data : List UInt8}
    {irqs : List Irq} (h : SameOutcome P s₁ s₂ data irqs) {α : Type}
    (f : Firmware R σ → α) (hf : ∀ fw, f { fw with steptimeout := 0 } = f fw) :
    f (takeLine P (Fresh s₁) data irqs).2.state =
      f (takeLine P (Fresh s₂) data irqs).2.state := by
  have hseen := congrArg f (sameOutcome_iff.1 h).2
  rwa [hf, hf] at hseen

section Converse

variable [IsStrictOrderedRing R] {s s₁ s₂ : Session R σ}

/-- `M5` is no command, unless it is part of a file name. -/
theorem bareLine_tx (h : Rested s.parser) (hoff : s.fw.sdWritingFile = false)
    (irqs : List Irq) :
    (takeLine P (Fresh s) (bareLine 5) irqs).2.state.tx =
      if s.parser.nextTarget.gettingString then str "ok\r\n"
      else str "E: Bad M-code 5\r\nok\r\n" := by
  obtain ⟨haccepted, hG, hM, hm⟩ := parsed_bareLine h (n := 5) (by omega)
  have hproc : Processes (Fresh s) (bareLine 5) := ⟨haccepted, hoff⟩
  rw [takeLine_processes hproc, parsed_fresh]
  unfold processGcodeCommand runCommand
  cases hgetting : s.parser.nextTarget.gettingString with
  | true =>
      have hcommand : commandOf (parsed s (bareLine 5)) = .nothing := by
        rw [commandOf, if_neg (by simp [hG]), if_neg (by simp [hM, hgetting])]
      rw [hcommand]
      rfl
  | false =>
      have hcommand : commandOf (parsed s (bareLine 5)) = .badM 5 := by
        rw [commandOf, if_neg (by simp [hG]), if_pos (by simp [hM, hgetting]),
          hm hgetting]
        rfl
      rw [hcommand]
      show str "E: Bad M-code " ++ serwriteUint32 5 ++ str "\r\n" ++
        str "ok\r\n" = str "E: Bad M-code 5\r\nok\r\n"
      decide

/-- `M29` closes the file, unless it is part of a file name. -/
theorem bareLine_writing (h : Rested s.parser) (hon : s.fw.sdWritingFile = true)
    (irqs : List Irq) :
    (takeLine P (Fresh s) (bareLine 29) irqs).2.state.sdWritingFile =
      s.parser.nextTarget.gettingString := by
  obtain ⟨haccepted, -, hM, hm⟩ := parsed_bareLine h (n := 29) (by omega)
  have hwriting : (Fresh s).fw.sdWritingFile = true := hon
  rw [takeLine_state, parsed_fresh, if_pos haccepted, if_pos hwriting]
  unfold writeLine
  cases hgetting : s.parser.nextTarget.gettingString with
  | true =>
      rw [if_neg (by simp [hM, hgetting])]
      show ((sdWriteToFile P _ >>= fun written => _) _).2.state.sdWritingFile = _
      unfold sdWriteToFile
      rw [bind_apply]
      dsimp only [get_bind_apply, modify_bind_apply, pure_apply]
      split
      · exact hon
      · exact hon
  | false =>
      have hm' : (parsed s (bareLine 29)).m = 29 := hm hgetting
      rw [if_pos ⟨by simp [hM, hgetting], by rw [hm']; decide⟩, if_pos hm']
      rfl

/-- A line with nothing but a wrong checksum is refused with two lines that name the
expected sum and the number to send again. -/
theorem starLine_tx (h : Rested s.parser) (irqs : List Irq) :
    (takeLine P (Fresh s) (wordLine 42 1) irqs).2.state.tx =
      str "Expected checksum " ++ serwriteUint32 32 ++ str "\r\n" ++ str "rs " ++
        serwriteUint32 s.parser.nextTarget.n.toNat ++ str "\r\n" := by
  obtain ⟨hrefused, hsum, hn⟩ := parsed_star h
  rw [Resend.takeLine_refused (s := Fresh s) hrefused, Resend.request,
    parsed_fresh, hsum, hn]
  rfl

/-- With no file being written, a line of one M word is processed. -/
theorem processes_m (h : Rested s.parser) (hoff : s.fw.sdWritingFile = false)
    {n : Nat} (hn : n < 65536) : Processes (Fresh s) (wordLine 77 n) :=
  ⟨(parsed_m h hn).1, hoff⟩

/-- A line of one M word is the command with that number. -/
theorem commandOf_wordLine (h : Rested s.parser) {n : Nat} (hn : n < 65536)
    {code : MCode} (hcode : mcodeOf n = some code) :
    commandOf (parsed s (wordLine 77 n)) = .m code := by
  obtain ⟨-, hG, hM, hm, -⟩ := parsed_m h hn
  rw [commandOf, if_neg (by simp [hG]), if_pos hM, hm, hcode]

theorem runCommand_m {c : GcodeCommand R} {code : MCode}
    (hc : commandOf c = .m code) :
    (runCommand P c : FwM R σ (Outcome R)) = processM P c code := by
  rw [runCommand, hc]

/-- `M140` without a number sets the bed to the S value of an earlier line. -/
theorem m140_target (h : Rested s.parser) (hoff : s.fw.sdWritingFile = false)
    (irqs : List Irq) :
    (takeLine P (Fresh s) (wordLine 77 140) irqs).2.state.temp.targetTemp
      .heatedBed0 = uint16 s.parser.nextTarget.s := by
  have hs := (parsed_m h (n := 140) (by omega)).2.2.2.2.1
  have hcommand : commandOf (parsed s (wordLine 77 140)) = .m .m140 :=
    commandOf_wordLine h (by omega) rfl
  rw [takeLine_processes (processes_m h hoff (by omega)), parsed_fresh,
    processGcodeCommand_plain (runCommand_m hcommand) rfl, ← hs]
  show Function.update (Fresh s).fw.temp.targetTemp Sensor.heatedBed0
    (uint16 (parsed s (wordLine 77 140)).s) Sensor.heatedBed0 = _
  rw [Function.update_self]

/-- What `M28` answers. -/
def m28Reply (P : Platform σ) (fs : σ) (name : List UInt8) : List UInt8 :=
  let res := (P.fOpen name true (P.fClose fs)).1
  if res = 0 then str "Writing to file: " ++ (name ++ str "\r\nok\r\n")
  else str "sd_open:" ++ (serwriteInt32 (int32 res) ++
    (str "open failed, File: " ++ (name ++ str ".\r\nok\r\n")))

/-- `M28` replies and returns whether or not the file could be opened. -/
theorem m28_sends (c : GcodeCommand R) (w : World (Firmware R σ) Irq) :
    ∃ w', (m28 P c w : Option Unit × _) = (some (), w') ∧
      w'.state.tx ++ str "ok\r\n" =
        w.state.tx ++ m28Reply P w.state.fs (filenameOf c) := by
  let fw : Firmware R σ :=
    { w.state with
      sdActive := true
      fs := P.fClose w.state.fs
      sdPrinting := false }
  have hrun : (m28 P c w : Option Unit × _) =
      (sdOpen P (filenameOf c) true >>= fun opened =>
        if opened then do
          modify fun fw => { fw with sdWritingFile := true }
          send "Writing to file: %s\r\n" [.string (filenameOf c)]
        else send "open failed, File: %s.\r\n" [.string (filenameOf c)])
        ⟨fw, w.irqs⟩ := rfl
  rw [hrun, bind_apply]
  unfold m28Reply
  by_cases hres : (P.fOpen (filenameOf c) true (P.fClose w.state.fs)).1 = 0
  · have hopen : (sdOpen P (filenameOf c) true ⟨fw, w.irqs⟩ : Option Bool × _) =
        (some true, ⟨{ fw with
          fs := (P.fOpen (filenameOf c) true (P.fClose w.state.fs)).2 },
          w.irqs⟩) := by
      unfold sdOpen
      rw [get_bind_apply]
      dsimp only
      rw [modify_bind_apply, if_pos hres]
      rfl
    rw [hopen, if_pos hres]
    refine ⟨_, rfl, ?_⟩
    show w.state.tx ++ (str "Writing to file: " ++ (filenameOf c ++ str "\r\n"))
      ++ str "ok\r\n" = _
    simp only [List.append_assoc]
    rfl
  · have hopen : (sdOpen P (filenameOf c) true ⟨fw, w.irqs⟩ : Option Bool × _) =
        (some false, ⟨{ fw with
          fs := (P.fOpen (filenameOf c) true (P.fClose w.state.fs)).2
          tx := w.state.tx ++ (str "sd_open:" ++ serwriteInt32 (int32
            (P.fOpen (filenameOf c) true (P.fClose w.state.fs)).1)) },
          w.irqs⟩) := by
      unfold sdOpen
      rw [get_bind_apply]
      dsimp only
      rw [modify_bind_apply, if_neg hres]
      rfl
    rw [hopen, if_neg hres]
    refine ⟨_, rfl, ?_⟩
    show w.state.tx ++ (str "sd_open:" ++ serwriteInt32 _) ++
      (str "open failed, File: " ++ (filenameOf c ++ str ".\r\n")) ++
      str "ok\r\n" = _
    simp only [List.append_assoc]
    rfl

/-- `M28` without a name opens the file name of an earlier line, and says so. -/
theorem m28_tx (h : Rested s.parser) (hoff : s.fw.sdWritingFile = false)
    (irqs : List Irq) :
    (takeLine P (Fresh s) (wordLine 77 28) irqs).2.state.tx =
      m28Reply P s.fw.fs (filenameOf s.parser.nextTarget) := by
  have hname := (parsed_m h (n := 28) (by omega)).2.2.2.2.2
  rw [takeLine_processes (processes_m h hoff (by omega)), parsed_fresh]
  obtain ⟨w', hrun, hsent⟩ := m28_sends (P := P) (parsed s (wordLine 77 28))
    ⟨(Fresh s).fw, irqs⟩
  have hcommand : commandOf (parsed s (wordLine 77 28)) = .m .m28 :=
    commandOf_wordLine h (by omega) rfl
  rw [processGcodeCommand_plain (runCommand_m hcommand) hrun]
  rw [hname] at hsent
  exact hsent

/-- The reply tells the name. -/
theorem m28Reply_injective {fs : σ} {name name' : List UInt8}
    (h : m28Reply P fs name = m28Reply P fs name') : name = name' := by
  have hcode : ∀ z : Int, ∀ c ∈ serwriteInt32 (int32 z), c ≠ 111 := by
    rintro z c hc rfl
    rcases serwriteInt32_numeric (int32_range z).2 111 hc with h | h | h
    · exact absurd h.2 (by decide)
    · exact absurd h (by decide)
    · exact absurd h (by decide)
  have hskip : ∀ (z : Int) (l : List UInt8),
      (serwriteInt32 (int32 z) ++ (str "open failed, File: " ++ l)).dropWhile
        (· ≠ 111) = str "open failed, File: " ++ l := by
    intro z l
    rw [List.dropWhile_append_of_pos fun c hc => by simpa using hcode z c hc]
    rfl
  unfold m28Reply at h
  dsimp only at h
  split at h
  · split at h
    · exact List.append_cancel_right (List.append_cancel_left h)
    · have hhead : some (87 : UInt8) = some 115 := congrArg List.head? h
      exact absurd hhead (by decide)
  · split at h
    · have hhead : some (115 : UInt8) = some 87 := congrArg List.head? h
      exact absurd hhead (by decide)
    · have htail := congrArg (List.dropWhile (· ≠ 111))
        (List.append_cancel_left h)
      rw [hskip, hskip] at htail
      exact List.append_cancel_right (List.append_cancel_left htail)

/-- `G4` without a time, where the queue empties. -/
theorem g4_effects (h : Rested s.parser) (hoff : s.fw.sdWritingFile = false)
    {irqs : List Irq} {w : World (Firmware R σ) Irq}
    (hdrains : (synchQueue P : FwM R σ Unit) ⟨forget s.fw, irqs⟩ =
      (some (), w)) :
    (takeLine P (Fresh s) (wordLine 71 4) irqs).2.state.effects =
      .delayMs s.parser.nextTarget.p :: w.state.effects := by
  obtain ⟨haccepted, hG, hg, hp⟩ := parsed_g h (n := 4) (by omega)
  have hproc : Processes (Fresh s) (wordLine 71 4) := ⟨haccepted, hoff⟩
  have hcommand : commandOf (parsed s (wordLine 71 4)) = .g .g4 := by
    rw [commandOf, if_pos hG, hg]
    rfl
  have hrun : (runCommand P (parsed s (wordLine 71 4)) : FwM R σ (Outcome R)) =
      g4 P (parsed s (wordLine 71 4)) >>= fun _ => pure .plain := by
    rw [runCommand, hcommand]
    rfl
  have hg4 : (g4 P (parsed s (wordLine 71 4)) : FwM R σ Unit)
      ⟨(Fresh s).fw, irqs⟩ =
      (some (), { w with state :=
        { w.state with
          effects := .delayMs s.parser.nextTarget.p :: w.state.effects } }) := by
    unfold g4
    rw [bind_apply, show (Fresh s).fw = forget s.fw from rfl, hdrains, hp]
    rfl
  rw [takeLine_processes hproc, parsed_fresh, processGcodeCommand_plain hrun hg4]

theorem forget_drains {fw : Firmware R σ} (h : Drains P fw) :
    Drains P (forget fw) := by
  obtain ⟨irqs, h⟩ := h
  obtain ⟨k, hrun⟩ := synchQueue_ignores (P := P) (t := fw.tx) (e := fw.effects)
    fw.steptimeout ⟨forget fw, irqs⟩
  rw [relog_forget] at hrun
  refine ⟨irqs, ?_⟩
  rw [hrun] at h
  exact h

/-- Where every line does the same, the sessions agree on what is left. -/
theorem sameLeft_of_sameOutcome (h₁ : Rested s₁.parser) (h₂ : Rested s₂.parser)
    (hmodal : SameModal s₁ s₂)
    (h : ∀ data, IsTerminated data → ∀ irqs, SameOutcome P s₁ s₂ data irqs) :
    SameLeft P s₁ s₂ := by
  have hwriting : (forget s₁.fw).sdWritingFile = (forget s₂.fw).sdWritingFile :=
    congrArg Firmware.sdWritingFile hmodal.fw
  have hfs : (forget s₁.fw).fs = (forget s₂.fw).fs :=
    congrArg Firmware.fs hmodal.fw
  change s₁.fw.sdWritingFile = s₂.fw.sdWritingFile at hwriting
  change s₁.fw.fs = s₂.fw.fs at hfs
  constructor
  case getting =>
    cases hsd : s₁.fw.sdWritingFile with
    | true =>
        have hobs := (h _ (bareLine_terminated 29) []).observe
          Firmware.sdWritingFile fun _ => rfl
        rw [bareLine_writing h₁ hsd,
          bareLine_writing h₂ (hwriting.symm.trans hsd)] at hobs
        exact hobs
    | false =>
        have hobs := (h _ (bareLine_terminated 5) []).observe Firmware.tx
          fun _ => rfl
        rw [bareLine_tx h₁ hsd, bareLine_tx h₂ (hwriting.symm.trans hsd)] at hobs
        have hne : str "ok\r\n" ≠ str "E: Bad M-code 5\r\nok\r\n" := by decide
        cases hb : s₁.parser.nextTarget.gettingString <;>
          cases hb' : s₂.parser.nextTarget.gettingString
        · rfl
        · rw [hb, hb'] at hobs
          exact absurd hobs.symm hne
        · rw [hb, hb'] at hobs
          exact absurd hobs hne
        · rfl
  case n =>
    have hobs := (h _ (wordLine_terminated 42 1) []).observe Firmware.tx
      fun _ => rfl
    rw [starLine_tx h₁, starLine_tx h₂] at hobs
    have hdigits := List.append_cancel_left (List.append_cancel_right hobs)
    have hrange := uint32_range s₁.parser.nextTarget.n
    have hrange' := uint32_range s₂.parser.nextTarget.n
    rw [h₁.inv.n] at hrange
    rw [h₂.inv.n] at hrange'
    have hnat := serwriteUint32_injective (by omega) (by omega) hdigits
    omega
  case s =>
    intro hsd
    have hobs := (h _ (wordLine_terminated 77 140) []).observe
      (fun fw => fw.temp.targetTemp .heatedBed0) fun _ => rfl
    rw [m140_target h₁ hsd, m140_target h₂ (hwriting.symm.trans hsd)] at hobs
    have hs₁ := h₁.inv.s
    have hs₂ := h₂.inv.s
    unfold int16 wrapSigned at hs₁ hs₂
    unfold uint16 wrapUnsigned at hobs
    omega
  case name =>
    intro hsd
    have hobs := (h _ (wordLine_terminated 77 28) []).observe Firmware.tx
      fun _ => rfl
    rw [m28_tx h₁ hsd, m28_tx h₂ (hwriting.symm.trans hsd), ← hfs] at hobs
    exact m28Reply_injective hobs
  case p =>
    intro hsd hdrains
    obtain ⟨irqs, hirqs⟩ := forget_drains hdrains
    have hobs := (h _ (wordLine_terminated 71 4) irqs).observe Firmware.effects
      fun _ => rfl
    have hwait : (synchQueue P : FwM R σ Unit) ⟨forget s₁.fw, irqs⟩ =
        (some (), ((synchQueue P : FwM R σ Unit) ⟨forget s₁.fw, irqs⟩).2) :=
      Prod.ext hirqs rfl
    rw [g4_effects h₁ hsd hwait, g4_effects h₂ (hwriting.symm.trans hsd)
      (hmodal.fw ▸ hwait)] at hobs
    exact Effect.delayMs.inj (List.cons.inj hobs).1

/-- Every line does the same in two sessions that agree on the modal state
exactly if they agree on the number of the last line, on whether a file name is
open and, unless lines are stored, on the numbers and the name that are read
without having been given. -/
theorem independent_iff (h₁ : Reachable P s₁) (h₂ : Reachable P s₂)
    (hmodal : SameModal s₁ s₂) :
    (∀ data, IsTerminated data → ∀ irqs, SameOutcome P s₁ s₂ data irqs) ↔
      SameLeft P s₁ s₂ := by
  have hrest₁ := reachable_rested h₁
  have hrest₂ := reachable_rested h₂
  constructor
  · intro h
    exact sameLeft_of_sameOutcome hrest₁ hrest₂ hmodal h
  · intro hleft data hend irqs
    exact hleft.sameOutcome hrest₁ hrest₂ hmodal hend irqs

end Converse

/-- A line with `M111` leaves the firmware as it was, the record apart. -/
theorem lineDone_m111 {s s' : Session R σ} {data : List UInt8}
    (h : LineDone P s data s') (hproc : Processes s data)
    (hc : commandOf (parsed s data) = .m .m111) : forget s'.fw = forget s.fw := by
  obtain ⟨irqs, rest, h⟩ := h
  have hstate := takeLine_processes (P := P) hproc irqs
  rw [h] at hstate
  have hrun : (processGcodeCommand P (parsed s data) ⟨s.fw, irqs⟩).2.state =
      { s.fw with tx := s.fw.tx ++ str "ok\r\n" } := by
    unfold processGcodeCommand runCommand
    rw [hc]
    rfl
  rw [show s'.fw = _ from hstate, hrun]
  rfl

end Lines

/-! ## Three sessions -/

/-- The debug level has been set. -/
def leveled : Session ℚ Unit :=
  (playLine noCard defaultStart (str "M111\n")).get (by decide +kernel)

/-- The debug level has been set to a number. -/
def leveledS : Session ℚ Unit :=
  (playLine noCard defaultStart (str "M111 S100\n")).get (by decide +kernel)

private theorem leveled_done :
    LineDone noCard defaultStart (str "M111\n") leveled :=
  lineDone_of_playLine (Option.some_get _).symm

private theorem leveledS_done :
    LineDone noCard defaultStart (str "M111 S100\n") leveledS :=
  lineDone_of_playLine (Option.some_get _).symm

private theorem powered_reachable : Reachable noCard defaultStart :=
  reachable_init _ _

/-- A line `M111` changes nothing that later lines look at. -/
private theorem leveled_modal : SameModal defaultStart leveled where
  fw := (lineDone_m111 leveled_done (by decide +kernel) (by decide +kernel)).symm
  relative := by decide +kernel
  inches := by decide +kernel
  nExpected := by decide +kernel

/-- A line `M111 S100` changes nothing that later lines look at, although its S word
stays behind. -/
private theorem leveledS_modal : SameModal defaultStart leveledS where
  fw := (lineDone_m111 leveledS_done (by decide +kernel) (by decide +kernel)).symm
  relative := by decide +kernel
  inches := by decide +kernel
  nExpected := by decide +kernel

/-- The number of `M111` becomes the temperature of the bed. -/
theorem stale_temperature :
    Reachable noCard defaultStart ∧ Reachable noCard leveledS ∧
      SameModal defaultStart leveledS ∧ IsTerminated (str " M140\n") ∧
      (takeLine noCard leveledS (str " M140\n") []).2.state.temp.targetTemp
        .heatedBed0 = 100 ∧
      ¬SameOutcome noCard defaultStart leveledS (str " M140\n") [] := by
  have hreach : Reachable noCard leveledS := powered_reachable.line leveledS_done
  refine ⟨powered_reachable, hreach, leveledS_modal, .inl (by decide),
    by decide +kernel, fun hsame => ?_⟩
  have hline : str " M140\n" = wordLine 77 140 := by decide
  have hobs := hsame.observe (fun fw => fw.temp.targetTemp .heatedBed0)
    fun _ => rfl
  rw [hline, m140_target (reachable_rested powered_reachable) rfl,
    m140_target (reachable_rested hreach) (by decide +kernel)] at hobs
  exact absurd hobs (by decide +kernel)

/-- Without a number nothing is left behind that matters. -/
theorem independent_leveled :
    SameOutcome noCard defaultStart leveled (str "G1 X1\n") [] := by
  refine (independent_iff powered_reachable (powered_reachable.line leveled_done)
    leveled_modal).2 ?_ _ (.inl rfl) []
  exact
    { getting := by decide +kernel
      n := by decide +kernel
      s := fun _ => by decide +kernel
      name := fun _ => by decide +kernel
      p := fun _ _ => by decide +kernel }

end R2C2Firmware.Ports.LineIndependence
