import R2C2Firmware.Ports.GcodeEffects

/-!
# The parser between lines

What can be said of `next_target` and of the scanner in every session that can
be reached.  `ParserInv` holds after every character: the numbers are inside
the ranges of their C types, and the file name has no line feed.  `endOfLine`
fixes the parser of every session: between lines the flags are clear and no
word is under construction.

## Main results

* `parseChars_inv` — the invariant, over a line.
* `reachable_rested` — the parser of a reachable session.
-/

set_option linter.unusedSectionVars false

namespace R2C2Firmware.Ports.GcodeParse

open R2C2Firmware.Verified.Number
open R2C2Firmware.Verified.BusyWait
open R2C2Firmware.Ports.Config
open R2C2Firmware.Ports.MotionPlanner
open R2C2Firmware.Ports.Mendel
open R2C2Firmware.Ports.GcodeProcess
open R2C2Firmware.Ports.MainLoop

variable {R σ : Type} [Field R] [LinearOrder R] [FloorRing R] [HasDouble R]

/-! ## Ranges -/

/-- The fields of `next_target` are values of their C types. -/
structure ParserInv (t : GcodeCommand R) : Prop where
  g : uint8 t.g = t.g
  m : uint16 t.m = t.m
  s : int16 t.s = t.s
  p : uint16 t.p = t.p
  n : uint32 t.n = t.n
  filename : (10 : UInt8) ∉ t.filename

theorem uint8_uint8 (z : Int) : uint8 (uint8 z) = uint8 z := by
  unfold uint8 wrapUnsigned
  omega

theorem uint16_uint16 (z : Int) : uint16 (uint16 z) = uint16 z := by
  unfold uint16 wrapUnsigned
  omega

theorem int16_int16 (z : Int) : int16 (int16 z) = int16 z := by
  unfold int16 wrapSigned
  omega

theorem uint32_uint32 (z : Int) : uint32 (uint32 z) = uint32 z := by
  unfold uint32 wrapUnsigned
  omega

/-! ## Characters -/

/-- A number is stored in the width of its field, which is the invariant. -/
theorem storeWord_inv (w : Word) (value : R) {t : GcodeCommand R}
    (h : ParserInv t) : ParserInv (storeWord w value t) := by
  cases w with
  | g => exact { h with g := uint8_uint8 _ }
  | m => exact { h with m := uint16_uint16 _ }
  | s => exact { h with s := int16_int16 _ }
  | p => exact { h with p := uint16_uint16 _ }
  | n => exact { h with n := uint32_uint32 _ }
  | x | y | z | e | f => exact { h with }
  | checksum => exact { h with }
  | unknown => exact h

/-- Committing a field keeps every stored number within its width. -/
theorem commitField_inv (c : UInt8) {p : Parser R} (h : ParserInv p.nextTarget) :
    ParserInv (commitField c p).nextTarget := by
  unfold commitField
  split
  · split
    · exact storeWord_inv _ _ h
    · exact h
  · exact h

/-- Keeping a character of a file name touches no number, and a line end is not kept. -/
theorem captureString_inv (c : UInt8) {t : GcodeCommand R} (h : ParserInv t) :
    ParserInv (captureString c t) := by
  unfold captureString
  split
  · split
    · exact { h with }
    · next hc =>
      split
      · refine { h with filename := ?_ }
        intro hmem
        rcases List.mem_append.1 hmem with hold | hnew
        · exact h.filename (List.mem_of_mem_take hold)
        · exact hc (.inl (List.mem_singleton.1 hnew).symm)
      · exact h
  · exact h

theorem seeWord_inv (w : Word) {t : GcodeCommand R} (h : ParserInv t) :
    ParserInv (seeWord w t) := by
  cases w with
  | g => exact { h with m := rfl }
  | m => exact { h with g := rfl }
  | x | y | z | e | f | s | p | n | checksum => exact { h with }
  | unknown => exact h

theorem scanChar_inv (c : UInt8) {p : Parser R} (h : ParserInv p.nextTarget) :
    ParserInv (scanChar c p).nextTarget := by
  unfold scanChar
  split
  · exact seeWord_inv _ h
  · split
    · exact { h with }
    · split
      · exact { h with }
      · split_ifs <;> exact h

theorem processChar_inv (c : UInt8) {p : Parser R} (h : ParserInv p.nextTarget) :
    ParserInv (processChar c p).nextTarget := by
  unfold processChar
  dsimp only
  split_ifs
  · exact scanChar_inv c h
  · exact { h with }
  · exact h

/-- One character keeps every stored number within its width. -/
theorem gcodeParseChar_inv (c : UInt8) {p : Parser R}
    (h : ParserInv p.nextTarget) :
    ParserInv (gcodeParseChar p c).nextTarget := by
  have hscan := processChar_inv (uppercase c)
    (p := { commitField (uppercase c) p with
      nextTarget := captureString (uppercase c)
        (commitField (uppercase c) p).nextTarget })
    (captureString_inv _ (commitField_inv _ h))
  unfold gcodeParseChar updateChecksum
  dsimp only
  split
  · exact { hscan with }
  · exact hscan

/-- Any text keeps every stored number within its width. -/
theorem parseChars_inv (line : List UInt8) {p : Parser R}
    (h : ParserInv p.nextTarget) :
    ParserInv (parseChars p line).nextTarget := by
  unfold parseChars
  induction line generalizing p with
  | nil => exact h
  | cons c line ih => exact ih (gcodeParseChar_inv c h)

/-! ## Lines -/

/-- What a command changes of the parser are its options, the number of the next line
and the feed rate; none of them is a word with a width. -/
theorem change_inv (change : Change R) {t : GcodeCommand R} (h : ParserInv t) :
    ParserInv (change.apply t) := by
  cases change with
  | none => exact h
  | optionInches on => exact { h with }
  | optionRelative on => exact { h with }
  | nExpected n => exact { h with }
  | feedRate f => exact { h with }

/-- The number of the next line is stored in its 32 bits. -/
theorem expectNext_inv {t : GcodeCommand R} (h : ParserInv t) :
    ParserInv (expectNext t) := by
  unfold expectNext
  split
  · exact { h with }
  · exact h

/-- Forgetting the words of a line keeps the numbers that last within their widths. -/
theorem endOfLine_inv {p : Parser R} (h : ParserInv p.nextTarget) :
    ParserInv (endOfLine p).nextTarget :=
  { h with g := rfl }

/-- A second line end has nothing left to forget. -/
theorem endOfLine_endOfLine (p : Parser R) :
    endOfLine (endOfLine p) = endOfLine p := by
  have htarget : resetTarget (endOfLine p).nextTarget =
      resetTarget p.nextTarget := by
    show (if p.nextTarget.optionRelative then _ else _) = _
    unfold resetTarget
    split
    · next hrel =>
        show { (if p.nextTarget.optionRelative then _ else _ : Target R) with
          x := 0, y := 0, z := 0, e := 0 } = _
        rw [if_pos hrel]
    · next hrel =>
        show (if p.nextTarget.optionRelative then _ else _) = _
        rw [if_neg hrel]
  unfold endOfLine at htarget ⊢
  simp only [htarget]

theorem zero_inv : ParserInv (Parser.zero : Parser R).nextTarget :=
  ⟨rfl, rfl, rfl, rfl, rfl, by simp [Parser.zero]⟩

section Sessions

variable [HasSqrt R] {P : Platform σ}

/-- The parser that a line leaves behind which is stored or refused. -/
theorem takeLine_notProcessed {s : Session R σ} {data : List UInt8}
    {irqs : List Irq} {p : Parser R} {w : World (Firmware R σ) Irq}
    (hproc : ¬Processes s data)
    (h : takeLine P s data irqs = (some p, w)) :
    p = endOfLine (parseChars s.parser data) := by
  rw [takeLine_eq] at h
  by_cases hsum : checksumAccepted (parsed s data) = true
  · rw [if_pos hsum] at h
    obtain ⟨c, w₁, haccept, hret⟩ := bind_eq_some.1 h
    have hsd : s.fw.sdWritingFile = true := by
      by_contra hne
      exact hproc ⟨hsum, by simpa using hne⟩
    rw [acceptLine, get_bind_apply, if_pos hsd] at haccept
    obtain ⟨_, w₂, -, hret'⟩ := bind_eq_some.1 haccept
    rw [← Option.some.inj (Prod.mk.inj hret).1,
      ← Option.some.inj (Prod.mk.inj hret').1]
    rfl
  · rw [if_neg hsum] at h
    obtain ⟨_, w₁, -, hret⟩ := bind_eq_some.1 h
    exact (Option.some.inj (Prod.mk.inj hret).1).symm

/-- The parser behind a line has read it to its end; if the line was processed, the
change of its command is in place. -/
theorem takeLine_rest {s : Session R σ} {data : List UInt8}
    {irqs : List Irq} {p : Parser R} {w : World (Firmware R σ) Irq}
    (h : takeLine P s data irqs = (some p, w)) :
    p = endOfLine (parseChars s.parser data) ∨
      ∃ change : Change R, p = endOfLine
        { parseChars s.parser data with
          nextTarget := expectNext (change.apply (parsed s data)) } := by
  by_cases hproc : Processes s data
  · obtain ⟨change, -, hp⟩ := takeLine_returns hproc h
    exact .inr ⟨change, hp⟩
  · exact .inl (takeLine_notProcessed hproc h)

/-- The parser of a session between lines. -/
structure Rested (p : Parser R) : Prop where
  inv : ParserInv p.nextTarget
  fixed : endOfLine p = p

/-- The parser with all fields zero is between lines. -/
theorem zero_rested : Rested (Parser.zero : Parser R) := ⟨zero_inv, rfl⟩

/-- A line that is done leaves the parser between lines. -/
theorem lineDone_rested {s s' : Session R σ} {data : List UInt8}
    (h : Rested s.parser) (hl : LineDone P s data s') : Rested s'.parser := by
  obtain ⟨irqs, rest, hl⟩ := hl
  have hparsed := parseChars_inv data h.inv
  rcases takeLine_rest hl with hp | ⟨change, hp⟩
  · rw [hp]
    exact ⟨endOfLine_inv hparsed, endOfLine_endOfLine _⟩
  · rw [hp]
    exact ⟨endOfLine_inv (expectNext_inv (change_inv change hparsed)),
      endOfLine_endOfLine _⟩

/-- In every run the parser is between lines whenever the firmware waits for one. -/
theorem run_rested {s₀ s : Session R σ}
    {hist : List (Session R σ × List UInt8)} (h : Run P s₀ hist s)
    (h₀ : Rested s₀.parser) : Rested s.parser := by
  induction h with
  | refl => exact h₀
  | background h hb ih => exact ih
  | line h hl ih => exact lineDone_rested ih hl

/-- `gcode_parse_init` changes the feed rate only, which stays between two lines. -/
theorem gcodeParseInit_endOfLine (feedRate : R) (p : Parser R) :
    endOfLine { endOfLine p with
        nextTarget := gcodeParseInit feedRate (endOfLine p).nextTarget } =
      { endOfLine p with
        nextTarget := gcodeParseInit feedRate (endOfLine p).nextTarget } := by
  unfold endOfLine gcodeParseInit resetTarget
  dsimp only
  cases p.nextTarget.optionRelative <;> rfl

theorem init_rested {s : Session R σ} (h : Rested s.parser) : Rested s.init.parser where
  inv := ⟨h.inv.g, h.inv.m, h.inv.s, h.inv.p, h.inv.n, h.inv.filename⟩
  fixed := by
    have hinit := gcodeParseInit_endOfLine
      (s.fw.config.homingFeedrateZ : R) s.parser
    rw [h.fixed] at hinit
    exact hinit

/-- In every reachable session the parser is between lines. -/
theorem reachable_rested {s : Session R σ} (h : Reachable P s) :
    Rested s.parser := by
  cases h with
  | boot config fs h => exact run_rested h zero_rested
  | @main config fs _ _ s₁ _ h h' =>
      have hboot : Rested s₁.parser := run_rested h zero_rested
      exact run_rested h' (init_rested hboot)

end Sessions

end R2C2Firmware.Ports.GcodeParse
