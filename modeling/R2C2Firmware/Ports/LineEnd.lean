import R2C2Firmware.Ports.WordOrder

/-!
# Lines without a line end

`gcode_parse_line` runs the command when the characters are used up, whatever the last
one was.  The number of the last word is stored by the line end, and the line end
closes a file name.  Where it is missing, the command is run with the number of an
earlier line, and the next line is taken into the name.

Lines without a line end are read from the last line of a file, and from a line that
is too long for the buffer.

## Main results

* `gcodeParseChar_lineFeed` — what the line end does.
* `unterminated_line` — when it makes no difference.
* `last_word_lost` — `G1 X1`.
-/

set_option linter.unusedSectionVars false

namespace R2C2Firmware.Ports.LineEnd

open R2C2Firmware.Verified.Number
open R2C2Firmware.Verified.BusyWait
open R2C2Firmware.Ports.Config
open R2C2Firmware.Ports.MotionPlanner
open R2C2Firmware.Ports.Sermsg
open R2C2Firmware.Ports.GcodeParse
open R2C2Firmware.Ports.Mendel
open R2C2Firmware.Ports.GcodeProcess
open R2C2Firmware.Ports.MainLoop
open R2C2Firmware.Ports.Checksum
open R2C2Firmware.Ports.StaleWords
open R2C2Firmware.Ports.LineIndependence
open R2C2Firmware.Ports.NumberWords
open R2C2Firmware.Ports.WordOrder

variable {R σ : Type} [Field R] [LinearOrder R] [FloorRing R] {p q : Parser R}

/-! ## The line end -/

/-- The command but for the numbers of the checksum. -/
def unchecked (t : GcodeCommand R) : GcodeCommand R :=
  { t with checksumRead := 0, checksumCalculated := 0 }

theorem captureString_lineFeed (t : GcodeCommand R) :
    captureString 10 t = { t with gettingString := false } := by
  unfold captureString
  split
  · rw [if_pos (.inl rfl)]
  · next h =>
    have hoff : t.gettingString = false := by simpa using h
    rw [← hoff]

theorem processChar_lineFeed (p : Parser R) : processChar 10 p = p := by
  unfold processChar
  dsimp only
  split
  · rfl
  · exact if_neg fun h => absurd h.2 (by decide)

/-- The line feed stores the last word and closes the file name. -/
theorem gcodeParseChar_lineFeed (p : Parser R) :
    (gcodeParseChar p 10).nextTarget =
      { committed p with
        gettingString := false
        checksumCalculated :=
          if (committed p).seenChecksum then (committed p).checksumCalculated
          else (committed p).checksumCalculated ^^^ 10 } := by
  show (updateChecksum 10 (processChar 10 _)).nextTarget = _
  rw [processChar_lineFeed, commitField_end p rfl, show uppercase 10 = 10 from rfl,
    captureString_lineFeed]
  unfold updateChecksum
  dsimp only
  cases (committed p).seenChecksum with
  | true => rfl
  | false => rfl

theorem parsed_lineFeed (s : Session R σ) (w : List UInt8) :
    parsed s (w ++ [10]) = (gcodeParseChar (parseChars s.parser w) 10).nextTarget := by
  rw [parsed, parseChars_append]
  rfl

theorem committed_checksum (p : Parser R) :
    (committed p).seenChecksum = p.nextTarget.seenChecksum ∧
      (committed p).checksumCalculated = p.nextTarget.checksumCalculated := by
  unfold committed
  split
  · next w _ => cases w <;> exact ⟨rfl, rfl⟩
  · exact ⟨rfl, rfl⟩

/-! ## Lines that say the same -/

/-- The checksum is right in both or in none, and the sums are the same, where one
is given. -/
structure SameSum (c d : GcodeCommand R) : Prop where
  accepted : checksumAccepted c = checksumAccepted d
  calculated : c.seenChecksum = true → c.checksumCalculated = d.checksumCalculated

theorem SameSum.read {c d : GcodeCommand R} (h : SameSum c d)
    (hseen : c.seenChecksum = d.seenChecksum) (hc : checksumAccepted c = true)
    (hon : c.seenChecksum = true) : c.checksumRead = d.checksumRead := by
  have hd := h.accepted.symm.trans hc
  have hcalculated := h.calculated hon
  unfold checksumAccepted at hc hd
  rw [hon] at hc
  rw [← hseen, hon, ← hcalculated] at hd
  rw [Bool.not_true, Bool.or_false, decide_eq_true_iff] at hc hd
  exact hc.symm.trans hd

/-- The parser that is left does not depend on the checksum. -/
theorem endOfLine_unchecked (p q : Parser R) (change : Change R) {c d : GcodeCommand R}
    (h : unchecked c = unchecked d) :
    endOfLine { p with nextTarget := expectNext (change.apply c) } =
      endOfLine { q with nextTarget := expectNext (change.apply d) } := by
  have hleft : ∀ (p : Parser R) (c : GcodeCommand R),
      endOfLine { p with nextTarget := expectNext (change.apply c) } =
        endOfLine { p with nextTarget := expectNext (change.apply (unchecked c)) } := by
    intro p c
    have happly : unchecked (change.apply c) = unchecked (change.apply (unchecked c)) := by
      cases change <;> rfl
    have hexpect : ∀ c : GcodeCommand R,
        unchecked (expectNext c) = unchecked (expectNext (unchecked c)) := by
      intro c
      unfold expectNext
      show unchecked (if c.seenN = true then _ else _) =
        unchecked (if c.seenN = true then _ else _)
      split <;> rfl
    have hboth : unchecked (expectNext (change.apply c)) =
        unchecked (expectNext (change.apply (unchecked c))) := by
      rw [hexpect, happly, ← hexpect]
    have hend := congrArg (fun t : GcodeCommand R =>
      endOfLine { p with nextTarget := t }) hboth
    exact hend
  rw [hleft p c, hleft q d, h]
  rfl

section Lines

variable [HasSqrt R] [IsStrictOrderedRing R] {P : Platform σ} {s : Session R σ} {w : List UInt8}

theorem sameCommand_unchecked {c d : GcodeCommand R} (h : unchecked c = unchecked d)
    (hsum : SameSum c d) (hc : checksumAccepted c = true) : SameCommand c d := by
  have hpart : ∀ {α : Type} (f : GcodeCommand R → α),
      (∀ t, f (unchecked t) = f t) → f c = f d := by
    intro α f hf
    rw [← hf c, ← hf d, h]
  have hflags : ∀ word, seen word c = seen word d := fun word => by
    cases word with
    | _ => exact hpart _ fun _ => rfl
  refine ⟨hflags, fun word hseen => ?_, hpart _ fun _ => rfl, hpart _ fun _ => rfl,
    hpart _ fun _ => rfl, hpart _ fun _ => rfl, fun _ a => ?_, fun _ =>
    hpart (·.p) fun _ => rfl⟩
  · cases word with
    | checksum => exact congrArg Sum.inl (hsum.read (hflags .checksum) hc hseen)
    | _ => exact hpart _ fun _ => rfl
  · exact hpart (·.target.coord a) fun _ => rfl

/-- Two lines that say the same do the same and leave the same parser. -/
theorem takeLine_unchecked {data data' : List UInt8} (hoff : s.fw.sdWritingFile = false)
    (h : unchecked (parsed s data) = unchecked (parsed s data'))
    (hsum : SameSum (parsed s data) (parsed s data')) (irqs : List Irq) :
    takeLine P s data irqs = takeLine P s data' irqs := by
  by_cases hc : checksumAccepted (parsed s data) = true
  · have hc' := hsum.accepted.symm.trans hc
    have hsame := sameCommand_unchecked h hsum hc
    rw [takeLine_command ⟨hc, hoff⟩, takeLine_command ⟨hc', hoff⟩,
      processGcodeCommand_congr hsame]
    refine congrArg (·, _) (congrArg (fun f => Option.map f _) (funext fun change => ?_))
    exact endOfLine_unchecked _ _ change h
  · have hc' : ¬checksumAccepted (parsed s data') = true := hsum.accepted ▸ hc
    have hseen : (parsed s data).seenChecksum = true := by
      by_contra hun
      refine hc ?_
      unfold checksumAccepted
      rw [Bool.eq_false_of_not_eq_true hun]
      simp
    have hn := congrArg GcodeCommand.n h
    have hend := congrArg (fun t : GcodeCommand R =>
      endOfLine { parseChars s.parser data with nextTarget := t }) h
    rw [takeLine_eq, takeLine_eq, if_neg hc, if_neg hc']
    have hreject : (rejectLine (parsed s data) : FwM R σ Unit) =
        rejectLine (parsed s data') := by
      unfold rejectLine
      rw [hsum.calculated hseen, show (parsed s data).n = (parsed s data').n from hn]
    have hleft : endOfLine (parseChars s.parser data) =
        endOfLine (parseChars s.parser data') := hend
    rw [hreject, hleft]

/-! ## The condition -/

/-- Nothing is left to do for the line end: no file name is open, the number of the
last word is the one stored already, and a checksum is right or wrong as it is. -/
structure Complete (p : Parser R) : Prop where
  closed : p.nextTarget.gettingString = false
  stored : ∀ word, p.lastField = some word → word ≠ .checksum →
    valueOf word (committed p) = valueOf word p.nextTarget
  sum : checksumAccepted (committed p) = checksumAccepted p.nextTarget

/-- Storing a number that is stored already changes nothing but the checksum. -/
theorem unchecked_storeWord {word : Word} {v : R} {t : GcodeCommand R}
    (hclosed : t.gettingString = false)
    (h : word ≠ .checksum → valueOf word (storeWord word v t) = valueOf word t) :
    unchecked { storeWord word v t with gettingString := false } = unchecked t := by
  cases word with
  | g =>
      have hg : uint8 (truncate v) = t.g := Sum.inl.inj (h (by decide))
      show unchecked { t with g := uint8 (truncate v), gettingString := false } = _
      rw [hg, ← hclosed]
  | m =>
      have hm : uint16 (truncate v) = t.m := Sum.inl.inj (h (by decide))
      show unchecked { t with m := uint16 (truncate v), gettingString := false } = _
      rw [hm, ← hclosed]
  | x =>
      have hx : inUnits t v = t.target.x := Sum.inr.inj (h (by decide))
      show unchecked { t with
        target := { t.target with x := inUnits t v }, gettingString := false } = _
      rw [hx, ← hclosed]
  | y =>
      have hy : inUnits t v = t.target.y := Sum.inr.inj (h (by decide))
      show unchecked { t with
        target := { t.target with y := inUnits t v }, gettingString := false } = _
      rw [hy, ← hclosed]
  | z =>
      have hz : inUnits t v = t.target.z := Sum.inr.inj (h (by decide))
      show unchecked { t with
        target := { t.target with z := inUnits t v }, gettingString := false } = _
      rw [hz, ← hclosed]
  | e =>
      have he : inUnits t v = t.target.e := Sum.inr.inj (h (by decide))
      show unchecked { t with
        target := { t.target with e := inUnits t v }, gettingString := false } = _
      rw [he, ← hclosed]
  | f =>
      have hf : inUnits t v = t.target.feedRate := Sum.inr.inj (h (by decide))
      show unchecked { t with
        target := { t.target with feedRate := inUnits t v }, gettingString := false } = _
      rw [hf, ← hclosed]
  | s =>
      have hs : int16 (truncate v) = t.s := Sum.inl.inj (h (by decide))
      show unchecked { t with s := int16 (truncate v), gettingString := false } = _
      rw [hs, ← hclosed]
  | p =>
      have hp : uint16 (truncate (if t.g = 4 then v * 1000 else v)) = t.p :=
        Sum.inl.inj (h (by decide))
      show unchecked { t with
        p := uint16 (truncate (if t.g = 4 then v * 1000 else v))
        gettingString := false } = _
      rw [hp, ← hclosed]
  | n =>
      have hn : uint32 (truncate v) = t.n := Sum.inl.inj (h (by decide))
      show unchecked { t with n := uint32 (truncate v), gettingString := false } = _
      rw [hn, ← hclosed]
  | checksum | unknown =>
      show unchecked { t with gettingString := false } = _
      rw [← hclosed]

theorem Complete.unchecked (h : Complete p) :
    LineEnd.unchecked (gcodeParseChar p 10).nextTarget =
      LineEnd.unchecked p.nextTarget := by
  have hcommitted : LineEnd.unchecked { committed p with gettingString := false } =
      LineEnd.unchecked p.nextTarget := by
    obtain ⟨t, field, sign, exponent, value⟩ := p
    have hclosed : t.gettingString = false := h.closed
    cases field with
    | none =>
        show LineEnd.unchecked { t with gettingString := false } = _
        rw [← hclosed]
    | some word =>
        have hstored := h.stored word rfl
        show LineEnd.unchecked
          { storeWord word (if sign then -value else value) t with
            gettingString := false } = LineEnd.unchecked t
        exact unchecked_storeWord hclosed hstored
  rw [gcodeParseChar_lineFeed]
  exact hcommitted

theorem Complete.sameSum (h : Complete p) :
    SameSum p.nextTarget (gcodeParseChar p 10).nextTarget := by
  obtain ⟨hseen, hcalculated⟩ := committed_checksum p
  rw [gcodeParseChar_lineFeed, hseen]
  constructor
  · rw [← h.sum]
    unfold checksumAccepted
    dsimp only
    rw [hseen]
    by_cases hon : p.nextTarget.seenChecksum = true
    · rw [if_pos hon]
    · rw [Bool.eq_false_of_not_eq_true hon, Bool.not_false, Bool.or_true, Bool.or_true]
  · intro hon
    show _ = if _ then _ else _
    rw [if_pos hon, hcalculated]

/-- The number of the word is left when the line is done. -/
def Lasts : Word → Parser R → Prop
  | .m, _ | .s, _ | .p, _ | .n, _ | .unknown, _ => True
  | .x, q | .y, q | .z, q | .e, q => q.nextTarget.optionRelative = false
  | .g, _ | .f, _ | .checksum, _ => False

/-- A line that returns keeps the values of the words that last, and the filename closed
or open. -/
theorem takeLine_left {data : List UInt8} (hoff : s.fw.sdWritingFile = false)
    {irqs : List Irq} (h : (takeLine P s data irqs).1 = some q) :
    q.nextTarget.gettingString = (parsed s data).gettingString ∧
      ∀ word, Lasts word q → valueOf word q.nextTarget = valueOf word (parsed s data) := by
  have hend : ∀ (p : Parser R) (word : Word), Lasts word (endOfLine p) →
      valueOf word (endOfLine p).nextTarget = valueOf word p.nextTarget := by
    intro p word hlasts
    have htarget : p.nextTarget.optionRelative = false →
        (endOfLine p).nextTarget.target = p.nextTarget.target := by
      intro hrel
      show resetTarget p.nextTarget = _
      rw [resetTarget, if_neg (by simp [hrel])]
    cases word with
    | g | f | checksum => exact absurd hlasts id
    | x | y | z | e =>
        simp only [valueOf]
        rw [htarget hlasts]
    | m | s | p | n | unknown => rfl
  by_cases hc : checksumAccepted (parsed s data) = true
  · obtain ⟨change, -, rfl⟩ := takeLine_returns ⟨hc, hoff⟩
      (show takeLine P s data irqs = (some q, (takeLine P s data irqs).2) from
        Prod.ext h rfl)
    have hafter : ∀ c : GcodeCommand R,
        (expectNext (change.apply c)).gettingString = c.gettingString ∧
          ∀ word, Lasts word (endOfLine (R := R) { parseChars s.parser data with
              nextTarget := expectNext (change.apply c) }) →
            valueOf word (expectNext (change.apply c)) = valueOf word c := by
      intro c
      have hexpect : ∀ c : GcodeCommand R,
          (expectNext c).gettingString = c.gettingString ∧
            ∀ word, valueOf word (expectNext c) = valueOf word c := by
        intro c
        unfold expectNext
        split
        · exact ⟨rfl, fun word => by cases word <;> rfl⟩
        · exact ⟨rfl, fun _ => rfl⟩
      obtain ⟨hname, hvalue⟩ := hexpect (change.apply c)
      refine ⟨hname.trans (by cases change <;> rfl), fun word hlasts => ?_⟩
      rw [hvalue]
      cases word with
      | g | f | checksum => exact absurd hlasts id
      | x | y | z | e | m | s | p | n | unknown => cases change <;> rfl
    obtain ⟨hname, hvalue⟩ := hafter (parsed s data)
    exact ⟨hname, fun word hlasts => (hend _ word hlasts).trans (hvalue word hlasts)⟩
  · rw [takeLine_eq, if_neg hc] at h
    have hq : endOfLine (parseChars s.parser data) = q := Option.some.inj h
    subst hq
    exact ⟨rfl, hend _⟩

theorem valueOf_lineFeed (p : Parser R) {word : Word} (hsum : word ≠ .checksum) :
    valueOf word (gcodeParseChar p 10).nextTarget = valueOf word (committed p) := by
  rw [gcodeParseChar_lineFeed]
  cases word <;> rfl

/-- A line without a line end has the same effect as the line with one, if it is
complete.  It has another, if it is not and the number or the file name that is
missing is left for the next line. -/
theorem unterminated_line (hoff : s.fw.sdWritingFile = false) :
    (Complete (parseChars s.parser w) →
      ∀ irqs, takeLine P s w irqs = takeLine P s (w ++ [10]) irqs) ∧
    ∀ irqs q, (takeLine P s w irqs).1 = some q →
      (∀ word, (parseChars s.parser w).lastField = some word → Lasts word q) →
      takeLine P s w irqs = takeLine P s (w ++ [10]) irqs →
        Complete (parseChars s.parser w) := by
  constructor
  · intro h irqs
    refine takeLine_unchecked hoff ?_ ?_ irqs
    · rw [parsed_lineFeed, h.unchecked]
      rfl
    · rw [parsed_lineFeed]
      exact h.sameSum
  · intro irqs q hq hlasts hsame
    have hq' : (takeLine P s (w ++ [10]) irqs).1 = some q := by rw [← hsame, hq]
    obtain ⟨hname, hvalue⟩ := takeLine_left hoff hq
    obtain ⟨hname', hvalue'⟩ := takeLine_left hoff hq'
    rw [parsed_lineFeed] at hname' hvalue'
    have hclosed : q.nextTarget.gettingString = false := by
      rw [hname', gcodeParseChar_lineFeed]
    refine ⟨hname.symm.trans hclosed, fun word hword hsum => ?_, ?_⟩
    · have hlast := hlasts word hword
      rw [← valueOf_lineFeed _ hsum, ← hvalue' word hlast, hvalue word hlast]
      rfl
    · have hkept : ∀ p : Parser R, p.lastField ≠ some .checksum →
          (committed p).checksumRead = p.nextTarget.checksumRead := by
        intro p hp
        unfold committed
        split
        · next word hword => cases word <;> first | rfl | exact absurd hword hp
        · rfl
      obtain ⟨hseen, hcalculated⟩ := committed_checksum (parseChars s.parser w)
      unfold checksumAccepted
      rw [hseen, hcalculated, hkept _ fun h => hlasts .checksum h]

end Lines

/-! ## Two lines -/

/-- The letter of a comment stores the last word. -/
theorem unterminated_comment :
    takeLine noCard defaultStart (str "G1 X1 (a)") [] =
      takeLine noCard defaultStart (str "G1 X1 (a)" ++ [10]) [] := by
  have hstored : (parseChars defaultStart.parser (str "G1 X1 (a)")).lastField = none := by
    decide +kernel
  refine (unterminated_line rfl).1 ⟨by decide +kernel, fun word hword => ?_, by
    decide +kernel⟩ []
  rw [hstored] at hword
  exact absurd hword (by simp)

/-- `G1 X1` without a line end does not move. -/
theorem last_word_lost :
    Reachable noCard defaultStart ∧
      defaultStart.fw.sdWritingFile = false ∧
      (takeLine noCard defaultStart (str "G1 X1") []).2.state.machine.planner.position
        .x = 0 ∧
      (takeLine noCard defaultStart (str "G1 X1" ++ [10])
        []).2.state.machine.planner.position .x = 80 := by
  refine ⟨reachable_init _ _, rfl, ?_, ?_⟩
  · decide +kernel
  · decide +kernel

end R2C2Firmware.Ports.LineEnd
