import R2C2Firmware.Ports.Checksum

/-!
# Words that a line does not have

`endOfLine` resets the flags of the words and leaves most of their numbers, so
between two lines the parser still holds numbers of earlier ones.  Here two
parsers go through one line together.  They start with different numbers left,
and end with the same number for every word that the line has.

What the handlers read of a command, they read behind the flag of the word, with
a few exceptions; those are the words for which the numbers left must agree from
the start.

## Main results

* `Alike.step`, `Alike.run` — two parsers on one line.
* `processGcodeCommand_congr` — what a command depends on.
-/

set_option linter.unusedSectionVars false

namespace R2C2Firmware.Ports.StaleWords

open R2C2Firmware.Verified.Number
open R2C2Firmware.Verified.BusyWait
open R2C2Firmware.Ports.Config
open R2C2Firmware.Ports.MotionPlanner
open R2C2Firmware.Ports.Stepper
open R2C2Firmware.Ports.Temp
open R2C2Firmware.Ports.Sermsg
open R2C2Firmware.Ports.GcodeParse
open R2C2Firmware.Ports.Mendel
open R2C2Firmware.Ports.GcodeProcess
open R2C2Firmware.Ports.MainLoop
open R2C2Firmware.Ports.Checksum

variable {R σ : Type}

/-! ## Words -/

/-- The number held for a word. -/
def valueOf : Word → GcodeCommand R → Int ⊕ R
  | .g, t => .inl t.g
  | .m, t => .inl t.m
  | .x, t => .inr t.target.x
  | .y, t => .inr t.target.y
  | .z, t => .inr t.target.z
  | .e, t => .inr t.target.e
  | .f, t => .inr t.target.feedRate
  | .s, t => .inl t.s
  | .p, t => .inl t.p
  | .n, t => .inl t.n
  | .checksum, t => .inl t.checksumRead
  | .unknown, _ => .inl 0

/-- The flag of a word. -/
def seen : Word → GcodeCommand R → Bool
  | .g, t => t.seenG
  | .m, t => t.seenM
  | .x, t => t.seenX
  | .y, t => t.seenY
  | .z, t => t.seenZ
  | .e, t => t.seenE
  | .f, t => t.seenF
  | .s, t => t.seenS
  | .p, t => t.seenP
  | .n, t => t.seenN
  | .checksum, t => t.seenChecksum
  | .unknown, _ => false

section Parsing

variable [Field R] [LinearOrder R] [FloorRing R] [HasDouble R]

/-- The parser without the numbers and the file name. -/
def shape (p : Parser R) : Parser R :=
  { p with
    nextTarget :=
      { p.nextTarget with
        g := 0
        m := 0
        target := .zero
        s := 0
        p := 0
        n := 0
        nExpected := 0
        checksumRead := 0
        filename := [] } }

theorem storeWord_seen (w w' : Word) (value : R) (t : GcodeCommand R) :
    seen w' (storeWord w value t) = seen w' t := by
  cases w <;> cases w' <;> rfl

/-- Storing one word keeps the values of all others. -/
theorem valueOf_storeWord_ne {w w' : Word} (h : w' ≠ w) (value : R)
    (t : GcodeCommand R) :
    valueOf w' (storeWord w value t) = valueOf w' t := by
  cases w <;> cases w' <;> first | rfl | exact absurd rfl h

/-- The number stored depends on the units, and that of P on the G word. -/
theorem valueOf_storeWord_self {w : Word} {t u : GcodeCommand R}
    (hinches : t.optionInches = u.optionInches) (hg : w = .p → t.g = u.g)
    (value : R) :
    valueOf w (storeWord w value t) = valueOf w (storeWord w value u) := by
  cases w with
  | x | y | z | e | f =>
      simp only [valueOf, storeWord, inUnits, hinches]
  | p => simp only [valueOf, storeWord, hg rfl]
  | g | m | s | n | checksum | unknown => rfl

/-- A G word clears the M word, and an M word the G word. -/
theorem valueOf_seeWord_congr {w w' : Word} {t u : GcodeCommand R}
    (h : valueOf w' t = valueOf w' u) :
    valueOf w' (seeWord w t) = valueOf w' (seeWord w u) := by
  cases w <;> cases w' <;> first | exact h | rfl

theorem seen_seeWord {w w' : Word} {t : GcodeCommand R} (hne : w' ≠ w)
    (h : seen w' (seeWord w t) = true) : seen w' t = true := by
  cases w <;> cases w' <;>
    first | exact h | exact absurd rfl hne | exact absurd h (by simp [seen, seeWord])

/-! ## The shape of a parser -/

/-- What a committed field does to the shape of the parser can be told from the shape.
-/
theorem shape_commitField (c : UInt8) (p : Parser R) :
    shape (commitField c p) = shape (commitField c (shape p)) := by
  have hlast : (shape p).lastField = p.lastField := rfl
  unfold commitField
  rw [hlast]
  cases p.lastField with
  | none => rfl
  | some w =>
      dsimp only
      split
      · cases w <;> rfl
      · rfl

/-- Keeping a character of a filename changes only values that the shape leaves out. -/
theorem shape_capture (c : UInt8) (p : Parser R) :
    shape { p with nextTarget := captureString c p.nextTarget } =
      shape { shape p with nextTarget := captureString c (shape p).nextTarget } := by
  unfold captureString
  rw [show (shape p).nextTarget.gettingString = p.nextTarget.gettingString from
    rfl, show (shape p).nextTarget.chpos = p.nextTarget.chpos from rfl]
  split
  · split
    · rfl
    · split <;> rfl
  · rfl

/-- What a scanned character does to the shape can be told from the shape. -/
theorem shape_scanChar (c : UInt8) (p : Parser R) :
    shape (scanChar c p) = shape (scanChar c (shape p)) := by
  unfold scanChar
  split
  · next w _ => cases w <;> rfl
  · split
    · rfl
    · split
      · rfl
      · split
        · rfl
        · split
          · rfl
          · split
            · show shape (if p.exponent = 0 then _ else _) =
                shape (if p.exponent = 0 then _ else _)
              split <;> rfl
            · rfl

/-- What a character does to the shape can be told from the shape, in comments and
outside. -/
theorem shape_processChar (c : UInt8) (p : Parser R) :
    shape (processChar c p) = shape (processChar c (shape p)) := by
  unfold processChar
  show shape (if !p.nextTarget.seenSemiComment && !p.nextTarget.seenParensComment &&
      !p.nextTarget.gettingString then _ else
      if p.nextTarget.seenParensComment = true ∧ c = 41 then _ else _) =
    shape (if !p.nextTarget.seenSemiComment && !p.nextTarget.seenParensComment &&
      !p.nextTarget.gettingString then _ else
      if p.nextTarget.seenParensComment = true ∧ c = 41 then _ else _)
  split
  · exact shape_scanChar c p
  · split <;> rfl

/-- The checksum belongs to the shape: which character comes and whether a `*` was seen
decide on it. -/
theorem shape_updateChecksum (c : UInt8) (p : Parser R) :
    shape (updateChecksum c p) = shape (updateChecksum c (shape p)) := by
  unfold updateChecksum
  show shape (if !p.nextTarget.seenChecksum then _ else _) =
    shape (if !p.nextTarget.seenChecksum then _ else _)
  split <;> rfl

/-- What the parser does with a character does not depend on the numbers. -/
theorem shape_gcodeParseChar {p q : Parser R} (h : shape p = shape q)
    (c : UInt8) : shape (gcodeParseChar p c) = shape (gcodeParseChar q c) := by
  have hstage : ∀ {f : Parser R → Parser R}, (∀ p, shape (f p) = shape (f (shape p))) →
      ∀ {p q : Parser R}, shape p = shape q → shape (f p) = shape (f q) := by
    intro f hf p q hpq
    rw [hf p, hf q, hpq]
  have hcommit := hstage (shape_commitField (uppercase c)) h
  have hcapture := hstage (shape_capture (uppercase c)) hcommit
  have hprocess := hstage (shape_processChar (uppercase c)) hcapture
  exact hstage (shape_updateChecksum c) hprocess

/-! ## Two parsers on one line -/

/-- The words, and the file name, are as they were. -/
structure SameWords (p p' : Parser R) : Prop where
  lastField : p'.lastField = p.lastField
  value : ∀ w, valueOf w p'.nextTarget = valueOf w p.nextTarget
  seen : ∀ w, seen w p'.nextTarget = seen w p.nextTarget
  filename : p'.nextTarget.filename = p.nextTarget.filename
  chpos : p'.nextTarget.chpos = p.nextTarget.chpos

/-- Two parsers on one line.  They agree on the words of the line, as soon as the
number has been stored, and on those that are needed anyway; the file names are
the same once the line has given one. -/
structure Alike (need : Word → Prop) (named : Prop) (p q : Parser R) : Prop where
  sameShape : shape p = shape q
  words : ∀ w, need w ∨ seen w p.nextTarget = true →
    p.lastField = some w ∨ valueOf w p.nextTarget = valueOf w q.nextTarget
  name : p.nextTarget.filename = q.nextTarget.filename ∨
    p.nextTarget.chpos = 0 ∧
      (named → filenameOf p.nextTarget = filenameOf q.nextTarget)

variable {need : Word → Prop} {named : Prop} {p q p' q' : Parser R}

theorem SameWords.filenameOf (h : SameWords p p') :
    filenameOf p'.nextTarget = filenameOf p.nextTarget := by
  rw [GcodeProcess.filenameOf, h.filename]
  rfl

/-- Parsers of one shape stay alike when each keeps its words. -/
theorem Alike.keep (h : Alike need named p q) (hshape : shape p' = shape q')
    (hp : SameWords p p') (hq : SameWords q q') : Alike need named p' q' where
  sameShape := hshape
  words w hw := by
    rw [hp.seen] at hw
    rw [hp.lastField, hp.value, hq.value]
    exact h.words w hw
  name := by
    rw [hp.filename, hq.filename, hp.chpos, hp.filenameOf, hq.filenameOf]
    exact h.name

/-- What can be read off the shape is the same. -/
theorem Alike.part (h : Alike need named p q) {α : Type} (f : Parser R → α)
    (hf : ∀ p, f (shape p) = f p) : f p = f q := by
  rw [← hf p, ← hf q, h.sameShape]

/-- Committing the open field keeps parsers alike: they store the same number or none.
-/
theorem Alike.commit (hg : need .g) (h : Alike need named p q) (c : UInt8) :
    Alike need named (commitField c p) (commitField c q) := by
  have hshape : shape (commitField c p) =
      shape (commitField c q) := by
    rw [shape_commitField c p, shape_commitField c q, h.sameShape]
  have hlast : p.lastField = q.lastField := h.part Parser.lastField fun _ => rfl
  cases hp : p.lastField with
  | none =>
      rw [commitField_none hp, commitField_none (hlast ▸ hp)]
      exact h
  | some w =>
      by_cases hend : isFieldEnd c = true
      · have hq : q.lastField = some w := hlast ▸ hp
        have hsign := h.part Parser.sign fun _ => rfl
        have hvalue := h.part Parser.value fun _ => rfl
        have hinches := h.part (·.nextTarget.optionInches) fun _ => rfl
        have hother : ∀ w', w' ≠ w → need w' ∨ seen w' p.nextTarget = true →
            valueOf w' p.nextTarget = valueOf w' q.nextTarget := by
          intro w' hne hw
          refine (h.words w' hw).resolve_left fun hlast => hne ?_
          exact Option.some.inj (hlast.symm.trans hp)
        have hcommit : ∀ r : Parser R, r.lastField = some w →
            commitField c r =
              ⟨storeWord w (if r.sign then -r.value else r.value) r.nextTarget,
                none, false, 0, 0⟩ := by
          intro r hr
          rw [commitField, hr]
          dsimp only
          rw [if_pos hend]
        rw [hcommit p hp, hcommit q hq] at hshape ⊢
        refine ⟨hshape, fun w' hw => .inr ?_, ?_⟩
        · rw [storeWord_seen] at hw
          dsimp only
          rw [hsign, hvalue]
          by_cases hne : w' = w
          · rw [hne]
            refine valueOf_storeWord_self hinches (fun hwp => ?_) _
            have hgs := hother .g (by rw [hwp]; decide) (.inl hg)
            exact Sum.inl.inj hgs
          · rw [valueOf_storeWord_ne hne, valueOf_storeWord_ne hne]
            exact hother w' hne hw
        · have hfile : ∀ v (t : GcodeCommand R),
              (storeWord w v t).filename = t.filename ∧
                (storeWord w v t).chpos = t.chpos := by
            intro v t
            cases w <;> exact ⟨rfl, rfl⟩
          dsimp only
          rw [GcodeProcess.filenameOf, GcodeProcess.filenameOf, (hfile _ _).1,
            (hfile _ _).1, (hfile _ _).2]
          exact h.name
      · rw [Bool.not_eq_true] at hend
        rw [commitField_skip p hend, commitField_skip q hend]
        exact h

theorem commitField_lastField {c : UInt8} (h : isFieldEnd c = true)
    (p : Parser R) : (commitField c p).lastField = none := by
  unfold commitField
  split
  · rw [if_pos h]
  · next hnone => exact hnone

/-- The file name. -/
theorem Alike.capture (h : Alike need named p q) (c : UInt8) :
    Alike need named { p with nextTarget := captureString c p.nextTarget }
      { q with nextTarget := captureString c q.nextTarget } := by
  have hshape : shape { p with nextTarget := captureString c p.nextTarget } =
      shape { q with nextTarget := captureString c q.nextTarget } := by
    rw [shape_capture c p, shape_capture c q, h.sameShape]
  have hgetting := h.part (·.nextTarget.gettingString) fun _ => rfl
  have hchpos := h.part (·.nextTarget.chpos) fun _ => rfl
  unfold captureString at hshape ⊢
  rw [← hgetting, ← hchpos] at hshape ⊢
  split
  · next hget =>
    rw [if_pos hget, if_pos hget] at hshape
    split
    · next hstop =>
      rw [if_pos hstop, if_pos hstop] at hshape
      exact h.keep hshape ⟨rfl, fun w => by cases w <;> rfl,
        fun w => by cases w <;> rfl, rfl, rfl⟩
        ⟨rfl, fun w => by cases w <;> rfl, fun w => by cases w <;> rfl, rfl,
          hchpos⟩
    · next hstop =>
      rw [if_neg hstop, if_neg hstop] at hshape
      split
      · next hroom =>
        rw [if_pos hroom, if_pos hroom] at hshape
        refine ⟨hshape, fun w hw => ?_, .inl ?_⟩
        · have hbefore := h.words w (by cases w <;> exact hw)
          cases w <;> exact hbefore
        · -- from the first character on, the names are the same
          show p.nextTarget.filename.take p.nextTarget.chpos ++ [c] =
            q.nextTarget.filename.take p.nextTarget.chpos ++ [c]
          rcases h.name with hname | ⟨hzero, -⟩
          · rw [hname]
          · rw [hzero, List.take_zero, List.take_zero]
      · exact h
  · exact h

/-- A character that starts no word keeps all words as they are. -/
theorem scanChar_sameWords {c : UInt8} (h : wordOf c = none) (p : Parser R) :
    SameWords p (scanChar c p) := by
  unfold scanChar
  rw [h]
  dsimp only
  split
  · exact ⟨rfl, fun w => by cases w <;> rfl, fun w => by cases w <;> rfl, rfl, rfl⟩
  · split
    · exact ⟨rfl, fun w => by cases w <;> rfl, fun w => by cases w <;> rfl, rfl,
        rfl⟩
    · split
      · exact ⟨rfl, fun _ => rfl, fun _ => rfl, rfl, rfl⟩
      · split
        · exact ⟨rfl, fun _ => rfl, fun _ => rfl, rfl, rfl⟩
        · split
          · split
            · exact ⟨rfl, fun _ => rfl, fun _ => rfl, rfl, rfl⟩
            · exact ⟨rfl, fun _ => rfl, fun _ => rfl, rfl, rfl⟩
          · exact ⟨rfl, fun _ => rfl, fun _ => rfl, rfl, rfl⟩

/-- A scanned character keeps parsers alike; a letter does so where no field is open. -/
theorem Alike.scan (h : Alike need named p q) {c : UInt8}
    (hlast : (wordOf c).isSome = true → p.lastField = none) :
    Alike need named (scanChar c p) (scanChar c q) := by
  have hshape : shape (scanChar c p) = shape (scanChar c q) := by
    rw [shape_scanChar c p, shape_scanChar c q, h.sameShape]
  cases hword : wordOf c with
  | none =>
      exact h.keep hshape (scanChar_sameWords hword p) (scanChar_sameWords hword q)
  | some w =>
      have hnone := hlast (by rw [hword]; rfl)
      have hscan : ∀ r : Parser R, scanChar c r =
          { r with lastField := some w, nextTarget := seeWord w r.nextTarget } := by
        intro r
        rw [scanChar, hword]
      have hfile : ∀ t : GcodeCommand R, (seeWord w t).filename = t.filename ∧
          (seeWord w t).chpos = t.chpos := by
        intro t
        cases w <;> exact ⟨rfl, rfl⟩
      rw [hscan p, hscan q] at hshape ⊢
      refine ⟨hshape, fun w' hw => ?_, ?_⟩
      · by_cases hne : w' = w
        · exact .inl (congrArg some hne.symm)
        · refine .inr (valueOf_seeWord_congr ?_)
          have hbefore : need w' ∨ seen w' p.nextTarget = true :=
            hw.imp_right (seen_seeWord hne)
          refine (h.words w' hbefore).resolve_left fun hpending => ?_
          rw [hnone] at hpending
          exact absurd hpending (by simp)
      · dsimp only
        rw [GcodeProcess.filenameOf, GcodeProcess.filenameOf, (hfile _).1,
          (hfile _).1, (hfile _).2]
        exact h.name

/-- A character keeps parsers alike, in comments and outside. -/
theorem Alike.process (h : Alike need named p q) {c : UInt8}
    (hlast : (wordOf c).isSome = true → p.lastField = none) :
    Alike need named (processChar c p) (processChar c q) := by
  have hshape : shape (processChar c p) = shape (processChar c q) := by
    rw [shape_processChar c p, shape_processChar c q, h.sameShape]
  have hsemi := h.part (·.nextTarget.seenSemiComment) fun _ => rfl
  have hparens := h.part (·.nextTarget.seenParensComment) fun _ => rfl
  have hgetting := h.part (·.nextTarget.gettingString) fun _ => rfl
  unfold processChar at hshape ⊢
  dsimp only at hshape hsemi hparens hgetting ⊢
  rw [← hsemi, ← hparens, ← hgetting] at hshape ⊢
  split
  · exact h.scan hlast
  · next hopen =>
    rw [if_neg hopen, if_neg hopen] at hshape
    split
    · next hclose =>
      rw [if_pos hclose, if_pos hclose] at hshape
      exact h.keep hshape ⟨rfl, fun w => by cases w <;> rfl,
        fun w => by cases w <;> rfl, rfl, rfl⟩
        ⟨rfl, fun w => by cases w <;> rfl, fun w => by cases w <;> rfl, rfl, rfl⟩
    · exact h

theorem updateChecksum_sameWords (c : UInt8) (p : Parser R) :
    SameWords p (updateChecksum c p) := by
  unfold updateChecksum
  split
  · exact ⟨rfl, fun w => by cases w <;> rfl, fun w => by cases w <;> rfl, rfl, rfl⟩
  · exact ⟨rfl, fun _ => rfl, fun _ => rfl, rfl, rfl⟩

/-- Parsers that are alike stay alike when both are given the same character. -/
theorem Alike.step (hg : need .g) (h : Alike need named p q) (c : UInt8) :
    Alike need named (gcodeParseChar p c) (gcodeParseChar q c) := by
  have hcapture := (h.commit hg (uppercase c)).capture (uppercase c)
  have hlast : (wordOf (uppercase c)).isSome = true →
      (commitField (uppercase c) p).lastField = none := by
    intro hword
    refine commitField_lastField ?_ p
    rw [isFieldEnd, hword]
    rfl
  have hprocess := hcapture.process hlast
  exact hprocess.keep (shape_gcodeParseChar h.sameShape c)
    (updateChecksum_sameWords c _) (updateChecksum_sameWords c _)

/-- Parsers that are alike stay alike over the same text. -/
theorem Alike.run (hg : need .g) (h : Alike need named p q) (data : List UInt8) :
    Alike need named (parseChars p data) (parseChars q data) := by
  induction data generalizing p q with
  | nil => exact h
  | cons c data ih => exact ih (h.step hg c)

end Parsing

/-! ## What commands depend on -/

/-- Two commands that mean the same: they have the same words, with the same
numbers.  `S` and the file name are read whether or not the line has them, and
so are the axes of a relative line and the `P` of a `G4`. -/
structure SameCommand (c d : GcodeCommand R) : Prop where
  flags : ∀ w, seen w c = seen w d
  words : ∀ w, seen w c = true → valueOf w c = valueOf w d
  relative : c.optionRelative = d.optionRelative
  inches : c.optionInches = d.optionInches
  s : c.s = d.s
  name : filenameOf c = filenameOf d
  axes : c.optionRelative = true → ∀ a, c.target.coord a = d.target.coord a
  dwell : commandOf c = .g .g4 → c.p = d.p

section Commands

variable [Field R] [LinearOrder R] [HasSqrt R] [FloorRing R] [HasDouble R]
  {P : Platform σ}
  {c d : GcodeCommand R}

/-- Lines that say the same name the same command. -/
theorem SameCommand.commandOf (h : SameCommand c d) :
    commandOf c = commandOf d := by
  have hG : c.seenG = d.seenG := h.flags .g
  have hM : c.seenM = d.seenM := h.flags .m
  unfold GcodeProcess.commandOf
  rw [← hG, ← hM]
  split
  · next hseen =>
    have hg : c.g = d.g := Sum.inl.inj (h.words .g hseen)
    rw [hg]
  · split
    · next hseen =>
      have hm : c.m = d.m := Sum.inl.inj (h.words .m hseen)
      rw [hm]
    · rfl

theorem SameCommand.seenAxis (h : SameCommand c d) (a : Axis) :
    seenAxis c a = seenAxis d a := by
  cases a with
  | x => exact h.flags .x
  | y => exact h.flags .y
  | z => exact h.flags .z
  | e => exact h.flags .e

/-- An axis that is given has the same value in both lines. -/
theorem SameCommand.coord (h : SameCommand c d) {a : Axis}
    (ha : GcodeProcess.seenAxis c a = true) :
    c.target.coord a = d.target.coord a := by
  cases a with
  | x => exact Sum.inr.inj (h.words .x ha)
  | y => exact Sum.inr.inj (h.words .y ha)
  | z => exact Sum.inr.inj (h.words .z ha)
  | e => exact Sum.inr.inj (h.words .e ha)

theorem SameCommand.noAxis (h : SameCommand c d) : noAxis c = noAxis d := by
  have hx : c.seenX = d.seenX := h.flags .x
  have hy : c.seenY = d.seenY := h.flags .y
  have hz : c.seenZ = d.seenZ := h.flags .z
  have he : c.seenE = d.seenE := h.flags .e
  rw [GcodeProcess.noAxis, GcodeProcess.noAxis, hx, hy, hz, he]

/-- Setting the given axes only gives the same result for both lines. -/
theorem SameCommand.setAxes (h : SameCommand c d) {α : Type} (value : R → α)
    (old : Axis → α) : setAxes c value old = setAxes d value old := by
  funext a
  unfold GcodeProcess.setAxes
  rw [← h.seenAxis a]
  split
  · next hseen => rw [h.coord hseen]
  · rfl

/-- Both lines have the same target when they start at the same point. -/
theorem SameCommand.nextTargetd (h : SameCommand c d) (start : Target R) :
    nextTargetd c start = nextTargetd d start := by
  have hfeed : (if c.seenF then c.target.feedRate else start.feedRate) =
      if d.seenF then d.target.feedRate else start.feedRate := by
    have hF : c.seenF = d.seenF := h.flags .f
    rw [← hF]
    split
    · next hseen => exact Sum.inr.inj (h.words .f hseen)
    · rfl
  have haxis : ∀ a old, (if GcodeProcess.seenAxis c a then c.target.coord a else old) =
      if GcodeProcess.seenAxis d a then d.target.coord a else old := by
    intro a old
    rw [← h.seenAxis a]
    split
    · next hseen => exact h.coord hseen
    · rfl
  unfold GcodeProcess.nextTargetd
  rw [hfeed, ← h.relative]
  dsimp only
  split
  · next hrel =>
    have hx : c.target.x = d.target.x := h.axes hrel .x
    have hy : c.target.y = d.target.y := h.axes hrel .y
    have hz : c.target.z = d.target.z := h.axes hrel .z
    have he : c.target.e = d.target.e := h.axes hrel .e
    rw [hx, hy, hz, he]
  · have hx : (if c.seenX then c.target.x else start.x) =
        if d.seenX then d.target.x else start.x := haxis .x start.x
    have hy : (if c.seenY then c.target.y else start.y) =
        if d.seenY then d.target.y else start.y := haxis .y start.y
    have hz : (if c.seenZ then c.target.z else start.z) =
        if d.seenZ then d.target.z else start.z := haxis .z start.z
    have he : (if c.seenE then c.target.e else start.e) =
        if d.seenE then d.target.e else start.e := haxis .e start.e
    rw [hx, hy, hz, he]

theorem g1_congr (h : SameCommand c d) : (g1 P c : FwM R σ Unit) = g1 P d := by
  have hE : c.seenE = d.seenE := h.flags .e
  have htarget : ∀ fw : Firmware R σ, g1Target c fw = g1Target d fw := by
    intro fw
    rw [g1Target, g1Target, h.nextTargetd, hE]
  unfold g1
  simp only [htarget]

theorem g28_congr (h : SameCommand c d) :
    (g28 P c : FwM R σ Unit) = g28 P d := by
  have hx : c.seenX = d.seenX := h.flags .x
  have hy : c.seenY = d.seenY := h.flags .y
  have hz : c.seenZ = d.seenZ := h.flags .z
  have he : c.seenE = d.seenE := h.flags .e
  rw [g28, g28, hx, hy, hz, he, h.noAxis]

/-- Every G command does the same for two lines that say the same. -/
theorem processG_congr (h : SameCommand c d) {code : GCode}
    (hcode : commandOf c = .g code) :
    (processG P c code : FwM R σ (Outcome R)) = processG P d code := by
  cases code with
  | g0 =>
      show (do g0 P c; return Outcome.plain) = (do g0 P d; return Outcome.plain)
      have htarget : ∀ fw : Firmware R σ, g0Target c fw = g0Target d fw := by
        intro fw
        rw [g0Target, g0Target, h.nextTargetd]
      unfold g0
      simp only [htarget]
  | g1 =>
      show (do g1 P c; return Outcome.plain) = (do g1 P d; return Outcome.plain)
      rw [g1_congr h]
  | g4 =>
      show (do g4 P c; return Outcome.plain) = (do g4 P d; return Outcome.plain)
      rw [g4, g4, h.dwell hcode]
  | g28 =>
      show (do g28 P c; return Outcome.plain) = (do g28 P d; return Outcome.plain)
      rw [g28_congr h]
  | g30 =>
      show (do g30 P c; return Outcome.plain) = (do g30 P d; return Outcome.plain)
      unfold g30
      simp only [h.nextTargetd, g28_congr h]
  | g92 =>
      show (do g92 P c; return Outcome.plain) = (do g92 P d; return Outcome.plain)
      have hx : c.seenX = d.seenX := h.flags .x
      have hy : c.seenY = d.seenY := h.flags .y
      have hz : c.seenZ = d.seenZ := h.flags .z
      have he : c.seenE = d.seenE := h.flags .e
      have hposition : g92Position c = g92Position d := by
        funext start
        rw [g92Position, g92Position, hx, hy, hz, he, h.noAxis]
      rw [g92, g92, hposition]
  | g20 | g21 | g90 | g91 => rfl

theorem tableEntry_congr (h : SameCommand c d) (sensor : Sensor) :
    (tableEntry sensor c : FwM R σ (Outcome R)) = tableEntry sensor d := by
  have hS : c.seenS = d.seenS := h.flags .s
  have hP : c.seenP = d.seenP := h.flags .p
  unfold tableEntry
  rw [← hS, ← hP, h.s]
  split
  · next hboth =>
    have hp : c.p = d.p :=
      Sum.inl.inj (h.words .p (Bool.and_eq_true_iff.1 hboth).2)
    rw [hp]
  · rfl

/-- A handler that reads S and P, if the line has both. -/
theorem when_both_congr (h : SameCommand c d) {f : Int → Int → FwM R σ Unit} :
    when (c.seenS && c.seenP) (f c.s c.p) =
      when (d.seenS && d.seenP) (f d.s d.p) := by
  have hS : c.seenS = d.seenS := h.flags .s
  have hP : c.seenP = d.seenP := h.flags .p
  rw [← hS, ← hP, h.s]
  cases hboth : (c.seenS && c.seenP) with
  | false => rfl
  | true =>
      have hp : c.p = d.p :=
        Sum.inl.inj (h.words .p (Bool.and_eq_true_iff.1 hboth).2)
      rw [hp]

theorem setAutoPrime_congr (h : SameCommand c d) (unit : Firmware R σ → Int) :
    (setAutoPrime c unit : FwM R σ Unit) = setAutoPrime d unit :=
  when_both_congr h (f := fun s p => modify fun fw =>
    { fw with
      autoPrimeSteps := uint32 (s * unit fw)
      autoReverseSteps := uint32 (p * unit fw) })

theorem m551_congr (h : SameCommand c d) :
    (m551 P c : FwM R σ Unit) = m551 P d :=
  when_both_congr h (f := fun s p => specialMoveE P ((p : R) / 256) (s : R))

theorem m300_congr (h : SameCommand c d) :
    (m300 P c : FwM R σ Unit) = m300 P d := by
  have hS : c.seenS = d.seenS := h.flags .s
  have hP : c.seenP = d.seenP := h.flags .p
  have hduration : (if c.seenP then c.p else 1000) =
      if d.seenP then d.p else 1000 := by
    rw [← hP]
    split
    · next hseen => exact Sum.inl.inj (h.words .p hseen)
    · rfl
  rw [m300, m300, hduration, hS, h.s]

theorem m206_congr (h : SameCommand c d) :
    (m206 c : FwM R σ Unit) = m206 d := by
  have hX : c.seenX = d.seenX := h.flags .x
  have hvalue : ∀ old, (if c.seenX then c.target.x else old) =
      if d.seenX then d.target.x else old := by
    intro old
    rw [← hX]
    split
    · next hseen => exact Sum.inr.inj (h.words .x hseen)
    · rfl
  unfold m206
  simp only [hvalue]

/-- Every M command does the same for two lines that say the same. -/
theorem processM_congr (h : SameCommand c d) (code : MCode) :
    (processM P c code : FwM R σ (Outcome R)) = processM P d code := by
  have hS : c.seenS = d.seenS := h.flags .s
  cases code with
  | m23 =>
      show (do m23 P c; return Outcome.plain) = (do m23 P d; return Outcome.plain)
      rw [m23, m23, h.name]
  | m26 =>
      show (do m26 P c; return Outcome.plain) = (do m26 P d; return Outcome.plain)
      rw [m26, m26, hS, h.s]
  | m28 =>
      show (do m28 P c; return Outcome.plain) = (do m28 P d; return Outcome.plain)
      rw [m28, m28, h.name]
  | m104 =>
      show (do m104 P c; return Outcome.plain) = (do m104 P d; return Outcome.plain)
      rw [m104, m104, h.s]
  | m108 =>
      show (do m108 c; return Outcome.plain) = (do m108 d; return Outcome.plain)
      rw [m108, m108, hS, h.s]
  | m109 =>
      show (do m109 P c; return Outcome.plain) = (do m109 P d; return Outcome.plain)
      rw [m109, m109, h.s]
  | m110 =>
      show pure (Outcome.changed (.nExpected (uint32 (c.s - 1)))) =
        pure (Outcome.changed (.nExpected (uint32 (d.s - 1))))
      rw [h.s]
  | m114 =>
      show (do m114 c; return Outcome.replied) = (do m114 d; return Outcome.replied)
      rw [m114, m114, h.inches]
  | m140 =>
      show (do tempSet (uint16 c.s) .heatedBed0; return Outcome.plain) =
        (do tempSet (uint16 d.s) .heatedBed0; return Outcome.plain)
      rw [h.s]
  | m200 =>
      unfold processM m200
      rw [h.noAxis]
      simp only [h.setAxes]
  | m202 =>
      unfold processM m202
      rw [h.noAxis]
      simp only [h.setAxes]
  | m206 =>
      unfold processM
      rw [h.noAxis, m206_congr h]
  | m227 =>
      show (do setAutoPrime c _; return Outcome.plain) = (do
        setAutoPrime d _
        return Outcome.plain)
      rw [setAutoPrime_congr h]
  | m229 =>
      show (do setAutoPrime c _; return Outcome.plain) = (do
        setAutoPrime d _
        return Outcome.plain)
      rw [setAutoPrime_congr h]
  | m300 =>
      show (do m300 P c; return Outcome.plain) = (do m300 P d; return Outcome.plain)
      rw [m300_congr h]
  | m500 | m501 => exact tableEntry_congr h _
  | m542 =>
      show (do m542 P c; return Outcome.plain) = (do m542 P d; return Outcome.plain)
      unfold m542
      simp only [h.nextTargetd]
  | m551 =>
      show (do m551 P c; return Outcome.plain) = (do m551 P d; return Outcome.plain)
      rw [m551_congr h]
  | m20 | m21 | m22 | m24 | m25 | m27 | m29 | m82 | m101 | m103 | m105 | m106
  | m107 | m111 | m112 | m113 | m115 | m119 | m130 | m131 | m132 | m133 | m134
  | m141 | m142 | m190 | m191 | m228 | m543 | m600 => rfl

/-- A command depends on its words, and on little else. -/
theorem processGcodeCommand_congr (h : SameCommand c d) :
    (processGcodeCommand P c : FwM R σ (Change R)) =
      processGcodeCommand P d := by
  have hrun : (runCommand P c : FwM R σ (Outcome R)) = runCommand P d := by
    unfold runCommand
    rw [← h.commandOf]
    split
    · next code heq => exact processG_congr h heq
    · rfl
    · exact processM_congr h _
    · rfl
    · rfl
  rw [processGcodeCommand, processGcodeCommand, hrun]

/-- A stored line depends on its M word alone. -/
theorem writeLine_congr (hflag : c.seenM = d.seenM)
    (hm : c.seenM = true → c.m = d.m) (data : List UInt8) :
    (writeLine P c data : FwM R σ Unit) = writeLine P d data := by
  unfold writeLine
  rw [← hflag]
  cases hseen : c.seenM with
  | false => simp
  | true => rw [hm hseen]

end Commands

end R2C2Firmware.Ports.StaleWords
