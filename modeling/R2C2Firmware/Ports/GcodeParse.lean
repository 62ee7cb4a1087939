import R2C2Firmware.Ports.MotionPlanner

/-!
# Parsing a line

A transcription of `gcode_parse.c` up to the point where a complete line is
acted upon: the global `next_target`, the field under construction, and the
state machine `gcode_parse_char`.

A word is a letter with a number behind it.  The `seen_` flag of a word is set
when its letter arrives; the number is stored only when the next letter, a `*`
or a line end follows.  Both the flags and the numbers live in `next_target`,
which `endOfLine` resets in part: the flags go, most of the numbers stay.

A conversion from `double` to a narrower integer truncates and then reduces to
the width of the type.  Every operation on `double` numbers rounds its result.
-/

namespace R2C2Firmware.Ports.GcodeParse

open R2C2Firmware.Verified.Number
open R2C2Firmware.Ports.MotionPlanner

/-! ## State -/

/-- `GCODE_COMMAND`.  `filename` holds the bytes stored so far; as a C string
it ends at the first zero byte. -/
structure GcodeCommand (R : Type*) where
  seenG : Bool
  seenM : Bool
  seenX : Bool
  seenY : Bool
  seenZ : Bool
  seenE : Bool
  seenF : Bool
  seenS : Bool
  seenP : Bool
  seenN : Bool
  seenChecksum : Bool
  seenSemiComment : Bool
  seenParensComment : Bool
  gettingString : Bool
  optionRelative : Bool
  optionInches : Bool
  g : Int
  m : Int
  target : Target R
  s : Int
  p : Int
  n : Int
  nExpected : Int
  checksumRead : Int
  checksumCalculated : UInt8
  chpos : Nat
  filename : List UInt8

/-- The words the parser knows; any other letter is `unknown`. -/
inductive Word where
  | g | m | x | y | z | e | f | s | p | n | checksum | unknown
  deriving DecidableEq, Repr

/-- The statics of `gcode_parse.c`: `next_target`, `last_field`, `read_digit`
and `value`. -/
structure Parser (R : Type*) where
  nextTarget : GcodeCommand R
  lastField : Option Word
  sign : Bool
  exponent : Nat
  value : R

/-! ## Characters -/

/-- The word a character starts, if it starts one. -/
def wordOf (c : UInt8) : Option Word :=
  if c = 71 then some .g
  else if c = 77 then some .m
  else if c = 88 then some .x
  else if c = 89 then some .y
  else if c = 90 then some .z
  else if c = 69 then some .e
  else if c = 70 then some .f
  else if c = 83 then some .s
  else if c = 80 then some .p
  else if c = 78 then some .n
  else if c = 42 then some .checksum
  else if 65 ≤ c ∧ c ≤ 90 then some .unknown
  else none

/-- `c &= ~32` for a lower-case letter. -/
def uppercase (c : UInt8) : UInt8 :=
  if 97 ≤ c ∧ c ≤ 122 then c &&& ~~~32 else c

/-- LF or CR. -/
def isLineEnd (c : UInt8) : Bool := c == 10 || c == 13

/-- A character that ends the field before it. -/
def isFieldEnd (c : UInt8) : Bool := (wordOf c).isSome || isLineEnd c

variable {R : Type*} [Field R] [LinearOrder R] [FloorRing R] [HasDouble R]

/-- `power` -/
def power (x : R) : Nat → R
  | 0 => 1
  | exp + 1 => toDouble (power x exp * x)

/-- `inch_to_mm` -/
def inchToMm (inches : R) : R := toDouble (inches * toDouble (254 / 10))

/-- A length word in the current units. -/
def inUnits (t : GcodeCommand R) (value : R) : R :=
  if t.optionInches then inchToMm value else value

/-- Store the number of a word in `next_target`. -/
def storeWord (w : Word) (value : R) (t : GcodeCommand R) : GcodeCommand R :=
  match w with
  | .g => { t with g := uint8 (truncate value) }
  | .m =>
      let m := uint16 (truncate value)
      -- a file name follows
      { t with
        m
        gettingString :=
          if m = 23 ∨ m = 28 then true else t.gettingString }
  | .x => { t with target := { t.target with x := inUnits t value } }
  | .y => { t with target := { t.target with y := inUnits t value } }
  | .z => { t with target := { t.target with z := inUnits t value } }
  | .e => { t with target := { t.target with e := inUnits t value } }
  | .f => { t with target := { t.target with feedRate := inUnits t value } }
  | .s => { t with s := int16 (truncate value) }
  | .p =>
      -- dwell times are given in seconds
      { t with
        p := uint16 (truncate (if t.g = 4 then toDouble (value * 1000) else value)) }
  | .n => { t with n := uint32 (truncate value) }
  | .checksum => { t with checksumRead := uint8 (truncate value) }
  | .unknown => t

/-- Process the previous field, if the character ends it. -/
def commitField (c : UInt8) (p : Parser R) : Parser R :=
  match p.lastField with
  | some w =>
      if isFieldEnd c then
        let value := if p.sign then -p.value else p.value
        { nextTarget := storeWord w value p.nextTarget
          lastField := none
          sign := false
          exponent := 0
          value := 0 }
      else p
  | none => p

/-- Take the character into the file name, or end the file name. -/
def captureString (c : UInt8) (t : GcodeCommand R) : GcodeCommand R :=
  if t.gettingString then
    if c = 10 ∨ c = 13 ∨ c = 32 ∨ c = 42 then { t with gettingString := false }
    else if t.chpos < 120 then
      { t with
        filename := t.filename.take t.chpos ++ [c]
        chpos := t.chpos + 1 }
    else t
  else t

/-- Set the flag of a word.  G and M exclude each other. -/
def seeWord (w : Word) (t : GcodeCommand R) : GcodeCommand R :=
  match w with
  | .g => { t with seenG := true, seenM := false, m := 0 }
  | .m => { t with seenM := true, seenG := false, g := 0 }
  | .x => { t with seenX := true }
  | .y => { t with seenY := true }
  | .z => { t with seenZ := true }
  | .e => { t with seenE := true }
  | .f => { t with seenF := true }
  | .s => { t with seenS := true }
  | .p => { t with seenP := true }
  | .n => { t with seenN := true }
  | .checksum => { t with seenChecksum := true }
  | .unknown => t

/-- A character outside comments and file names. -/
def scanChar (c : UInt8) (p : Parser R) : Parser R :=
  match wordOf c with
  | some w =>
      { p with lastField := some w, nextTarget := seeWord w p.nextTarget }
  | none =>
      if c = 59 ∨ c = 94 then
        { p with nextTarget := { p.nextTarget with seenSemiComment := true } }
      else if c = 40 then
        { p with nextTarget := { p.nextTarget with seenParensComment := true } }
      else if c = 45 then { p with sign := true, exponent := 0 }
      else if c = 46 then
        { p with exponent := if p.exponent = 0 then 1 else p.exponent }
      else if 48 ≤ c ∧ c ≤ 57 then
        let d : R := ((c.toNat - 48 : Nat) : R)
        if p.exponent = 0 then
          { p with value := toDouble (toDouble (p.value * 10) + d) }
        else
          { p with
            value := toDouble (p.value + toDouble (d / power 10 p.exponent))
            exponent := p.exponent + 1 }
      else p

/-- Skip comments and file names. -/
def processChar (c : UInt8) (p : Parser R) : Parser R :=
  let t := p.nextTarget
  if !t.seenSemiComment && !t.seenParensComment && !t.gettingString then
    scanChar c p
  else if t.seenParensComment ∧ c = 41 then
    { p with nextTarget := { t with seenParensComment := false } }
  else p

/-- Fold a character into the checksum, up to the `*`. -/
def updateChecksum (c : UInt8) (p : Parser R) : Parser R :=
  if !p.nextTarget.seenChecksum then
    { p with
      nextTarget :=
        { p.nextTarget with
          checksumCalculated := p.nextTarget.checksumCalculated ^^^ c } }
  else p

/-- `gcode_parse_char` -/
def gcodeParseChar (p : Parser R) (saveCh : UInt8) : Parser R :=
  let c := uppercase saveCh
  let p := commitField c p
  let p := { p with nextTarget := captureString c p.nextTarget }
  updateChecksum saveCh (processChar c p)

/-- All characters of a line. -/
def parseChars (p : Parser R) (line : List UInt8) : Parser R :=
  line.foldl gcodeParseChar p

/-! ## Between lines -/

/-- The target after a line: a relative one starts again from zero. -/
def resetTarget (t : GcodeCommand R) : Target R :=
  if t.optionRelative then { t.target with x := 0, y := 0, z := 0, e := 0 }
  else t.target

/-- The reset at the end of `gcode_parse_line`.  `getting_string`, `M`, `S`,
`P`, `N`, the file name and an absolute target stay. -/
def endOfLine (p : Parser R) : Parser R where
  nextTarget :=
    { p.nextTarget with
      seenX := false
      seenY := false
      seenZ := false
      seenE := false
      seenF := false
      seenS := false
      seenP := false
      seenN := false
      seenM := false
      seenChecksum := false
      seenSemiComment := false
      seenParensComment := false
      checksumRead := 0
      checksumCalculated := 0
      chpos := 0
      seenG := false
      g := 0
      target := resetTarget p.nextTarget }
  lastField := none
  sign := false
  exponent := 0
  value := 0

/-- The zeroed statics. -/
def Parser.zero : Parser R where
  nextTarget :=
    { seenG := false
      seenM := false
      seenX := false
      seenY := false
      seenZ := false
      seenE := false
      seenF := false
      seenS := false
      seenP := false
      seenN := false
      seenChecksum := false
      seenSemiComment := false
      seenParensComment := false
      gettingString := false
      optionRelative := false
      optionInches := false
      g := 0
      m := 0
      target := .zero
      s := 0
      p := 0
      n := 0
      nExpected := 0
      checksumRead := 0
      checksumCalculated := 0
      chpos := 0
      filename := [] }
  lastField := none
  sign := false
  exponent := 0
  value := 0

/-- `gcode_parse_init`, given the homing feed rate of Z. -/
def gcodeParseInit (homingFeedrateZ : R) (t : GcodeCommand R) :
    GcodeCommand R :=
  { t with target := { t.target with feedRate := homingFeedrateZ } }

/-- The checksum test: a line without `*` always passes. -/
def checksumAccepted (t : GcodeCommand R) : Bool :=
  decide ((t.checksumCalculated.toNat : Int) = t.checksumRead)
    || !t.seenChecksum

end R2C2Firmware.Ports.GcodeParse
