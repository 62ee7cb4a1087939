import R2C2Firmware.Ports.Checksum

/-!
# Words with numbers

A word is a letter and a decimal number.  The letter puts away the word before it,
the digits, the sign and the point build the number in three registers, and the
next letter or the line end puts the number away.

`gcode_parse_char` also folds every byte into the checksum, which nothing else of
the parser looks at; `scan` is the rest of it.

## Main results

* `parseChars_scan` — the parser is `scan`, up to the checksum.
* `scanLine_number` — the registers behind a number.
* `AtWord.word`, `parseChars_words` — words are stored one after the other.
-/

set_option linter.unusedSectionVars false

namespace R2C2Firmware.Ports.NumberWords

open R2C2Firmware.Verified.Number
open R2C2Firmware.Ports.Config
open R2C2Firmware.Ports.Sermsg
open R2C2Firmware.Ports.GcodeParse
open R2C2Firmware.Ports.Checksum

variable {R : Type} [Field R] [LinearOrder R] [FloorRing R]

section Words

variable [HasDouble R]

/-! ## Without the checksum -/

/-- The parser with another checksum. -/
def setSum (k : UInt8) (p : Parser R) : Parser R :=
  { p with nextTarget := { p.nextTarget with checksumCalculated := k } }

/-- `gcode_parse_char` without the checksum. -/
def scan (p : Parser R) (saveCh : UInt8) : Parser R :=
  let c := uppercase saveCh
  let p := commitField c p
  processChar c { p with nextTarget := captureString c p.nextTarget }

/-- The characters of a line, without the checksum. -/
def scanLine (p : Parser R) (line : List UInt8) : Parser R :=
  line.foldl scan p

theorem scanLine_append (p : Parser R) (u v : List UInt8) :
    scanLine p (u ++ v) = scanLine (scanLine p u) v :=
  List.foldl_append

theorem scanLine_cons (p : Parser R) (c : UInt8) (u : List UInt8) :
    scanLine p (c :: u) = scanLine (scan p c) u :=
  rfl

theorem gcodeParseChar_scan (p : Parser R) (c : UInt8) :
    ∃ k, gcodeParseChar p c = setSum k (scan p c) :=
  updateChecksum_eq c (scan p c)

theorem storeWord_setSum (k : UInt8) (w : Word) (value : R) (t : GcodeCommand R) :
    storeWord w value { t with checksumCalculated := k } =
      { storeWord w value t with checksumCalculated := k } := by
  cases w <;> rfl

theorem commitField_setSum (k : UInt8) (c : UInt8) (p : Parser R) :
    commitField c (setSum k p) = setSum k (commitField c p) := by
  obtain ⟨t, field, sign, exponent, value⟩ := p
  cases field with
  | none => rfl
  | some w =>
      unfold commitField setSum
      dsimp only
      split
      · rw [storeWord_setSum]
      · rfl

theorem captureString_setSum (k : UInt8) (c : UInt8) (t : GcodeCommand R) :
    captureString c { t with checksumCalculated := k } =
      { captureString c t with checksumCalculated := k } := by
  unfold captureString
  dsimp only
  split
  · split
    · rfl
    · split <;> rfl
  · rfl

theorem scanChar_setSum (k : UInt8) (c : UInt8) (p : Parser R) :
    scanChar c (setSum k p) = setSum k (scanChar c p) := by
  unfold scanChar setSum
  cases wordOf c with
  | some w => cases w <;> rfl
  | none =>
      dsimp only
      split_ifs <;> rfl

theorem scan_setSum (k : UInt8) (p : Parser R) (c : UInt8) :
    scan (setSum k p) c = setSum k (scan p c) := by
  unfold scan
  dsimp only
  rw [commitField_setSum]
  generalize commitField (uppercase c) p = q
  have hcapture : ({ setSum k q with
      nextTarget := captureString (uppercase c) (setSum k q).nextTarget } : Parser R) =
      setSum k { q with nextTarget := captureString (uppercase c) q.nextTarget } := by
    unfold setSum
    dsimp only
    rw [captureString_setSum]
  rw [hcapture]
  generalize ({ q with nextTarget := captureString (uppercase c) q.nextTarget } :
    Parser R) = r
  unfold processChar
  dsimp only
  rw [scanChar_setSum]
  change (if !r.nextTarget.seenSemiComment && !r.nextTarget.seenParensComment &&
      !r.nextTarget.gettingString then _ else if r.nextTarget.seenParensComment = true ∧
        uppercase c = 41 then _ else _) = _
  split_ifs <;> rfl

theorem setSum_setSum (k l : UInt8) (p : Parser R) :
    setSum k (setSum l p) = setSum k p := rfl

/-- The parser, up to the checksum. -/
theorem parseChars_scan (p : Parser R) (u : List UInt8) :
    ∃ k, parseChars p u = setSum k (scanLine p u) := by
  induction u using List.reverseRecOn with
  | nil => exact ⟨p.nextTarget.checksumCalculated, rfl⟩
  | append_singleton u c ih =>
      obtain ⟨k, hk⟩ := ih
      obtain ⟨l, hl⟩ := gcodeParseChar_scan (parseChars p u) c
      refine ⟨l, ?_⟩
      rw [parseChars_append, scanLine_append]
      show gcodeParseChar (parseChars p u) c = setSum l (scan (scanLine p u) c)
      rw [hl, hk, scan_setSum, setSum_setSum]

/-! ## Words -/

/-- Outside comments and file names. -/
structure Plain (t : GcodeCommand R) : Prop where
  semi : t.seenSemiComment = false
  parens : t.seenParensComment = false
  name : t.gettingString = false

/-- The command when the word under construction has been put away. -/
def committed (p : Parser R) : GcodeCommand R :=
  match p.lastField with
  | some w => storeWord w (if p.sign then -p.value else p.value) p.nextTarget
  | none => p.nextTarget

theorem commitField_end (p : Parser R) {c : UInt8} (h : isFieldEnd c = true) :
    commitField c p =
      { nextTarget := committed p
        lastField := none
        sign := (stray p).1
        exponent := (stray p).2.1
        value := (stray p).2.2 } := by
  obtain ⟨t, field, sign, exponent, value⟩ := p
  cases field with
  | none => rfl
  | some w =>
      unfold commitField
      dsimp only
      rw [if_pos h]
      rfl

theorem captureString_plain {t : GcodeCommand R} (h : t.gettingString = false)
    (c : UInt8) : captureString c t = t := by
  rw [captureString, h]
  rfl

theorem processChar_plain {p : Parser R} (h : Plain p.nextTarget) (c : UInt8) :
    processChar c p = scanChar c p := by
  rw [processChar, if_pos (by simp [h.semi, h.parens, h.name])]

/-- A letter puts the word before it away and starts another. -/
theorem scan_letter {p : Parser R} (h : Plain (committed p)) {c : UInt8} {w : Word}
    (hw : wordOf (uppercase c) = some w) :
    scan p c =
      { nextTarget := seeWord w (committed p)
        lastField := some w
        sign := (stray p).1
        exponent := (stray p).2.1
        value := (stray p).2.2 } := by
  have hend : isFieldEnd (uppercase c) = true := by
    rw [isFieldEnd, hw]
    rfl
  unfold scan
  dsimp only
  rw [commitField_end p hend, captureString_plain h.name, processChar_plain h, scanChar,
    hw]

/-- The line end puts the last word away. -/
theorem scan_lineEnd {p : Parser R} (h : Plain (committed p)) {c : UInt8}
    (hc : isLineEnd c = true) :
    scan p c =
      { nextTarget := committed p
        lastField := none
        sign := (stray p).1
        exponent := (stray p).2.1
        value := (stray p).2.2 } := by
  have hcases : c = 10 ∨ c = 13 := by simpa [isLineEnd] using hc
  have hupper : uppercase c = c := by rcases hcases with rfl | rfl <;> rfl
  have hend : isFieldEnd c = true := by rw [isFieldEnd, hc, Bool.or_true]
  unfold scan
  dsimp only
  rw [hupper, commitField_end p hend, captureString_plain h.name, processChar_plain h]
  rcases hcases with rfl | rfl <;> rfl

/-- A character inside a word does not put the word away. -/
theorem scan_inside {p : Parser R} (h : Plain p.nextTarget) {c : UInt8}
    (hc : isFieldEnd (uppercase c) = false) : scan p c = scanChar (uppercase c) p := by
  unfold scan
  dsimp only
  rw [commitField_skip p hc, captureString_plain h.name]
  exact processChar_plain h _

theorem scan_digit {p : Parser R} (h : Plain p.nextTarget) {c : UInt8} (hc : IsDigit c) :
    scan p c =
      { p with
        exponent := (pushDigit (p.exponent, p.value) (c.toNat - 48)).1
        value := (pushDigit (p.exponent, p.value) (c.toNat - 48)).2 } := by
  obtain ⟨hupper, -, hend, -⟩ := digit_cases hc
  rw [scan_inside h (by rw [hupper]; exact hend), hupper, scanChar_digit hc]

theorem scan_minus {p : Parser R} (h : Plain p.nextTarget) :
    scan p 45 = { p with sign := true, exponent := 0 } :=
  scan_inside h rfl

theorem scan_point {p : Parser R} (h : Plain p.nextTarget) :
    scan p 46 = { p with exponent := if p.exponent = 0 then 1 else p.exponent } :=
  scan_inside h rfl

theorem scan_blank {p : Parser R} (h : Plain p.nextTarget) : scan p 32 = p :=
  scan_inside h rfl

theorem scanLine_blanks {p : Parser R} (h : Plain p.nextTarget) (n : Nat) :
    scanLine p (List.replicate n 32) = p := by
  induction n with
  | zero => rfl
  | succ n ih => rw [List.replicate_succ, scanLine_cons, scan_blank h, ih]

theorem scanLine_digits {ds : List UInt8} (hds : ∀ c ∈ ds, IsDigit c) {p : Parser R}
    (h : Plain p.nextTarget) :
    scanLine p ds =
      { p with
        exponent := (pushDigits (p.exponent, p.value) ds).1
        value := (pushDigits (p.exponent, p.value) ds).2 } := by
  induction ds generalizing p with
  | nil => rfl
  | cons c ds ih =>
      rw [scanLine_cons, scan_digit h (hds c List.mem_cons_self)]
      exact ih (fun d hd => hds d (List.mem_cons_of_mem _ hd)) h

/-! ## Numbers -/

/-- A decimal number: a sign, the digits in front of the point, and the point with
the digits behind it, if there is one. -/
structure Decimal where
  neg : Bool
  whole : List UInt8
  frac : Option (List UInt8)
  whole_digits : ∀ c ∈ whole, IsDigit c
  frac_digits : ∀ b ∈ frac, ∀ c ∈ b, IsDigit c
  nonempty : whole ≠ [] ∨ ∃ b ∈ frac, b ≠ []

/-- A number without a point has no digits behind it. -/
theorem no_frac_digits :
    ∀ b ∈ (none : Option (List UInt8)), ∀ c ∈ b, IsDigit c := by
  simp

/-- The whole part of a number below one may be written as a zero. -/
theorem zero_digits : ∀ c ∈ [(48 : UInt8)], IsDigit c := by decide +kernel

namespace Decimal

/-- The text of a number. -/
def text (d : Decimal) : List UInt8 :=
  (if d.neg then [45] else []) ++ (d.whole ++
    match d.frac with
    | none => []
    | some b => 46 :: b)

/-- The number without its sign. -/
def magnitude (R : Type) [Field R] (d : Decimal) : R :=
  ofDigits d.whole + match d.frac with
    | none => 0
    | some b => ofDigits b / 10 ^ b.length

/-- The number. -/
def number (R : Type) [Field R] (d : Decimal) : R :=
  if d.neg then -d.magnitude R else d.magnitude R

/-- The register `value` behind the digits, if it was clear before them. -/
def register (R : Type) [Field R] [HasDouble R] (d : Decimal) : R :=
  match d.frac with
  | none => (pushDigits (0, 0) d.whole).2
  | some b => (pushDigits (1, (pushDigits (0, 0) d.whole).2) b).2

/-- The number as it is read, with every step rounded. -/
def read (R : Type) [Field R] [HasDouble R] (d : Decimal) : R :=
  if d.neg then -d.register R else d.register R

end Decimal

section Numbers

/-- The registers behind a number, if they were clear before it. -/
theorem scanLine_number {p : Parser R} (h : Plain p.nextTarget) (hsign : p.sign = false)
    (hexponent : p.exponent = 0) (hvalue : p.value = 0) (d : Decimal) :
    ∃ e, scanLine p d.text =
      { p with sign := d.neg, exponent := e, value := d.register R } := by
  -- the sign
  have hminus : scanLine p (if d.neg then [45] else []) = { p with sign := d.neg } := by
    cases d.neg with
    | true =>
        show scan p 45 = _
        rw [scan_minus h, hexponent]
    | false =>
        show p = _
        rw [← hsign]
  -- the digits in front of the point
  have hwhole : scanLine { p with sign := d.neg } d.whole =
      { p with sign := d.neg, value := (pushDigits (0, 0) d.whole).2 } := by
    have hdigits := scanLine_digits d.whole_digits (p := { p with sign := d.neg }) h
    rw [hdigits]
    dsimp only
    rw [hexponent, hvalue, pushDigits_whole]
  rw [Decimal.text, scanLine_append, scanLine_append, hminus, hwhole]
  unfold Decimal.register
  cases hfrac : d.frac with
  | none => exact ⟨p.exponent, rfl⟩
  | some b =>
      -- the point, and the digits behind it
      refine ⟨(pushDigits (1, (pushDigits (0, (0 : R)) d.whole).2) b).1, ?_⟩
      dsimp only
      rw [scanLine_cons, scan_point (p := { p with sign := d.neg, value := _ }) h]
      dsimp only
      rw [if_pos hexponent]
      exact scanLine_digits (d.frac_digits b hfrac)
        (p := { p with
          sign := d.neg, exponent := 1, value := (pushDigits (0, 0) d.whole).2 }) h

/-- Where a word can start: outside comments and file names, also when the word
before has been put away, and with nothing left in the registers. -/
structure AtWord (p : Parser R) : Prop where
  plain : Plain p.nextTarget
  committed : Plain (committed p)
  clear : stray p = (false, 0, 0)

/-- A letter and a number. -/
structure NumberWord where
  letter : UInt8
  word : Word
  is_word : wordOf (uppercase letter) = some word
  number : Decimal

/-- The text of a word. -/
def NumberWord.text (e : NumberWord) : List UInt8 := e.letter :: e.number.text

/-- What a word makes of the command. -/
def NumberWord.store (t : GcodeCommand R) (e : NumberWord) : GcodeCommand R :=
  storeWord e.word (e.number.read R) (seeWord e.word t)

/-- An M word behind which the name of a file is read. -/
def NumberWord.Names (R : Type) [Field R] [LinearOrder R] [FloorRing R] [HasDouble R]
    (e : NumberWord) : Prop :=
  e.word = .m ∧ (uint16 (truncate (e.number.read R)) = 23 ∨
    uint16 (truncate (e.number.read R)) = 28)

instance (R : Type) [Field R] [LinearOrder R] [FloorRing R] [HasDouble R]
    (e : NumberWord) : Decidable (e.Names R) := inferInstanceAs (Decidable (_ ∧ _))

theorem Plain.seeWord {t : GcodeCommand R} (h : Plain t) (w : Word) :
    Plain (seeWord w t) := by
  obtain ⟨hsemi, hparens, hname⟩ := h
  cases w <;> exact ⟨hsemi, hparens, hname⟩

theorem Plain.store {t : GcodeCommand R} (h : Plain t) {e : NumberWord}
    (he : ¬e.Names R) : Plain (e.store t) := by
  obtain ⟨hsemi, hparens, hname⟩ := h.seeWord e.word
  unfold NumberWord.store
  unfold NumberWord.Names at he
  generalize GcodeParse.seeWord e.word t = u at hsemi hparens hname ⊢
  cases hw : e.word with
  | m =>
      refine ⟨hsemi, hparens, ?_⟩
      show (if _ then true else u.gettingString) = false
      rw [if_neg fun h => he ⟨hw, h⟩]
      exact hname
  | g | x | y | z | e | f | s | p | n | checksum | unknown =>
      exact ⟨hsemi, hparens, hname⟩

/-- Where a word can start, its text leaves the letter and the number in the registers
of the parser. -/
theorem AtWord.read {p : Parser R} (h : AtWord p) (e : NumberWord) :
    ∃ k, scanLine p e.text =
      { nextTarget := GcodeParse.seeWord e.word (NumberWords.committed p)
        lastField := some e.word
        sign := e.number.neg
        exponent := k
        value := e.number.register R } := by
  have hletter := scan_letter h.committed e.is_word
  rw [h.clear] at hletter
  have hplain := h.committed.seeWord e.word
  obtain ⟨k, hk⟩ := scanLine_number (p := scan p e.letter) (by rw [hletter]; exact hplain)
    (by rw [hletter]) (by rw [hletter]) (by rw [hletter]) e.number
  refine ⟨k, ?_⟩
  rw [NumberWord.text, scanLine_cons, hk, hletter]

/-- Behind a word that opens no file name another can start. -/
theorem AtWord.word {p : Parser R} (h : AtWord p) {e : NumberWord} (he : ¬e.Names R) :
    AtWord (scanLine p e.text) ∧
      NumberWords.committed (scanLine p e.text) =
        e.store (NumberWords.committed p) ∧
      (scanLine p e.text).lastField = some e.word := by
  obtain ⟨k, hk⟩ := h.read e
  rw [hk]
  have hstore : NumberWords.committed
      ({ nextTarget := seeWord e.word (NumberWords.committed p)
         lastField := some e.word
         sign := e.number.neg
         exponent := k
         value := e.number.register R } : Parser R) =
        e.store (NumberWords.committed p) := by
    unfold NumberWords.committed NumberWord.store Decimal.read
    rfl
  exact ⟨⟨h.committed.seeWord e.word, by rw [hstore]; exact h.committed.store he, rfl⟩,
    hstore, rfl⟩

/-- Words with blanks in front of each. -/
def wordsText (l : List (Nat × NumberWord)) : List UInt8 :=
  l.flatMap fun x => List.replicate x.1 32 ++ x.2.text

/-- The words of a line are stored one after the other. -/
theorem AtWord.words {l : List (Nat × NumberWord)} (hl : ∀ x ∈ l, ¬x.2.Names R)
    {p : Parser R} (h : AtWord p) :
    AtWord (scanLine p (wordsText l)) ∧
      NumberWords.committed (scanLine p (wordsText l)) =
        (l.map (·.2)).foldl NumberWord.store (NumberWords.committed p) := by
  induction l generalizing p with
  | nil => exact ⟨h, rfl⟩
  | cons x l ih =>
      obtain ⟨hword, hstore, -⟩ := h.word (hl x List.mem_cons_self)
      rw [wordsText, List.flatMap_cons, scanLine_append, scanLine_append,
        scanLine_blanks h.plain]
      obtain ⟨hrest, hfold⟩ := ih (fun y hy => hl y (List.mem_cons_of_mem _ hy)) hword
      refine ⟨hrest, ?_⟩
      rw [hstore] at hfold
      exact hfold

/-- The command of a line of words. -/
theorem parseChars_words {l : List (Nat × NumberWord)} (hl : ∀ x ∈ l, ¬x.2.Names R)
    {p : Parser R} (h : AtWord p) {c : UInt8} (hc : isLineEnd c = true) :
    ∃ k, parseChars p (wordsText l ++ [c]) =
      { nextTarget :=
          { (l.map (·.2)).foldl NumberWord.store (committed p) with
            checksumCalculated := k }
        lastField := none
        sign := false
        exponent := 0
        value := 0 } := by
  obtain ⟨hend, hfold⟩ := h.words hl
  obtain ⟨k, hk⟩ := parseChars_scan p (wordsText l ++ [c])
  refine ⟨k, ?_⟩
  have hlast : scanLine p (wordsText l ++ [c]) = scan (scanLine p (wordsText l)) c := by
    rw [scanLine_append]
    rfl
  rw [hk, hlast, scan_lineEnd hend.committed hc, hend.clear, hfold]
  rfl

end Numbers

end Words

/-! ## Exact numbers -/

/-- Exact numbers are read as they are written. -/
theorem read_exact [IsStrictOrderedRing R] (d : Decimal) : d.read R = d.number R := by
  have hregister : d.register R = d.magnitude R := by
    unfold Decimal.register Decimal.magnitude
    cases d.frac with
    | none =>
        dsimp only
        rw [pushDigits_eq, if_pos rfl]
        dsimp only
        ring
    | some b =>
        dsimp only
        rw [pushDigits_eq, pushDigits_eq, if_pos rfl, if_neg one_ne_zero, Nat.sub_self,
          Nat.zero_add]
        dsimp only
        ring
  rw [Decimal.read, Decimal.number, hregister]

end R2C2Firmware.Ports.NumberWords
