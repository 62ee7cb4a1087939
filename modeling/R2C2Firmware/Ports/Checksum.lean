import R2C2Firmware.Ports.ParserInvariant

/-!
# What the line checksum detects

A line with a checksum is a body, a `*`, and the decimal text of the XOR of the
bytes of the body.  XOR notices every change of one byte.  The line is judged by
it only if the parser comes to see the `*`, and a byte that is changed into the
start of a comment hides it: the rest of the line is dropped, and what is left
is processed as a line without checksum.  A byte that is changed into a `*` ends
the part that is summed up.  And digits that belong to no word, in front of the
first letter or behind a file name, are not forgotten at the `*`: the digits of
the checksum continue their number.

## Main results

* `gcodeParseChar_marks` — what one character does to the comment state and the
  checksum.
* `accepted_open` — how a body is judged behind which the `*` is seen.
* `corruption_noticed_iff` — when a checked line is processed, and when the
  change of one byte leads to a request to send it again.
* `corruption_unnoticed` — a byte that becomes a semicolon.
-/

set_option linter.unusedSectionVars false

namespace R2C2Firmware.Ports.Checksum

open R2C2Firmware.Verified.Number
open R2C2Firmware.Verified.BusyWait
open R2C2Firmware.Ports.MotionPlanner
open R2C2Firmware.Ports.Sermsg
open R2C2Firmware.Ports.GcodeParse
open R2C2Firmware.Ports.Mendel
open R2C2Firmware.Ports.GcodeProcess
open R2C2Firmware.Ports.MainLoop

variable {R σ : Type} [Field R] [LinearOrder R] [FloorRing R]

section Characters

variable [HasDouble R]

/-! ## The sum -/

/-- The XOR of the bytes. -/
def xorSum (u : List UInt8) : UInt8 := u.foldl (· ^^^ ·) 0

/-- The checksum may be folded from any start: the start is one more term of the sum. -/
theorem foldl_xor (u : List UInt8) (k : UInt8) :
    u.foldl (· ^^^ ·) k = k ^^^ xorSum u := by
  induction u generalizing k with
  | nil => exact UInt8.xor_zero.symm
  | cons c u ih =>
      have hhead : xorSum (c :: u) = c ^^^ xorSum u := by
        rw [xorSum, List.foldl_cons, ih, UInt8.zero_xor]
      rw [List.foldl_cons, ih, hhead, UInt8.xor_assoc]

/-- The checksum of two pieces of text is the exclusive or of their checksums. -/
theorem xorSum_append (u v : List UInt8) :
    xorSum (u ++ v) = xorSum u ^^^ xorSum v := by
  rw [xorSum, List.foldl_append, foldl_xor]
  rfl

theorem xorSum_cons (c : UInt8) (u : List UInt8) :
    xorSum (c :: u) = c ^^^ xorSum u := by
  rw [xorSum, List.foldl_cons, foldl_xor, UInt8.zero_xor]

/-- Exclusive or with a fixed byte loses nothing. -/
theorem xor_left_cancel {a b c : UInt8} (h : a ^^^ b = a ^^^ c) : b = c := by
  have hcancel := congrArg (a ^^^ ·) h
  simpa only [← UInt8.xor_assoc, UInt8.xor_self, UInt8.zero_xor] using hcancel

/-- The sum notices the change of one byte. -/
theorem xorSum_change {a z : List UInt8} {x y : UInt8} (h : x ≠ y) :
    xorSum (a ++ x :: z) ≠ xorSum (a ++ y :: z) := by
  intro heq
  rw [xorSum_append, xorSum_append, xorSum_cons, xorSum_cons] at heq
  have htail := xor_left_cancel heq
  rw [UInt8.xor_comm x, UInt8.xor_comm y] at htail
  exact h (xor_left_cancel htail)

/-- The sum of a part is the sum of the whole when the rest sums to zero. -/
theorem xorSum_eq_left {a z : List UInt8} :
    xorSum a = xorSum (a ++ z) ↔ xorSum z = 0 := by
  rw [xorSum_append]
  constructor
  · intro heq
    have hzero : xorSum a ^^^ 0 = xorSum a ^^^ xorSum z := by
      rw [UInt8.xor_zero]
      exact heq
    exact (xor_left_cancel hzero).symm
  · intro hzero
    rw [hzero, UInt8.xor_zero]

/-! ## One character -/

/-- What decides how a line is judged: whether the `*` was seen, the two comment
flags, and the sum so far. -/
structure Marks where
  seen : Bool
  semi : Bool
  parens : Bool
  sum : UInt8

/-- The marks of `next_target`. -/
def marks (t : GcodeCommand R) : Marks :=
  ⟨t.seenChecksum, t.seenSemiComment, t.seenParensComment,
    t.checksumCalculated⟩

/-- No comment is open. -/
def Marks.isOpen (k : Marks) : Bool := !k.semi && !k.parens

/-- What a character does to the marks.  `naming`: it belongs to a file name. -/
def Marks.next (k : Marks) (naming : Bool) (c : UInt8) : Marks :=
  let scans := k.isOpen && !naming
  let seen := k.seen || scans && c == 42
  { seen
    semi := k.semi || scans && (c == 59 || c == 94)
    parens := if scans then c == 40 else k.parens && c != 41
    sum := if seen then k.sum else k.sum ^^^ c }

/-- The character belongs to a file name. -/
def naming (p : Parser R) (c : UInt8) : Bool :=
  (captureString c (commitField c p).nextTarget).gettingString

/-- Storing a number does not touch the comment flags or the running checksum. -/
theorem storeWord_marks (w : Word) (value : R) (t : GcodeCommand R) :
    marks (storeWord w value t) = marks t := by
  cases w <;> rfl

/-- Committing a field does not touch the comment flags or the running checksum. -/
theorem commitField_marks (c : UInt8) (p : Parser R) :
    marks (commitField c p).nextTarget = marks p.nextTarget := by
  unfold commitField
  split
  · split
    · exact storeWord_marks _ _ _
    · rfl
  · rfl

/-- Keeping a character of a filename does not touch the comment flags or the running
checksum. -/
theorem captureString_marks (c : UInt8) (t : GcodeCommand R) :
    marks (captureString c t) = marks t := by
  unfold captureString
  split_ifs <;> rfl

/-- The one character that starts the word of the checksum. -/
theorem wordOf_checksum (c : UInt8) :
    wordOf c = some .checksum ↔ c = 42 :=
  forall_byte (p := fun c => wordOf c = some .checksum ↔ c = 42)
    (by decide +kernel) c

/-- The signs of comments start no word. -/
theorem wordOf_comment (c : UInt8) (h : c = 59 ∨ c = 94 ∨ c = 40 ∨ c = 41) :
    wordOf c = none ∧ isFieldEnd c = false := by
  rcases h with rfl | rfl | rfl | rfl <;> decide

/-- The signs of comments and of the checksum are not letters. -/
theorem uppercase_eq_iff (c k : UInt8)
    (h : k = 59 ∨ k = 94 ∨ k = 40 ∨ k = 41 ∨ k = 42) :
    uppercase c = k ↔ c = k := by
  have hall : ∀ c : UInt8, (uppercase c = 59 ↔ c = 59) ∧
      (uppercase c = 94 ↔ c = 94) ∧ (uppercase c = 40 ↔ c = 40) ∧
      (uppercase c = 41 ↔ c = 41) ∧ (uppercase c = 42 ↔ c = 42) :=
    forall_byte (by decide +kernel)
  obtain ⟨h59, h94, h40, h41, h42⟩ := hall c
  rcases h with rfl | rfl | rfl | rfl | rfl
  · exact h59
  · exact h94
  · exact h40
  · exact h41
  · exact h42

/-- Of the marks, the letter of a word changes only whether a checksum has been seen. -/
theorem seeWord_marks (w : Word) (t : GcodeCommand R) :
    marks (seeWord w t) =
      { marks t with seen := t.seenChecksum || decide (w = .checksum) } := by
  cases w <;> simp [seeWord, marks]

/-- A character outside comments and file names. -/
theorem scanChar_marks (c : UInt8) (p : Parser R) :
    marks (scanChar c p).nextTarget =
      { marks p.nextTarget with
        seen := p.nextTarget.seenChecksum || c == 42
        semi := p.nextTarget.seenSemiComment || (c == 59 || c == 94)
        parens := p.nextTarget.seenParensComment || c == 40 } := by
  unfold scanChar
  split
  · next w hw =>
    have hsign : ∀ k : UInt8, k = 59 ∨ k = 94 ∨ k = 40 ∨ k = 41 → c ≠ k := by
      rintro k hk rfl
      rw [(wordOf_comment c hk).1] at hw
      exact absurd hw (by simp)
    have hstar : decide (w = .checksum) = (c == 42) := by
      rw [Bool.eq_iff_iff, decide_eq_true_eq, beq_iff_eq, ← wordOf_checksum c,
        hw, Option.some.injEq]
    show marks (seeWord w p.nextTarget) = _
    rw [seeWord_marks, hstar]
    simp [marks, hsign 59, hsign 94, hsign 40]
  · next hw =>
    have hstar : c ≠ 42 := by
      rintro rfl
      exact absurd hw (by decide)
    split_ifs with hsemi hparens
    · have hne : c ≠ 40 := by
        rcases hsemi with rfl | rfl <;> decide
      simp [marks, hstar, hne, hsemi]
    · simp [marks, hparens]
    all_goals
      have hnot := not_or.1 hsemi
      simp [marks, hstar, hparens, hnot.1, hnot.2]

/-- What `gcode_parse_char` does to the marks before the checksum is updated; a `*` or
a comment sign inside a filename is not one. -/
theorem processChar_marks (c : UInt8) (p : Parser R) :
    let k := marks p.nextTarget
    let scans := k.isOpen && !p.nextTarget.gettingString
    marks (processChar c p).nextTarget =
      { seen := k.seen || scans && c == 42
        semi := k.semi || scans && (c == 59 || c == 94)
        parens := if scans then c == 40 else k.parens && c != 41
        sum := k.sum } := by
  intro k scans
  unfold processChar
  dsimp only
  by_cases hscans : scans = true
  · have hopen : (!p.nextTarget.seenSemiComment &&
        !p.nextTarget.seenParensComment &&
        !p.nextTarget.gettingString) = true := hscans
    have hparens : k.parens = false := by
      have hboth := Bool.and_eq_true_iff.1 (Bool.and_eq_true_iff.1 hscans).1
      exact (Bool.not_eq_true' _).mp hboth.2
    have hparens' : p.nextTarget.seenParensComment = false := hparens
    rw [if_pos hopen, scanChar_marks, hscans, hparens']
    simp [k, marks]
  · have hclosed : ¬(!p.nextTarget.seenSemiComment &&
        !p.nextTarget.seenParensComment &&
        !p.nextTarget.gettingString) = true := hscans
    rw [if_neg hclosed, (Bool.not_eq_true _).mp hscans]
    split
    · next hend =>
      simp [k, marks, hend.2]
    · next hend =>
      cases hparens : p.nextTarget.seenParensComment
      · simp [k, marks, hparens]
      · have hne : c ≠ 41 := fun heq => hend ⟨hparens, heq⟩
        simp [k, marks, hparens, hne]

/-- The checksum takes in a character as long as no `*` has been seen, comments
included. -/
theorem updateChecksum_marks (c : UInt8) (p : Parser R) :
    let k := marks p.nextTarget
    marks (updateChecksum c p).nextTarget =
      { k with sum := if k.seen then k.sum else k.sum ^^^ c } := by
  intro k
  unfold updateChecksum
  cases hseen : p.nextTarget.seenChecksum <;> simp [k, marks, hseen]

/-- What one character does to the marks. -/
theorem gcodeParseChar_marks (p : Parser R) (c : UInt8) :
    marks (gcodeParseChar p c).nextTarget =
      (marks p.nextTarget).next (naming p (uppercase c)) c := by
  have hkeep : marks (captureString (uppercase c)
      (commitField (uppercase c) p).nextTarget) = marks p.nextTarget := by
    rw [captureString_marks, commitField_marks]
  have hupper : ∀ k, k = 59 ∨ k = 94 ∨ k = 40 ∨ k = 41 ∨ k = 42 →
      (uppercase c == k) = (c == k) := by
    intro k hk
    rw [Bool.eq_iff_iff, beq_iff_eq, beq_iff_eq, uppercase_eq_iff c k hk]
  unfold gcodeParseChar
  dsimp only
  rw [updateChecksum_marks, processChar_marks]
  dsimp only
  rw [hkeep]
  simp only [Marks.next, naming, bne, hupper, true_or, or_true]
  rfl

/-- A `*` ends a file name. -/
theorem naming_star (p : Parser R) : naming p 42 = false := by
  unfold naming captureString
  split
  · rfl
  · next h => exact (Bool.not_eq_true _).mp h

/-- The signs of comments may stand in a file name. -/
theorem naming_comment (p : Parser R) {c : UInt8}
    (h : c = 59 ∨ c = 94 ∨ c = 40 ∨ c = 41) :
    naming p c = p.nextTarget.gettingString := by
  have hcommit : commitField c p = p := by
    unfold commitField
    rw [(wordOf_comment c h).2]
    cases p.lastField <;> rfl
  have hdelim : ¬(c = 10 ∨ c = 13 ∨ c = 32 ∨ c = 42) := by
    rcases h with rfl | rfl | rfl | rfl <;> decide
  rw [naming, hcommit, captureString, if_neg hdelim]
  cases hstring : p.nextTarget.gettingString with
  | true =>
      rw [if_pos rfl]
      split
      · rfl
      · exact hstring
  | false =>
      rw [if_neg Bool.false_ne_true]
      exact hstring

/-! ## A text -/

/-- Bytes that are only summed up, until the `*` has been seen. -/
def Marks.add (k : Marks) (u : List UInt8) : Marks :=
  { k with sum := if k.seen then k.sum else k.sum ^^^ xorSum u }

theorem Marks.add_nil (k : Marks) : k.add [] = k := by
  have hsum : k.sum ^^^ xorSum [] = k.sum := UInt8.xor_zero
  rw [Marks.add, hsum, ite_self]

/-- Text may be added to the marks in pieces. -/
theorem Marks.add_add (k : Marks) (u v : List UInt8) :
    (k.add u).add v = k.add (u ++ v) := by
  unfold Marks.add
  rw [xorSum_append]
  cases k.seen
  · simp [UInt8.xor_assoc]
  · simp

/-- The character changes no flag, whatever it belongs to. -/
def Marks.Keeps (k : Marks) (c : UInt8) : Prop :=
  ∀ naming, k.next naming c = k.add [c]

theorem Marks.Keeps.add {k : Marks} {c : UInt8} (h : k.Keeps c)
    (u : List UInt8) : (k.add u).Keeps c := by
  intro naming
  have hflags := h naming
  unfold Marks.next Marks.isOpen Marks.add at hflags ⊢
  simp only [Marks.mk.injEq] at hflags ⊢
  obtain ⟨hseen, hsemi, hparens, -⟩ := hflags
  refine ⟨hseen, hsemi, hparens, ?_⟩
  rw [hseen, xorSum_cons]
  split
  · rfl
  · show _ ^^^ _ ^^^ c = _ ^^^ _ ^^^ (c ^^^ 0)
    rw [UInt8.xor_zero]

theorem parseChars_append (p : Parser R) (u v : List UInt8) :
    parseChars p (u ++ v) = parseChars (parseChars p u) v :=
  List.foldl_append

theorem parseChars_cons (p : Parser R) (c : UInt8) (u : List UInt8) :
    parseChars p (c :: u) = parseChars (gcodeParseChar p c) u :=
  rfl

theorem parseChars_nil (p : Parser R) : parseChars p [] = p := rfl

/-- On text that opens no comment and brings no `*`, the parser only adds to its running
checksum. -/
theorem parseChars_marks {p : Parser R} {u : List UInt8}
    (h : ∀ c ∈ u, (marks p.nextTarget).Keeps c) :
    marks (parseChars p u).nextTarget = (marks p.nextTarget).add u := by
  induction u using List.reverseRecOn with
  | nil => exact (Marks.add_nil _).symm
  | append_singleton u c ih =>
      have hprefix := ih fun d hd => h d (List.mem_append_left _ hd)
      have hlast := (h c (by simp)).add u
      rw [parseChars_append, parseChars_cons, parseChars_nil,
        gcodeParseChar_marks, hprefix, hlast, Marks.add_add]

/-- Outside comments: every byte but the four signs. -/
theorem keeps_open {k : Marks} {c : UInt8} (hk : k.isOpen = true)
    (hc : c ≠ 42 ∧ c ≠ 59 ∧ c ≠ 94 ∧ c ≠ 40) : k.Keeps c := by
  obtain ⟨h42, h59, h94, h40⟩ := hc
  intro naming
  have hboth := Bool.and_eq_true_iff.1 hk
  have hsemi : k.semi = false := by simpa using hboth.1
  have hparens : k.parens = false := by simpa using hboth.2
  cases naming <;> cases hseen : k.seen <;>
    simp [Marks.next, Marks.add, Marks.isOpen, hsemi, hparens, hseen, h42, h59,
      h94, h40, xorSum]

/-- Behind a semicolon every byte of the line is left to the checksum alone. -/
theorem keeps_semi {k : Marks} (hsemi : k.semi = true)
    (hparens : k.parens = false) (c : UInt8) : k.Keeps c := by
  intro naming
  cases hseen : k.seen <;>
    simp [Marks.next, Marks.add, Marks.isOpen, hsemi, hparens, hseen, xorSum]

/-- Behind a parenthesis: every byte but the closing one. -/
theorem keeps_parens {k : Marks} (hsemi : k.semi = false)
    (hparens : k.parens = true) {c : UInt8} (hc : c ≠ 41) : k.Keeps c := by
  intro naming
  cases hseen : k.seen <;>
    simp [Marks.next, Marks.add, Marks.isOpen, hsemi, hparens, hseen, xorSum,
      hc]

theorem updateChecksum_eq (c : UInt8) (p : Parser R) :
    ∃ k, updateChecksum c p =
      { p with nextTarget := { p.nextTarget with checksumCalculated := k } } := by
  unfold updateChecksum
  split
  · exact ⟨_, rfl⟩
  · exact ⟨p.nextTarget.checksumCalculated, rfl⟩

/-! ## The number behind the `*` -/

/-- The parser is reading the number of the checksum. -/
structure ReadsSum (p : Parser R) : Prop where
  field : p.lastField = some .checksum
  seen : p.nextTarget.seenChecksum = true
  open_ : (marks p.nextTarget).isOpen = true
  plain : p.nextTarget.gettingString = false

/-- The number under construction that a `*` does not put away: that of a text
without a word. -/
def stray (p : Parser R) : Bool × Nat × R :=
  if p.lastField.isSome then (false, 0, 0) else (p.sign, p.exponent, p.value)

/-- Decimal digits that denote `n`, behind a number under construction. -/
def behind (number : Bool × Nat × R) (digits n : Nat) : R :=
  let (sign, exponent, value) := number
  let v :=
    if exponent = 0 then value * 10 ^ digits + n
    else value + n / 10 ^ (exponent - 1 + digits)
  if sign then -v else v

theorem commitField_none {p : Parser R} (h : p.lastField = none) (c : UInt8) :
    commitField c p = p := by
  rw [commitField, h]

theorem commitField_skip (p : Parser R) {c : UInt8} (h : isFieldEnd c = false) :
    commitField c p = p := by
  unfold commitField
  rw [h]
  split <;> rfl

/-- The marks are open outside both kinds of comment. -/
theorem isOpen_eq {p : Parser R} (h : (marks p.nextTarget).isOpen = true) :
    p.nextTarget.seenSemiComment = false ∧
      p.nextTarget.seenParensComment = false := by
  have hboth := Bool.and_eq_true_iff.1 h
  exact ⟨by simpa [marks] using hboth.1, by simpa [marks] using hboth.2⟩

/-- A `*` outside comments opens the word of the checksum, and is not part of the sum.
-/
theorem parse_star {p : Parser R} (h : (marks p.nextTarget).isOpen = true) :
    let q := gcodeParseChar p 42
    ReadsSum q ∧ (q.sign, q.exponent, q.value) = stray p ∧
      q.nextTarget.checksumCalculated = p.nextTarget.checksumCalculated := by
  intro q
  let p₁ := commitField 42 p
  let p₂ : Parser R :=
    { p₁ with nextTarget := captureString 42 p₁.nextTarget }
  have hmarks : marks p₂.nextTarget = marks p.nextTarget := by
    show marks (captureString 42 (commitField 42 p).nextTarget) = _
    rw [captureString_marks, commitField_marks]
  have hplain : p₂.nextTarget.gettingString = false := naming_star p
  have hnumber : (p₂.sign, p₂.exponent, p₂.value) = stray p := by
    show ((commitField 42 p).sign, (commitField 42 p).exponent,
      (commitField 42 p).value) = _
    unfold commitField stray
    cases p.lastField <;> rfl
  obtain ⟨hsemi, hparens⟩ := isOpen_eq (hmarks ▸ h)
  have hq : q =
      { p₂ with
        lastField := some .checksum
        nextTarget := { p₂.nextTarget with seenChecksum := true } } := by
    show updateChecksum 42 (processChar 42 p₂) = _
    have hscan : processChar 42 p₂ = scanChar 42 p₂ := by
      rw [processChar, if_pos (by simp [hsemi, hparens, hplain])]
    rw [hscan]
    rfl
  rw [hq]
  refine ⟨⟨rfl, rfl, ?_, hplain⟩, hnumber, ?_⟩
  · show (!p₂.nextTarget.seenSemiComment &&
      !p₂.nextTarget.seenParensComment) = true
    rw [hsemi, hparens]
    rfl
  · exact congrArg Marks.sum hmarks

/-- The state of a number after a digit. -/
def pushDigit (number : Nat × R) (d : Nat) : Nat × R :=
  if number.1 = 0 then (0, toDouble (toDouble (number.2 * 10) + d))
  else (number.1 + 1, toDouble (number.2 + toDouble ((d : R) / power 10 number.1)))

/-- What a digit is not: no letter of a word, no end of a field and none of the
characters the parser treats apart. -/
theorem digit_cases {c : UInt8} (h : IsDigit c) :
    uppercase c = c ∧ wordOf c = none ∧ isFieldEnd c = false ∧
      48 ≤ c ∧ c ≤ 57 ∧ c ≠ 59 ∧ c ≠ 94 ∧ c ≠ 40 ∧ c ≠ 45 ∧ c ≠ 46 := by
  have hall : ∀ c : UInt8, (48 ≤ c.toNat ∧ c.toNat ≤ 57) →
      uppercase c = c ∧ wordOf c = none ∧ isFieldEnd c = false ∧
      48 ≤ c ∧ c ≤ 57 ∧ c ≠ 59 ∧ c ≠ 94 ∧ c ≠ 40 ∧ c ≠ 45 ∧ c ≠ 46 :=
    forall_byte (by decide +kernel)
  exact hall c h

/-- A digit is pushed on the number under construction. -/
theorem scanChar_digit {p : Parser R} {c : UInt8} (hc : IsDigit c) :
    scanChar c p =
      { p with
        exponent := (pushDigit (p.exponent, p.value) (c.toNat - 48)).1
        value := (pushDigit (p.exponent, p.value) (c.toNat - 48)).2 } := by
  obtain ⟨-, hword, -, hlo, hhi, h59, h94, h40, h45, h46⟩ := digit_cases hc
  rw [scanChar, hword]
  dsimp only
  rw [if_neg (by simp [h59, h94]), if_neg h40, if_neg h45, if_neg h46,
    if_pos ⟨hlo, hhi⟩, pushDigit]
  dsimp only
  split
  · next h0 => rw [h0]
  · rfl

/-- A digit outside comments and file names. -/
theorem gcodeParseChar_digit {p : Parser R}
    (hopen : (marks p.nextTarget).isOpen = true)
    (hplain : p.nextTarget.gettingString = false) {c : UInt8} (hc : IsDigit c) :
    gcodeParseChar p c = updateChecksum c
      { p with
        exponent := (pushDigit (p.exponent, p.value) (c.toNat - 48)).1
        value := (pushDigit (p.exponent, p.value) (c.toNat - 48)).2 } := by
  obtain ⟨hupper, -, hend, -⟩ := digit_cases hc
  obtain ⟨hsemi, hparens⟩ := isOpen_eq hopen
  have hcapture : captureString c p.nextTarget = p.nextTarget := by
    rw [captureString, if_neg (by simp [hplain])]
  have hscan : processChar c p = scanChar c p := by
    rw [processChar, if_pos (by simp [hsemi, hparens, hplain])]
  unfold gcodeParseChar
  dsimp only
  rw [hupper, commitField_skip p hend, hcapture, hscan, scanChar_digit hc]

/-- A digit of the checksum word changes nothing but the number under construction. -/
theorem parse_digit {p : Parser R} (h : ReadsSum p) {c : UInt8}
    (hc : IsDigit c) :
    gcodeParseChar p c =
      { p with
        exponent := (pushDigit (p.exponent, p.value) (c.toNat - 48)).1
        value := (pushDigit (p.exponent, p.value) (c.toNat - 48)).2 } := by
  rw [gcodeParseChar_digit h.open_ h.plain hc, updateChecksum,
    if_neg (by simp [h.seen])]

/-- The state of a number after some digits. -/
def pushDigits (number : Nat × R) (ds : List UInt8) : Nat × R :=
  ds.foldl (fun number c => pushDigit number (c.toNat - 48)) number

/-- Reading digits behind a word pushes them on the mantissa, and leaves the rest of the
parser as it was. -/
theorem parse_digits {ds : List UInt8} (hds : ∀ c ∈ ds, IsDigit c)
    {p : Parser R} (h : ReadsSum p) :
    parseChars p ds =
      { p with
        exponent := (pushDigits (p.exponent, p.value) ds).1
        value := (pushDigits (p.exponent, p.value) ds).2 } := by
  induction ds generalizing p with
  | nil => rfl
  | cons c ds ih =>
      have hstep := parse_digit h (hds c List.mem_cons_self)
      have hnext : ReadsSum (gcodeParseChar p c) := by
        rw [hstep]
        exact ⟨h.field, h.seen, h.open_, h.plain⟩
      show parseChars (gcodeParseChar p c) ds = _
      rw [ih (fun d hd => hds d (List.mem_cons_of_mem _ hd)) hnext, hstep]
      rfl

theorem pushDigits_append (number : Nat × R) (u v : List UInt8) :
    pushDigits number (u ++ v) = pushDigits (pushDigits number u) v :=
  List.foldl_append

/-- Digits in front of the point leave the exponent alone. -/
theorem pushDigits_whole (value : R) (ds : List UInt8) :
    (pushDigits (0, value) ds).1 = 0 := by
  induction ds generalizing value with
  | nil => rfl
  | cons c ds ih => exact ih _

end Characters

/-- With exact arithmetic the loop of `power` computes the power. -/
@[simp] theorem power_exact (x : R) (n : Nat) : power x n = x ^ n := by
  induction n with
  | zero => exact (pow_zero x).symm
  | succ n ih => rw [power, toDouble_exact, ih, pow_succ]

/-- Digits in front of the point, or behind it. -/
theorem pushDigits_eq [IsStrictOrderedRing R] (exponent : Nat) (value : R)
    (ds : List UInt8) :
    pushDigits (exponent, value) ds =
      if exponent = 0 then (0, value * 10 ^ ds.length + ofDigits ds)
      else (exponent + ds.length,
        value + ofDigits ds / 10 ^ (exponent - 1 + ds.length)) := by
  induction ds using List.reverseRecOn with
  | nil =>
      split
      · next h0 => simp [pushDigits, ofDigits, h0]
      · simp [pushDigits, ofDigits]
  | append_singleton ds c ih =>
      have hstep : pushDigits (exponent, value) (ds ++ [c]) =
          pushDigit (pushDigits (exponent, value) ds) (c.toNat - 48) := by
        rw [pushDigits, List.foldl_append]
        rfl
      rw [hstep, ih, ofDigits_snoc, List.length_append, List.length_singleton]
      split
      · rw [pushDigit, if_pos rfl, toDouble_exact, toDouble_exact]
        push_cast
        congr 1
        ring
      · next hpos =>
        have hten : (10 : R) ≠ 0 := by norm_num
        have hexp : exponent - 1 + (ds.length + 1) = exponent + ds.length := by
          omega
        have hpow : exponent + ds.length = exponent - 1 + ds.length + 1 := by
          omega
        rw [pushDigit, if_neg (by dsimp only; omega), toDouble_exact, toDouble_exact,
          power_exact]
        refine Prod.ext (by dsimp only; omega) ?_
        dsimp only
        rw [hexp, hpow, pow_succ]
        push_cast
        field_simp
        ring

/-- The line feed behind the digits. -/
theorem parse_lineFeed {p : Parser R} (h : ReadsSum p) :
    (gcodeParseChar p 10).nextTarget =
      { p.nextTarget with
        checksumRead :=
          uint8 (truncate (if p.sign then -p.value else p.value)) } := by
  obtain ⟨hsemi, hparens⟩ := isOpen_eq h.open_
  obtain ⟨t, ht⟩ : ∃ t, t = { p.nextTarget with
      checksumRead :=
        uint8 (truncate (if p.sign then -p.value else p.value)) } := ⟨_, rfl⟩
  have hplain : t.gettingString = false := by rw [ht]; exact h.plain
  have hcommit : commitField 10 p = ⟨t, none, false, 0, 0⟩ := by
    rw [commitField, h.field, ht]
    rfl
  have hcapture : captureString 10 t = t := by
    rw [captureString, if_neg (by simp [hplain])]
  have hscan : processChar 10 (⟨t, none, false, 0, 0⟩ : Parser R) =
      ⟨t, none, false, 0, 0⟩ := by
    rw [processChar, if_pos (by rw [ht]; simp [hsemi, hparens, h.plain])]
    rfl
  have hupdate : updateChecksum 10 (⟨t, none, false, 0, 0⟩ : Parser R) =
      ⟨t, none, false, 0, 0⟩ := by
    rw [updateChecksum, if_neg (by rw [ht]; simp [h.seen])]
  show (updateChecksum 10 (processChar 10
    { commitField 10 p with
      nextTarget :=
        captureString 10 (commitField 10 p).nextTarget })).nextTarget = _
  rw [hcommit]
  dsimp only
  rw [hcapture, hscan, hupdate, ht]

/-! ## Judging a line -/

/-- A body, the `*`, the decimal text of `n`, and the end of the line. -/
def checkedLine (u : List UInt8) (n : UInt8) : List UInt8 :=
  u ++ 42 :: (serwriteUint32 n.toNat ++ [10])

/-- What the decimal text of `n` is read as behind a body. -/
def readBehind (p : Parser R) (n : UInt8) : Int :=
  uint8 (truncate
    (behind (stray p) (serwriteUint32 n.toNat).length n.toNat))

/-- A checksum printed in decimal is read back as the same byte. -/
theorem serwrite_byte (n : UInt8) :
    ofDigits (serwriteUint32 n.toNat) = n.toNat ∧
      ∀ b ∈ serwriteUint32 n.toNat, IsDigit b :=
  serwriteUint32_spec (by have := n.toNat_lt; omega)

/-- A body that leaves no comment open is judged by its sum. -/
theorem accepted_open [IsStrictOrderedRing R] {p : Parser R} {u : List UInt8}
    (n : UInt8)
    (h : (marks (parseChars p u).nextTarget).isOpen = true) :
    checksumAccepted (parseChars p (checkedLine u n)).nextTarget = true ↔
      readBehind (parseChars p u) n =
        (parseChars p u).nextTarget.checksumCalculated.toNat := by
  obtain ⟨hreads, hnumber, hsum⟩ := parse_star h
  obtain ⟨hvalue, hdigits⟩ := serwrite_byte n
  have hline : parseChars p (checkedLine u n) =
      gcodeParseChar (parseChars (gcodeParseChar (parseChars p u) 42)
        (serwriteUint32 n.toNat)) 10 := by
    rw [checkedLine, parseChars_append, parseChars_cons, parseChars_append,
      parseChars_cons, parseChars_nil]
  have hparsed := parse_digits hdigits hreads
  have hread : ReadsSum (parseChars (gcodeParseChar (parseChars p u) 42)
      (serwriteUint32 n.toNat)) := by
    rw [hparsed]
    exact ⟨hreads.field, hreads.seen, hreads.open_, hreads.plain⟩
  rw [hline, parse_lineFeed hread, hparsed]
  generalize gcodeParseChar (parseChars p u) 42 = q at hreads hnumber hsum ⊢
  have hbehind : (if q.sign then
        -(pushDigits (q.exponent, q.value) (serwriteUint32 n.toNat)).2
      else (pushDigits (q.exponent, q.value) (serwriteUint32 n.toNat)).2) =
      behind (stray (parseChars p u)) (serwriteUint32 n.toNat).length
        n.toNat := by
    rw [← hnumber, pushDigits_eq, hvalue, apply_ite Prod.snd]
    rfl
  dsimp only
  rw [hbehind, checksumAccepted]
  dsimp only
  rw [hreads.seen, Bool.not_true, Bool.or_false, decide_eq_true_eq, hsum,
    eq_comm]
  rfl

/-- A body whose comment is open at the end is not judged at all. -/
theorem accepted_hidden {t : GcodeCommand R} (h : t.seenChecksum = false) :
    checksumAccepted t = true := by
  rw [checksumAccepted, h, Bool.not_false, Bool.or_true]

/-! ## One byte changed -/

/-- A body without the signs of checksum and comments and without line ends. -/
def Plain (w : List UInt8) : Prop :=
  ∀ c ∈ w, c ≠ 42 ∧ c ≠ 59 ∧ c ≠ 94 ∧ c ≠ 40 ∧ c ≠ 10 ∧ c ≠ 13

/-- The byte `x` between `a` and `z` opens a comment that does not end.  In a
file name no comment starts. -/
def Hides (p : Parser R) (a : List UInt8) (x : UInt8) (z : List UInt8) : Prop :=
  (parseChars p a).nextTarget.gettingString = false ∧
    (x = 59 ∨ x = 94 ∨ x = 40 ∧ 41 ∉ z)

/-- The bytes that are summed up: up to the first `*`. -/
def covered (a : List UInt8) (x : UInt8) (z : List UInt8) : List UInt8 :=
  if x = 42 then a else a ++ x :: z

section Change

variable {p : Parser R} {a z : List UInt8} {x : UInt8}

/-- Behind a line end nothing is marked and the checksum is zero. -/
theorem rested_marks (h : Rested p) :
    marks p.nextTarget = ⟨false, false, false, 0⟩ := by
  rw [← h.fixed]
  rfl

/-- Text without comment signs and `*` keeps the parser outside comments. -/
theorem Plain.keeps (h : Plain a) {k : Marks} (hk : k.isOpen = true) :
    ∀ c ∈ a, k.Keeps c := by
  intro c hc
  obtain ⟨h42, h59, h94, h40, -, -⟩ := h c hc
  exact keeps_open hk ⟨h42, h59, h94, h40⟩

/-- The marks after a plain body. -/
theorem plain_marks (hp : marks p.nextTarget = ⟨false, false, false, 0⟩)
    (ha : Plain a) :
    marks (parseChars p a).nextTarget = ⟨false, false, false, xorSum a⟩ := by
  rw [parseChars_marks (by rw [hp]; exact ha.keeps rfl), hp, Marks.add]
  simp

/-- The marks after the byte between `a` and `z`. -/
theorem changed_marks (hp : marks p.nextTarget = ⟨false, false, false, 0⟩)
    (ha : Plain a) (x : UInt8) :
    marks (parseChars p (a ++ [x])).nextTarget =
      Marks.next ⟨false, false, false, xorSum a⟩
        (naming (parseChars p a) (uppercase x)) x := by
  rw [parseChars_append, parseChars_cons, parseChars_nil,
    gcodeParseChar_marks, plain_marks hp ha]

theorem xorSum_snoc (a : List UInt8) (x : UInt8) :
    xorSum (a ++ [x]) = xorSum a ^^^ x := by
  rw [xorSum_append, xorSum_cons]
  show _ ^^^ (x ^^^ 0) = _
  rw [UInt8.xor_zero]

/-- The comment goes on to the end of the line. -/
theorem hidden_seen (hp : marks p.nextTarget = ⟨false, false, false, 0⟩)
    (ha : Plain a) (h : Hides p a x z) {tail : List UInt8}
    (htail : 41 ∉ tail) :
    (parseChars p (a ++ x :: z ++ tail)).nextTarget.seenChecksum = false := by
  obtain ⟨hstring, hx⟩ := h
  have hsplit : a ++ x :: z ++ tail = (a ++ [x]) ++ (z ++ tail) := by simp
  have hchanged := changed_marks hp ha x
  have hseen : ∀ k : Marks, k.seen = false →
      marks (parseChars p (a ++ [x])).nextTarget = k →
      (∀ c ∈ z ++ tail, k.Keeps c) →
      (parseChars p (a ++ x :: z ++ tail)).nextTarget.seenChecksum = false := by
    intro k hk heq hkeeps
    have hmarks := parseChars_marks (p := parseChars p (a ++ [x]))
      (u := z ++ tail) (by rw [heq]; exact hkeeps)
    rw [← parseChars_append, ← hsplit, heq] at hmarks
    exact (congrArg Marks.seen hmarks).trans hk
  have hsemi : x = 59 ∨ x = 94 →
      (parseChars p (a ++ x :: z ++ tail)).nextTarget.seenChecksum = false := by
    intro hx
    have hnaming : naming (parseChars p a) (uppercase x) = false := by
      rcases hx with rfl | rfl
      · rw [← hstring]
        exact naming_comment _ (by decide)
      · rw [← hstring]
        exact naming_comment _ (by decide)
    have hmarks : marks (parseChars p (a ++ [x])).nextTarget =
        ⟨false, true, false, xorSum a ^^^ x⟩ := by
      rw [hchanged, hnaming]
      rcases hx with rfl | rfl <;> rfl
    exact hseen _ rfl hmarks fun c _ => keeps_semi rfl rfl c
  rcases hx with hx | hx | ⟨rfl, hz⟩
  · exact hsemi (.inl hx)
  · exact hsemi (.inr hx)
  · have hnaming : naming (parseChars p a) (uppercase 40) = false := by
      rw [← hstring]
      exact naming_comment _ (by decide)
    have hmarks : marks (parseChars p (a ++ [40])).nextTarget =
        ⟨false, false, true, xorSum a ^^^ 40⟩ := by
      rw [hchanged, hnaming]
      rfl
    refine hseen _ rfl hmarks fun c hc => keeps_parens rfl rfl ?_
    rintro rfl
    exact (List.mem_append.1 hc).elim hz htail

/-- The running checksum behind plain text is the one before it, with the bytes of the
text added. -/
theorem plain_rest {q : Parser R} {k : UInt8} (hz : Plain z)
    (hq : marks q.nextTarget = ⟨false, false, false, k⟩) :
    marks (parseChars q z).nextTarget =
      ⟨false, false, false, k ^^^ xorSum z⟩ := by
  rw [parseChars_marks (by rw [hq]; exact hz.keeps rfl), hq]
  rfl

/-- The comment in parentheses ends. -/
theorem parens_rest {q : Parser R} {k : UInt8} (hz : Plain z) (hclose : 41 ∈ z)
    (hq : marks q.nextTarget = Marks.next ⟨false, false, false, k⟩ false 40) :
    marks (parseChars q z).nextTarget =
      ⟨false, false, false, k ^^^ 40 ^^^ xorSum z⟩ := by
  obtain ⟨z₁, z₂, rfl, hfirst⟩ := List.eq_append_cons_of_mem hclose
  have hstart : marks q.nextTarget = ⟨false, false, true, k ^^^ 40⟩ := by
    rw [hq]
    rfl
  have hinside : marks (parseChars q z₁).nextTarget =
      ⟨false, false, true, k ^^^ 40 ^^^ xorSum z₁⟩ := by
    rw [parseChars_marks, hstart]
    · rfl
    · intro c hc
      rw [hstart]
      refine keeps_parens rfl rfl ?_
      rintro rfl
      exact hfirst hc
  have hend : marks (gcodeParseChar (parseChars q z₁) 41).nextTarget =
      ⟨false, false, false, k ^^^ 40 ^^^ xorSum z₁ ^^^ 41⟩ := by
    rw [gcodeParseChar_marks, hinside]
    simp [Marks.next, Marks.isOpen]
  have hrest : Plain z₂ := fun c hc => hz c (by simp [hc])
  rw [parseChars_append, parseChars_cons, plain_rest hrest hend,
    xorSum_append, xorSum_cons]
  simp only [UInt8.xor_assoc]

/-- Otherwise the `*` behind the body is seen. -/
theorem shown_marks (hp : marks p.nextTarget = ⟨false, false, false, 0⟩)
    (ha : Plain a) (hz : Plain z) (h : ¬Hides p a x z) :
    marks (parseChars p (a ++ x :: z)).nextTarget =
      ⟨decide (x = 42), false, false, xorSum (covered a x z)⟩ := by
  have hsplit : a ++ x :: z = (a ++ [x]) ++ z := by simp
  have hchanged := changed_marks hp ha x
  by_cases hstar : x = 42
  · subst hstar
    have hmarks : marks (parseChars p (a ++ [42])).nextTarget =
        ⟨true, false, false, xorSum a⟩ := by
      rw [hchanged, show uppercase 42 = 42 from rfl, naming_star]
      rfl
    rw [hsplit, parseChars_append,
      parseChars_marks (by rw [hmarks]; exact hz.keeps rfl), hmarks]
    rfl
  · rw [show covered a x z = a ++ x :: z from if_neg hstar, hsplit,
      parseChars_append, decide_eq_false hstar, xorSum_append, xorSum_snoc]
    by_cases hsign : x = 59 ∨ x = 94 ∨ x = 40
    · have hupper : uppercase x = x := by
        rcases hsign with rfl | rfl | rfl <;> rfl
      have hnaming := naming_comment (parseChars p a) (c := x) (by
        rcases hsign with hx | hx | hx <;> simp [hx])
      rw [hupper, hnaming] at hchanged
      cases hstring : (parseChars p a).nextTarget.gettingString with
      | true =>
          rw [hstring] at hchanged
          refine plain_rest hz (hchanged.trans ?_)
          simp [Marks.next]
      | false =>
          have hparens : x = 40 ∧ 41 ∈ z := by
            have hshown := fun hx => h ⟨hstring, hx⟩
            simp only [imp_false, not_or, not_and, not_not] at hshown
            rcases hsign with hx | hx | hx
            · exact absurd hx hshown.1
            · exact absurd hx hshown.2.1
            · exact ⟨hx, hshown.2.2 hx⟩
          obtain ⟨rfl, hclose⟩ := hparens
          rw [hstring] at hchanged
          exact parens_rest hz hclose hchanged
    · refine plain_rest hz (hchanged.trans ?_)
      have hkeeps : (⟨false, false, false, xorSum a⟩ : Marks).Keeps x :=
        keeps_open rfl (by simpa [hstar, not_or] using hsign)
      rw [hkeeps]
      simp [Marks.add, xorSum]

end Change

/-! ## Options -/

/-- What only a processed line may change. -/
def options (t : GcodeCommand R) : Bool × Bool × Int :=
  (t.optionRelative, t.optionInches, t.nExpected)

/-- The options are set by commands, and parsing a character keeps them. -/
theorem gcodeParseChar_options [HasDouble R] (p : Parser R) (c : UInt8) :
    options (gcodeParseChar p c).nextTarget = options p.nextTarget := by
  have hcommit : ∀ c, options (commitField c p).nextTarget =
      options p.nextTarget := by
    intro c
    unfold commitField
    split
    · next w _ =>
      split
      · cases w <;> rfl
      · rfl
    · rfl
  have hcapture : ∀ (c) (t : GcodeCommand R),
      options (captureString c t) = options t := by
    intro c t
    unfold captureString
    split_ifs <;> rfl
  have hprocess : ∀ (c) (q : Parser R),
      options (processChar c q).nextTarget = options q.nextTarget := by
    intro c q
    unfold processChar scanChar
    dsimp only
    split
    · split
      · next w _ => cases w <;> rfl
      · split_ifs <;> rfl
    · split <;> rfl
  have hupdate : ∀ (c) (q : Parser R),
      options (updateChecksum c q).nextTarget = options q.nextTarget := by
    intro c q
    unfold updateChecksum
    split <;> rfl
  unfold gcodeParseChar
  dsimp only
  rw [hupdate, hprocess]
  exact (hcapture _ _).trans (hcommit _)

/-- The options of the parser are the same behind any text. -/
theorem parseChars_options [HasDouble R] (u : List UInt8) (p : Parser R) :
    options (parseChars p u).nextTarget = options p.nextTarget := by
  induction u generalizing p with
  | nil => rfl
  | cons c u ih => rw [parseChars_cons, ih, gcodeParseChar_options]

/-! ## Corrupted lines -/

section Lines

variable [HasSqrt R] {P : Platform σ}

/-- The line is refused: nothing happens but that it is requested again, and the
options stay. -/
structure Resent (P : Platform σ) (s : Session R σ) (data : List UInt8) :
    Prop where
  refused : ¬Processes s data
  asks : ∀ irqs, ∃ p text n,
    takeLine P s data irqs = (some p, ⟨{ s.fw with
      tx := s.fw.tx ++ (text ++ str "rs " ++ serwriteUint32 n ++ str "\r\n") },
      irqs⟩) ∧
    options p.nextTarget = options s.parser.nextTarget

/-- A line is asked for again exactly if its checksum is not accepted; a line written to
the card is not checked here. -/
theorem resent_iff {s : Session R σ} (hsd : s.fw.sdWritingFile = false)
    (data : List UInt8) :
    Resent P s data ↔ ¬checksumAccepted (parsed s data) = true := by
  constructor
  · intro h hsum
    exact h.refused ⟨hsum, hsd⟩
  · intro hsum
    refine ⟨fun hproc => hsum hproc.1, fun irqs => ?_⟩
    refine ⟨endOfLine (parseChars s.parser data),
      str "Expected checksum " ++
        serwriteUint32 (parsed s data).checksumCalculated.toNat ++ str "\r\n",
      (parsed s data).n.toNat, ?_, ?_⟩
    · rw [takeLine_eq, if_neg hsum]
      rfl
    · exact parseChars_options data s.parser

/-- With no number under construction the text is read as it stands. -/
theorem readBehind_of_noStray [IsStrictOrderedRing R] {p : Parser R}
    (h : stray p = (false, 0, 0)) (n : UInt8) :
    readBehind p n = n.toNat := by
  have hlt := n.toNat_lt
  rw [readBehind, h]
  simp only [behind, if_true, zero_mul, zero_add, Bool.false_eq_true, if_false]
  rw [truncate_natCast]
  exact wrapUnsigned_of_range (by omega) (by omega)

/-- A body that was changed into another one with the same sum. -/
theorem covered_iff {a z : List UInt8} {x y : UInt8} (hxy : x ≠ y) :
    xorSum (a ++ y :: z) ≠ xorSum (covered a x z) ↔
      (x = 42 → xorSum (y :: z) ≠ 0) := by
  unfold covered
  split
  · next hx =>
    rw [ne_eq, eq_comm, xorSum_eq_left]
    exact ⟨fun hne _ => hne, fun hne => hne hx⟩
  · next hx =>
    exact iff_of_true (xorSum_change hxy.symm) fun heq => absurd heq hx

/-- A line with a checksum is processed if its number is read as it stands or,
behind digits that belong to no word, happens to give the same byte.  The same
line with one byte changed is requested again if the change opens no comment
that hides the checksum, and the number read is not the sum of the bytes up to
the first `*`.  Where no number is under construction at the end of the body,
that means: the bytes from the changed one on do not cancel out, if it has
become a `*`. -/
theorem corruption_noticed_iff [IsStrictOrderedRing R] {s : Session R σ}
    (hs : Reachable P s) (hsd : s.fw.sdWritingFile = false) {w : List UInt8}
    (hw : Plain w) :
    let n := xorSum w
    (Processes s (checkedLine w n) ↔
        readBehind (parseChars s.parser w) n = n.toNat) ∧
      (stray (parseChars s.parser w) = (false, 0, 0) →
        Processes s (checkedLine w n)) ∧
      ∀ a y z x, w = a ++ y :: z → x ≠ y →
        let w' := a ++ x :: z
        (Resent P s (checkedLine w' n) ↔ ¬Hides s.parser a x z ∧
            readBehind (parseChars s.parser w') n ≠
              (xorSum (covered a x z)).toNat) ∧
          (stray (parseChars s.parser w') = (false, 0, 0) →
            (Resent P s (checkedLine w' n) ↔ ¬Hides s.parser a x z ∧
              (x = 42 → xorSum (y :: z) ≠ 0))) := by
  intro n
  have hp := rested_marks (reachable_rested hs)
  have hplain := plain_marks hp hw
  have hgood : Processes s (checkedLine w n) ↔
      readBehind (parseChars s.parser w) n = n.toNat := by
    have hacc := accepted_open (p := s.parser) (u := w) n (by rw [hplain]; rfl)
    have hsum : (parseChars s.parser w).nextTarget.checksumCalculated = n :=
      congrArg Marks.sum hplain
    rw [hsum] at hacc
    exact ⟨fun hproc => hacc.1 hproc.1, fun hread => ⟨hacc.2 hread, hsd⟩⟩
  refine ⟨hgood, fun hstray => hgood.2 (readBehind_of_noStray hstray n), ?_⟩
  rintro a y z x rfl hxy w'
  have ha : Plain a := fun c hc => hw c (by simp [hc])
  have hz : Plain z := fun c hc => hw c (by simp [hc])
  have hbad : Resent P s (checkedLine w' n) ↔ ¬Hides s.parser a x z ∧
      readBehind (parseChars s.parser w') n ≠
        (xorSum (covered a x z)).toNat := by
    rw [resent_iff hsd]
    by_cases hhides : Hides s.parser a x z
    · have htail : 41 ∉ 42 :: (serwriteUint32 n.toNat ++ [10]) := by
        intro hmem
        rcases List.mem_cons.1 hmem with heq | hmem
        · exact absurd heq (by decide)
        · rcases List.mem_append.1 hmem with hdigit | hlf
          · exact absurd ((serwrite_byte n).2 41 hdigit) (by
              rintro ⟨hlo, -⟩
              exact absurd hlo (by decide))
          · exact absurd (List.mem_singleton.1 hlf) (by decide)
      have hacc := accepted_hidden (hidden_seen hp ha hhides htail)
      exact iff_of_false (not_not.2 hacc) fun hboth => hboth.1 hhides
    · have hshown := shown_marks hp ha hz hhides
      have hacc := accepted_open (p := s.parser) (u := w') n (by
        rw [hshown]
        rfl)
      have hsum : (parseChars s.parser w').nextTarget.checksumCalculated =
          xorSum (covered a x z) := congrArg Marks.sum hshown
      rw [hsum] at hacc
      exact (not_congr hacc).trans ⟨fun hne => ⟨hhides, hne⟩, fun hboth => hboth.2⟩
  refine ⟨hbad, fun hstray => ?_⟩
  rw [hbad, readBehind_of_noStray hstray, ← covered_iff (a := a) hxy]
  simp only [ne_eq, Nat.cast_inj, UInt8.toNat_inj, n]

end Lines

/-! ## Three lines -/

instance (w : List UInt8) : Decidable (Plain w) :=
  inferInstanceAs (Decidable (∀ c ∈ w, _))

private theorem start_reachable : Reachable noCard defaultStart :=
  reachable_init _ _

/-- A blank becomes a semicolon, and the move is dropped.  A digit becomes a
`*`, and the move ends elsewhere.  And a line that is as it should be is
refused, for the digit it begins with. -/
theorem corruption_unnoticed :
    Reachable noCard defaultStart ∧ defaultStart.fw.sdWritingFile = false ∧
      (Plain (str "G1" ++ 32 :: str "X5") ∧
        ¬Resent noCard defaultStart (checkedLine (str "G1" ++ 59 :: str "X5")
          (xorSum (str "G1" ++ 32 :: str "X5")))) ∧
      (Plain (str "G1 X" ++ 49 :: str "1") ∧
        ¬Resent noCard defaultStart (checkedLine (str "G1 X" ++ 42 :: str "1")
          (xorSum (str "G1 X" ++ 49 :: str "1")))) ∧
      (Plain (str "5") ∧
        ¬Processes defaultStart (checkedLine (str "5") (xorSum (str "5")))) := by
  refine ⟨start_reachable, rfl, ⟨by decide +kernel, fun h => h.refused ?_⟩,
    ⟨by decide +kernel, fun h => h.refused ?_⟩, by decide +kernel, ?_⟩
  all_goals decide +kernel

/-- `G1 X5` is processed; with Y in the place of X it is requested again. -/
theorem corruption_noticed_axis :
    Processes defaultStart (checkedLine (str "G1 X5") (xorSum (str "G1 X5"))) ∧
      Resent noCard defaultStart
        (checkedLine (str "G1 Y5") (xorSum (str "G1 X5"))) := by
  obtain ⟨-, hgood, hbad⟩ := corruption_noticed_iff start_reachable rfl
    (w := str "G1 X5") (by decide +kernel)
  have hchange := (hbad (str "G1 ") 88 (str "5") 89 (by decide +kernel)
    (by decide)).2 (by decide +kernel)
  refine ⟨hgood (by decide +kernel), hchange.2 ⟨?_, fun h => ?_⟩⟩
  · rintro ⟨-, h | h | ⟨h, -⟩⟩ <;> exact absurd h (by decide)
  · exact absurd h (by decide)

end R2C2Firmware.Ports.Checksum
