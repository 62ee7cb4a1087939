import R2C2Firmware.Ports.NumberWords

/-!
# The numbers of axis words

The word of an axis commits the number it denotes, whatever its digits, as long as
no digits, sign or point stand in front of the first letter of the line: those are
still in the registers when the letter comes.

A comment in the source wants the sign at the start of a number, so that `1-2` is
`-2` and not `-12`.  The sign resets the exponent, but the digits read before it
stay in the value, and `1-2` is `-12`.

## Main results

* `axis_word_commits` — the number of a word.
* `restart_commits` — what a number with a sign inside it commits.
* `number_words_iff` — where both are right.
* `restart_keeps_digits` — `X1-2`.
-/

set_option linter.unusedSectionVars false

namespace R2C2Firmware.Ports.AxisWords

open R2C2Firmware.Verified.Number
open R2C2Firmware.Ports.Config
open R2C2Firmware.Ports.MotionPlanner
open R2C2Firmware.Ports.Sermsg
open R2C2Firmware.Ports.GcodeParse
open R2C2Firmware.Ports.Checksum
open R2C2Firmware.Ports.NumberWords

variable {R : Type} [Field R] [LinearOrder R] [FloorRing R]

/-- The word of an axis. -/
def axisWord : Axis → Word
  | .x => .x
  | .y => .y
  | .z => .z
  | .e => .e

/-- Behind the text, every letter, `*` and line end commits the number to the
axis. -/
def Commits (p : Parser R) (a : Axis) (text : List UInt8) (v : R) : Prop :=
  ∀ c, isFieldEnd (uppercase c) = true →
    (parseChars p (text ++ [c])).nextTarget.target.coord a = inUnits p.nextTarget v

/-! ## What is committed -/

theorem inUnits_committed (p : Parser R) (v : R) :
    inUnits (committed p) v = inUnits p.nextTarget v := by
  unfold committed
  split
  · next w _ => cases w <;> rfl
  · rfl

theorem inUnits_seeWord (w : Word) (t : GcodeCommand R) (v : R) :
    inUnits (seeWord w t) v = inUnits t v := by
  cases w <;> rfl

theorem coord_seeWord (w : Word) (t : GcodeCommand R) (a : Axis) :
    (seeWord w t).target.coord a = t.target.coord a := by
  cases w <;> rfl

theorem coord_storeWord (a : Axis) (t : GcodeCommand R) (v : R) :
    (storeWord (axisWord a) v t).target.coord a = inUnits t v := by
  cases a <;> rfl

/-- The character that ends a word stores its number as the coordinate. -/
theorem coord_fieldEnd {q : Parser R} {a : Axis} (hfield : q.lastField = some (axisWord a))
    (hplain : Plain q.nextTarget) {c : UInt8} (hc : isFieldEnd (uppercase c) = true) :
    (scan q c).nextTarget.target.coord a =
      inUnits q.nextTarget (if q.sign then -q.value else q.value) := by
  have hcommitted : committed q =
      storeWord (axisWord a) (if q.sign then -q.value else q.value) q.nextTarget := by
    rw [committed, hfield]
  have hplain' : Plain (committed q) := by
    rw [hcommitted]
    obtain ⟨hsemi, hparens, hname⟩ := hplain
    cases a <;> exact ⟨hsemi, hparens, hname⟩
  cases hw : wordOf (uppercase c) with
  | some w =>
      rw [scan_letter hplain' hw]
      dsimp only
      rw [coord_seeWord, hcommitted, coord_storeWord]
  | none =>
      have hend : isLineEnd (uppercase c) = true := by
        rw [isFieldEnd, hw] at hc
        exact hc
      have hbyte : isLineEnd c = true := by
        have hall : ∀ c : UInt8, isLineEnd (uppercase c) = true → isLineEnd c = true :=
          forall_byte (by decide +kernel)
        exact hall c hend
      rw [scan_lineEnd hplain' hbyte]
      dsimp only
      rw [hcommitted, coord_storeWord]

section Words

variable [IsStrictOrderedRing R] {p : Parser R} {a : Axis} {letter : UInt8}

/-- The parser behind the letter. -/
def behindLetter (p : Parser R) (a : Axis) : Parser R where
  nextTarget := seeWord (axisWord a) (committed p)
  lastField := some (axisWord a)
  sign := (stray p).1
  exponent := (stray p).2.1
  value := (stray p).2.2

/-- A word commits what the registers hold behind its text. -/
theorem commits_iff (hplain : Plain (committed p))
    (hletter : wordOf (uppercase letter) = some (axisWord a)) {text : List UInt8}
    {sign : Bool} {e : Nat} {value : R}
    (htext : scanLine (behindLetter p a) text =
      { behindLetter p a with sign, exponent := e, value }) (v : R) :
    Commits p a (letter :: text) v ↔ (if sign then -value else value) = v := by
  have hcoord : ∀ c, isFieldEnd (uppercase c) = true →
      (parseChars p (letter :: text ++ [c])).nextTarget.target.coord a =
        inUnits p.nextTarget (if sign then -value else value) := by
    intro c hc
    obtain ⟨k, hk⟩ := parseChars_scan p (letter :: text ++ [c])
    have hscan : scanLine p (letter :: text ++ [c]) =
        scan (scanLine (behindLetter p a) text) c := by
      rw [scanLine_append, scanLine_cons p, scan_letter hplain hletter]
      rfl
    rw [hk, hscan, htext]
    show (scan { behindLetter p a with sign, exponent := e, value }
      c).nextTarget.target.coord a = _
    rw [coord_fieldEnd rfl (hplain.seeWord _) hc]
    dsimp only [behindLetter]
    rw [inUnits_seeWord, inUnits_committed]
  constructor
  · intro h
    have heq := (hcoord 10 rfl).symm.trans (h 10 rfl)
    unfold inUnits inchToMm at heq
    simp only [toDouble_exact] at heq
    split at heq
    · exact mul_right_cancel₀ (by norm_num) heq
    · exact heq
  · rintro rfl
    exact hcoord

/-- The number of a word, where the registers are clear. -/
theorem axis_word_commits (hplain : Plain (committed p)) (hclear : stray p = (false, 0, 0))
    (hletter : wordOf (uppercase letter) = some (axisWord a)) (d : Decimal) :
    Commits p a (letter :: d.text) (d.number R) := by
  obtain ⟨e, he⟩ := scanLine_number (p := behindLetter p a) (hplain.seeWord _)
    (congrArg Prod.fst hclear) (congrArg (·.2.1) hclear) (congrArg (·.2.2) hclear) d
  rw [commits_iff hplain hletter he]
  exact read_exact d

/-- What a word of one digit stores, given what the registers of the parser still hold.
-/
theorem digit_commits (hplain : Plain (committed p))
    (hletter : wordOf (uppercase letter) = some (axisWord a)) {c : UInt8}
    (hc : IsDigit c) (v : R) :
    Commits p a [letter, c] v ↔
      (if (stray p).1 then
        -(pushDigit ((stray p).2.1, (stray p).2.2) (c.toNat - 48)).2
      else (pushDigit ((stray p).2.1, (stray p).2.2) (c.toNat - 48)).2) = v := by
  have htext : scanLine (behindLetter p a) [c] =
      { behindLetter p a with
        sign := (stray p).1
        exponent := (pushDigit ((stray p).2.1, (stray p).2.2) (c.toNat - 48)).1
        value := (pushDigit ((stray p).2.1, (stray p).2.2) (c.toNat - 48)).2 } :=
    scan_digit (hplain.seeWord _) hc
  exact commits_iff hplain hletter htext v

/-- A number with one digit. -/
def oneDigit (c : UInt8) (hc : IsDigit c) : Decimal where
  neg := false
  whole := [c]
  frac := none
  whole_digits := by simpa using hc
  frac_digits := no_frac_digits
  nonempty := .inl (by simp)

theorem oneDigit_number (c : UInt8) (hc : IsDigit c) :
    (oneDigit c hc).number R = ((c.toNat - 48 : Nat) : R) := by
  simp [oneDigit, Decimal.number, Decimal.magnitude, ofDigits]

/-- Whatever is left in the registers disturbs a `0` or a `1`. -/
theorem clear_of_commits (hplain : Plain (committed p))
    (hletter : wordOf (uppercase letter) = some (axisWord a))
    (h : ∀ d : Decimal, Commits p a (letter :: d.text) (d.number R)) :
    stray p = (false, 0, 0) := by
  have hzero : IsDigit 48 := ⟨by decide, by decide⟩
  have hone : IsDigit 49 := ⟨by decide, by decide⟩
  have h₀ := (digit_commits hplain hletter hzero _).1 (h (oneDigit 48 hzero))
  have h₁ := (digit_commits hplain hletter hone _).1 (h (oneDigit 49 hone))
  rw [oneDigit_number, show (48 : UInt8).toNat - 48 = 0 from rfl] at h₀
  rw [oneDigit_number, show (49 : UInt8).toNat - 48 = 1 from rfl] at h₁
  generalize stray p = registers at h₀ h₁ ⊢
  obtain ⟨sign, exponent, value⟩ := registers
  unfold pushDigit at h₀ h₁
  simp only [toDouble_exact, power_exact] at h₀ h₁
  by_cases he : exponent = 0
  · subst he
    simp only [if_true] at h₀ h₁
    cases sign with
    | false =>
        have hv : value = 0 := by simpa using h₀
        rw [hv]
    | true =>
        have hv : value = 0 := by simpa using h₀
        rw [hv] at h₁
        norm_num at h₁
  · simp only [if_neg he] at h₀ h₁
    have hv : value = 0 := by
      cases sign with
      | false => simpa using h₀
      | true => simpa using h₀
    rw [hv] at h₁
    have hten : (1 : R) < 10 ^ exponent := one_lt_pow₀ (by norm_num) he
    have hlt : (1 : R) / 10 ^ exponent < 1 := (div_lt_one (by positivity)).2 hten
    have hpos : (0 : R) < 1 / 10 ^ exponent := by positivity
    rw [Nat.cast_one] at h₁
    cases sign with
    | false =>
        simp only [Bool.false_eq_true, if_false, zero_add] at h₁
        linarith
    | true =>
        simp only [if_true, zero_add] at h₁
        linarith

/-- A sign behind some digits: the digits behind the sign continue the number. -/
theorem restart_commits (hplain : Plain (committed p))
    (hclear : stray p = (false, 0, 0))
    (hletter : wordOf (uppercase letter) = some (axisWord a)) {u c : List UInt8}
    (hu : ∀ b ∈ u, IsDigit b) (hc : ∀ b ∈ c, IsDigit b) (v : R) :
    Commits p a (letter :: (u ++ 45 :: c)) v ↔
      -((ofDigits u : R) * 10 ^ c.length + ofDigits c) = v := by
  have hseen : Plain (behindLetter p a).nextTarget := hplain.seeWord _
  have htext : scanLine (behindLetter p a) (u ++ 45 :: c) =
      { behindLetter p a with
        sign := true
        exponent := 0
        value := (ofDigits u : R) * 10 ^ c.length + ofDigits c } := by
    have hfront : scanLine (behindLetter p a) u =
        { behindLetter p a with value := (ofDigits u : R) } := by
      have hexponent : (behindLetter p a).exponent = 0 := congrArg (·.2.1) hclear
      have hvalue : (behindLetter p a).value = 0 := congrArg (·.2.2) hclear
      rw [scanLine_digits hu hseen, pushDigits_eq, if_pos hexponent, hvalue, zero_mul,
        zero_add]
      dsimp only
      rw [hexponent]
    have hminus : scan { behindLetter p a with value := (ofDigits u : R) } 45 =
        { behindLetter p a with sign := true, exponent := 0, value := (ofDigits u : R) } :=
      scan_minus hseen
    have hback := scanLine_digits hc
      (p := { behindLetter p a with
        sign := true, exponent := 0, value := (ofDigits u : R) }) hseen
    rw [scanLine_append, hfront, scanLine_cons, hminus, hback, pushDigits_eq, if_pos rfl]
  exact commits_iff hplain hletter htext v

/-- All numbers are right behind a letter, and so is one with a sign inside, exactly
if nothing is in the registers and the digits in front of the sign are zeros. -/
theorem number_words_iff (hplain : Plain (committed p))
    (hletter : wordOf (uppercase letter) = some (axisWord a)) {u c : List UInt8}
    (hu : ∀ b ∈ u, IsDigit b) (hc : ∀ b ∈ c, IsDigit b) :
    ((∀ d : Decimal, Commits p a (letter :: d.text) (d.number R)) ∧
        Commits p a (letter :: (u ++ 45 :: c)) (-(ofDigits c : R))) ↔
      stray p = (false, 0, 0) ∧ ∀ b ∈ u, b = 48 := by
  have hrestart : stray p = (false, 0, 0) →
      (Commits p a (letter :: (u ++ 45 :: c)) (-(ofDigits c : R)) ↔
        ∀ b ∈ u, b = 48) := by
    intro hclear
    rw [restart_commits hplain hclear hletter hu hc, ← ofDigits_eq_zero hu, neg_inj,
      add_eq_right, mul_eq_zero, or_iff_left (by positivity)]
    exact Nat.cast_eq_zero
  constructor
  · rintro ⟨hall, hcommits⟩
    have hclear := clear_of_commits hplain hletter hall
    exact ⟨hclear, (hrestart hclear).1 hcommits⟩
  · rintro ⟨hclear, hzeros⟩
    exact ⟨axis_word_commits hplain hclear hletter, (hrestart hclear).2 hzeros⟩

end Words

/-- `X0-2` is right, from between two lines. -/
theorem number_words_zero :
    Commits (.zero : Parser ℚ) .x [88, 48, 45, 50] (-2) := by
  have hdigits : ∀ b ∈ [(48 : UInt8)], IsDigit b := by
    intro b hb
    rw [List.mem_singleton.1 hb]
    exact ⟨by decide, by decide⟩
  have hdigits' : ∀ b ∈ [(50 : UInt8)], IsDigit b := by
    intro b hb
    rw [List.mem_singleton.1 hb]
    exact ⟨by decide, by decide⟩
  have hplain : Plain (committed (.zero : Parser ℚ)) := ⟨rfl, rfl, rfl⟩
  have hletter : wordOf (uppercase 88) = some (axisWord .x) := rfl
  have h := (number_words_iff hplain hletter hdigits hdigits').2 ⟨rfl, by simp⟩
  exact h.2

/-- `X1-2` and a line end commit `-12`. -/
theorem restart_keeps_digits :
    (parseChars (.zero : Parser ℚ) [88, 49, 45, 50, 10]).nextTarget.target.x = -12 ∧
      ¬Commits (.zero : Parser ℚ) .x [88, 49, 45, 50] (-2) := by
  have hx : (parseChars (.zero : Parser ℚ) [88, 49, 45, 50, 10]).nextTarget.target.x =
      -12 := by
    decide +kernel
  refine ⟨hx, fun h => ?_⟩
  have hline := h 10 rfl
  exact absurd (hx.symm.trans hline) (by decide +kernel)

end R2C2Firmware.Ports.AxisWords
