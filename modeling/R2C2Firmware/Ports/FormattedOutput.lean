import R2C2Firmware.Verified.Binary64
import R2C2Firmware.Ports.DecimalOutput

/-!
# The format language

What `sersendf` writes for any format, with strings of any length, which go through
`serial_writestr` and its index of eight bits, and with any numbers for
`serwrite_double`, whose conversions to an integer have a range and whose product
with 1000 is rounded.

A string that is not done after so many turns gives `none`, and so does a `double`
out of the range of an integer.

A format is made of pieces: ordinary characters, `%%` and conversions with their
arguments.  `Piece.rendering` is what a piece stands for.

## Main results

* `writestr_short`, `writestr_long` — which strings are written.
* `writeDouble_eq`, `writeDouble_none`, `writeDouble_ne` — which numbers are written
  as they should be.
* `loop_piece` — what is written for a piece.
* `sersendf_renders` — the formats that are written as they should be.
* `sersendf_of_formatted` — the callers' `sersendf` writes the same.
-/

namespace R2C2Firmware.Ports.FormattedOutput

open R2C2Firmware.Verified.Number
open R2C2Firmware.Verified.Binary64
open R2C2Firmware.Ports.Sermsg
open R2C2Firmware.Ports.DecimalOutput

/-! ## What may not come to a result -/

/-- `serial_writestr`, if it has come to the end of the string in so many turns. -/
def writestr (turns : Nat) (s : List UInt8) : Option (List UInt8) :=
  let (out, ended) := serialWritestr s turns 0
  if ended then some out else none

section Format

variable {R : Type*} [Field R] [LinearOrder R] [FloorRing R] [HasDouble R]

/-- The conversions of `serwrite_double` to a `uint32_t`, an `int32_t` and again a
`uint32_t` are those of numbers in range. -/
def Converts (v : R) : Prop :=
  let v := if v < 0 then -v else v
  (0 ≤ truncate v ∧ truncate v < 4294967296) ∧
    (-2147483648 ≤ truncate v ∧ truncate v < 2147483648) ∧
    0 ≤ truncate (scaledFraction v) ∧ truncate (scaledFraction v) < 4294967296

instance (v : R) : Decidable (Converts v) := inferInstanceAs (Decidable (_ ∧ _ ∧ _))

/-- `serwrite_double`, if its conversions are defined. -/
def writeDouble (v : R) : Option (List UInt8) :=
  if Converts v then some (serwriteDouble v) else none

/-- `sersendf`, with so many turns for every string. -/
def formatted (turns : Nat) (format : List UInt8) (args : List (Arg R)) :
    Option (List UInt8) :=
  sersendfLoop (writestr turns) writeDouble 0 format args

/-! ## Pieces of a format -/

/-- A piece of a format, with its argument. -/
inductive Piece (R : Type*) where
  | plain (c : UInt8)
  | percent
  | signed (long : Bool) (v : Int)
  | unsigned (long : Bool) (v : Int)
  | hex (long : Bool) (v : Int)
  | char (c : UInt8)
  | string (s : List UInt8)
  | double (v : R)

/-- The piece in the format. -/
def Piece.text : Piece R → List UInt8
  | .plain c => [c]
  | .percent => str "%%"
  | .signed long _ => if long then str "%ld" else str "%d"
  | .unsigned long _ => if long then str "%lu" else str "%u"
  | .hex long _ => if long then str "%lx" else str "%x"
  | .char _ => str "%c"
  | .string _ => str "%s"
  | .double _ => str "%g"

/-- The argument of the piece. -/
def Piece.args : Piece R → List (Arg R)
  | .plain _ | .percent => []
  | .signed _ v | .unsigned _ v | .hex _ v => [.int v]
  | .char c => [.int c.toNat]
  | .string s => [.string s]
  | .double v => [.double v]

/-- A digit in base 16: `0` to `9`, then `A` to `F`. -/
def hexDigit (d : Nat) : UInt8 := if d < 10 then (48 + d).toUInt8 else (55 + d).toUInt8

/-- The digits of a number in base 16, so many of them. -/
def hexDigits (count n : Nat) : List UInt8 :=
  (List.range count).reverse.map fun i => hexDigit (n / 16 ^ i % 16)

/-- A decimal with three fraction digits, the rest cut off. -/
def threePlaces (v : R) : List UInt8 :=
  let n := ⌊|v| * 1000⌋.toNat
  (if v < 0 then str "-" else []) ++ decimal (n / 1000) ++ str "." ++
    [digit (n / 100 % 10), digit (n / 10 % 10), digit (n % 10)]

/-- What the piece stands for. -/
def Piece.rendering : Piece R → List UInt8
  | .plain c => [c]
  | .percent => str "%"
  | .signed _ v => if v < 0 then str "-" ++ decimal (-v).toNat else decimal v.toNat
  | .unsigned _ v => decimal v.toNat
  | .hex long v => str "0x" ++ if long then hexDigits 8 v.toNat else hexDigits 4 v.toNat
  | .char c => [c]
  | .string s => s
  | .double v => threePlaces v

/-- An ordinary character is none of those that stand for something else; a number is
one of its type; a string ends at its zero. -/
def Piece.WellFormed : Piece R → Prop
  | .plain c => c ≠ 0 ∧ c ≠ 37
  | .percent => True
  | .signed _ v => -2147483648 ≤ v ∧ v < 2147483648
  | .unsigned _ v | .hex _ v => 0 ≤ v ∧ v < 4294967296
  | .char _ => True
  | .string s => (0 : UInt8) ∉ s
  | .double _ => True

/-- The product with 1000, rounded, has the whole part of the exact one. -/
def PlacesKept (v : R) : Prop :=
  ⌊toDouble (toDouble (Int.fract |v|) * 1000)⌋ = ⌊Int.fract |v| * 1000⌋

instance (v : R) : Decidable (PlacesKept v) := inferInstanceAs (Decidable (_ = _))

/-- The piece is written as it should be: it is not `%%`, a string is short enough for
an index of eight bits, a number is in the range of an `int32_t` and the rounding
does not carry it to other thousandths. -/
def Piece.Fits : Piece R → Prop
  | .percent => False
  | .string s => s.length ≤ 255
  | .double v => |v| < 2147483648 ∧ PlacesKept v
  | _ => True

/-! ## Strings -/

/-- A string of at most 255 characters is written. -/
theorem serialWritestr_from {pre s : List UInt8} {i : UInt8} {turns : Nat}
    (hi : i.toNat = pre.length) (hs : (0 : UInt8) ∉ s)
    (hshort : pre.length + s.length ≤ 255) (hturns : s.length < turns) :
    serialWritestr (pre ++ s) turns i = (s, true) := by
  induction s generalizing pre i turns with
  | nil =>
      obtain ⟨turns, rfl⟩ : ∃ k, turns = k + 1 := ⟨turns - 1, by simp at hturns; omega⟩
      have hend : (pre ++ []).getD i.toNat 0 = 0 := by
        rw [hi, List.append_nil, List.getD_eq_default _ _ le_rfl]
      rw [serialWritestr, if_pos hend]
  | cons c s ih =>
      simp only [List.mem_cons, not_or, List.length_cons] at hs hshort hturns
      obtain ⟨turns, rfl⟩ : ∃ k, turns = k + 1 := ⟨turns - 1, by omega⟩
      have hnext : (i + 1).toNat = (pre ++ [c]).length := by
        rw [UInt8.toNat_add, hi, List.length_append]
        show (pre.length + 1) % 256 = pre.length + 1
        omega
      have hrest := ih hnext hs.2 (by simp; omega) (show s.length < turns by omega)
      rw [List.append_assoc, List.singleton_append] at hrest
      have hc : (pre ++ c :: s).getD i.toNat 0 = c := by
        rw [hi, List.getD_append_right _ _ _ _ le_rfl, Nat.sub_self]
        rfl
      rw [serialWritestr, if_neg (by rw [hc]; exact Ne.symm hs.1), hc]
      dsimp only
      rw [hrest]

theorem writestr_short {s : List UInt8} (hs : (0 : UInt8) ∉ s) (hshort : s.length ≤ 255)
    {turns : Nat} (hturns : 256 ≤ turns) : writestr turns s = some s := by
  have hstart : (0 : UInt8).toNat = ([] : List UInt8).length := rfl
  have hall := serialWritestr_from hstart hs (by simpa using hshort)
    (show s.length < turns by omega)
  rw [List.nil_append] at hall
  rw [writestr, hall]
  rfl

/-- The index never reaches the end of a longer one. -/
theorem serialWritestr_long {s : List UInt8} (hs : (0 : UInt8) ∉ s)
    (hlong : 256 ≤ s.length) (turns : Nat) (i : UInt8) :
    (serialWritestr s turns i).2 = false := by
  induction turns generalizing i with
  | zero => rfl
  | succ turns ih =>
      have hi : i.toNat < s.length := by
        have hbyte := i.toNat_lt
        omega
      have hne : s.getD i.toNat 0 ≠ 0 := by
        rw [List.getD_eq_getElem _ _ hi]
        exact fun h => hs (h ▸ List.getElem_mem hi)
      rw [serialWritestr, if_neg hne]
      exact ih (i + 1)

theorem writestr_long {s : List UInt8} (hs : (0 : UInt8) ∉ s) (hlong : 256 ≤ s.length)
    (turns : Nat) : writestr turns s = none := by
  have hopen := serialWritestr_long hs hlong turns 0
  unfold writestr
  dsimp only
  rw [hopen]
  rfl

/-! ## Hexadecimal numbers -/

theorem serwriteHex4_eq (v : Nat) : serwriteHex4 v = [hexDigit (v % 16)] := by
  unfold serwriteHex4 hexDigit
  dsimp only
  split <;> rfl

theorem serwriteHex8_eq (v : Nat) :
    serwriteHex8 v = [hexDigit (v / 16 % 16), hexDigit (v % 16)] := by
  have h₁ : v % 256 / 16 % 16 = v / 16 % 16 := by omega
  have h₀ : v % 256 % 16 % 16 = v % 16 := by omega
  rw [serwriteHex8, serwriteHex4_eq, serwriteHex4_eq, h₁, h₀]
  rfl

theorem serwriteHex16_eq (v : Nat) : serwriteHex16 v = hexDigits 4 v := by
  have h₃ : v % 65536 / 256 / 16 % 16 = v / 16 ^ 3 % 16 := by omega
  have h₂ : v % 65536 / 256 % 16 = v / 16 ^ 2 % 16 := by omega
  have h₁ : v % 65536 % 256 / 16 % 16 = v / 16 ^ 1 % 16 := by omega
  have h₀ : v % 65536 % 256 % 16 = v / 16 ^ 0 % 16 := by omega
  rw [serwriteHex16, serwriteHex8_eq, serwriteHex8_eq, h₃, h₂, h₁, h₀]
  rfl

theorem serwriteHex32_eq (v : Nat) : serwriteHex32 v = hexDigits 8 v := by
  have hhigh : ∀ i, v / 65536 / 16 ^ i % 16 = v / 16 ^ (i + 4) % 16 := by
    intro i
    rw [Nat.div_div_eq_div_mul, pow_add, Nat.mul_comm (16 ^ i)]
    rfl
  have hlow : ∀ i ≤ 3, v % 65536 / 16 ^ i % 16 = v / 16 ^ i % 16 := by
    intro i hi
    interval_cases i <;> omega
  rw [serwriteHex32, serwriteHex16_eq, serwriteHex16_eq]
  show [hexDigit (v / 65536 / 16 ^ 3 % 16), hexDigit (v / 65536 / 16 ^ 2 % 16),
    hexDigit (v / 65536 / 16 ^ 1 % 16), hexDigit (v / 65536 / 16 ^ 0 % 16),
    hexDigit (v % 65536 / 16 ^ 3 % 16), hexDigit (v % 65536 / 16 ^ 2 % 16),
    hexDigit (v % 65536 / 16 ^ 1 % 16), hexDigit (v % 65536 / 16 ^ 0 % 16)] = _
  rw [hhigh, hhigh, hhigh, hhigh, hlow 3 (by decide), hlow 2 (by decide),
    hlow 1 (by decide), hlow 0 (by decide)]
  rfl

/-! ## Numbers with a fraction -/

/-- Thousandths, with the zeros that are put in front. -/
def padded (p : Nat) : List UInt8 :=
  (if p < 100 then str "0" else []) ++ (if p < 10 then str "0" else []) ++ decimal p

/-- Less than a thousand of them take three digits. -/
theorem padded_places {p : Nat} (hp : p < 1000) :
    padded p = [digit (p / 100), digit (p / 10 % 10), digit (p % 10)] := by
  have hzero : str "0" = [digit 0] := rfl
  unfold padded
  rcases Nat.lt_or_ge p 10 with h10 | h10
  · rw [if_pos (show p < 100 by omega), if_pos h10, decimal_of_lt h10, hzero,
      show p / 100 = 0 by omega, show p / 10 % 10 = 0 by omega, show p % 10 = p by omega]
    rfl
  · have hp' : p = p / 10 * 10 + p % 10 := by omega
    have hlast : decimal p = decimal (p / 10) ++ [digit (p % 10)] := by
      rw [← decimal_push (show 0 < p / 10 by omega) (show p % 10 < 10 by omega), ← hp']
    rw [if_neg (show ¬p < 10 by omega), hlast]
    rcases Nat.lt_or_ge p 100 with h100 | h100
    · rw [if_pos h100, decimal_of_lt (show p / 10 < 10 by omega), hzero,
        show p / 100 = 0 by omega, show p / 10 % 10 = p / 10 by omega]
      rfl
    · have hmid : decimal (p / 10) = decimal (p / 100) ++ [digit (p / 10 % 10)] := by
        rw [← decimal_push (show 0 < p / 100 by omega) (show p / 10 % 10 < 10 by omega)]
        congr 1
        omega
      rw [if_neg (show ¬p < 100 by omega), hmid, decimal_of_lt (show p / 100 < 10 by omega)]
      rfl

theorem digit_inj {a b : Nat} (ha : a < 10) (hb : b < 10) (h : digit a = digit b) :
    a = b := by
  have hone : ∀ {t : Nat}, t < 10 → (digit t).toNat = t + 48 := fun {t} ht => by
    unfold digit
    rw [UInt8.toNat_ofNat_of_lt' (by show t + 48 < 256; omega)]
  have heq := congrArg UInt8.toNat h
  rw [hone ha, hone hb] at heq
  omega

/-- Different thousandths are told apart, whatever follows; a thousand of them, with
four digits, from five hundred and more. -/
theorem padded_append_ne {p q : Nat} (hp : p < 1000) (hq : q ≤ 1000)
    (hhigh : q = 1000 → 500 ≤ p) (hne : q ≠ p) (w z : List UInt8) :
    padded q ++ w ≠ padded p ++ z := by
  intro heq
  rw [padded_places hp] at heq
  by_cases hq' : q < 1000
  · rw [padded_places hq'] at heq
    simp only [List.cons_append, List.nil_append, List.cons.injEq] at heq
    obtain ⟨h₂, h₁, h₀, -⟩ := heq
    have hhundreds := digit_inj (show q / 100 < 10 by omega) (show p / 100 < 10 by omega) h₂
    have htens := digit_inj (show q / 10 % 10 < 10 by omega) (show p / 10 % 10 < 10 by omega) h₁
    have hones := digit_inj (show q % 10 < 10 by omega) (show p % 10 < 10 by omega) h₀
    omega
  · obtain rfl : q = 1000 := by omega
    have hlow := hhigh rfl
    have hthousand : padded 1000 = [digit 1, digit 0, digit 0, digit 0] := by decide +kernel
    rw [hthousand] at heq
    simp only [List.cons_append, List.cons.injEq] at heq
    have hhundreds := digit_inj (show 1 < 10 by omega) (show p / 100 < 10 by omega) heq.1
    omega

section Rounding

variable [IsStrictOrderedRing R]

omit [FloorRing R] [HasDouble R] in
theorem magnitude_eq_abs (v : R) : (if v < 0 then -v else v) = |v| := by
  split
  · next h => exact (abs_of_neg h).symm
  · next h => exact (abs_of_nonneg (not_lt.1 h)).symm

omit [HasDouble R] [IsStrictOrderedRing R] in
theorem truncate_of_nonneg {v : R} (hv : 0 ≤ v) : truncate v = ⌊v⌋ := if_pos hv

omit [HasDouble R] in
/-- The thousandths of a fraction are fewer than a thousand. -/
theorem floor_fract_range (v : R) :
    0 ≤ ⌊Int.fract v * 1000⌋ ∧ ⌊Int.fract v * 1000⌋ < 1000 := by
  have hlo := Int.fract_nonneg v
  have hhi := Int.fract_lt_one v
  constructor
  · rw [Int.le_floor, Int.cast_zero]
    positivity
  · rw [Int.floor_lt]
    push_cast
    linarith

omit [HasDouble R] in
/-- A number with three places is its sign, its whole part and its thousandths. -/
theorem threePlaces_eq (v : R) :
    threePlaces v = (if v < 0 then str "-" else []) ++ decimal ⌊|v|⌋.toNat ++ str "." ++
      padded ⌊Int.fract |v| * 1000⌋.toNat := by
  obtain ⟨k, hk⟩ : ∃ k : Nat, ⌊|v|⌋ = k :=
    Int.eq_ofNat_of_zero_le (Int.floor_nonneg.2 (abs_nonneg v))
  obtain ⟨hplo, hphi⟩ := floor_fract_range |v|
  obtain ⟨p, hp⟩ : ∃ p : Nat, ⌊Int.fract |v| * 1000⌋ = p := Int.eq_ofNat_of_zero_le hplo
  have hn : ⌊|v| * 1000⌋ = ((k * 1000 + p : Nat) : Int) := by
    have hsplit : |v| * 1000 = Int.fract |v| * 1000 + ((k * 1000 : Int) : R) := by
      have hfract : |v| = Int.fract |v| + ((k : Int) : R) := by
        rw [← hk]
        exact (Int.fract_add_floor |v|).symm
      rw [hfract, Int.fract_add_intCast, Int.fract_fract]
      push_cast
      ring
    rw [hsplit, Int.floor_add_intCast, hp]
    push_cast
    ring
  rw [threePlaces, hn, hk, hp]
  simp only [Int.toNat_natCast]
  rw [padded_places (show p < 1000 by omega), show (k * 1000 + p) / 1000 = k by omega,
    show (k * 1000 + p) / 100 % 10 = p / 100 by omega,
    show (k * 1000 + p) / 10 % 10 = p / 10 % 10 by omega,
    show (k * 1000 + p) % 10 = p % 10 by omega]

/-- What is printed behind the point, for a number in range. -/
theorem scaledFraction_eq {v : R} (hv : |v| < 2147483648) :
    scaledFraction |v| = toDouble (toDouble (Int.fract |v|) * 1000) := by
  have hlo := Int.floor_nonneg.2 (abs_nonneg v)
  have hhi : ⌊|v|⌋ < 2147483648 := by
    rw [Int.floor_lt]
    exact_mod_cast hv
  rw [scaledFraction, truncate_of_nonneg (abs_nonneg v), int32_of_range (by omega) hhi]
  rfl

variable [LawfulDouble R]

/-- The rounding keeps the fraction times 1000 between 0 and 1000, and a fraction of
less than a half below 500. -/
theorem scaled_range (v : R) :
    0 ≤ toDouble (toDouble (Int.fract v) * 1000) ∧
      toDouble (toDouble (Int.fract v) * 1000) ≤ 1000 ∧
      (Int.fract v ≤ 1 / 2 → toDouble (toDouble (Int.fract v) * 1000) ≤ 500) := by
  have hzero : toDouble (0 : R) = 0 := by
    have h := toDouble_natCast (R := R) (n := 0) (by norm_num)
    rwa [Nat.cast_zero] at h
  have hone : toDouble (1 : R) = 1 := by
    have h := toDouble_natCast (R := R) (n := 1) (by norm_num)
    rwa [Nat.cast_one] at h
  have hhalf : toDouble (1 / 2 : R) = 1 / 2 := by
    have h := LawfulDouble.toDouble_dyadic (R := R) 1 1 (by norm_num) (by norm_num)
    rwa [Int.cast_one, pow_one] at h
  have hthousand : toDouble (1000 : R) = 1000 := by
    have h := toDouble_natCast (R := R) (n := 1000) (by norm_num)
    exact_mod_cast h
  have hfive : toDouble (500 : R) = 500 := by
    have h := toDouble_natCast (R := R) (n := 500) (by norm_num)
    exact_mod_cast h
  have hlo : 0 ≤ toDouble (Int.fract v) := le_toDouble hzero (Int.fract_nonneg v)
  have hhi : toDouble (Int.fract v) ≤ 1 := toDouble_le hone (Int.fract_lt_one v).le
  refine ⟨le_toDouble hzero (by positivity), toDouble_le hthousand (by linarith),
    fun hlow => ?_⟩
  have hhalf' := toDouble_le hhalf hlow
  exact toDouble_le hfive (by linarith)

/-- What is printed behind the point is at most 1000, and 1000 only where the fraction
is a half or more. -/
theorem scaled_floor (v : R) :
    0 ≤ ⌊toDouble (toDouble (Int.fract v) * 1000)⌋ ∧
      ⌊toDouble (toDouble (Int.fract v) * 1000)⌋ ≤ 1000 ∧
      (⌊toDouble (toDouble (Int.fract v) * 1000)⌋ = 1000 →
        500 ≤ ⌊Int.fract v * 1000⌋) := by
  obtain ⟨hlo, hhi, hlow⟩ := scaled_range v
  have hle : ∀ {x : R} {n : Nat}, x ≤ n → ⌊x⌋ ≤ n := fun {x n} h =>
    (Int.floor_le_floor h).trans_eq (Int.floor_natCast n)
  refine ⟨Int.floor_nonneg.2 hlo, hle (by exact_mod_cast hhi), fun hq => ?_⟩
  by_contra hp
  have hhalf : Int.fract v ≤ 1 / 2 := by
    have hlt : Int.fract v * 1000 < (500 : Int) := Int.floor_lt.1 (by omega)
    push_cast at hlt
    linarith
  have hfive : ⌊toDouble (toDouble (Int.fract v) * 1000)⌋ ≤ (500 : Nat) :=
    hle (by exact_mod_cast hlow hhalf)
  omega

omit [HasDouble R] [IsStrictOrderedRing R] [LawfulDouble R] in
/-- The tests for the zeros are those of the whole part. -/
theorem padded_eq {x : R} {q : Nat} (hq : ⌊x⌋ = q) :
    (if x < 100 then str "0" else []) ++ (if x < 10 then str "0" else []) ++ decimal q =
      padded q := by
  have hlt : ∀ b : Nat, x < b ↔ q < b := by
    intro b
    have h := Int.floor_lt (z := (b : Int)) (a := x)
    rw [hq] at h
    exact_mod_cast h.symm
  have h100 : x < 100 ↔ q < 100 := by exact_mod_cast hlt 100
  have h10 : x < 10 ↔ q < 10 := by exact_mod_cast hlt 10
  unfold padded
  simp only [h100, h10]

/-- A number in range is written in three parts. -/
theorem serwriteDouble_eq {v : R} (hv : |v| < 2147483648) :
    serwriteDouble v = (if v < 0 then str "-" else []) ++ decimal ⌊|v|⌋.toNat ++ str "." ++
      padded ⌊toDouble (toDouble (Int.fract |v|) * 1000)⌋.toNat := by
  have hscaled := scaledFraction_eq hv
  have hxlo := (scaled_range |v|).1
  obtain ⟨hqlo, hqhi, -⟩ := scaled_floor |v|
  rw [← hscaled] at hxlo hqlo hqhi ⊢
  have hfloor := Int.floor_nonneg.2 (abs_nonneg v)
  have hfloor' : ⌊|v|⌋ < 2147483648 := by
    rw [Int.floor_lt]
    exact_mod_cast hv
  obtain ⟨q, hq⟩ : ∃ q : Nat, ⌊scaledFraction |v|⌋ = q := Int.eq_ofNat_of_zero_le hqlo
  rw [hq] at hqhi
  unfold serwriteDouble
  dsimp only
  rw [magnitude_eq_abs, truncate_of_nonneg (abs_nonneg v), truncate_of_nonneg hxlo,
    uint32_of_range hfloor (by omega), hq, uint32_of_range (by omega) (by omega),
    Int.toNat_natCast, ← padded_eq hq, serwriteUint32_decimal (by omega),
    serwriteUint32_decimal (by omega)]
  simp only [List.append_assoc]

/-- The conversions of a number are defined exactly if it is in range. -/
theorem converts_iff (v : R) : Converts v ↔ |v| < 2147483648 := by
  unfold Converts
  rw [magnitude_eq_abs]
  dsimp only
  rw [truncate_of_nonneg (abs_nonneg v)]
  constructor
  · rintro ⟨-, ⟨-, hhi⟩, -⟩
    rw [Int.floor_lt] at hhi
    exact_mod_cast hhi
  · intro hv
    have hxlo := (scaled_range |v|).1
    obtain ⟨hqlo, hqhi, -⟩ := scaled_floor |v|
    rw [← scaledFraction_eq hv] at hxlo hqlo hqhi
    have hlo := Int.floor_nonneg.2 (abs_nonneg v)
    have hhi : ⌊|v|⌋ < 2147483648 := by
      rw [Int.floor_lt]
      exact_mod_cast hv
    rw [truncate_of_nonneg hxlo]
    exact ⟨⟨hlo, by omega⟩, ⟨by omega, hhi⟩, hqlo, by omega⟩

/-- A number out of the range of an `int32_t` is not written. -/
theorem writeDouble_none {v : R} (hv : ¬|v| < 2147483648) : writeDouble v = none :=
  if_neg (mt (converts_iff v).1 hv)

/-- A number in range is written with three places, if the rounding keeps them. -/
theorem writeDouble_eq {v : R} (hv : |v| < 2147483648) (hkept : PlacesKept v) :
    writeDouble v = some (threePlaces v) := by
  rw [writeDouble, if_pos ((converts_iff v).2 hv), serwriteDouble_eq hv, hkept,
    threePlaces_eq]

/-- Otherwise something else is written, whatever follows. -/
theorem writeDouble_ne {v : R} (hv : |v| < 2147483648) (hkept : ¬PlacesKept v)
    (w z : List UInt8) : serwriteDouble v ++ w ≠ threePlaces v ++ z := by
  obtain ⟨hqlo, hqhi, hhigh⟩ := scaled_floor |v|
  obtain ⟨hplo, hphi⟩ := floor_fract_range |v|
  rw [serwriteDouble_eq hv, threePlaces_eq, List.append_assoc _ (padded _) w,
    List.append_assoc _ (padded _) z]
  refine fun heq => padded_append_ne (by omega) (by omega) (fun h => ?_) (fun h => ?_) w z
    (List.append_cancel_left heq)
  · have := hhigh (by omega)
    omega
  · exact hkept (by unfold PlacesKept; omega)

end Rounding

/-! ## Pieces -/

section Loop

variable {w : List UInt8 → Option (List UInt8)} {d : R → Option (List UInt8)}

omit [Field R] [LinearOrder R] [FloorRing R] [HasDouble R]

/-- What is written for a piece. -/
def Piece.emit (w : List UInt8 → Option (List UInt8)) (d : R → Option (List UInt8)) :
    Piece R → Option (List UInt8)
  | .plain c => some [c]
  | .percent => some []
  | .signed _ v => some (serwriteInt32 (int32 v))
  | .unsigned _ v => some (serwriteUint32 (uint32 v).toNat)
  | .hex long v =>
      (w (str "0x")).map fun out =>
        out ++ if long then serwriteHex32 (uint32 v).toNat else serwriteHex16 (uint32 v).toNat
  | .char c => some [c]
  | .string s => w s
  | .double v => d v

theorem loop_percent (format : List UInt8) (args : List (Arg R)) :
    sersendfLoop w d 0 (37 :: format) args = sersendfLoop w d 2 format args := by
  rw [sersendfLoop, if_neg (by decide), if_pos rfl]

theorem loop_long (format : List UInt8) (args : List (Arg R)) :
    sersendfLoop w d 2 (108 :: format) args = sersendfLoop w d 4 format args := by
  rw [sersendfLoop, if_pos (by decide), conversion, if_pos rfl, Option.bind_some]
  show (sersendfLoop w d 4 format args).map ([] ++ ·) = _
  cases sersendfLoop w d 4 format args <;> rfl

theorem loop_conversion {j c : UInt8} {format : List UInt8} {args args' : List (Arg R)}
    {emitted : Option (List UInt8)} (hj : j ≠ 0)
    (h : conversion w d j c args = emitted.map fun out => (0, out, args')) :
    sersendfLoop w d j (c :: format) args =
      emitted.bind fun out => (sersendfLoop w d 0 format args').map (out ++ ·) := by
  rw [sersendfLoop, if_pos hj, h, Option.bind_map]
  rfl

theorem uint8_byte (c : UInt8) : (uint8 c.toNat).toNat.toUInt8 = c := by
  have hbyte := c.toNat_lt
  have hrange : uint8 c.toNat = c.toNat := by
    unfold uint8 wrapUnsigned
    omega
  rw [hrange, Int.toNat_natCast]
  exact UInt8.ofNat_toNat

/-- The loop over one piece and what follows. -/
theorem loop_piece {x : Piece R} (hx : x.WellFormed) (format : List UInt8)
    (args : List (Arg R)) :
    sersendfLoop w d 0 (x.text ++ format) (x.args ++ args) =
      (x.emit w d).bind fun out => (sersendfLoop w d 0 format args).map (out ++ ·) := by
  cases x with
  | plain c =>
      show sersendfLoop w d 0 (c :: format) args = _
      rw [sersendfLoop, if_neg (by decide), if_neg hx.2]
      rfl
  | percent => exact (loop_percent _ args).trans (loop_conversion (by decide) rfl)
  | signed long v =>
      cases long with
      | false => exact (loop_percent _ _).trans (loop_conversion (by decide) rfl)
      | true =>
          exact (loop_percent _ _).trans
            ((loop_long _ _).trans (loop_conversion (by decide) rfl))
  | unsigned long v =>
      have hconv : ∀ j : UInt8, conversion w d j 117 (.int v :: args) =
          (some (serwriteUint32 (uint32 v).toNat)).map fun out => (0, out, args) := by
        intro j
        rw [conversion, if_neg (by decide), if_pos rfl, vaInt]
        simp only [serwriteUint16, ite_self, Option.map_some]
      cases long with
      | false =>
          exact (loop_percent _ _).trans (loop_conversion (by decide) (hconv 2))
      | true =>
          exact (loop_percent _ _).trans
            ((loop_long _ _).trans (loop_conversion (by decide) (hconv 4)))
  | hex long v =>
      have hconv : ∀ j : UInt8, conversion w d j 120 (.int v :: args) =
          ((w (str "0x")).map fun out =>
            out ++ if j = 4 then serwriteHex32 (uint32 v).toNat
              else serwriteHex16 (uint32 v).toNat).map fun out => (0, out, args) := by
        intro j
        rw [conversion]
        cases w (str "0x") <;> rfl
      cases long with
      | false =>
          exact (loop_percent _ _).trans (loop_conversion (by decide) (hconv 2))
      | true =>
          exact (loop_percent _ _).trans
            ((loop_long _ _).trans (loop_conversion (by decide) (hconv 4)))
  | char c =>
      have hconv : conversion w d 2 99 (.int c.toNat :: args : List (Arg R)) =
          some (0, [(uint8 c.toNat).toNat.toUInt8], args) := rfl
      rw [uint8_byte] at hconv
      exact (loop_percent _ _).trans (loop_conversion (by decide) hconv)
  | string s => exact (loop_percent _ _).trans (loop_conversion (by decide) rfl)
  | double v => exact (loop_percent _ _).trans (loop_conversion (by decide) rfl)

end Loop

/-! ## All of a format -/

section Rendering

variable [IsStrictOrderedRing R] [LawfulDouble R]

/-- A piece that fits is written as what it stands for. -/
theorem emit_fits {turns : Nat} (hturns : 256 ≤ turns) {x : Piece R} (hx : x.WellFormed)
    (hfits : x.Fits) :
    x.emit (writestr turns) writeDouble = some x.rendering := by
  cases x with
  | plain c => rfl
  | percent => exact hfits.elim
  | signed long v =>
      rw [Piece.emit, Piece.rendering, int32_of_range hx.1 hx.2,
        serwriteInt32_decimal hx.1 hx.2]
  | unsigned long v =>
      have hrange := uint32_of_range hx.1 hx.2
      rw [Piece.emit, Piece.rendering, hrange, serwriteUint32_decimal]
      have hhi := hx.2
      omega
  | hex long v =>
      have hox := writestr_short (s := str "0x") (by decide) (by decide) hturns
      rw [Piece.emit, Piece.rendering, hox, uint32_of_range hx.1 hx.2,
        serwriteHex32_eq, serwriteHex16_eq]
      rfl
  | char c => rfl
  | string s => exact writestr_short hx hfits hturns
  | double v => exact writeDouble_eq hfits.1 hfits.2

omit [IsStrictOrderedRing R] [LawfulDouble R] in
/-- A number is printed without a percent sign. -/
theorem serwriteDouble_percent (v : R) (l : List UInt8) (n : Nat) (z : List UInt8) :
    serwriteDouble v ++ l ≠ List.replicate (n + 1) 37 ++ z := by
  have hnumeric := serwriteDouble_numeric v
  cases hwritten : serwriteDouble v with
  | nil =>
      unfold serwriteDouble at hwritten
      have hpoint : str "." = [] := by
        simp only [List.append_eq_nil_iff] at hwritten
        exact hwritten.1.1.1.2
      exact absurd hpoint (by decide)
  | cons c t =>
      intro heq
      obtain rfl : c = 37 := (List.cons.inj heq).1
      have hpercent := hnumeric 37 (by rw [hwritten]; exact List.mem_cons_self)
      unfold IsNumeric IsDigit at hpercent
      exact absurd hpercent (by decide)

/-- What is written for a piece that does not fit: nothing for `%%`, and for a number
something that does not start what it stands for. -/
theorem emit_not_fits {turns : Nat} {x : Piece R} (hx : x.WellFormed) (hfits : ¬x.Fits)
    {out : List UInt8} (h : x.emit (writestr turns) writeDouble = some out) :
    (out = [] ∧ x.rendering = [37]) ∨
      ∃ v : R, out = serwriteDouble v ∧ ∀ w z, out ++ w ≠ x.rendering ++ z := by
  cases x with
  | percent => exact .inl ⟨(Option.some.inj h).symm, rfl⟩
  | string s =>
      have hlong : 256 ≤ s.length := by
        by_contra hshort
        exact hfits (show s.length ≤ 255 by omega)
      rw [Piece.emit, writestr_long hx hlong] at h
      cases h
  | double v =>
      by_cases hv : |v| < 2147483648
      · have hwritten : serwriteDouble v = out := by
          rw [Piece.emit, writeDouble, if_pos ((converts_iff v).2 hv)] at h
          exact Option.some.inj h
        have hne := writeDouble_ne hv fun hkept => hfits ⟨hv, hkept⟩
        rw [hwritten] at hne
        exact .inr ⟨v, hwritten.symm, hne⟩
      · rw [Piece.emit, writeDouble_none hv] at h
        cases h
  | _ => exact absurd trivial hfits

/-- Behind some percent signs, the same text is left out on both sides. -/
theorem cancel_behind {c : UInt8} {n : Nat} {s w z : List UInt8}
    (h : s ++ w = List.replicate n c ++ (s ++ z)) : w = List.replicate n c ++ z := by
  induction s with
  | nil => exact h
  | cons a s ih =>
      cases n with
      | zero => exact List.append_cancel_left h
      | succ n =>
          obtain ⟨rfl, htail⟩ := List.cons.inj h
          refine ih (htail.trans ?_)
          rw [List.replicate_succ', List.append_assoc]
          rfl

/-- A percent sign that is left out is not made up for by what follows. -/
theorem formatted_short {turns : Nat} (hturns : 256 ≤ turns) {pieces : List (Piece R)}
    (hpieces : ∀ x ∈ pieces, x.WellFormed) {n : Nat} {out : List UInt8}
    (h : formatted turns (pieces.flatMap Piece.text) (pieces.flatMap Piece.args) =
      some out) :
    out ≠ List.replicate (n + 1) 37 ++ pieces.flatMap Piece.rendering := by
  induction pieces generalizing n out with
  | nil =>
      obtain rfl : [] = out := Option.some.inj h
      simp [List.replicate_succ]
  | cons x pieces ih =>
      obtain ⟨hx, hpieces⟩ := List.forall_mem_cons.1 hpieces
      rw [List.flatMap_cons, List.flatMap_cons, formatted, loop_piece hx] at h
      obtain ⟨written, hemit, hrest⟩ := Option.bind_eq_some_iff.1 h
      obtain ⟨rest, hloop, rfl⟩ := Option.map_eq_some_iff.1 hrest
      rw [List.flatMap_cons]
      intro heq
      by_cases hfits : x.Fits
      · obtain rfl : x.rendering = written :=
          Option.some.inj ((emit_fits hturns hx hfits).symm.trans hemit)
        exact ih hpieces hloop (cancel_behind heq)
      · rcases emit_not_fits hx hfits hemit with ⟨rfl, hpercent⟩ | ⟨v, rfl, -⟩
        · -- one more is missing
          rw [hpercent, ← List.append_assoc] at heq
          refine ih hpieces hloop (n := n + 1) (heq.trans ?_)
          rw [List.replicate_succ' (n := n + 1)]
        · exact serwriteDouble_percent v rest n _ heq

/-- If what is written is what the format stands for, then every piece fits. -/
theorem fits_of_formatted {turns : Nat} (hturns : 256 ≤ turns) {pieces : List (Piece R)}
    (hpieces : ∀ x ∈ pieces, x.WellFormed)
    (h : formatted turns (pieces.flatMap Piece.text) (pieces.flatMap Piece.args) =
      some (pieces.flatMap Piece.rendering)) :
    ∀ x ∈ pieces, x.Fits := by
  induction pieces with
  | nil => simp
  | cons x pieces ih =>
      obtain ⟨hx, hpieces⟩ := List.forall_mem_cons.1 hpieces
      rw [List.flatMap_cons, List.flatMap_cons, formatted, loop_piece hx] at h
      obtain ⟨written, hemit, hrest⟩ := Option.bind_eq_some_iff.1 h
      obtain ⟨rest, hloop, heq⟩ := Option.map_eq_some_iff.1 hrest
      rw [List.flatMap_cons] at heq
      by_cases hfits : x.Fits
      · obtain rfl : x.rendering = written :=
          Option.some.inj ((emit_fits hturns hx hfits).symm.trans hemit)
        rw [List.append_cancel_left heq] at hloop
        exact List.forall_mem_cons.2 ⟨hfits, ih hpieces hloop⟩
      · rcases emit_not_fits hx hfits hemit with ⟨rfl, hpercent⟩ | ⟨v, -, hne⟩
        · rw [hpercent] at heq
          exact absurd heq (formatted_short hturns hpieces hloop (n := 0))
        · exact absurd heq (hne _ _)

/-- If every piece fits, what the format stands for is written. -/
theorem formatted_of_fits {turns : Nat} (hturns : 256 ≤ turns) {pieces : List (Piece R)}
    (hpieces : ∀ x ∈ pieces, x.WellFormed) (hfits : ∀ x ∈ pieces, x.Fits) :
    formatted turns (pieces.flatMap Piece.text) (pieces.flatMap Piece.args) =
      some (pieces.flatMap Piece.rendering) := by
  induction pieces with
  | nil => rfl
  | cons x pieces ih =>
      obtain ⟨hx, hpieces⟩ := List.forall_mem_cons.1 hpieces
      obtain ⟨hxfits, hfits⟩ := List.forall_mem_cons.1 hfits
      have hrest := ih hpieces hfits
      rw [formatted] at hrest ⊢
      rw [List.flatMap_cons, List.flatMap_cons, loop_piece hx,
        emit_fits hturns hx hxfits, Option.bind_some, hrest, Option.map_some,
        List.flatMap_cons]

/-- `sersendf` writes what a format stands for, exactly when every piece of it fits. -/
theorem sersendf_renders {pieces : List (Piece R)} (hpieces : ∀ x ∈ pieces, x.WellFormed) :
    (∃ enough, ∀ turns, enough ≤ turns →
      formatted turns (pieces.flatMap Piece.text) (pieces.flatMap Piece.args) =
        some (pieces.flatMap Piece.rendering)) ↔
      ∀ x ∈ pieces, x.Fits := by
  constructor
  · rintro ⟨enough, h⟩
    exact fits_of_formatted (le_max_right enough 256) hpieces (h _ (le_max_left _ _))
  · exact fun hfits => ⟨256, fun turns hturns => formatted_of_fits hturns hpieces hfits⟩

end Rendering

/-! ## The callers -/

/-- A piece that is written is written for the callers too. -/
theorem emit_callers {turns : Nat} (hturns : 256 ≤ turns) {x : Piece R} (hx : x.WellFormed)
    {out : List UInt8} (h : x.emit (writestr turns) writeDouble = some out) :
    x.emit some (fun v => some (serwriteDouble v)) = some out := by
  have hshort : ∀ {s t : List UInt8}, (0 : UInt8) ∉ s → writestr turns s = some t →
      s = t := by
    intro s t hs ht
    by_cases hlen : s.length ≤ 255
    · rw [writestr_short hs hlen hturns] at ht
      exact Option.some.inj ht
    · rw [writestr_long hs (by omega)] at ht
      cases ht
  cases x with
  | hex long v =>
      obtain ⟨ox, hox, rfl⟩ := Option.map_eq_some_iff.1 h
      rw [← hshort (by decide) hox]
      rfl
  | string s =>
      obtain rfl := hshort hx h
      rfl
  | double v =>
      rw [Piece.emit, writeDouble] at h
      split at h
      · exact h
      · cases h
  | _ => exact h

/-- What is written is written by the `sersendf` of the callers too. -/
theorem sersendf_of_formatted {turns : Nat} (hturns : 256 ≤ turns)
    {pieces : List (Piece R)} (hpieces : ∀ x ∈ pieces, x.WellFormed) {format : String}
    (hformat : str format = pieces.flatMap Piece.text) {out : List UInt8}
    (h : formatted turns (str format) (pieces.flatMap Piece.args) = some out) :
    sersendf format (pieces.flatMap Piece.args) = out := by
  have hloop : ∀ {out : List UInt8},
      sersendfLoop (writestr turns) writeDouble 0 (pieces.flatMap Piece.text)
        (pieces.flatMap Piece.args) = some out →
      sersendfLoop some (fun v => some (serwriteDouble v)) 0
        (pieces.flatMap Piece.text) (pieces.flatMap Piece.args) = some out := by
    clear h hformat
    induction pieces with
    | nil => exact fun h => h
    | cons x pieces ih =>
        obtain ⟨hx, hpieces⟩ := List.forall_mem_cons.1 hpieces
        intro out h
        rw [List.flatMap_cons, List.flatMap_cons, loop_piece hx] at h ⊢
        obtain ⟨written, hemit, hrest⟩ := Option.bind_eq_some_iff.1 h
        obtain ⟨rest, hbehind, rfl⟩ := Option.map_eq_some_iff.1 hrest
        rw [emit_callers hturns hx hemit, Option.bind_some, ih hpieces hbehind]
        rfl
  rw [formatted, hformat] at h
  rw [sersendf, hformat, hloop h]
  rfl

end Format

/-! ## Two formats -/

section Formats

attribute [local instance] binary64 binary64_lawful

/-- The pieces of `"%s = %g"`. -/
def settingPieces : List (Piece ℚ) :=
  [.string (str "feed"), .plain 32, .plain 61, .plain 32, .double (-3 / 2)]

theorem sersendf_renders_setting :
    ∃ enough, ∀ turns, enough ≤ turns →
      formatted turns (str "%s = %g") [.string (str "feed"), .double (-3 / 2 : ℚ)] =
        some (str "feed = -1.500") := by
  have hwf : ∀ x ∈ settingPieces, x.WellFormed := by
    simp only [settingPieces, List.forall_mem_cons, Piece.WellFormed]
    exact ⟨by decide, by decide, by decide, by decide, trivial, by simp⟩
  have hfits : ∀ x ∈ settingPieces, x.Fits := by
    simp only [settingPieces, List.forall_mem_cons, Piece.Fits]
    refine ⟨by decide, trivial, trivial, trivial, ⟨?_, ?_⟩, by simp⟩
    · norm_num [abs_div]
    · decide +kernel
  have hrendering : settingPieces.flatMap Piece.rendering = str "feed = -1.500" := by
    decide +kernel
  have h := (sersendf_renders hwf).2 hfits
  rw [hrendering] at h
  exact h

/-- A part of the text that `M115` sends. -/
def urlPieces : List (Piece ℚ) :=
  (str "http").map .plain ++ .percent :: (str "3A//").map .plain

/-- A host reads `http3A//`. -/
theorem percent_dropped :
    urlPieces.flatMap Piece.text = str "http%%3A//" ∧
      (∀ x ∈ urlPieces, x.WellFormed) ∧
      ¬∃ enough, ∀ turns, enough ≤ turns →
        formatted turns (urlPieces.flatMap Piece.text) (urlPieces.flatMap Piece.args) =
          some (urlPieces.flatMap Piece.rendering) := by
  have hplain : ∀ c ∈ str "http" ++ str "3A//", c ≠ 0 ∧ c ≠ 37 := by decide +kernel
  refine ⟨by decide, fun x hx => ?_, ?_⟩
  · rcases List.mem_append.1 hx with hx | hx
    · obtain ⟨c, hc, rfl⟩ := List.mem_map.1 hx
      exact hplain c (List.mem_append_left _ hc)
    · rcases List.mem_cons.1 hx with rfl | hx
      · trivial
      · obtain ⟨c, hc, rfl⟩ := List.mem_map.1 hx
        exact hplain c (List.mem_append_right _ hc)
  · rintro ⟨enough, h⟩
    have hwritten : ∀ turns, formatted turns (urlPieces.flatMap Piece.text)
        (urlPieces.flatMap Piece.args) = some (str "http3A//") := fun _ => rfl
    have hboth := (hwritten enough).symm.trans (h enough le_rfl)
    exact absurd hboth (by decide +kernel)

/-- The `double` next to 0.3 lies below it, and its product with 1000 is rounded up. -/
example :
    threePlaces (toDouble (3 / 10) : ℚ) = str "0.299" ∧
      serwriteDouble (toDouble (3 / 10) : ℚ) = str "0.300" := by
  decide +kernel

end Formats

end R2C2Firmware.Ports.FormattedOutput
