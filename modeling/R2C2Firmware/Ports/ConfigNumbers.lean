import R2C2Firmware.Ports.ReadConfig

/-!
# The numbers of the configuration

`get_token` takes a sign in front of a number; `atod` does not know one.  It takes
the sign for a digit, whose value is the distance of the character to `'0'`: minus
three for `-`, minus five for `+`.

## Main results

* `atod_text` — what `atod` makes of one.
* `number_denoted` — exactly when `atod` and `atoi` return the number denoted.
-/

namespace R2C2Firmware.Ports.ConfigNumbers

open R2C2Firmware.Ports.Sermsg
open R2C2Firmware.Ports.ReadConfig

/-! ## Numbers -/

/-- The sign of a number. -/
inductive Sign where
  | none | plus | minus
  deriving DecidableEq, Repr

/-- The characters of a sign. -/
def Sign.text : Sign → List UInt8
  | .none => []
  | .plus => [43]
  | .minus => [45]

/-- `[+|-] d* [. d*]` with a digit somewhere. -/
structure NumberToken where
  sign : Sign
  whole : List UInt8
  frac : Option (List UInt8)
  whole_digits : ∀ b ∈ whole, isdigit b = true
  frac_digits : ∀ f ∈ frac, ∀ b ∈ f, isdigit b = true
  some_digit : whole ≠ [] ∨ ∃ f ∈ frac, f ≠ []

namespace NumberToken

/-- The characters of a number. -/
def text (t : NumberToken) : List UInt8 :=
  t.sign.text ++ t.whole ++
    match t.frac with
    | some f => 46 :: f
    | none => []

section Value

variable {R : Type} [Field R]

/-- The number without its sign. -/
def magnitude (t : NumberToken) : R :=
  ofDigits t.whole +
    match t.frac with
    | some f => ofDigits f / 10 ^ f.length
    | none => 0

/-- The number denoted. -/
def value (t : NumberToken) : R :=
  if t.sign = .minus then -t.magnitude else t.magnitude

end Value

end NumberToken

/-! ## `atod` -/

section Atod

variable {R : Type} [Field R]

theorem foldl_horner (w : List UInt8) (r : R) :
    w.foldl (fun r c => r * 10 + (((c.toNat : Int) - 48 : Int) : R)) r =
      r * 10 ^ w.length + horner w := by
  induction w using List.reverseRecOn with
  | nil => simp [horner]
  | append_singleton w c ih =>
      unfold horner at ih ⊢
      rw [List.foldl_append, List.foldl_append, ih, List.length_append,
        List.length_singleton, pow_succ]
      simp only [List.foldl_cons, List.foldl_nil]
      ring

/-- The value of the sign as a digit. -/
def Sign.digit : Sign → Int
  | .none => 0
  | .plus => -5
  | .minus => -3

/-- The sign is the first digit. -/
theorem horner_sign (s : Sign) {w : List UInt8} (hw : ∀ b ∈ w, isdigit b = true) :
    (horner (s.text ++ w) : R) = (s.digit : R) * 10 ^ w.length + ofDigits w := by
  unfold horner
  rw [List.foldl_append, foldl_horner, horner_eq hw]
  congr 2
  cases s with
  | none => exact Int.cast_zero.symm
  | plus =>
      show (0 : R) * 10 + ((-5 : Int) : R) = ((-5 : Int) : R)
      rw [zero_mul, zero_add]
  | minus =>
      show (0 : R) * 10 + ((-3 : Int) : R) = ((-3 : Int) : R)
      rw [zero_mul, zero_add]

theorem atod_of_point {w : List UInt8} (hw : ∀ b ∈ w, decide (b ≠ 46) = true)
    {f : List UInt8} (hf : ∀ b ∈ f, isdigit b = true) :
    (atod w : R) = horner w ∧
      (atod (w ++ 46 :: f) : R) = horner w + ofDigits f / 10 ^ f.length := by
  constructor
  · obtain ⟨htake, hdrop⟩ := takeWhile_stops hw (show Stops _ [] by simp [Stops])
    rw [List.append_nil] at htake hdrop
    rw [atod, htake, hdrop]
  · obtain ⟨htake, hdrop⟩ := takeWhile_stops hw (show Stops _ (46 :: f) by simp [Stops])
    rw [atod, htake, hdrop]
    dsimp only
    rw [horner_eq hf, iterate_div]

/-- `atod` takes the sign for one more digit in front of the number. -/
theorem atod_text (t : NumberToken) :
    (atod t.text : R) = (t.sign.digit : R) * 10 ^ t.whole.length + t.magnitude := by
  have hsign : ∀ s : Sign, ∀ b ∈ s.text, decide (b ≠ 46) = true := by
    intro s
    cases s <;> decide +kernel
  have hpoint : ∀ b ∈ t.sign.text ++ t.whole, decide (b ≠ 46) = true :=
    List.forall_mem_append.2 ⟨hsign t.sign, digits_ne_point t.whole_digits⟩
  have hhorner := horner_sign (R := R) t.sign t.whole_digits
  unfold NumberToken.text NumberToken.magnitude
  cases hfrac : t.frac with
  | none =>
      rw [List.append_nil, (atod_of_point hpoint (f := []) (by simp)).1, hhorner]
      ring
  | some f =>
      rw [(atod_of_point hpoint (t.frac_digits f hfrac)).2, hhorner]
      ring

end Atod

/-! ## The number denoted -/

section Denoted

variable {R : Type} [Field R] [LinearOrder R] [IsStrictOrderedRing R]

theorem magnitude_lt (t : NumberToken) :
    0 ≤ (t.magnitude : R) ∧ (t.magnitude : R) < 10 ^ t.whole.length := by
  have hwhole : (ofDigits t.whole : R) + 1 ≤ 10 ^ t.whole.length := by
    exact_mod_cast ofDigits_lt fun b hb => isdigit_iff.1 (t.whole_digits b hb)
  have hwhole' : (0 : R) ≤ ofDigits t.whole := Nat.cast_nonneg _
  unfold NumberToken.magnitude
  cases hfrac : t.frac with
  | none =>
      dsimp only
      constructor <;> linarith
  | some f =>
      have hpow : (0 : R) < 10 ^ f.length := by positivity
      have hlt : (ofDigits f : R) < 10 ^ f.length := by
        exact_mod_cast ofDigits_lt fun b hb => isdigit_iff.1 (t.frac_digits f hfrac b hb)
      have hfrac' : (ofDigits f : R) / 10 ^ f.length < 1 := (div_lt_one hpow).2 hlt
      have hpos : (0 : R) ≤ ofDigits f / 10 ^ f.length := by positivity
      dsimp only
      constructor <;> linarith

/-- `atod` returns the number denoted exactly when it has no sign. -/
theorem atod_eq_value_iff (t : NumberToken) :
    (atod t.text : R) = t.value ↔ t.sign = .none := by
  obtain ⟨-, hlt⟩ := magnitude_lt (R := R) t
  have hpow : (0 : R) < 10 ^ t.whole.length := by positivity
  rw [atod_text, NumberToken.value]
  cases t.sign with
  | none => simp [Sign.digit]
  | plus =>
      refine iff_of_false (fun heq => ?_) (by decide)
      rw [if_neg (by decide), Sign.digit] at heq
      push_cast at heq
      linarith
  | minus =>
      refine iff_of_false (fun heq => ?_) (by decide)
      rw [if_pos rfl, Sign.digit] at heq
      push_cast at heq
      linarith

theorem atoi_plus {v : List UInt8} (hv : ∀ b ∈ v, isdigit b = true) :
    atoi (43 :: v) = min (ofDigits v : Int) 2147483647 := by
  rw [atoi, List.dropWhile_cons_of_neg (by decide)]
  show min (ofDigits (v.takeWhile isdigit) : Int) 2147483647 = _
  rw [takeWhile_isdigit hv]

/-- `atoi` returns the number denoted exactly when it is an `int`. -/
theorem atoi_eq_value_iff (t : NumberToken) (hfrac : t.frac = none) :
    (atoi t.text : R) = t.value ↔
      -2147483648 ≤ (t.value : R) ∧ (t.value : R) ≤ 2147483647 := by
  have hint : (t.value : R) =
      ((if t.sign = .minus then -(ofDigits t.whole : Int) else ofDigits t.whole : Int) :
        R) := by
    rw [NumberToken.value, NumberToken.magnitude, hfrac]
    split <;> simp
  have htext : t.text = t.sign.text ++ t.whole := by
    rw [NumberToken.text, hfrac, List.append_nil]
  rw [hint, htext]
  norm_cast
  cases t.sign with
  | none =>
      rw [Sign.text, List.nil_append, atoi_unsigned t.whole_digits, if_neg (by decide)]
      omega
  | plus =>
      rw [Sign.text, List.singleton_append, atoi_plus t.whole_digits,
        if_neg (by decide)]
      omega
  | minus =>
      rw [Sign.text, List.singleton_append, atoi_negative t.whole_digits, if_pos rfl]
      omega

/-- Of a number, `atod` returns what it denotes exactly when it has no sign, and
`atoi`, if it is an integer, exactly when it fits. -/
theorem number_denoted (t : NumberToken) :
    ((atod t.text : R) = t.value ↔ t.sign = .none) ∧
      (t.frac = none → ((atoi t.text : R) = t.value ↔
        -2147483648 ≤ (t.value : R) ∧ (t.value : R) ≤ 2147483647)) :=
  ⟨atod_eq_value_iff t, atoi_eq_value_iff t⟩

end Denoted

/-- The number 12.5. -/
def twelveAndAHalf : NumberToken :=
  ⟨.none, str "12", some (str "5"), by decide +kernel, by decide +kernel, by decide⟩

theorem number_denoted_half :
    (atod twelveAndAHalf.text : ℚ) = twelveAndAHalf.value :=
  (number_denoted twelveAndAHalf).1.2 rfl

/-- The number minus five, as a home position has it. -/
def minusFive : NumberToken :=
  ⟨.minus, str "5", none, by decide +kernel, by decide, by decide⟩

/-- The decoder knows no sign: `-5` is one token, and is read as minus twenty-five. -/
theorem minus_five_misread :
    getToken (str "-5\n") = some (minusFive.text, [10]) ∧
      (minusFive.value : ℚ) = -5 ∧ (atod minusFive.text : ℚ) = -25 ∧
      (atod minusFive.text : ℚ) ≠ minusFive.value := by
  refine ⟨by decide, ?_, ?_, ?_⟩
  all_goals decide +kernel

end R2C2Firmware.Ports.ConfigNumbers
