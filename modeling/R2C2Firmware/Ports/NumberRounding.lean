import R2C2Firmware.Ports.NumberWords

/-!
# Rounded numbers

Every digit of a number is an operation on `double` numbers, and each of them rounds.
An integer is read as it is written.  A multiple of a thousandth need not be: the
digits `0.33` are read as the sum of two rounded quotients.  But its whole part is read
as it is written, and the digits behind the point add less than 2.

## Main results

* `read_integer` — an integer of 53 bits is read as it is written.
* `read_thousandths` — how far a multiple of a thousandth can be off.
-/

set_option linter.unusedSectionVars false

namespace R2C2Firmware.Ports.NumberRounding

open R2C2Firmware.Verified.Number
open R2C2Firmware.Ports.Sermsg
open R2C2Firmware.Ports.GcodeParse
open R2C2Firmware.Ports.Checksum
open R2C2Firmware.Ports.NumberWords

/-! ## Digits -/

/-- A multiple of `10^-j` has zeros behind the first `j` digits. -/
theorem split_digits {b : List UInt8} (hb : ∀ c ∈ b, IsDigit c) {w z j : Nat}
    (h : z * 10 ^ b.length = 10 ^ j * (w * 10 ^ b.length + ofDigits b)) :
    (∀ c ∈ b.drop j, c = 48) ∧
      z = 10 ^ j * w + ofDigits (b.take j) * 10 ^ (j - (b.take j).length) := by
  have hdrop : ∀ c ∈ b.drop j, IsDigit c := fun c hc => hb c (List.mem_of_mem_drop hc)
  have hsplit := ofDigits_append (b.take j) (b.drop j)
  rw [List.take_append_drop] at hsplit
  rcases Nat.le_total b.length j with hlen | hlen
  · rw [List.drop_eq_nil_of_le hlen, List.take_of_length_le hlen]
    refine ⟨by simp, Nat.eq_of_mul_eq_mul_right (show 0 < 10 ^ b.length by positivity) ?_⟩
    have hpow : 10 ^ j = 10 ^ (j - b.length) * 10 ^ b.length := by
      rw [← pow_add, Nat.sub_add_cancel hlen]
    calc z * 10 ^ b.length = 10 ^ j * w * 10 ^ b.length + 10 ^ j * ofDigits b := by
          rw [h]
          ring
      _ = (10 ^ j * w + ofDigits b * 10 ^ (j - b.length)) * 10 ^ b.length := by
          rw [add_mul, mul_comm (10 ^ j) (ofDigits b), mul_assoc (ofDigits b), ← hpow]
  · have htake : (b.take j).length = j := List.length_take_of_le hlen
    have hpow : 10 ^ b.length = 10 ^ j * 10 ^ (b.drop j).length := by
      rw [← pow_add, List.length_drop, Nat.add_sub_cancel' hlen]
    have hlt := ofDigits_lt hdrop
    have hten : 0 < 10 ^ j := by positivity
    have hreduced : z * 10 ^ (b.drop j).length =
        (10 ^ j * w + ofDigits (b.take j)) * 10 ^ (b.drop j).length +
          ofDigits (b.drop j) := by
      refine Nat.eq_of_mul_eq_mul_left hten ?_
      rw [hpow, hsplit] at h
      linarith
    have hzero : ofDigits (b.drop j) = 0 := by
      have hmod := Nat.mul_mod_left z (10 ^ (b.drop j).length)
      rwa [hreduced, Nat.add_mod, Nat.mul_mod_left, Nat.zero_add, Nat.mod_mod,
        Nat.mod_eq_of_lt hlt] at hmod
    refine ⟨(ofDigits_eq_zero hdrop).1 hzero, ?_⟩
    rw [hzero, add_zero] at hreduced
    rw [htake, Nat.sub_self, pow_zero, mul_one]
    exact Nat.eq_of_mul_eq_mul_right (by positivity) hreduced

/-! ## Reading digits -/

section Reading

variable {R : Type} [Field R] [LinearOrder R] [FloorRing R] [HasDouble R] [LawfulDouble R]

/-- The first powers of ten are integers of 53 bits. -/
theorem power_ten {k : Nat} (hk : k ≤ 15) : power (10 : R) k = 10 ^ k := by
  induction k with
  | zero => exact (pow_zero _).symm
  | succ k ih =>
      have hle : 10 ^ (k + 1) ≤ 9007199254740992 :=
        (Nat.pow_le_pow_right (by decide) hk).trans (by decide)
      have h := toDouble_natCast (R := R) hle
      rw [power, ih (by omega), ← pow_succ]
      exact_mod_cast h

/-- A zero behind the point adds nothing; it only rounds the number once more. -/
theorem pushDigit_zero {e : Nat} (he : e ≠ 0) (v : R) :
    pushDigit (e, v) 0 = (e + 1, toDouble v) := by
  have hzero : toDouble (0 : R) = 0 := by
    have h := toDouble_natCast (R := R) (n := 0) (by decide)
    rwa [Nat.cast_zero] at h
  rw [pushDigit, if_neg he]
  dsimp only
  rw [Nat.cast_zero, zero_div, hzero, add_zero]

/-- The digits behind the point, as if they were octal. -/
def octal (a : Nat) (ds : List UInt8) : Nat :=
  ds.foldl (fun a c => a * 8 + (c.toNat - 48)) a

/-- An octal fraction of 53 bits is a `double`. -/
theorem toDouble_octal {a k : Nat} (ha : a ≤ 9007199254740992) (hk : k ≤ 15) :
    toDouble ((a : R) / 8 ^ k) = a / 8 ^ k := by
  have h := LawfulDouble.toDouble_dyadic (R := R) (a : Int) (3 * k)
    (by rw [Nat.abs_cast]; exact_mod_cast ha) (by omega)
  have height : (2 : R) ^ (3 * k) = 8 ^ k := by
    rw [pow_mul]
    norm_num
  rwa [Int.cast_natCast, height] at h

variable [IsStrictOrderedRing R]

/-- The digits in front of the point, up to 53 bits. -/
theorem pushDigits_integer {a : Nat} {ds : List UInt8}
    (h : a * 10 ^ ds.length + ofDigits ds ≤ 9007199254740992) :
    pushDigits (0, (a : R)) ds = (0, ((a * 10 ^ ds.length + ofDigits ds : Nat) : R)) := by
  induction ds using List.reverseRecOn with
  | nil => simp [pushDigits, ofDigits]
  | append_singleton ds c ih =>
      have hsplit : a * 10 ^ (ds ++ [c]).length + ofDigits (ds ++ [c]) =
          (a * 10 ^ ds.length + ofDigits ds) * 10 + (c.toNat - 48) := by
        rw [ofDigits_snoc, List.length_append, List.length_singleton, pow_succ]
        ring
      rw [hsplit] at h ⊢
      rw [pushDigits_append, ih (by omega)]
      generalize a * 10 ^ ds.length + ofDigits ds = n at h
      show pushDigit (0, (n : R)) (c.toNat - 48) = _
      have hten := toDouble_natCast (R := R) (show n * 10 ≤ 9007199254740992 by omega)
      have hsum := toDouble_natCast (R := R) h
      push_cast at hten hsum
      rw [pushDigit, if_pos rfl, hten, hsum]
      push_cast
      rfl

theorem pushDigits_pos (v : R) (ds : List UInt8) {e : Nat} (he : e ≠ 0) :
    (pushDigits (e, v) ds).1 ≠ 0 := by
  induction ds generalizing e v with
  | nil => exact he
  | cons c ds ih =>
      show (pushDigits (pushDigit (e, v) (c.toNat - 48)) ds).1 ≠ 0
      rw [pushDigit, if_neg he]
      exact ih _ (Nat.succ_ne_zero e)

/-- Zeros behind the point do not carry the number over a `double`. -/
theorem pushDigits_zeros {lo hi v : R} (hlo : toDouble lo = lo) (hhi : toDouble hi = hi)
    (hv : lo ≤ v ∧ v ≤ hi) {ds : List UInt8} (hds : ∀ c ∈ ds, c = 48) {e : Nat}
    (he : e ≠ 0) :
    lo ≤ (pushDigits (e, v) ds).2 ∧ (pushDigits (e, v) ds).2 ≤ hi := by
  induction ds generalizing e v with
  | nil => exact hv
  | cons c ds ih =>
      obtain rfl := hds c List.mem_cons_self
      have hstep : pushDigits (e, v) (48 :: ds) = pushDigits (e + 1, toDouble v) ds :=
        congrArg (fun number => pushDigits number ds) (pushDigit_zero he v)
      rw [hstep]
      exact ih ⟨le_toDouble hlo hv.1, toDouble_le hhi hv.2⟩
        (fun d hd => hds d (List.mem_cons_of_mem _ hd)) (Nat.succ_ne_zero e)

/-- A decimal digit is at most the octal one, and the rounding does not go beyond
that. -/
theorem pushDigit_le {a k d : Nat} {n v : R} (hn : toDouble n = n) (hk : k < 15)
    (ha : a * 8 + d ≤ 9007199254740992) (hv : n ≤ v ∧ v ≤ a / 8 ^ k) :
    n ≤ (pushDigit (k + 1, v) d).2 ∧
      (pushDigit (k + 1, v) d).2 ≤ ((a * 8 + d : Nat) : R) / 8 ^ (k + 1) := by
  have hzero : toDouble (0 : R) = 0 := by
    have h := toDouble_natCast (R := R) (n := 0) (by decide)
    rwa [Nat.cast_zero] at h
  have hplace : (0 : R) ≤ d / 10 ^ (k + 1) ∧ (d : R) / 10 ^ (k + 1) ≤ d / 8 ^ (k + 1) :=
    ⟨by positivity, by gcongr; norm_num⟩
  have hdigit : 0 ≤ toDouble ((d : R) / 10 ^ (k + 1)) ∧
      toDouble ((d : R) / 10 ^ (k + 1)) ≤ d / 8 ^ (k + 1) :=
    ⟨le_toDouble hzero hplace.1,
      toDouble_le (toDouble_octal (by omega) (by omega)) hplace.2⟩
  have hsum : (a : R) / 8 ^ k + d / 8 ^ (k + 1) = ((a * 8 + d : Nat) : R) / 8 ^ (k + 1) := by
    push_cast
    rw [pow_succ]
    field_simp
  rw [pushDigit, if_neg (Nat.succ_ne_zero k), power_ten (by omega)]
  constructor
  · exact le_toDouble hn (by linarith [hv.1, hdigit.1])
  · refine toDouble_le (toDouble_octal ha (by omega)) ?_
    rw [← hsum]
    linarith [hv.2, hdigit.2]

theorem le_octal (a : Nat) (ds : List UInt8) : a ≤ octal a ds := by
  induction ds generalizing a with
  | nil => exact le_rfl
  | cons c ds ih =>
      have h := ih (a * 8 + (c.toNat - 48))
      show a ≤ octal (a * 8 + (c.toNat - 48)) ds
      omega

/-- A few digits behind the point keep the number at or above where it started, and
below what the same digits in base eight would add. -/
theorem pushDigits_le {n : R} (hn : toDouble n = n) {ds : List UInt8} {a k : Nat} {v : R}
    (hk : k + ds.length ≤ 15) (ha : octal a ds ≤ 9007199254740992)
    (hv : n ≤ v ∧ v ≤ a / 8 ^ k) :
    n ≤ (pushDigits (k + 1, v) ds).2 ∧
      (pushDigits (k + 1, v) ds).2 ≤ (octal a ds : R) / 8 ^ (k + ds.length) := by
  induction ds generalizing a k v with
  | nil => exact hv
  | cons c ds ih =>
      rw [List.length_cons] at hk ⊢
      have hle : a * 8 + (c.toNat - 48) ≤ 9007199254740992 :=
        (le_octal _ ds).trans ha
      obtain ⟨hlo, hhi⟩ := pushDigit_le hn (by omega) hle hv
      have hpair : pushDigit (k + 1, v) (c.toNat - 48) =
          (k + 1 + 1, (pushDigit (k + 1, v) (c.toNat - 48)).2) := by
        rw [pushDigit, if_neg (Nat.succ_ne_zero k)]
      have hstep : pushDigits (k + 1, v) (c :: ds) =
          pushDigits (k + 1 + 1, (pushDigit (k + 1, v) (c.toNat - 48)).2) ds :=
        congrArg (fun number => pushDigits number ds) hpair
      rw [hstep, show k + (ds.length + 1) = k + 1 + ds.length by omega]
      exact ih (by omega) ha ⟨hlo, hhi⟩

/-! ## Reading a number -/

theorem magnitude_nonneg (d : Decimal) : 0 ≤ d.magnitude R := by
  unfold Decimal.magnitude
  cases d.frac with
  | none => positivity
  | some b => positivity

/-- A number of which a power of ten is an integer, digit by digit. -/
theorem magnitude_digits {d : Decimal} {b : List UInt8} (hfrac : d.frac = some b) {z j : Nat}
    (h : d.magnitude R * 10 ^ j = z) :
    z * 10 ^ b.length = 10 ^ j * (ofDigits d.whole * 10 ^ b.length + ofDigits b) := by
  unfold Decimal.magnitude at h
  rw [hfrac] at h
  dsimp only at h
  have hpow : (10 : R) ^ b.length ≠ 0 := pow_ne_zero _ (by norm_num)
  have hcast : (z : R) * 10 ^ b.length =
      10 ^ j * (ofDigits d.whole * 10 ^ b.length + ofDigits b) := by
    rw [← h]
    field_simp
  exact_mod_cast hcast

/-- The digits in front of the point are read as they are written. -/
theorem register_whole {d : Decimal} (h : ofDigits d.whole ≤ 9007199254740992) :
    (pushDigits (0, (0 : R)) d.whole).2 = (ofDigits d.whole : Nat) := by
  have hinteger : pushDigits (0, ((0 : Nat) : R)) d.whole = _ :=
    pushDigits_integer (by rwa [zero_mul, zero_add])
  rw [Nat.cast_zero, zero_mul, zero_add] at hinteger
  rw [hinteger]

/-- An integer is read as it is written. -/
theorem register_integer {d : Decimal} {z : Nat} (hz : z ≤ 9007199254740992)
    (h : d.magnitude R = z) : d.register R = z := by
  cases hfrac : d.frac with
  | none =>
      have hwhole : ofDigits d.whole = z := by
        unfold Decimal.magnitude at h
        rw [hfrac] at h
        dsimp only at h
        rw [add_zero] at h
        exact_mod_cast h
      unfold Decimal.register
      rw [hfrac]
      dsimp only
      rw [register_whole (hwhole.le.trans hz), hwhole]
  | some b =>
      have hdigits := magnitude_digits (R := R) (j := 0) hfrac (by rw [pow_zero, mul_one, h])
      obtain ⟨hzeros, hwhole⟩ := split_digits (d.frac_digits b hfrac) hdigits
      rw [List.drop_zero] at hzeros
      rw [pow_zero, one_mul, List.take_zero, show ofDigits [] = 0 from rfl, zero_mul,
        add_zero] at hwhole
      have hself := toDouble_natCast (R := R) hz
      have hbetween := pushDigits_zeros hself hself ⟨le_refl (z : R), le_refl (z : R)⟩
        hzeros one_ne_zero
      unfold Decimal.register
      rw [hfrac]
      dsimp only
      rw [register_whole (hwhole.ge.trans hz), ← hwhole]
      exact le_antisymm hbetween.2 hbetween.1

/-- Up to three digits, which count at most a bit more when they are octal. -/
theorem octal_places {ds : List UInt8} (hds : ∀ c ∈ ds, IsDigit c) (hlen : ds.length ≤ 3)
    {w z : Nat} (h : z = 10 ^ 3 * w + ofDigits ds * 10 ^ (3 - ds.length)) :
    w = z / 1000 ∧ octal w ds < (w + 2) * 8 ^ ds.length ∧
      (z ≤ 2 → octal w ds < 8 ^ ds.length) := by
  have hdigit : ∀ {c}, c ∈ ds → c.toNat - 48 ≤ 9 := fun hc => by
    have := (hds _ hc).2
    omega
  rcases ds with _ | ⟨a, _ | ⟨b, _ | ⟨c, _ | ⟨e, ds⟩⟩⟩⟩
  · simp [ofDigits, octal] at h ⊢
    omega
  · have ha := hdigit (c := a) (by simp)
    simp [ofDigits, octal] at h ⊢
    omega
  · have ha := hdigit (c := a) (by simp)
    have hb := hdigit (c := b) (by simp)
    simp [ofDigits, octal] at h ⊢
    omega
  · have ha := hdigit (c := a) (by simp)
    have hb := hdigit (c := b) (by simp)
    have hc := hdigit (c := c) (by simp)
    simp [ofDigits, octal] at h ⊢
    omega
  · simp only [List.length_cons] at hlen
    omega

/-- A multiple of a thousandth: its whole part is read as it is written, and the digits
behind the point add less than 2, two thousandths less than 1. -/
theorem register_thousandths {d : Decimal} {z : Nat} (hz : z ≤ 65535)
    (h : d.magnitude R * 1000 = z) :
    ((z / 1000 : Nat) : R) ≤ d.register R ∧ d.register R < ((z / 1000 : Nat) : R) + 2 ∧
      (z ≤ 2 → d.register R < 1) := by
  have hthousand : (10 : R) ^ 3 = 1000 := by norm_num
  cases hfrac : d.frac with
  | none =>
      have hwhole : z = ofDigits d.whole * 1000 := by
        unfold Decimal.magnitude at h
        rw [hfrac] at h
        dsimp only at h
        rw [add_zero] at h
        exact_mod_cast h.symm
      have hregister : d.register R = ((z / 1000 : Nat) : R) := by
        refine register_integer (by omega) ?_
        unfold Decimal.magnitude
        rw [hfrac, hwhole, Nat.mul_div_cancel _ (by decide)]
        exact add_zero _
      rw [hregister]
      refine ⟨le_rfl, by linarith, fun hsmall => ?_⟩
      have hnone : z / 1000 = 0 := by omega
      rw [hnone, Nat.cast_zero]
      exact one_pos
  | some b =>
      have hdigits := magnitude_digits (R := R) (j := 3) hfrac (by rw [hthousand, h])
      obtain ⟨hzeros, hparts⟩ := split_digits (d.frac_digits b hfrac) hdigits
      have hfront : ∀ c ∈ b.take 3, IsDigit c := fun c hc =>
        d.frac_digits b hfrac c (List.mem_of_mem_take hc)
      have hlen : (b.take 3).length ≤ 3 := List.length_take_le _ _
      obtain ⟨hw, hoctal, hsmall⟩ := octal_places hfront hlen hparts
      have hwhole := register_whole (R := R) (d := d) (by omega)
      have hbound : octal (ofDigits d.whole) (b.take 3) ≤ 9007199254740992 := by
        have hpow : 8 ^ (b.take 3).length ≤ 8 ^ 3 := Nat.pow_le_pow_right (by decide) hlen
        have hle : (ofDigits d.whole + 2) * 8 ^ (b.take 3).length ≤ 67 * 8 ^ 3 :=
          Nat.mul_le_mul (by omega) hpow
        omega
      have hself := toDouble_natCast (R := R) (n := ofDigits d.whole) (by omega)
      -- the first three digits, and zeros behind them
      obtain ⟨hlo, hhi⟩ := pushDigits_le hself (k := 0) (by omega) hbound
        ⟨le_refl (ofDigits d.whole : R), by rw [pow_zero, div_one]⟩
      simp only [Nat.zero_add] at hlo hhi
      have hregister : d.register R = (pushDigits (pushDigits (1, (ofDigits d.whole : R))
          (b.take 3)) (b.drop 3)).2 := by
        unfold Decimal.register
        rw [hfrac]
        dsimp only
        rw [hwhole, ← pushDigits_append, List.take_append_drop]
      have hall := pushDigits_zeros hself (toDouble_octal hbound (by omega)) ⟨hlo, hhi⟩
        hzeros (pushDigits_pos (ofDigits d.whole : R) (b.take 3) one_ne_zero)
      rw [hregister, ← hw]
      have hpow : (0 : R) < 8 ^ (b.take 3).length := by positivity
      refine ⟨hall.1, hall.2.trans_lt ?_, fun htwo => hall.2.trans_lt ?_⟩
      · rw [div_lt_iff₀ hpow]
        exact_mod_cast hoctal
      · rw [div_lt_one hpow]
        exact_mod_cast hsmall htwo

/-- An integer is read as it is written, also one with a sign. -/
theorem read_integer {d : Decimal} {z : Int} (hz : |z| ≤ 9007199254740992)
    (h : d.number R = z) : d.read R = z := by
  have hmagnitude := magnitude_nonneg (R := R) d
  obtain ⟨hlo, hhi⟩ := abs_le.1 hz
  unfold Decimal.number at h
  unfold Decimal.read
  cases hneg : d.neg with
  | false =>
      rw [hneg, if_neg Bool.false_ne_true] at h
      have hpos : 0 ≤ z := by
        rw [h] at hmagnitude
        exact_mod_cast hmagnitude
      obtain ⟨n, rfl⟩ := Int.eq_ofNat_of_zero_le hpos
      rw [if_neg Bool.false_ne_true, Int.cast_natCast]
      exact register_integer (by omega) (h.trans (Int.cast_natCast n))
  | true =>
      rw [hneg, if_pos rfl] at h
      have hmag : d.magnitude R = ((-z : Int) : R) := by
        rw [Int.cast_neg, ← h, neg_neg]
      have hpos : 0 ≤ -z := by
        rw [hmag] at hmagnitude
        exact_mod_cast hmagnitude
      obtain ⟨n, hn⟩ := Int.eq_ofNat_of_zero_le hpos
      rw [hn, Int.cast_natCast] at hmag
      rw [if_pos rfl, register_integer (by omega) hmag, show z = -(n : Int) by omega,
        Int.cast_neg, Int.cast_natCast]

/-- A multiple of a thousandth, with its sign. -/
theorem read_thousandths {d : Decimal} {z : Nat} (hz : z ≤ 65535)
    (h : d.number R * 1000 = z) :
    ((z / 1000 : Nat) : R) ≤ d.read R ∧ d.read R < ((z / 1000 : Nat) : R) + 2 ∧
      (z ≤ 2 → d.read R < 1) := by
  have hmagnitude := magnitude_nonneg (R := R) d
  cases hneg : d.neg with
  | false =>
      unfold Decimal.number at h
      unfold Decimal.read
      rw [hneg, if_neg Bool.false_ne_true] at h ⊢
      exact register_thousandths hz h
  | true =>
      -- there is only the negative zero
      have hnumber : d.number R = -d.magnitude R := by
        unfold Decimal.number
        rw [hneg, if_pos rfl]
      have hcast : (0 : R) ≤ z := Nat.cast_nonneg z
      rw [hnumber] at h
      have hzero : (z : R) = 0 := by linarith
      have hread := read_integer (R := R) (d := d) (z := 0) (by decide)
        (by rw [hnumber, Int.cast_zero]; linarith)
      rw [Nat.cast_eq_zero.1 hzero, hread]
      simp

end Reading

end R2C2Firmware.Ports.NumberRounding
