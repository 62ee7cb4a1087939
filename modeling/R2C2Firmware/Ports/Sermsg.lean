import R2C2Firmware.Verified.Number

/-!
# Serial output

A transcription of `sermsg.c`, of `sersendf.c` and of `serial_writestr`.  Every
function yields the bytes it hands to `serial_writechar`; the transmit FIFO is
assumed to have room.

Numbers are printed by repeated subtraction of the powers of ten, the last three
digits by division.  In the loop of `sersendf` the two functions that may not come
to a result are parameters: `serial_writestr`, whose index is a byte, and
`serwrite_double`, which converts a `double` to an integer.  The callers in the
firmware have short strings and numbers in range, and `sersendf` is the loop with
both of them total.

## Main results

* `serwriteUint32_spec` — the digits printed denote the number.
* `serwriteUint32_injective` — different numbers print differently.
* `serwriteInt32_numeric`, `serwriteDouble_numeric` — nothing but digits, the
  sign and the decimal point is printed.
-/

namespace R2C2Firmware.Ports.Sermsg

open R2C2Firmware.Verified.Number

/-- The bytes of a string literal. -/
def str (s : String) : List UInt8 := s.toList.map fun c => c.toNat.toUInt8

/-! ## Numbers -/

/-- The byte of a decimal digit. -/
def digit (t : Nat) : UInt8 := (t + 48).toUInt8

/-- `for (t = 0; v >= p; v -= p, t++);` for a value below `16 * p`. -/
def subtractLoop (p : Nat) : Nat → Nat → Nat → Nat × Nat
  | 0, v, t => (v, t)
  | fuel + 1, v, t =>
      if v ≥ p then subtractLoop p fuel (v - p) (t + 1) else (v, t)

/-- One decimal place of `serwrite_uint32`: the remaining value and the last
digit go in, with the bytes so far. -/
def decimalPlace (s : Nat × Nat × List UInt8) (p : Nat) :
    Nat × Nat × List UInt8 :=
  let (v, t, out) := s
  if v ≥ p then
    let (v, t) := subtractLoop p 16 v 0
    (v, t, out ++ [digit t])
  else if t ≠ 0 then (v, t, out ++ [digit 0])
  else (v, t, out)

/-- A place of `serwrite_uint32` for which the source divides. -/
def dividePlace (s : Nat × Nat × List UInt8) (p : Nat) :
    Nat × Nat × List UInt8 :=
  let (v, t, out) := s
  if v ≥ p then
    let t := v / p
    (v - t * p, t, out ++ [digit t])
  else if t ≠ 0 then (v, t, out ++ [digit 0])
  else (v, t, out)

/-- The places of `serwrite_uint32` for which it subtracts. -/
def decimalPlaces : List Nat :=
  [1000000000, 100000000, 10000000, 1000000, 100000, 10000, 1000]

/-- `serwrite_uint32` -/
def serwriteUint32 (v : Nat) : List UInt8 :=
  let s := decimalPlaces.foldl decimalPlace (v, 0, [])
  let (v, _, out) := dividePlace (dividePlace s 100) 10
  out ++ [digit v]

/-- `serwrite_int32` -/
def serwriteInt32 (v : Int) : List UInt8 :=
  if v < 0 then str "-" ++ serwriteUint32 (uint32 (-v)).toNat
  else serwriteUint32 v.toNat

/-- The macro `serwrite_uint16`. -/
def serwriteUint16 (v : Nat) : List UInt8 := serwriteUint32 v

/-- The macro `serwrite_int16`. -/
def serwriteInt16 (v : Int) : List UInt8 := serwriteInt32 v

/-- `serwrite_hex4` -/
def serwriteHex4 (v : Nat) : List UInt8 :=
  let v := v % 16
  if v < 10 then [(48 + v).toUInt8] else [(55 + v).toUInt8]

/-- `serwrite_hex8`; the parameter is a `uint8_t`. -/
def serwriteHex8 (v : Nat) : List UInt8 :=
  let v := v % 256
  serwriteHex4 (v / 16) ++ serwriteHex4 (v % 16)

/-- `serwrite_hex16`; the parameter is a `uint16_t`. -/
def serwriteHex16 (v : Nat) : List UInt8 :=
  let v := v % 65536
  serwriteHex8 (v / 256) ++ serwriteHex8 (v % 256)

/-- `serwrite_hex32` -/
def serwriteHex32 (v : Nat) : List UInt8 :=
  serwriteHex16 (v / 65536) ++ serwriteHex16 (v % 65536)

section Double

variable {R : Type*} [Field R] [LinearOrder R] [FloorRing R] [HasDouble R]

/-- What `serwrite_double` multiplies out behind the point: the fraction of a number
that is not negative, times 1000. -/
def scaledFraction (v : R) : R :=
  toDouble (toDouble (v - (int32 (truncate v) : R)) * 1000)

/-- `serwrite_double`: sign, integer part, point and three decimals. -/
def serwriteDouble (v : R) : List UInt8 :=
  let sign := if v < 0 then str "-" else []
  let v := if v < 0 then -v else v
  let whole := serwriteUint32 (uint32 (truncate v)).toNat
  let v := scaledFraction v
  sign ++ whole ++ str "." ++ (if v < 100 then str "0" else [])
    ++ (if v < 10 then str "0" else [])
    ++ serwriteUint32 (uint32 (truncate v)).toNat

end Double

/-! ## Strings -/

/-- The loop of `serial_writestr`: what it writes in so many turns, and whether it
has come to the zero behind the string.  Its index is a byte. -/
def serialWritestr (data : List UInt8) : Nat → UInt8 → List UInt8 × Bool
  | 0, _ => ([], false)
  | turns + 1, i =>
      let r := data.getD i.toNat 0
      if r = 0 then ([], true)
      else
        let rest := serialWritestr data turns (i + 1)
        (r :: rest.1, rest.2)

/-! ## Formatted output -/

/-- An argument of `sersendf`. -/
inductive Arg (R : Type*) where
  | int (v : Int)
  | double (v : R)
  | string (s : List UInt8)

section Format

variable {R : Type*}

/-- `va_arg(args, int)` and `va_arg(args, unsigned int)` -/
def vaInt : List (Arg R) → Option (Int × List (Arg R))
  | .int v :: args => some (v, args)
  | _ => none

/-- `va_arg(args, double)` -/
def vaDouble : List (Arg R) → Option (R × List (Arg R))
  | .double v :: args => some (v, args)
  | _ => none

/-- `va_arg(args, char *)` -/
def vaString : List (Arg R) → Option (List UInt8 × List (Arg R))
  | .string s :: args => some (s, args)
  | _ => none

variable (writestr : List UInt8 → Option (List UInt8))
  (writeDouble : R → Option (List UInt8))

/-- The `switch` for a character behind `%`, where `j` is 4 behind an `l`: the next
`j`, what is written, and the arguments left. -/
def conversion (j c : UInt8) (args : List (Arg R)) :
    Option (UInt8 × List UInt8 × List (Arg R)) :=
  if c = 108 then some (4, [], args)
  else if c = 117 then
    (vaInt args).map fun (v, args) =>
      (0, if j = 4 then serwriteUint32 (uint32 v).toNat
        else serwriteUint16 (uint32 v).toNat, args)
  else if c = 100 then
    (vaInt args).map fun (v, args) =>
      (0, if j = 4 then serwriteInt32 (int32 v) else serwriteInt16 (int32 v), args)
  else if c = 103 then
    (vaDouble args).bind fun (v, args) =>
      (writeDouble v).map fun out => (0, out, args)
  else if c = 112 ∨ c = 120 then
    (writestr (str "0x")).bind fun out =>
      (vaInt args).map fun (v, args) =>
        (0, out ++ if j = 4 then serwriteHex32 (uint32 v).toNat
          else serwriteHex16 (uint32 v).toNat, args)
  else if c = 99 then
    (vaInt args).map fun (v, args) => (0, [(uint8 v).toNat.toUInt8], args)
  else if c = 115 then
    (vaString args).bind fun (s, args) =>
      (writestr s).map fun out => (0, out, args)
  else some (0, [], args)

/-- The loop of `sersendf`, over what is left of the format.  There is no result if
a string or a number has none, or an argument is missing or of another type. -/
def sersendfLoop : UInt8 → List UInt8 → List (Arg R) → Option (List UInt8)
  | _, [], _ => some []
  | j, c :: format, args =>
      if j ≠ 0 then
        (conversion writestr writeDouble j c args).bind fun (j, out, args) =>
          (sersendfLoop j format args).map (out ++ ·)
      else if c = 37 then sersendfLoop 2 format args
      else (sersendfLoop j format args).map (c :: ·)

end Format

/-- `sersendf`, for strings and numbers that are written to their end. -/
def sersendf {R : Type*} [Field R] [LinearOrder R] [FloorRing R] [HasDouble R]
    (format : String) (args : List (Arg R)) : List UInt8 :=
  (sersendfLoop some (fun v => some (serwriteDouble v)) 0 (str format) args).getD []

/-! ## What the digits denote -/

/-- The number denoted by decimal digits. -/
def ofDigits (bs : List UInt8) : Nat :=
  bs.foldl (fun acc b => acc * 10 + (b.toNat - 48)) 0

theorem ofDigits_append_digit (bs : List UInt8) {t : Nat} (ht : t < 10) :
    ofDigits (bs ++ [digit t]) = ofDigits bs * 10 + t := by
  have hdigit : (digit t).toNat - 48 = t := by
    unfold digit
    rw [UInt8.toNat_ofNat_of_lt' (by show t + 48 < 256; omega)]
    omega
  rw [ofDigits, List.foldl_append, List.foldl_cons, List.foldl_nil, hdigit]
  rfl

theorem ofDigits_snoc (ds : List UInt8) (c : UInt8) :
    ofDigits (ds ++ [c]) = ofDigits ds * 10 + (c.toNat - 48) := by
  rw [ofDigits, List.foldl_append]
  rfl

theorem ofDigits_append (u v : List UInt8) :
    ofDigits (u ++ v) = ofDigits u * 10 ^ v.length + ofDigits v := by
  induction v using List.reverseRecOn with
  | nil => simp [ofDigits]
  | append_singleton v c ih =>
      rw [← List.append_assoc, ofDigits_snoc, ih, ofDigits_snoc, List.length_append,
        List.length_singleton, pow_succ]
      ring

/-- A decimal digit as a byte. -/
def IsDigit (b : UInt8) : Prop := 48 ≤ b.toNat ∧ b.toNat ≤ 57

instance (b : UInt8) : Decidable (IsDigit b) := inferInstanceAs (Decidable (_ ∧ _))

theorem ofDigits_lt {ds : List UInt8} (hds : ∀ c ∈ ds, IsDigit c) :
    ofDigits ds < 10 ^ ds.length := by
  induction ds using List.reverseRecOn with
  | nil => decide
  | append_singleton ds c ih =>
      have hhead := ih fun d hd => hds d (List.mem_append_left _ hd)
      have hc := (hds c (List.mem_append_right _ List.mem_cons_self)).2
      rw [ofDigits_snoc, List.length_append, List.length_singleton, pow_succ]
      omega

/-- Digits that denote nothing are zeros. -/
theorem ofDigits_eq_zero {u : List UInt8} (hu : ∀ b ∈ u, IsDigit b) :
    ofDigits u = 0 ↔ ∀ b ∈ u, b = 48 := by
  induction u using List.reverseRecOn with
  | nil => simp [ofDigits]
  | append_singleton u c ih =>
      have hdigit : IsDigit c := hu c (by simp)
      have hc : c.toNat - 48 = 0 ↔ c = 48 := by
        constructor
        · intro h
          apply UInt8.toNat_inj.1
          have hlo := hdigit.1
          show c.toNat = 48
          omega
        · rintro rfl
          rfl
      have hrest := ih fun b hb => hu b (List.mem_append_left _ hb)
      rw [ofDigits_snoc]
      constructor
      · intro h b hb
        rcases List.mem_append.1 hb with hb | hb
        · exact hrest.1 (by omega) b hb
        · rw [List.mem_singleton.1 hb]
          exact hc.1 (by omega)
      · intro h
        have hu0 := hrest.2 fun b hb => h b (List.mem_append_left _ hb)
        have hc0 := hc.2 (h c (by simp))
        omega

theorem digit_isDigit {t : Nat} (ht : t < 10) : IsDigit (digit t) := by
  unfold IsDigit digit
  rw [UInt8.toNat_ofNat_of_lt' (by show t + 48 < 256; omega)]
  omega

theorem subtractLoop_eq {p : Nat} (hp : 0 < p) (fuel v t : Nat)
    (hfuel : v / p ≤ fuel) : subtractLoop p fuel v t = (v % p, t + v / p) := by
  induction fuel generalizing v t with
  | zero =>
      have hlt : v < p :=
        (Nat.div_eq_zero_iff_lt hp).1 (Nat.le_zero.1 hfuel)
      rw [subtractLoop, Nat.mod_eq_of_lt hlt, Nat.div_eq_of_lt hlt, add_zero]
  | succ fuel ih =>
      rw [subtractLoop]
      split
      · next hge =>
          have hdiv : v / p = (v - p) / p + 1 := Nat.div_eq_sub_div hp hge
          rw [ih _ _ (by omega), ← Nat.mod_eq_sub_mod hge, hdiv]
          congr 1
          omega
      · next hlt =>
          rw [Nat.mod_eq_of_lt (by omega), Nat.div_eq_of_lt (by omega),
            add_zero]

/-- The bytes so far and the value left over make up `V`; `p` is the last place
printed. -/
structure Printed (V p : Nat) (s : Nat × Nat × List UInt8) : Prop where
  value : ofDigits s.2.2 * p + s.1 = V
  left : s.1 < p
  leading : s.2.1 = 0 → s.2.2 = []
  digits : ∀ b ∈ s.2.2, IsDigit b

theorem Printed.place {V p q : Nat} {s : Nat × Nat × List UInt8} (hp : 0 < p)
    (hq : q = p * 10) (h : Printed V q s) :
    Printed V p (decimalPlace s p) := by
  subst hq
  obtain ⟨v, t, out⟩ := s
  obtain ⟨hvalue, hleft, hleading, hdigits⟩ := h
  dsimp only at hvalue hleft hleading hdigits
  have happend : ∀ d, d < 10 → ∀ b ∈ out ++ [digit d], IsDigit b := by
    intro d hd b hb
    rcases List.mem_append.1 hb with hb | hb
    · exact hdigits b hb
    · rw [List.mem_singleton.1 hb]
      exact digit_isDigit hd
  unfold decimalPlace
  dsimp only
  split
  · next hge =>
      have hlt : v / p < 10 := Nat.div_lt_of_lt_mul hleft
      have hpos : 0 < v / p := Nat.div_pos hge hp
      rw [subtractLoop_eq hp 16 v 0 (by omega), Nat.zero_add]
      refine ⟨?_, Nat.mod_lt v hp, fun h0 => absurd h0 hpos.ne', happend _ hlt⟩
      show ofDigits (out ++ [digit (v / p)]) * p + v % p = V
      rw [ofDigits_append_digit out hlt, ← hvalue]
      calc (ofDigits out * 10 + v / p) * p + v % p
          = ofDigits out * (p * 10) + (p * (v / p) + v % p) := by ring
        _ = ofDigits out * (p * 10) + v := by rw [Nat.div_add_mod]
  · next hlt =>
      split
      · next ht =>
          refine ⟨?_, by omega, fun h0 => absurd h0 ht,
            happend 0 (by decide)⟩
          show ofDigits (out ++ [digit 0]) * p + v = V
          rw [ofDigits_append_digit out (by decide), ← hvalue]
          ring
      · next ht =>
          have hnil : out = [] := hleading (not_not.1 ht)
          subst hnil
          refine ⟨?_, by omega, fun _ => rfl, hdigits⟩
          rw [← hvalue]
          simp [ofDigits]

/-- Dividing does what subtracting does. -/
theorem dividePlace_eq {p : Nat} (hp : 0 < p) {s : Nat × Nat × List UInt8}
    (h : s.1 < p * 10) : dividePlace s p = decimalPlace s p := by
  obtain ⟨v, t, out⟩ := s
  dsimp only at h
  unfold dividePlace decimalPlace
  dsimp only
  split
  · have hlt : v / p < 10 := Nat.div_lt_of_lt_mul h
    rw [subtractLoop_eq hp 16 v 0 (by omega), Nat.zero_add, Nat.mod_def,
      Nat.mul_comm p]
  · rfl

theorem Printed.divide {V p q : Nat} {s : Nat × Nat × List UInt8} (hp : 0 < p)
    (hq : q = p * 10) (h : Printed V q s) : Printed V p (dividePlace s p) := by
  rw [dividePlace_eq hp (hq ▸ h.left)]
  exact h.place hp hq

theorem printed_places {V : Nat} (hV : V < 10000000000) :
    Printed V 10 (dividePlace (dividePlace
      (decimalPlaces.foldl decimalPlace (V, 0, [])) 100) 10) := by
  have hstart : Printed V 10000000000 (V, 0, []) :=
    ⟨by simp [ofDigits], hV, fun _ => rfl, by simp⟩
  have h₁ := hstart.place (p := 1000000000) (by norm_num) (by norm_num)
  have h₂ := h₁.place (p := 100000000) (by norm_num) (by norm_num)
  have h₃ := h₂.place (p := 10000000) (by norm_num) (by norm_num)
  have h₄ := h₃.place (p := 1000000) (by norm_num) (by norm_num)
  have h₅ := h₄.place (p := 100000) (by norm_num) (by norm_num)
  have h₆ := h₅.place (p := 10000) (by norm_num) (by norm_num)
  have h₇ := h₆.place (p := 1000) (by norm_num) (by norm_num)
  have h₈ := h₇.divide (p := 100) (by norm_num) (by norm_num)
  have h₉ := h₈.divide (p := 10) (by norm_num) (by norm_num)
  simpa only [decimalPlaces, List.foldl_cons, List.foldl_nil] using h₉

/-- The digits printed denote the number, and nothing but digits is
printed. -/
theorem serwriteUint32_spec {v : Nat} (hv : v < 10000000000) :
    ofDigits (serwriteUint32 v) = v ∧ ∀ b ∈ serwriteUint32 v, IsDigit b := by
  have h := printed_places hv
  unfold serwriteUint32
  dsimp only
  generalize dividePlace (dividePlace _ 100) 10 = s at h ⊢
  obtain ⟨w, t, out⟩ := s
  constructor
  · show ofDigits (out ++ [digit w]) = v
    rw [ofDigits_append_digit _ h.left]
    exact h.value
  · intro b hb
    rcases List.mem_append.1 hb with hb | hb
    · exact h.digits b hb
    · rw [List.mem_singleton.1 hb]
      exact digit_isDigit h.left

/-- Different numbers print differently. -/
theorem serwriteUint32_injective {v w : Nat} (hv : v < 10000000000)
    (hw : w < 10000000000) (h : serwriteUint32 v = serwriteUint32 w) :
    v = w := by
  rw [← (serwriteUint32_spec hv).1, h, (serwriteUint32_spec hw).1]

/-- A byte of a printed number: a digit, the sign or the point. -/
def IsNumeric (b : UInt8) : Prop := IsDigit b ∨ b = 45 ∨ b = 46

theorem serwriteUint32_numeric {v : Nat} (hv : v < 10000000000) :
    ∀ b ∈ serwriteUint32 v, IsNumeric b :=
  fun b hb => .inl ((serwriteUint32_spec hv).2 b hb)

theorem uint32_toNat_lt (z : Int) : (uint32 z).toNat < 10000000000 := by
  have h := uint32_range z
  omega

theorem serwriteInt32_numeric {v : Int} (hv : v < 2147483648) :
    ∀ b ∈ serwriteInt32 v, IsNumeric b := by
  intro b hb
  unfold serwriteInt32 at hb
  split at hb
  · rcases List.mem_append.1 hb with hb | hb
    · exact .inr (.inl (List.mem_singleton.1 hb))
    · exact serwriteUint32_numeric (uint32_toNat_lt _) b hb
  · exact serwriteUint32_numeric (by omega) b hb

theorem serwriteDouble_numeric {R : Type*} [Field R] [LinearOrder R]
    [FloorRing R] [HasDouble R] (v : R) : ∀ b ∈ serwriteDouble v, IsNumeric b := by
  have hminus : ∀ b ∈ str "-", IsNumeric b :=
    fun b hb => .inr (.inl (List.mem_singleton.1 hb))
  have hpoint : ∀ b ∈ str ".", IsNumeric b :=
    fun b hb => .inr (.inr (List.mem_singleton.1 hb))
  have hzero : ∀ (c : Prop) [Decidable c],
      ∀ b ∈ (if c then str "0" else []), IsNumeric b := by
    intro c _ b hb
    split at hb
    · rw [List.mem_singleton.1 hb]
      exact .inl ⟨by decide, by decide⟩
    · exact absurd hb (by simp)
  unfold serwriteDouble
  dsimp only
  intro b hb
  simp only [List.mem_append] at hb
  rcases hb with ((((hb | hb) | hb) | hb) | hb) | hb
  · split at hb
    · exact hminus b hb
    · exact absurd hb (by simp)
  · exact serwriteUint32_numeric (uint32_toNat_lt _) b hb
  · exact hpoint b hb
  · exact hzero _ b hb
  · exact hzero _ b hb
  · exact serwriteUint32_numeric (uint32_toNat_lt _) b hb

end R2C2Firmware.Ports.Sermsg
