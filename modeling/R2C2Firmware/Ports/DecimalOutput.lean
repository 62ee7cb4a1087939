import R2C2Firmware.Ports.ParserInvariant
import R2C2Firmware.Ports.ConfigRoundTrip

/-!
# Decimal output

`serwrite_uint32` finds the digits of a number place by place.  Its variable `t` is
the digit last printed and, being zero until one is printed, says whether a zero has
to be written.  `decimal` is the usual representation; `Shown` relates it to the
state between two places: what has been printed is the number without the places to
come.

The replies are read back the way a host does, from behind their text.

## Main results

* `serwriteUint32_decimal` — the digits printed, for every number of 32 bits.
* `decimal_output` — signed numbers, and the replies that carry a number.
-/

set_option linter.unusedSectionVars false

namespace R2C2Firmware.Ports.DecimalOutput

open R2C2Firmware.Verified.Number
open R2C2Firmware.Verified.BusyWait
open R2C2Firmware.Ports.Config
open R2C2Firmware.Ports.Sermsg
open R2C2Firmware.Ports.ReadConfig
open R2C2Firmware.Ports.ConfigRoundTrip
open R2C2Firmware.Ports.GcodeParse
open R2C2Firmware.Ports.Mendel
open R2C2Firmware.Ports.GcodeProcess

/-! ## The usual representation -/

/-- The decimal representation, without leading zeros. -/
def decimal (n : Nat) : List UInt8 := str (toString n)

theorem decimal_eq (n : Nat) :
    decimal n = (Nat.toDigits 10 n).map fun c => c.toNat.toUInt8 := by
  rw [decimal, str, Nat.toString_eq_repr, Nat.toList_repr]

theorem digitChar_toUInt8 {d : Nat} (hd : d < 10) :
    (Nat.digitChar d).toNat.toUInt8 = digit d := by
  interval_cases d <;> rfl

theorem decimal_of_lt {n : Nat} (h : n < 10) : decimal n = [digit n] := by
  rw [decimal_eq, Nat.toDigits_of_lt_base h, List.map_singleton, digitChar_toUInt8 h]

theorem decimal_push {n d : Nat} (hn : 0 < n) (hd : d < 10) :
    decimal (n * 10 + d) = decimal n ++ [digit d] := by
  have hdiv : (n * 10 + d) / 10 = n := by omega
  have hmod : (n * 10 + d) % 10 = d := by omega
  rw [decimal_eq, Nat.toDigits_of_base_le (by decide) (by omega), hdiv, hmod,
    List.map_append, List.map_singleton, digitChar_toUInt8 hd, decimal_eq]

/-- The digits of a number, none for zero. -/
def significant (n : Nat) : List UInt8 := if n = 0 then [] else decimal n

theorem significant_of_pos {n : Nat} (h : 0 < n) : significant n = decimal n :=
  if_neg h.ne'

/-- The significant digits of a number grow at the end, one digit at a time. -/
theorem significant_push {n d : Nat} (h : 0 < n ∨ 0 < d) (hd : d < 10) :
    significant (n * 10 + d) = significant n ++ [digit d] := by
  rw [significant_of_pos (by omega)]
  rcases Nat.eq_zero_or_pos n with rfl | hn
  · rw [Nat.zero_mul, Nat.zero_add, decimal_of_lt hd]
    rfl
  · rw [significant_of_pos hn, decimal_push hn hd]

/-! ## The places -/

/-- Between two places of `serwrite_uint32`: the number `V` without the places below
`q` has been printed, and `t` is zero if that is nothing. -/
structure Shown (V q : Nat) (s : Nat × Nat × List UInt8) : Prop where
  left : s.1 = V % q
  flag : s.2.1 = 0 ↔ V / q = 0
  shown : s.2.2 = significant (V / q)

theorem Shown.place {V p q : Nat} {s : Nat × Nat × List UInt8} (hp : 0 < p)
    (hq : q = p * 10) (h : Shown V q s) : Shown V p (decimalPlace s p) := by
  subst hq
  obtain ⟨v, t, out⟩ := s
  obtain ⟨hleft, hflag, hshown⟩ := h
  dsimp only at hleft hflag hshown
  have hlt : v / p < 10 := by
    rw [hleft]
    exact Nat.div_lt_of_lt_mul (Nat.mod_lt V (by omega))
  have hdiv : V / p = V / (p * 10) * 10 + v / p := by
    rw [hleft, Nat.mod_mul_right_div_self, ← Nat.div_div_eq_div_mul]
    exact (Nat.div_add_mod' (V / p) 10).symm
  have hmod : V % p = v % p := by
    rw [hleft, Nat.mod_mul_right_mod]
  unfold decimalPlace
  dsimp only
  split
  · next hge =>
      have hpos : 0 < v / p := Nat.div_pos hge hp
      rw [subtractLoop_eq hp 16 v 0 (by omega), Nat.zero_add]
      refine ⟨hmod.symm, ⟨fun h0 => absurd h0 hpos.ne', fun h0 => by omega⟩, ?_⟩
      show out ++ [digit (v / p)] = significant (V / p)
      rw [hdiv, significant_push (.inr hpos) hlt, hshown]
  · next hge =>
      have hzero : v / p = 0 := Nat.div_eq_of_lt (by omega)
      have hrest : v = V % p := by rw [hmod, Nat.mod_eq_of_lt (by omega)]
      split
      · next ht =>
          -- a zero inside the number
          have hpos : 0 < V / (p * 10) := Nat.pos_of_ne_zero (mt hflag.2 ht)
          refine ⟨hrest, ⟨fun h0 => absurd h0 ht, fun h0 => by omega⟩, ?_⟩
          show out ++ [digit 0] = significant (V / p)
          rw [hdiv, hzero, significant_push (.inl hpos) (by decide), hshown]
      · next ht =>
          -- a leading zero
          have hnone : V / (p * 10) = 0 := hflag.1 (not_not.1 ht)
          have hnone' : V / p = 0 := by omega
          refine ⟨hrest, ⟨fun _ => hnone', fun _ => not_not.1 ht⟩, ?_⟩
          show out = significant (V / p)
          rw [hshown, hnone, hnone']

theorem Shown.divide {V p q : Nat} {s : Nat × Nat × List UInt8} (hp : 0 < p)
    (hq : q = p * 10) (h : Shown V q s) : Shown V p (dividePlace s p) := by
  have hlt : s.1 < p * 10 := by
    rw [h.left, hq]
    exact Nat.mod_lt V (by omega)
  rw [dividePlace_eq hp hlt]
  exact h.place hp hq

theorem shown_places {V : Nat} (hV : V < 10000000000) :
    Shown V 10 (dividePlace (dividePlace
      (decimalPlaces.foldl decimalPlace (V, 0, [])) 100) 10) := by
  have hzero : V / 10000000000 = 0 := Nat.div_eq_of_lt hV
  have hstart : Shown V 10000000000 (V, 0, []) :=
    ⟨(Nat.mod_eq_of_lt hV).symm, ⟨fun _ => hzero, fun _ => rfl⟩, by rw [hzero]; rfl⟩
  have h₁ := hstart.place (p := 1000000000) (by norm_num) (by norm_num)
  have h₂ := h₁.place (p := 100000000) (by norm_num) (by norm_num)
  have h₃ := h₂.place (p := 10000000) (by norm_num) (by norm_num)
  have h₄ := h₃.place (p := 1000000) (by norm_num) (by norm_num)
  have h₅ := h₄.place (p := 100000) (by norm_num) (by norm_num)
  have h₆ := h₅.place (p := 10000) (by norm_num) (by norm_num)
  have h₇ := h₆.place (p := 1000) (by norm_num) (by norm_num)
  have h₈ := h₇.divide (p := 100) (by norm_num) (by norm_num)
  have h₉ := h₈.divide (p := 10) (by norm_num) (by norm_num)
  simpa only [decimalPlaces, List.foldl_cons, List.foldl_nil] using h₉

/-- `serwrite_uint32` prints the decimal representation. -/
theorem serwriteUint32_decimal {v : Nat} (hv : v < 10000000000) :
    serwriteUint32 v = decimal v := by
  have h := shown_places hv
  unfold serwriteUint32
  dsimp only
  generalize dividePlace (dividePlace _ 100) 10 = s at h ⊢
  obtain ⟨w, t, out⟩ := s
  obtain ⟨hleft, -, hshown⟩ := h
  dsimp only at hleft hshown
  show out ++ [digit w] = decimal v
  rw [hshown, hleft]
  rcases Nat.lt_or_ge v 10 with hlt | hge
  · rw [Nat.div_eq_of_lt hlt, Nat.mod_eq_of_lt hlt, decimal_of_lt hlt]
    rfl
  · have hdigit := decimal_push (n := v / 10) (d := v % 10) (by omega) (by omega)
    rw [Nat.div_add_mod' v 10] at hdigit
    rw [significant_of_pos (by omega), hdigit]

/-! ## Numbers in a reply -/

/-- The unsigned number a text starts with. -/
def readNat (text : List UInt8) : Nat := ofDigits (text.takeWhile isdigit)

/-- The number a text starts with. -/
def readInt : List UInt8 → Int
  | 45 :: t => -(readNat t : Int)
  | t => readNat t

theorem readInt_minus (t : List UInt8) : readInt (45 :: t) = -(readNat t : Int) := rfl

/-- The number behind a label. -/
def numberBehind (label : String) (text : List UInt8) : Option Int :=
  if str label <+: text then some (readInt (text.drop (str label).length)) else none

theorem readNat_serwriteUint32 {v : Nat} (hv : v < 10000000000) {rest : List UInt8}
    (hrest : Stops isdigit rest) : readNat (serwriteUint32 v ++ rest) = v := by
  rw [readNat, (takeWhile_stops (serwriteUint32_isdigit hv) hrest).1,
    (serwriteUint32_spec hv).1]

theorem readInt_serwriteUint32 {v : Nat} (hv : v < 10000000000) {rest : List UInt8}
    (hrest : Stops isdigit rest) : readInt (serwriteUint32 v ++ rest) = v := by
  obtain ⟨c, w, hcons, hc, -⟩ := serwriteUint32_cons hv
  have hread := readNat_serwriteUint32 hv hrest
  rw [hcons, List.cons_append] at hread ⊢
  unfold readInt
  split
  · next heq =>
      obtain ⟨rfl, -⟩ := List.cons.inj heq
      exact absurd hc (by decide)
  · rw [hread]

theorem readInt_serwriteInt32 {v : Int} (hlo : -2147483648 ≤ v) (hhi : v < 2147483648)
    {rest : List UInt8} (hrest : Stops isdigit rest) :
    readInt (serwriteInt32 v ++ rest) = v := by
  unfold serwriteInt32
  split
  · next hneg =>
      rw [show str "-" = [45] from rfl, List.singleton_append, List.cons_append,
        readInt_minus, readNat_serwriteUint32 (uint32_toNat_lt _) hrest, uint32_neg hlo hneg]
      omega
  · rw [readInt_serwriteUint32 (by omega) hrest]
    omega

/-- `serwrite_int32`, the smallest number included. -/
theorem serwriteInt32_decimal {v : Int} (hlo : -2147483648 ≤ v)
    (hhi : v < 2147483648) :
    serwriteInt32 v =
      if v < 0 then str "-" ++ decimal (-v).toNat else decimal v.toNat := by
  unfold serwriteInt32
  split
  · next hneg =>
      rw [uint32_neg hlo hneg, serwriteUint32_decimal (by omega)]
  · rw [serwriteUint32_decimal (by omega)]

/-! ## The replies -/

variable {R σ : Type}

/-- A label, a number and a line end. -/
def labelled (label : String) (v : Nat) : List UInt8 :=
  str label ++ serwriteUint32 v ++ str "\r\n"

theorem stops_crlf : Stops isdigit (str "\r\n") := by
  intro c hc
  rw [← Option.some.inj hc]
  decide

theorem numberBehind_labelled (label : String) {v : Nat} (hv : v < 10000000000)
    (rest : List UInt8) : numberBehind label (labelled label v ++ rest) = some (v : Int) := by
  have hstops : Stops isdigit (str "\r\n" ++ rest) := stops_crlf
  unfold numberBehind labelled
  simp only [List.append_assoc]
  rw [if_pos (List.prefix_append _ _), List.drop_left, readInt_serwriteUint32 hv hstops]

/-- `request_resend` -/
def requestResend (c : GcodeCommand R) : List UInt8 := labelled "rs " c.n.toNat

/-- What `gcode_parse_line` writes for a line out of order.  The branch is compiled
with `REQUIRE_LINENUMBER` only. -/
def expectedLineNumber (c : GcodeCommand R) : List UInt8 :=
  labelled "Expected line number " c.nExpected.toNat ++ requestResend c

variable [Field R] [LinearOrder R] [HasSqrt R] [FloorRing R]

theorem numberBehind_requestResend {c : GcodeCommand R} (hc : ParserInv c) :
    numberBehind "rs " (requestResend c) = some c.n := by
  have hrange := uint32_range c.n
  rw [hc.n] at hrange
  have h := numberBehind_labelled "rs " (v := c.n.toNat) (by omega) []
  rw [List.append_nil] at h
  rw [requestResend, h, Int.toNat_of_nonneg hrange.1]

theorem rejectLine_eq (c : GcodeCommand R) :
    (rejectLine c : FwM R σ Unit) =
      serialWrite (labelled "Expected checksum " c.checksumCalculated.toNat ++
        requestResend c) := by
  unfold rejectLine requestResend labelled
  simp only [List.append_assoc]

theorem runCommand_badM (P : Platform σ) {c : GcodeCommand R} {m : Int}
    (h : commandOf c = .badM m) :
    (runCommand P c : FwM R σ (Outcome R)) = do
      serialWrite (labelled "E: Bad M-code " m.toNat)
      return .plain := by
  unfold runCommand
  rw [h]
  rfl

theorem commandOf_eq_badM {c : GcodeCommand R} {m : Int} (h : commandOf c = .badM m) :
    m = c.m := by
  unfold commandOf at h
  split at h
  · split at h <;> exact absurd h (by simp)
  · split at h
    · split at h
      · exact absurd h (by simp)
      · exact (Command.badM.inj h).symm
    · exact absurd h (by simp)

/-- Numbers are written in the usual decimal representation, and read back from the
replies. -/
theorem decimal_output (P : Platform σ) :
    (∀ v : UInt32, serwriteUint32 v.toNat = decimal v.toNat) ∧
      (∀ v : Int32, serwriteInt32 v.toInt =
        if v.toInt < 0 then str "-" ++ decimal (-v.toInt).toNat
        else decimal v.toInt.toNat) ∧
      (∀ (v : UInt32) (rest : List UInt8), Stops isdigit rest →
        readInt (serwriteUint32 v.toNat ++ rest) = v.toNat) ∧
      (∀ (v : Int32) (rest : List UInt8), Stops isdigit rest →
        readInt (serwriteInt32 v.toInt ++ rest) = v.toInt) ∧
      ∀ c : GcodeCommand R, ParserInv c →
        (uint32 c.nExpected = c.nExpected →
          numberBehind "Expected line number " (expectedLineNumber c) =
            some c.nExpected) ∧
        (∃ text, (rejectLine c : FwM R σ Unit) =
            serialWrite (text ++ requestResend c) ∧
          numberBehind "Expected checksum " text = some c.checksumCalculated.toNat ∧
          numberBehind "rs " (requestResend c) = some c.n) ∧
        (∀ m, commandOf c = .badM m →
          ∃ text, (runCommand P c : FwM R σ (Outcome R)) = (do
              serialWrite text
              return .plain) ∧
            numberBehind "E: Bad M-code " text = some c.m) := by
  have hunsigned : ∀ v : UInt32, v.toNat < 10000000000 := fun v =>
    v.toNat_lt.trans (by decide)
  have hsigned : ∀ v : Int32, -2147483648 ≤ v.toInt ∧ v.toInt < 2147483648 := fun v =>
    ⟨v.le_toInt, v.toInt_lt⟩
  refine ⟨fun v => serwriteUint32_decimal (hunsigned v),
    fun v => serwriteInt32_decimal (hsigned v).1 (hsigned v).2,
    fun v rest hrest => readInt_serwriteUint32 (hunsigned v) hrest,
    fun v rest hrest => readInt_serwriteInt32 (hsigned v).1 (hsigned v).2 hrest,
    fun c hc => ⟨fun hexpected => ?_, ?_, fun m hm => ?_⟩⟩
  · have hrange := uint32_range c.nExpected
    rw [hexpected] at hrange
    rw [expectedLineNumber, numberBehind_labelled _ (by omega),
      Int.toNat_of_nonneg hrange.1]
  · refine ⟨_, rejectLine_eq c, ?_, numberBehind_requestResend hc⟩
    have hbyte := c.checksumCalculated.toNat_lt
    have h := numberBehind_labelled "Expected checksum "
      (v := c.checksumCalculated.toNat) (by omega) []
    rwa [List.append_nil] at h
  · obtain rfl := commandOf_eq_badM hm
    have hrange : 0 ≤ c.m ∧ c.m < 65536 := by
      rw [← hc.m, uint16, wrapUnsigned]
      omega
    have h := numberBehind_labelled "E: Bad M-code " (v := c.m.toNat) (by omega) []
    rw [List.append_nil, Int.toNat_of_nonneg hrange.1] at h
    exact ⟨_, runCommand_badM P hm, h⟩

example : serwriteUint32 4000000070 = decimal 4000000070 := by decide +kernel

end R2C2Firmware.Ports.DecimalOutput
