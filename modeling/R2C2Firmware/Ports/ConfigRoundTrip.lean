import Mathlib.Data.List.TakeWhile
import R2C2Firmware.Ports.ConfigFile
import R2C2Firmware.Ports.GcodeProcess
import R2C2Firmware.Verified.LineReader

/-!
# Reading back what was printed

`print_config` prints a line `name = value` for every integer and every decimal of
the table.  The numbers are printed by `serwrite_int32` and `serwrite_double`, and
read by `atoi` and `atod`; the decimals have three places.  What is printed as
`config.txt` and read again is the same configuration.

Both entries for the dump position print and set the field `dump_pos_x`, and so they
agree.

## Main results

* `atoi_serwriteInt32`, `atod_serwriteDouble` — the numbers.
* `printedLine_isLine`, `printedLine_assigns` — the lines.
* `config_round_trip` — the file.
-/

set_option linter.unusedSectionVars false

namespace R2C2Firmware.Ports.ConfigRoundTrip

open R2C2Firmware.Verified.Number
open R2C2Firmware.Verified.BusyWait
open R2C2Firmware.Verified.LineReader
open R2C2Firmware.Verified.LastWrite
open R2C2Firmware.Ports.Config
open R2C2Firmware.Ports.Sermsg
open R2C2Firmware.Ports.ReadConfig
open R2C2Firmware.Ports.ConfigFile
open R2C2Firmware.Ports.Mendel
open R2C2Firmware.Ports.GcodeProcess

/-! ## Integers -/

theorem serwriteUint32_isdigit {v : Nat} (hv : v < 10000000000) :
    ∀ b ∈ serwriteUint32 v, isdigit b = true :=
  fun b hb => isdigit_iff.2 ((serwriteUint32_spec hv).2 b hb)

/-- What is printed of a number starts with a digit. -/
theorem serwriteUint32_cons {v : Nat} (hv : v < 10000000000) :
    ∃ c w, serwriteUint32 v = c :: w ∧ isdigit c = true ∧ ∀ b ∈ w, isdigit b = true := by
  have hdigits := serwriteUint32_isdigit hv
  cases h : serwriteUint32 v with
  | nil =>
      unfold serwriteUint32 at h
      exact absurd h (by simp)
  | cons c w =>
      rw [h] at hdigits
      exact ⟨c, w, rfl, hdigits c List.mem_cons_self, fun b hb =>
        hdigits b (List.mem_cons_of_mem _ hb)⟩

/-- The magnitude that is printed behind the sign, also of the smallest number. -/
theorem uint32_neg {v : Int} (hlo : -2147483648 ≤ v) (hneg : v < 0) :
    uint32 (-v) = -v :=
  uint32_of_range (by omega) (by omega)

/-- `atoi` reads what `serwrite_int32` prints. -/
theorem atoi_serwriteInt32 {v : Int} (hlo : -2147483648 ≤ v) (hhi : v < 2147483648) :
    atoi (serwriteInt32 v) = v := by
  unfold serwriteInt32
  split
  · next hneg =>
    have hmagnitude : (uint32 (-v)).toNat < 10000000000 := uint32_toNat_lt _
    rw [show str "-" = [45] from rfl, List.singleton_append,
      atoi_negative (serwriteUint32_isdigit hmagnitude),
      (serwriteUint32_spec hmagnitude).1, uint32_neg hlo hneg]
    omega
  · next hpos =>
    have hmagnitude : v.toNat < 10000000000 := by omega
    rw [atoi_unsigned (serwriteUint32_isdigit hmagnitude),
      (serwriteUint32_spec hmagnitude).1]
    omega

/-- The line end stops a number. -/
theorem stops_lineFeed : Stops (fun b => isdigit b || b == 46) [10] := by
  intro b hb
  rw [← Option.some.inj hb]
  decide

theorem isToken_int32 {v : Int} (hlo : -2147483648 ≤ v) (hhi : v < 2147483648) :
    IsToken (serwriteInt32 v) [10] := by
  unfold serwriteInt32
  split
  · rw [show str "-" = [45] from rfl, List.singleton_append]
    exact .integer (by decide) (serwriteUint32_isdigit (uint32_toNat_lt _))
      stops_lineFeed
  · obtain ⟨c, w, hcons, hc, hw⟩ := serwriteUint32_cons (v := v.toNat) (by omega)
    rw [hcons]
    exact .integer (isNumberStart_iff.2 (.inl hc)) hw stops_lineFeed

/-! ## Decimals -/

/-- A place that is not reached yet prints nothing. -/
theorem decimalPlace_above {v p : Nat} (h : v < p) :
    decimalPlace (v, 0, []) p = (v, 0, []) := by
  unfold decimalPlace
  dsimp only
  rw [if_neg (by omega), if_neg (by simp)]

/-- A decimal place prints one digit, unless it is a leading zero. -/
theorem decimalPlace_length {v t p : Nat} {out : List UInt8} (h : t ≠ 0 ∨ p ≤ v) :
    (decimalPlace (v, t, out) p).2.2.length = out.length + 1 := by
  unfold decimalPlace
  dsimp only
  split
  · simp
  · rw [if_pos (h.resolve_right (by omega))]
    simp

/-- Numbers below 1000 and their leading zeros. -/
def threePlaces (r : Nat) : List UInt8 :=
  (if r < 100 then str "0" else []) ++ (if r < 10 then str "0" else []) ++
    serwriteUint32 r

theorem serwriteUint32_small {r : Nat} (hr : r < 1000) :
    (serwriteUint32 r).length =
      (decimalPlace (decimalPlace (r, 0, []) 100) 10).2.2.length + 1 := by
  have hhundred : (decimalPlace (r, 0, []) 100).1 < 10 * 10 := by
    unfold decimalPlace
    dsimp only
    split
    · rw [subtractLoop_eq (by decide) 16 r 0 (by omega)]
      exact Nat.mod_lt r (by decide)
    · rw [if_neg (not_not.2 rfl)]
      show r < 100
      omega
  unfold serwriteUint32 decimalPlaces
  simp only [List.foldl_cons, List.foldl_nil]
  rw [decimalPlace_above (p := 1000000000) (by omega),
    decimalPlace_above (p := 100000000) (by omega),
    decimalPlace_above (p := 10000000) (by omega),
    decimalPlace_above (p := 1000000) (by omega),
    decimalPlace_above (p := 100000) (by omega),
    decimalPlace_above (p := 10000) (by omega),
    decimalPlace_above (p := 1000) (by omega),
    dividePlace_eq (p := 100) (by decide) hr,
    dividePlace_eq (p := 10) (by decide) hhundred, List.length_append,
    List.length_singleton]

theorem threePlaces_length {r : Nat} (hr : r < 1000) : (threePlaces r).length = 3 := by
  unfold threePlaces
  rw [List.length_append, List.length_append, serwriteUint32_small hr]
  by_cases hhundred : r < 100
  · rw [if_pos hhundred, decimalPlace_above hhundred]
    by_cases hten : r < 10
    · rw [if_pos hten, decimalPlace_above hten]
      rfl
    · rw [if_neg hten, decimalPlace_length (.inr (by omega))]
      rfl
  · have hfirst : decimalPlace (r, 0, []) 100 = (r % 100, r / 100, [digit (r / 100)]) := by
      unfold decimalPlace
      dsimp only
      rw [if_pos (by omega), subtractLoop_eq (by decide) 16 r 0 (by omega)]
      simp
    rw [if_neg hhundred, if_neg (by omega), hfirst,
      decimalPlace_length (.inl (by omega))]
    rfl

theorem ofDigits_zeros (n : Nat) (v : List UInt8) :
    ofDigits (List.replicate n 48 ++ v) = ofDigits v := by
  induction n with
  | zero => rfl
  | succ n ih => exact ih

/-- The places behind the point. -/
theorem threePlaces_spec {r : Nat} (hr : r < 1000) :
    ofDigits (threePlaces r) = r ∧ ∀ b ∈ threePlaces r, isdigit b = true := by
  have hr' : r < 10000000000 := by omega
  have hzeros : ∃ n, threePlaces r = List.replicate n 48 ++ serwriteUint32 r := by
    unfold threePlaces
    by_cases hhundred : r < 100
    · by_cases hten : r < 10
      · exact ⟨2, by rw [if_pos hhundred, if_pos hten]; rfl⟩
      · exact ⟨1, by rw [if_pos hhundred, if_neg hten]; rfl⟩
    · exact ⟨0, by rw [if_neg hhundred, if_neg (by omega)]; rfl⟩
  obtain ⟨n, hzeros⟩ := hzeros
  rw [hzeros]
  refine ⟨(ofDigits_zeros n _).trans (serwriteUint32_spec hr').1, fun b hb => ?_⟩
  rcases List.mem_append.1 hb with hb | hb
  · rw [List.eq_of_mem_replicate hb]
    rfl
  · exact serwriteUint32_isdigit hr' b hb

variable {R : Type} [Field R] [LinearOrder R] [FloorRing R]

section Numbers

variable [IsStrictOrderedRing R]

/-- A multiple of a thousandth: its whole part, the point and three places. -/
theorem serwriteDouble_thousandths {q r : Nat} (hq : q < 2147483648) (hr : r < 1000) :
    serwriteDouble ((q : R) + (r : R) / 1000) =
      serwriteUint32 q ++ 46 :: threePlaces r := by
  have hr' : (r : R) < 1000 := by exact_mod_cast hr
  have hfrac : (0 : R) ≤ (r : R) / 1000 ∧ (r : R) / 1000 < 1 :=
    ⟨by positivity, by rw [div_lt_one (by norm_num)]; exact hr'⟩
  have hpos : ¬(q : R) + (r : R) / 1000 < 0 := not_lt.2 (by
    have := hfrac.1
    positivity)
  have htruncate : truncate ((q : R) + (r : R) / 1000) = q := by
    rw [truncate, if_pos (not_lt.1 hpos), Int.floor_natCast_add,
      Int.floor_eq_zero_iff.2 hfrac, add_zero]
  have hwhole : uint32 (q : Int) = q := uint32_of_range (by omega) (by omega)
  have hwhole' : int32 (q : Int) = q := int32_of_range (by omega) (by omega)
  have hsmall : ∀ n : Nat, ((r : R) < (n : R)) = (r < n) := fun n =>
    propext Nat.cast_lt
  have hhundred := hsmall 100
  have hten := hsmall 10
  push_cast at hhundred hten
  have hplaces : scaledFraction ((q : R) + (r : R) / 1000) = (r : R) := by
    rw [scaledFraction, htruncate, hwhole', toDouble_exact, toDouble_exact]
    push_cast
    ring
  have hrest : uint32 (truncate (r : R)) = r := by
    rw [truncate_natCast]
    exact uint32_of_range (by omega) (by omega)
  unfold serwriteDouble threePlaces
  dsimp only
  rw [if_neg hpos, if_neg hpos, htruncate, hwhole, hplaces, hrest,
    List.nil_append, Int.toNat_natCast, Int.toNat_natCast]
  simp only [hhundred, hten]
  rw [show str "." = [46] from rfl]
  simp only [List.append_assoc, List.cons_append, List.nil_append]

/-- `atod` reads what `serwrite_double` prints. -/
theorem atod_serwriteDouble {q r : Nat} (hq : q < 2147483648) (hr : r < 1000) :
    atod (serwriteDouble ((q : R) + (r : R) / 1000)) = (q : R) + (r : R) / 1000 := by
  have hq' : q < 10000000000 := by omega
  obtain ⟨hvalue, hdigits⟩ := threePlaces_spec hr
  rw [serwriteDouble_thousandths hq hr, atod_decimal (serwriteUint32_isdigit hq') hdigits,
    (serwriteUint32_spec hq').1, hvalue, threePlaces_length hr]
  norm_num

theorem isToken_double {q r : Nat} (hq : q < 2147483648) (hr : r < 1000) :
    IsToken (serwriteDouble ((q : R) + (r : R) / 1000)) [10] := by
  obtain ⟨c, w, hcons, hc, hw⟩ := serwriteUint32_cons (v := q) (by omega)
  rw [serwriteDouble_thousandths hq hr, hcons]
  refine .decimal (isNumberStart_iff.2 (.inl hc)) hw (threePlaces_spec hr).2
    fun b hb => ?_
  rw [← Option.some.inj hb]
  decide

/-- A multiple of a thousandth that is not negative. -/
theorem thousandths {v : R} (h : ∃ k : Nat, v = (k : R) / 1000) (hv : v < 2147483648) :
    ∃ q r : Nat, q < 2147483648 ∧ r < 1000 ∧ v = (q : R) + (r : R) / 1000 := by
  obtain ⟨k, rfl⟩ := h
  have hsplit : k = 1000 * (k / 1000) + k % 1000 := (Nat.div_add_mod k 1000).symm
  have hk : k < 2147483648 * 1000 := by
    rw [div_lt_iff₀ (by norm_num)] at hv
    exact_mod_cast hv
  refine ⟨k / 1000, k % 1000, by omega, Nat.mod_lt _ (by decide), ?_⟩
  have hcast : (k : R) = 1000 * ((k / 1000 : Nat) : R) + ((k % 1000 : Nat) : R) := by
    exact_mod_cast hsplit
  rw [hcast]
  field_simp

end Numbers

/-! ## Lines -/

/-- The value of an entry. -/
def current (item : ConfigItem R) (c : Configuration R) : Option (Value R) :=
  match item.value with
  | .int read _ _ => some (.int (read c))
  | .double read _ _ => some (.double (read c))
  | .other => none

/-- The numbers that are printed in full: integers of 32 bits, and multiples of a
thousandth that are not negative. -/
def Printable (cfg : Configuration R) : Prop :=
  ∀ item ∈ configLookup, ∀ v, current item cfg = some v →
    match v with
    | .int i => -2147483648 ≤ i ∧ i < 2147483648
    | .double x => (∃ k : Nat, x = (k : R) / 1000) ∧ x < 2147483648
    | _ => True

/-- What `print_config` sends. -/
def printed (cfg : Configuration R) : List UInt8 :=
  configLookup.flatMap (printItem cfg)

theorem printConfig_sends {σ : Type} (w : World (Firmware R σ) Irq) :
    (printConfig w).2.state.tx = w.state.tx ++ printed w.state.config :=
  rfl

/-- The number printed for a value. -/
def number : Value R → List UInt8
  | .int v => serwriteInt32 (int32 v)
  | .double v => serwriteDouble v
  | _ => []

/-- The line printed for an entry, as it is read. -/
def printedLine (cfg : Configuration R) (item : ConfigItem R) : Option (List UInt8) :=
  (current item cfg).map fun v => str item.name ++ (str " = " ++ (number v ++ [10]))

theorem printItem_eq (cfg : Configuration R) (item : ConfigItem R) :
    printItem cfg item =
      ((current item cfg).map fun v =>
        str item.name ++ (str " = " ++ (number v ++ str "\r\n"))).getD [] := by
  obtain ⟨name, value⟩ := item
  cases value <;> rfl

theorem serwriteUint32_length (v : Nat) : (serwriteUint32 v).length ≤ 10 := by
  have hplace : ∀ (s : Nat × Nat × List UInt8) (p : Nat),
      (decimalPlace s p).2.2.length ≤ s.2.2.length + 1 := by
    rintro ⟨v, t, out⟩ p
    unfold decimalPlace
    dsimp only
    split
    · simp
    · split <;> simp
  have hplaces : ∀ (ps : List Nat) (s : Nat × Nat × List UInt8),
      (ps.foldl decimalPlace s).2.2.length ≤ s.2.2.length + ps.length := by
    intro ps
    induction ps with
    | nil => exact fun s => le_rfl
    | cons p ps ih =>
        intro s
        have hfirst := hplace s p
        have hrest := ih (decimalPlace s p)
        rw [List.foldl_cons, List.length_cons]
        omega
  have hdivide : ∀ (s : Nat × Nat × List UInt8) (p : Nat),
      (dividePlace s p).2.2.length ≤ s.2.2.length + 1 := by
    rintro ⟨v, t, out⟩ p
    unfold dividePlace
    dsimp only
    split
    · simp
    · split <;> simp
  have hall : (decimalPlaces.foldl decimalPlace (v, 0, [])).2.2.length ≤ 7 :=
    hplaces decimalPlaces (v, 0, [])
  unfold serwriteUint32
  dsimp only
  generalize decimalPlaces.foldl decimalPlace (v, 0, []) = s at hall ⊢
  have hhundred := hdivide s 100
  have hten := hdivide (dividePlace s 100) 10
  generalize dividePlace (dividePlace s 100) 10 = s' at hten ⊢
  obtain ⟨w, t, out⟩ := s'
  have hout : out.length ≤ 9 := by
    dsimp only at hten
    omega
  show (out ++ [digit w]).length ≤ 10
  rw [List.length_append, List.length_singleton]
  omega

/-- The numbers of a printable configuration: their bytes, that they are tokens, and
the values they stand for. -/
theorem number_spec [IsStrictOrderedRing R] {cfg : Configuration R} (h : Printable cfg)
    {item : ConfigItem R} (hitem : item ∈ configLookup) {v : Value R}
    (hv : current item cfg = some v) :
    (∀ b ∈ number v, IsNumeric b) ∧ (number v).length ≤ 14 ∧ IsToken (number v) [10] ∧
      stored item (number v) = some v := by
  have hrange := h item hitem v hv
  unfold stored
  unfold current at hv
  cases hvalue : item.value with
  | int read set val =>
      rw [hvalue] at hv
      obtain rfl : Value.int (read cfg) = v := Option.some.inj hv
      obtain ⟨hlo, hhi⟩ := hrange
      have hint : number (.int (read cfg) : Value R) = serwriteInt32 (read cfg) :=
        congrArg serwriteInt32 (int32_of_range hlo hhi)
      rw [hint]
      refine ⟨serwriteInt32_numeric hhi, ?_, isToken_int32 hlo hhi, ?_⟩
      · have hlength := serwriteUint32_length
        unfold serwriteInt32
        split
        · rw [List.length_append]
          exact (Nat.add_le_add_left (hlength _) 1).trans (by decide)
        · exact (hlength _).trans (by decide)
      · show some (Value.int (atoi (serwriteInt32 (read cfg)))) = _
        rw [atoi_serwriteInt32 hlo hhi]
  | double read set val =>
      rw [hvalue] at hv
      obtain rfl : Value.double (read cfg) = v := Option.some.inj hv
      obtain ⟨q, r, hq, hr, hx⟩ := thousandths hrange.1 hrange.2
      show (∀ b ∈ serwriteDouble (read cfg), IsNumeric b) ∧
        (serwriteDouble (read cfg)).length ≤ 14 ∧ IsToken (serwriteDouble (read cfg)) [10] ∧ _
      refine ⟨serwriteDouble_numeric _, ?_, ?_, ?_⟩
      · have hlength := serwriteUint32_length q
        rw [hx, serwriteDouble_thousandths hq hr, List.length_append, List.length_cons,
          threePlaces_length hr]
        omega
      · rw [hx]
        exact isToken_double hq hr
      · show some (Value.double (atod (serwriteDouble (read cfg)))) = _
        rw [hx, atod_serwriteDouble hq hr]
  | other =>
      rw [hvalue] at hv
      cases hv

/-- A byte of a line but for its end. -/
def IsText (b : UInt8) : Prop := b ≠ 0 ∧ b ≠ 10 ∧ b ≠ 13

theorem isText_of_isNumeric {b : UInt8} (h : IsNumeric b) : IsText b := by
  rcases h with hdigit | rfl | rfl
  · unfold IsDigit at hdigit
    refine ⟨?_, ?_, ?_⟩ <;> rintro rfl <;> exact absurd hdigit.1 (by decide)
  · exact ⟨by decide, by decide, by decide⟩
  · exact ⟨by decide, by decide, by decide⟩

theorem entryNames_text :
    ∀ name ∈ entryNames, (str name).length ≤ 30 ∧
      ∀ b ∈ str name, b ≠ 0 ∧ b ≠ 10 ∧ b ≠ 13 := by
  have hall : (entryNames.all fun name => decide ((str name).length ≤ 30) &&
      (str name).all fun b => decide (b ≠ 0 ∧ b ≠ 10 ∧ b ≠ 13)) = true := by
    decide +kernel
  intro name hname
  have h := List.all_eq_true.1 hall name hname
  rw [Bool.and_eq_true, decide_eq_true_eq, List.all_eq_true] at h
  exact ⟨h.1, fun b hb => of_decide_eq_true (h.2 b hb)⟩

section Lines

variable [IsStrictOrderedRing R] {cfg : Configuration R} {item : ConfigItem R}
  {line : List UInt8} {v : Value R}

/-- A printed entry is text, and short enough for the line buffer even without its line
end. -/
theorem body_text (h : Printable cfg) (hitem : item ∈ configLookup)
    (hv : current item cfg = some v) :
    (∀ b ∈ str item.name ++ (str " = " ++ number v), IsText b) ∧
      (str item.name ++ (str " = " ++ number v)).length ≤ 47 := by
  obtain ⟨hlength, hname⟩ := entryNames_text _ (mem_entryNames hitem)
  obtain ⟨hnumber, hnumber', -⟩ := number_spec h hitem hv
  constructor
  · intro b hb
    rcases List.mem_append.1 hb with hb | hb
    · exact hname b hb
    · rcases List.mem_append.1 hb with hb | hb
      · have hsign : ∀ b ∈ str " = ", b ≠ 0 ∧ b ≠ 10 ∧ b ≠ 13 := by decide +kernel
        exact hsign b hb
      · exact isText_of_isNumeric (hnumber b hb)
  · rw [List.length_append, List.length_append, show (str " = ").length = 3 from rfl]
    omega

/-- A printed entry is one line, and fits into the buffer of `read_config`. -/
theorem printedLine_isLine (h : Printable cfg) (hitem : item ∈ configLookup)
    (hline : printedLine cfg item = some line) :
    IsLine 10 13 line ∧ line.length ≤ 79 := by
  obtain ⟨v, hv, rfl⟩ := Option.map_eq_some_iff.1 hline
  obtain ⟨htext, hlength⟩ := body_text h hitem hv
  have hsplit : str item.name ++ (str " = " ++ (number v ++ [10])) =
      str item.name ++ (str " = " ++ number v) ++ [10] := by
    simp only [List.append_assoc]
  rw [hsplit]
  refine ⟨⟨_, rfl, fun hmem => (htext 10 hmem).2.1 rfl, fun hmem =>
    (htext 13 hmem).2.2 rfl⟩, ?_⟩
  rw [List.length_append, List.length_singleton]
  omega

/-- The line assigns the entry the value it was printed for. -/
theorem printedLine_assigns (h : Printable cfg) (hitem : item ∈ configLookup)
    (hline : printedLine cfg item = some line) (hv : current item cfg = some v) :
    ∃ token, Assigns item.name line token ∧ stored item token = some v := by
  obtain ⟨v', hv', rfl⟩ := Option.map_eq_some_iff.1 hline
  obtain rfl := Option.some.inj (hv'.symm.trans hv)
  obtain ⟨htext, -⟩ := body_text h hitem hv
  obtain ⟨-, -, htoken, hvalue⟩ := number_spec h hitem hv
  have hstring : cString (str item.name ++ (str " = " ++ (number v' ++ [10]))) =
      str item.name ++ (str " = " ++ (number v' ++ [10])) := by
    refine List.takeWhile_eq_self_iff.2 fun b hb => ?_
    have hb' : b ∈ str item.name ++ (str " = " ++ number v') ∨ b = 10 := by
      simpa [or_assoc] using hb
    rcases hb' with hb' | rfl
    · exact decide_eq_true (htext b hb').1
    · rfl
  refine ⟨number v', ⟨[], str item.name, [32], [32], [10], ?_, ?_, rfl, htoken⟩, hvalue⟩
  · intro c hc
    have hc' : c = 32 := by simpa using hc
    rw [hc']
    rfl
  · rw [hstring]
    rfl

end Lines

/-! ## The file -/

/-- The lines of the file, as they are read. -/
def printedLines (cfg : Configuration R) : List (List UInt8) :=
  configLookup.filterMap (printedLine cfg)

section File

variable [IsStrictOrderedRing R] {cfg : Configuration R}

theorem printed_filter (h : Printable cfg) :
    (printed cfg).filter (· ≠ 13) = (printedLines cfg).flatten := by
  have hitem : ∀ item ∈ configLookup (R := R),
      (printItem cfg item).filter (· ≠ 13) = (printedLine cfg item).getD [] := by
    intro item hitem
    rw [printItem_eq, printedLine]
    cases hv : current item cfg with
    | none => rfl
    | some v =>
        obtain ⟨htext, -⟩ := body_text h hitem hv
        have hbody : (str item.name ++ (str " = " ++ number v)).filter (· ≠ 13) =
            str item.name ++ (str " = " ++ number v) :=
          List.filter_eq_self.2 fun b hb => decide_eq_true (htext b hb).2.2
        have hsplit : ∀ t : List UInt8, str item.name ++ (str " = " ++ (number v ++ t)) =
            str item.name ++ (str " = " ++ number v) ++ t := fun t => by
          simp only [List.append_assoc]
        show (str item.name ++ (str " = " ++ (number v ++ str "\r\n"))).filter _ =
          str item.name ++ (str " = " ++ (number v ++ [10]))
        rw [hsplit, hsplit, List.filter_append, hbody]
        rfl
  have hitems : ∀ items : List (ConfigItem R), (∀ item ∈ items, item ∈ configLookup) →
      (items.flatMap (printItem cfg)).filter (· ≠ 13) =
        (items.filterMap (printedLine cfg)).flatten := by
    intro items hitems
    induction items with
    | nil => rfl
    | cons item items ih =>
        rw [List.flatMap_cons, List.filter_append, hitem item (hitems item (by simp)),
          ih fun i hi => hitems i (List.mem_cons_of_mem _ hi)]
        cases hline : printedLine cfg item with
        | none => rw [List.filterMap_cons_none hline]; rfl
        | some line => rw [List.filterMap_cons_some hline]; rfl
  exact hitems configLookup fun _ hi => hi

/-- The calls of `f_gets` return the lines. -/
theorem printed_reads (h : Printable cfg) :
    Reads 10 13 79 (printed cfg) (printedLines cfg) := by
  refine .of_filter ?_
  rw [printed_filter h]
  refine reads_lines (by decide) fun line hline => ?_
  obtain ⟨item, hitem, hprinted⟩ := List.mem_filterMap.1 hline
  exact printedLine_isLine h hitem hprinted

theorem exists_entry {item : ConfigItem R} (h : item ∈ configLookup) :
    ∃ k : Fin 45, entry k = item := by
  obtain ⟨k, hk⟩ := List.mem_iff_get.1 h
  exact ⟨k.cast rfl, hk⟩

/-- An entry shows the field it points at. -/
theorem current_entry (k : Fin 45) (s : Settings R) :
    current (entry k) s.config =
      match (entry (R := R) k).value with
      | .other => none
      | _ => some (field (target k) s) := by
  fin_cases k <;> rfl

/-- What a line of the file writes is what the field held. -/
theorem printed_writes (h : Printable cfg) (s : Settings R) (hs : s.config = cfg)
    {k : Fin 45} {line : List UInt8} (hline : line ∈ printedLines cfg) {v : Value R}
    (hwrites : Writes k line v) : v = field k s := by
  obtain ⟨j, token, rfl, hassign, hvalue⟩ := hwrites
  obtain ⟨item, hitem, hprinted⟩ := List.mem_filterMap.1 hline
  obtain ⟨u, hu, -⟩ := Option.map_eq_some_iff.1 hprinted
  obtain ⟨token', hassign', hvalue'⟩ := printedLine_assigns h hitem hprinted hu
  obtain ⟨hname, rfl⟩ := hassign.unique (mem_entryNames (entry_mem j))
    (mem_entryNames hitem) hassign'
  have hentry : entry j = item := by
    have hfind := find_entry (entry_mem (R := R) j) (n := str (entry (R := R) j).name) rfl
    have hfind' := find_entry hitem (n := str (entry (R := R) j).name)
      (congrArg (fun n => (str n).map tolower) hname)
    exact Option.some.inj (hfind.symm.trans hfind')
  rw [← hentry] at hu hvalue'
  have huv : u = v := Option.some.inj (hvalue'.symm.trans hvalue)
  have hcurrent := current_entry j s
  rw [hs, hu] at hcurrent
  split at hcurrent
  · exact absurd hcurrent (by simp)
  · rw [← huv]
    exact Option.some.inj hcurrent

/-- What is printed can be read back: the text of `print_config`, read line by line
as `config.txt`, gives every entry of the types `TYPE_INT` and `TYPE_DOUBLE` the
value it had. -/
theorem config_round_trip (h : Printable cfg) (s : Settings R) :
    (∃ lines, Reads 10 13 79 (printed cfg) lines) ∧
      ∀ lines, Reads 10 13 79 (printed cfg) lines →
        ∀ item ∈ configLookup, current item (readConfig lines s).2.config =
          current item cfg := by
  refine ⟨⟨_, printed_reads h⟩, fun lines hreads item hitem => ?_⟩
  obtain rfl := hreads.unique (printed_reads h)
  obtain ⟨k, rfl⟩ := exists_entry hitem
  have hafter := current_entry k (readConfig (printedLines cfg) s).2
  have hbefore := current_entry k ({ s with config := cfg } : Settings R)
  dsimp only at hbefore
  rw [hafter, hbefore]
  cases hvalue : current (entry k) cfg with
  | none =>
      rw [hvalue] at hbefore
      split
      · rfl
      · next hother =>
        split at hbefore
        · next hother' => exact absurd hother' hother
        · exact absurd hbefore (by simp)
  | some v =>
      have hline : str (entry (R := R) k).name ++ (str " = " ++ (number v ++ [10])) ∈
          printedLines cfg :=
        List.mem_filterMap.2 ⟨entry k, entry_mem k, by rw [printedLine, hvalue]; rfl⟩
      obtain ⟨token, hassign, hstored⟩ := printedLine_assigns h (entry_mem k)
        (by rw [printedLine, hvalue]; rfl) hvalue
      have hfield : field (target k) (readConfig (printedLines cfg) s).2 =
          field (target k) { s with config := cfg } := by
        rcases last_field (target k) (printedLines cfg) s with
          ⟨pre, line, post, hlines, hwrites, -⟩ | ⟨hnone, -⟩
        · refine printed_writes h _ rfl ?_ hwrites
          rw [hlines]
          exact List.mem_append_right _ List.mem_cons_self
        · exact absurd ⟨k, token, rfl, hassign, hstored⟩ (hnone _ hline v)
      rw [hfield]

end File

/-- A configuration with the smallest integer, the largest decimal and a decimal with
leading zeros. -/
def extremes : Configuration ℚ :=
  { Configuration.default with
    homePosX := -2147483648
    acceleration := 2147483647999 / 1000
    junctionDeviation := 7 / 1000 }

theorem inThousandths {x : ℚ}
    (h : x = ((truncate (x * 1000)).toNat : ℚ) / 1000 ∧ x < 2147483648) :
    (∃ k : Nat, x = (k : ℚ) / 1000) ∧ x < 2147483648 :=
  ⟨⟨_, h.1⟩, h.2⟩

theorem extremes_printable : Printable extremes := by
  intro item hitem v hv
  obtain ⟨k, rfl⟩ := exists_entry hitem
  fin_cases k
  all_goals first
    | (obtain rfl := Option.some.inj (show some (Value.int _) = some v from hv)
       exact ⟨by decide +kernel, by decide +kernel⟩)
    | (obtain rfl := Option.some.inj (show some (Value.double _) = some v from hv)
       exact inThousandths (by decide +kernel))
    | exact absurd (show none = some v from hv) (by simp)

theorem extremes_round_trip :
    ∃ lines, Reads 10 13 79 (printed extremes) lines ∧
      ∀ item ∈ configLookup,
        current item (readConfig lines (zeroSettings (R := ℚ))).2.config =
          current item extremes := by
  obtain ⟨⟨lines, hreads⟩, hall⟩ := config_round_trip extremes_printable zeroSettings
  exact ⟨lines, hreads, hall lines hreads⟩

end R2C2Firmware.Ports.ConfigRoundTrip
