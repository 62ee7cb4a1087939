import R2C2Firmware.Verified.Settling
import R2C2Firmware.Ports.Temp

/-!
# The filter of the temperature readings

`read_temp` keeps seven eighths of the filtered value and adds one eighth of the
reading, in unsigned arithmetic, which rounds down.  So the filtered value never
leaves the range of the readings, and under a constant reading it settles; but
seven steps below the reading there is nothing left to add.

## Main results

* `filterAdc_eq` — the filter as a division of natural numbers.
* `adc_filter` — the range of the filtered value, and where it settles.
-/

namespace R2C2Firmware.Ports.AdcFilter

open R2C2Firmware.Verified.Number
open R2C2Firmware.Verified.Settling
open R2C2Firmware.Ports.Temp

/-! ## One reading -/

/-- No reduction takes place as long as the sum fits. -/
theorem filterAdc_eq {f r : Int} (hlo : 0 ≤ f * 7 + r) (hhi : f * 7 + r < 4294967296) :
    filterAdc f r = (f * 7 + r) / 8 := by
  rw [filterAdc, uint32_of_range hlo hhi]

/-- A value or a reading of the twelve-bit converter. -/
def InRange (z : Int) : Prop := 0 ≤ z ∧ z ≤ 4095

theorem filterAdc_of_inRange {f r : Int} (hf : InRange f) (hr : InRange r) :
    filterAdc f r = (f * 7 + r) / 8 := by
  obtain ⟨hf0, hf1⟩ := hf
  obtain ⟨hr0, hr1⟩ := hr
  exact filterAdc_eq (by omega) (by omega)

/-! ## A stream of readings -/

/-- The filtered value stays below every bound of the readings. -/
theorem foldl_filterAdc {m : Int} (hm : m ≤ 4095) (rs : List Int) :
    ∀ f, 0 ≤ f ∧ f ≤ m → (∀ r ∈ rs, 0 ≤ r ∧ r ≤ m) →
      0 ≤ rs.foldl filterAdc f ∧ rs.foldl filterAdc f ≤ m := by
  induction rs with
  | nil => exact fun f hf _ => hf
  | cons r rs ih =>
      intro f hf hrs
      obtain ⟨hr, hrs⟩ := List.forall_mem_cons.1 hrs
      have hstep : filterAdc f r = (f * 7 + r) / 8 :=
        filterAdc_of_inRange ⟨hf.1, hf.2.trans hm⟩ ⟨hr.1, hr.2.trans hm⟩
      refine ih _ ?_ hrs
      rw [hstep]
      omega

/-- The state after ticks with these readings. -/
def ticks (analogs : List (Sensor → Int)) (s : TempState) : TempState :=
  analogs.foldl (fun s analog => (tempTick analog s).1) s

theorem readTemp_adcFiltered (sensor : Sensor) (analog : Int) (s : TempState) :
    (readTemp sensor analog s).adcFiltered =
      Function.update s.adcFiltered sensor (filterAdc (s.adcFiltered sensor) analog) :=
  rfl

theorem tempTick_adcFiltered (analog : Sensor → Int) (s : TempState) (sensor : Sensor) :
    (tempTick analog s).1.adcFiltered sensor =
      filterAdc (s.adcFiltered sensor) (analog sensor) := by
  have hread : ((readTemp .heatedBed0 (analog .heatedBed0)
      (readTemp .extruder0 (analog .extruder0) s)).adcFiltered) sensor =
      filterAdc (s.adcFiltered sensor) (analog sensor) := by
    simp only [readTemp_adcFiltered]
    cases sensor <;> simp [Function.update]
  unfold tempTick
  dsimp only
  split <;> exact hread

/-- Every sensor has its own filter. -/
theorem ticks_adcFiltered (analogs : List (Sensor → Int)) (sensor : Sensor) :
    ∀ s, (ticks analogs s).adcFiltered sensor =
      (analogs.map (· sensor)).foldl filterAdc (s.adcFiltered sensor) := by
  induction analogs with
  | nil => exact fun s => rfl
  | cons analog analogs ih =>
      intro s
      rw [List.map_cons, List.foldl_cons, ← tempTick_adcFiltered]
      exact ih _

/-! ## A constant reading -/

variable {f r : Int}

/-- Above the reading the value falls, and not below it. -/
theorem filterAdc_above (hr : InRange r) (hf : r ≤ f ∧ f ≤ 4095) :
    r ≤ filterAdc f r ∧ filterAdc f r ≤ f ∧ (filterAdc f r = f ↔ f = r) := by
  rw [filterAdc_of_inRange ⟨hr.1.trans hf.1, hf.2⟩ hr]
  omega

/-- More than seven below the reading the value rises, and not above that. -/
theorem filterAdc_below (hr : InRange r) (hf : 0 ≤ f ∧ f ≤ r - 7) :
    f ≤ filterAdc f r ∧ filterAdc f r ≤ r - 7 ∧ (filterAdc f r = f ↔ f = r - 7) := by
  obtain ⟨hr0, hr1⟩ := hr
  rw [filterAdc_of_inRange ⟨hf.1, by omega⟩ ⟨hr0, hr1⟩]
  omega

/-- A filter at the reading or at most seven below it stays where it is. -/
theorem filterAdc_still (hf : InRange f) (hr : InRange r) (hlo : r - 7 ≤ f)
    (hhi : f ≤ r) : filterAdc f r = f := by
  rw [filterAdc_of_inRange hf hr]
  omega

/-- Where the filter settles. -/
def limit (f r : Int) : Int := if r < f then r else if f < r - 7 then r - 7 else f

/-- The filtered values under a constant reading. -/
def held (f r : Int) (n : Nat) : Int := (fun x => filterAdc x r)^[n] f

theorem ticks_replicate (analog : Sensor → Int) (sensor : Sensor) (s : TempState)
    (n : Nat) : (ticks (List.replicate n analog) s).adcFiltered sensor =
      held (s.adcFiltered sensor) (analog sensor) n := by
  rw [ticks_adcFiltered, List.map_replicate]
  unfold held
  induction n generalizing s with
  | zero => rfl
  | succ n ih =>
      have hnext := ih (tempTick analog s).1
      rw [tempTick_adcFiltered] at hnext
      exact hnext

/-- The values move in one direction, do not pass the reading, and stay at the limit
from some tick on. -/
structure Settles (f r : Int) : Prop where
  monotone : Monotone (held f r) ∨ Antitone (held f r)
  below : f ≤ r → ∀ n, held f r n ≤ r
  above : r ≤ f → ∀ n, r ≤ held f r n
  settled : ∃ N, ∀ n, N ≤ n → held f r n = limit f r

theorem settles_above (hr : InRange r) (hf : r < f ∧ f ≤ 4095) : Settles f r := by
  have hkeep : ∀ x, (r ≤ x ∧ x ≤ 4095) → r ≤ filterAdc x r ∧ filterAdc x r ≤ 4095 :=
    fun x hx => ⟨(filterAdc_above hr hx).1, (filterAdc_above hr hx).2.1.trans hx.2⟩
  have hstart : r ≤ f ∧ f ≤ 4095 := ⟨hf.1.le, hf.2⟩
  refine ⟨.inr (orbit_antitone hkeep (fun x hx => (filterAdc_above hr hx).2.1) hstart),
    fun hle => absurd hf.1 (not_lt.2 hle),
    fun _ n => (orbit_invariant hkeep hstart n).1, ?_⟩
  obtain ⟨N, y, hy, hfix, hconst⟩ := settles hkeep (fun x => (x - r).toNat)
    (fun x hx => by
      obtain ⟨hlo, hhi, hiff⟩ := filterAdc_above hr hx
      by_cases heq : filterAdc x r = x
      · exact .inl heq
      · exact .inr (by omega)) hstart
  refine ⟨N, fun n hn => ?_⟩
  rw [limit, if_pos hf.1]
  exact (hconst n hn).trans ((filterAdc_above hr hy).2.2.1 hfix)

theorem settles_below (hr : InRange r) (hf : 0 ≤ f ∧ f < r - 7) : Settles f r := by
  have hkeep : ∀ x, (0 ≤ x ∧ x ≤ r - 7) → 0 ≤ filterAdc x r ∧ filterAdc x r ≤ r - 7 :=
    fun x hx => ⟨hx.1.trans (filterAdc_below hr hx).1, (filterAdc_below hr hx).2.1⟩
  have hstart : 0 ≤ f ∧ f ≤ r - 7 := ⟨hf.1, hf.2.le⟩
  refine ⟨.inl (orbit_monotone hkeep (fun x hx => (filterAdc_below hr hx).1) hstart),
    fun _ n => ?_, fun hle => by omega, ?_⟩
  · have hn : held f r n ≤ r - 7 := (orbit_invariant hkeep hstart n).2
    omega
  · obtain ⟨N, y, hy, hfix, hconst⟩ := settles hkeep (fun x => (r - x).toNat)
      (fun x hx => by
        obtain ⟨hlo, hhi, hiff⟩ := filterAdc_below hr hx
        by_cases heq : filterAdc x r = x
        · exact .inl heq
        · exact .inr (by omega)) hstart
    refine ⟨N, fun n hn => ?_⟩
    rw [limit, if_neg (by omega), if_pos hf.2]
    exact (hconst n hn).trans ((filterAdc_below hr hy).2.2.1 hfix)

theorem settles_between (hf : InRange f) (hr : InRange r) (hlo : r - 7 ≤ f)
    (hhi : f ≤ r) : Settles f r := by
  have hfix : filterAdc f r = f := filterAdc_still hf hr hlo hhi
  have hstill : ∀ n, held f r n = f := Function.iterate_fixed hfix
  refine ⟨.inl fun m n _ => by rw [hstill, hstill], fun hle n => by rw [hstill]; exact hle,
    fun hle n => by rw [hstill]; exact hle, 0, fun n _ => ?_⟩
  rw [hstill, limit, if_neg (by omega), if_neg (by omega)]

/-- The filtered value stays between zero and the readings so far, and a constant
reading is followed up to the dead band. -/
theorem adc_filter :
    (∀ (analogs : List (Sensor → Int)) (sensor : Sensor),
      (∀ analog ∈ analogs, InRange (analog sensor)) →
        InRange ((ticks analogs .zero).adcFiltered sensor) ∧
          ∀ m, 0 ≤ m → (∀ analog ∈ analogs, analog sensor ≤ m) →
            (ticks analogs .zero).adcFiltered sensor ≤ m) ∧
      ∀ (s : TempState) (analog : Sensor → Int) (sensor : Sensor),
        InRange (s.adcFiltered sensor) → InRange (analog sensor) →
          (∀ n, (ticks (List.replicate n analog) s).adcFiltered sensor =
            held (s.adcFiltered sensor) (analog sensor) n) ∧
          Settles (s.adcFiltered sensor) (analog sensor) := by
  refine ⟨fun analogs sensor hrange => ?_, fun s analog sensor hf hr =>
    ⟨ticks_replicate analog sensor s, ?_⟩⟩
  · have hbound : ∀ m, 0 ≤ m → m ≤ 4095 → (∀ analog ∈ analogs, analog sensor ≤ m) →
        0 ≤ (ticks analogs .zero).adcFiltered sensor ∧
          (ticks analogs .zero).adcFiltered sensor ≤ m := by
      intro m hm hm' hle
      rw [ticks_adcFiltered]
      refine foldl_filterAdc hm' _ 0 ⟨le_rfl, hm⟩ ?_
      rw [List.forall_mem_map]
      exact fun analog hmem => ⟨(hrange analog hmem).1, hle analog hmem⟩
    refine ⟨hbound 4095 (by decide) le_rfl fun analog hmem => (hrange analog hmem).2,
      fun m hm hle => ?_⟩
    have hmin := hbound (min m 4095) (le_min hm (by decide)) (min_le_right _ _)
      fun analog hmem => le_min (hle analog hmem) (hrange analog hmem).2
    exact hmin.2.trans (min_le_left _ _)
  · rcases lt_or_ge (analog sensor) (s.adcFiltered sensor) with hlt | hge
    · exact settles_above hr ⟨hlt, hf.2⟩
    · rcases lt_or_ge (s.adcFiltered sensor) (analog sensor - 7) with hlt | hge'
      · exact settles_below hr ⟨hf.1, hlt⟩
      · exact settles_between hf hr hge' hge

end R2C2Firmware.Ports.AdcFilter
