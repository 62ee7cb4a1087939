import R2C2Firmware.Ports.HeaterTargets

/-!
# The temperature table

The rows of the table may be overwritten with any values, in any order.  The search
of `read_temp` compares the reading with one row after another; the row in front of
the first one above the reading is not above it, so the division is by a positive
number whatever the table holds.  A later row stands for a lower temperature, and a
higher reading is found no earlier.

## Main results

* `interpolate_found` — what the search finds.
* `celsiusOf_antitone` — a higher reading is no warmer, in every table.
* `temperature_lookup` — the lookup in every table that can be reached.
-/

namespace R2C2Firmware.Ports.TempTable

open R2C2Firmware.Verified.Number
open R2C2Firmware.Ports.Temp
open R2C2Firmware.Ports.HeaterTargets

variable {sensor : Sensor} {raw raw' : Int} {table rows : List TempEntry}
variable {row : TempEntry}

/-! ## Tables -/

/-- The tables reached by `temp_set_table_entry`. -/
inductive Reached : List TempEntry → Prop where
  | initial : Reached temptable
  | set {table : List TempEntry} (sensor : Sensor) (temp adcVal : UInt16)
      (h : Reached table) : Reached (setEntry sensor temp.toNat adcVal.toNat table)

/-- The column of temperatures stays. -/
theorem Reached.column (h : Reached table) :
    table.map TempEntry.celsius = temptable.map TempEntry.celsius := by
  induction h with
  | initial => rfl
  | set sensor temp adcVal _ ih => exact (setEntry_celsius _ _ _ _).trans ih

theorem setEntry_adc {p : Int → Prop} {sensor : Sensor} {temp adcVal : Int}
    (hval : p adcVal) (h : ∀ row ∈ table, ∀ sensor', p (row.adc sensor')) :
    ∀ row ∈ setEntry sensor temp adcVal table, ∀ sensor', p (row.adc sensor') := by
  induction table with
  | nil => exact h
  | cons first rows ih =>
      obtain ⟨hfirst, hrows⟩ := List.forall_mem_cons.1 h
      rw [setEntry]
      split
      · refine List.forall_mem_cons.2 ⟨fun sensor' => ?_, hrows⟩
        by_cases heq : sensor' = sensor
        · subst heq
          simpa using hval
        · simpa [Function.update_of_ne heq] using hfirst sensor'
      · exact List.forall_mem_cons.2 ⟨hfirst, ih hrows⟩

/-- The entries are values of `uint16_t`. -/
theorem Reached.adc (h : Reached table) :
    ∀ row ∈ table, ∀ sensor, 0 ≤ row.adc sensor ∧ row.adc sensor < 65536 := by
  induction h with
  | initial =>
      intro row hrow sensor
      cases sensor <;> revert row <;> decide
  | set sensor temp adcVal _ ih =>
      have hlt := adcVal.toNat_lt
      exact setEntry_adc (p := fun z => 0 ≤ z ∧ z < 65536)
        ⟨by omega, by omega⟩ ih

/-! ## The search -/

/-- The value between two rows. -/
def between (sensor : Sensor) (raw : Int) (prev next : TempEntry) : Int :=
  prev.celsius + ((raw - prev.adc sensor) * (next.celsius - prev.celsius)).tdiv
    (next.adc sensor - prev.adc sensor)

/-- The first row above the reading, the row in front of it, and the rows before,
none of which is above. -/
structure Found (sensor : Sensor) (raw : Int) (table : List TempEntry)
    (prev next : TempEntry) : Prop where
  adjacent : ∃ pre post, table = pre ++ prev :: next :: post ∧
    ∀ row ∈ pre, row.adc sensor ≤ raw
  le : prev.adc sensor ≤ raw
  lt : raw < next.adc sensor

theorem Found.cons {prev next : TempEntry} (h : Found sensor raw table prev next)
    (hrow : row.adc sensor ≤ raw) : Found sensor raw (row :: table) prev next := by
  obtain ⟨pre, post, rfl, hpre⟩ := h.adjacent
  exact ⟨⟨row :: pre, post, rfl, List.forall_mem_cons.2 ⟨hrow, hpre⟩⟩, h.le, h.lt⟩

theorem interpolate_found (rows : List TempEntry) :
    ∀ {row : TempEntry}, row.adc sensor ≤ raw → (∃ r ∈ rows, raw < r.adc sensor) →
      ∃ prev next, Found sensor raw (row :: rows) prev next ∧
        interpolate sensor raw row rows = between sensor raw prev next := by
  induction rows with
  | nil =>
      rintro row - ⟨r, hr, -⟩
      exact absurd hr (by simp)
  | cons next rows ih =>
      rintro row hrow ⟨r, hr, habove⟩
      rw [interpolate]
      split
      · next hlt =>
        exact ⟨row, next, ⟨⟨[], rows, rfl, by simp⟩, hrow, hlt⟩, rfl⟩
      · next hge =>
        have hrows : ∃ r ∈ rows, raw < r.adc sensor := by
          rcases List.mem_cons.1 hr with rfl | hr
          · exact absurd habove hge
          · exact ⟨r, hr, habove⟩
        obtain ⟨prev, next', hfound, hvalue⟩ := ih (not_lt.1 hge) hrows
        exact ⟨prev, next', hfound.cons hrow, hvalue⟩

/-! ## Higher readings -/

/-- The search returns nothing warmer than the row it starts from. -/
theorem interpolate_le (rows : List TempEntry) :
    ∀ {row : TempEntry}, row.adc sensor ≤ raw →
      Falling ((row :: rows).map TempEntry.celsius) →
      interpolate sensor raw row rows ≤ row.celsius := by
  induction rows with
  | nil => exact fun _ hfall => (hfall.2 _ (by simp)).1
  | cons next rows ih =>
      intro row hrow hfall
      have hdown : next.celsius ≤ row.celsius :=
        (List.pairwise_cons.1 hfall.1).1 _ (by simp)
      rw [interpolate]
      split
      · exact (between_rows (by omega) (by omega) hdown).2
      · exact (ih (by omega) hfall.tail).trans hdown

/-- Between two rows a higher reading is no warmer. -/
theorem between_antitone {prev next : TempEntry} (hdown : next.celsius ≤ prev.celsius)
    (hle : prev.adc sensor ≤ raw) (h : raw ≤ raw') (hlt : raw' < next.adc sensor) :
    between sensor raw' prev next ≤ between sensor raw prev next := by
  have hneg : ∀ x : Int, x * (next.celsius - prev.celsius) =
      -(x * (prev.celsius - next.celsius)) := fun x => by ring
  have hdrop : 0 ≤ prev.celsius - next.celsius := by omega
  unfold between
  rw [hneg, hneg, Int.neg_tdiv, Int.neg_tdiv,
    Int.tdiv_eq_ediv_of_nonneg (mul_nonneg (by omega) hdrop),
    Int.tdiv_eq_ediv_of_nonneg (mul_nonneg (by omega) hdrop)]
  have hmul : (raw - prev.adc sensor) * (prev.celsius - next.celsius) ≤
      (raw' - prev.adc sensor) * (prev.celsius - next.celsius) :=
    mul_le_mul_of_nonneg_right (by omega) hdrop
  have hdiv := Int.ediv_le_ediv (c := next.adc sensor - prev.adc sensor) (by omega) hmul
  omega

theorem interpolate_antitone (rows : List TempEntry) (h : raw ≤ raw') :
    ∀ {row : TempEntry}, row.adc sensor ≤ raw →
      Falling ((row :: rows).map TempEntry.celsius) →
      (∃ r ∈ rows, raw < r.adc sensor) →
      interpolate sensor raw' row rows ≤ interpolate sensor raw row rows := by
  induction rows with
  | nil =>
      rintro row - - ⟨r, hr, -⟩
      exact absurd hr (by simp)
  | cons next rows ih =>
      rintro row hrow hfall ⟨r, hr, habove⟩
      have hdown : next.celsius ≤ row.celsius :=
        (List.pairwise_cons.1 hfall.1).1 _ (by simp)
      rw [interpolate, interpolate]
      split
      · next hlt' =>
        -- both readings are found here
        rw [if_pos (show raw < next.adc sensor by omega)]
        exact between_antitone hdown hrow h hlt'
      · next hge' =>
        split
        · next hlt =>
          calc interpolate sensor raw' next rows ≤ next.celsius :=
                interpolate_le rows (by omega) hfall.tail
            _ ≤ _ := (between_rows (by omega) (by omega) hdown).1
        · next hge =>
          refine ih (by omega) hfall.tail ?_
          rcases List.mem_cons.1 hr with rfl | hr
          · exact absurd habove hge
          · exact ⟨r, hr, habove⟩

/-! ## The lookup -/

/-- The first and the last row, and the lookup. -/
theorem Reached.ends (h : Reached table) :
    ∃ first rows last, table = first :: rows ∧ rows.getLast? = some last ∧
      first.celsius = maxCelsius ∧ last.celsius = 0 ∧
      ∀ sensor raw, celsiusOf sensor raw table =
        if raw < first.adc sensor then first.celsius
        else if raw ≥ last.adc sensor then last.celsius
        else interpolate sensor raw first rows := by
  have hcolumn := h.column
  obtain ⟨first, rows, rfl, hfirst, hrows⟩ := List.map_eq_cons_iff.1 hcolumn
  have hlast := congrArg List.getLast? hrows
  rw [List.getLast?_map] at hlast
  obtain ⟨last, hmem, hzero⟩ := Option.map_eq_some_iff.1 hlast
  refine ⟨first, rows, last, rfl, hmem, hfirst, hzero, fun sensor raw => ?_⟩
  rw [celsiusOf, hmem]

theorem Reached.falling (h : Reached table) : Falling (table.map TempEntry.celsius) :=
  h.column ▸ falling_temptable

/-- How a temperature is found: in an end row, or between two adjacent rows, where
the division is by a positive number and the arithmetic fits in an `int`. -/
inductive Looked (sensor : Sensor) (raw : Int) (table : List TempEntry) : Int → Prop where
  | below (first : TempEntry) (hfirst : table.head? = some first)
      (hlt : raw < first.adc sensor) : Looked sensor raw table first.celsius
  | above (last : TempEntry) (hlast : table.getLast? = some last)
      (hle : last.adc sensor ≤ raw) : Looked sensor raw table last.celsius
  | found (prev next : TempEntry) (hfound : Found sensor raw table prev next)
      (hpos : 0 < next.adc sensor - prev.adc sensor)
      (hfits : int32 ((raw - prev.adc sensor) * (next.celsius - prev.celsius)) =
        (raw - prev.adc sensor) * (next.celsius - prev.celsius))
      (hlow : next.celsius ≤ between sensor raw prev next)
      (hhigh : between sensor raw prev next ≤ prev.celsius) :
      Looked sensor raw table (between sensor raw prev next)

theorem Found.looked {prev next : TempEntry} (h : Reached table)
    (hfound : Found sensor raw table prev next) :
    Looked sensor raw table (between sensor raw prev next) := by
  have hle := hfound.le
  have hlt := hfound.lt
  obtain ⟨pre, post, htable, -⟩ := hfound.adjacent
  have hprev : prev ∈ table := by simp [htable]
  have hnext : next ∈ table := by simp [htable]
  have hdown : next.celsius ≤ prev.celsius := by
    have hpairwise := h.falling.1
    rw [htable, List.map_append, List.pairwise_append, List.map_cons,
      List.pairwise_cons] at hpairwise
    exact hpairwise.2.1.1 _ (by simp)
  have hrange := between_rows (x := raw - prev.adc sensor)
    (a := next.adc sensor - prev.adc sensor) (by omega) (by omega) hdown
  refine .found prev next hfound (by omega) ?_ hrange.1 hrange.2
  -- both factors are small
  have hadc := (h.adc prev hprev sensor).1
  have hadc' := (h.adc next hnext sensor).2
  have hprev' := h.falling.2 _ (List.mem_map_of_mem hprev)
  have hnext' := h.falling.2 _ (List.mem_map_of_mem hnext)
  unfold maxCelsius at hprev' hnext'
  have hprod : (raw - prev.adc sensor) * (prev.celsius - next.celsius) ≤ 65536 * 300 :=
    mul_le_mul (by omega) (by omega) (by omega) (by omega)
  have hprod' : 0 ≤ (raw - prev.adc sensor) * (prev.celsius - next.celsius) :=
    mul_nonneg (by omega) (by omega)
  have hneg : (raw - prev.adc sensor) * (next.celsius - prev.celsius) =
      -((raw - prev.adc sensor) * (prev.celsius - next.celsius)) := by ring
  rw [hneg]
  exact int32_of_range (by omega) (by omega)

theorem celsiusOf_looked (h : Reached table) (sensor : Sensor) (raw : Int) :
    Looked sensor raw table (celsiusOf sensor raw table) := by
  obtain ⟨first, rows, last, htable, hlast, -, -, hcelsius⟩ := h.ends
  rw [hcelsius]
  split
  · next hlt => exact .below first (by rw [htable]; rfl) hlt
  · next hge =>
    split
    · next hge' =>
      refine .above last ?_ hge'
      rw [htable, List.getLast?_cons, hlast]
      rfl
    · next hlt =>
      obtain ⟨prev, next, hfound, hvalue⟩ := interpolate_found rows (not_lt.1 hge)
        ⟨last, List.mem_of_getLast? hlast, not_le.1 hlt⟩
      rw [← htable] at hfound
      rw [hvalue]
      exact hfound.looked h

/-- A higher reading is no warmer, whatever the order of the rows. -/
theorem celsiusOf_antitone (h : Reached table) (sensor : Sensor) :
    Antitone fun raw => celsiusOf sensor raw table := by
  intro raw raw' hle
  have hrange := celsiusOf_range sensor raw h.falling
  have hrange' := celsiusOf_range sensor raw' h.falling
  obtain ⟨first, rows, last, htable, hlast, hfirst, hzero, hcelsius⟩ := h.ends
  dsimp only
  by_cases hbelow : raw < first.adc sensor
  · rw [hcelsius _ raw, if_pos hbelow, hfirst]
    exact hrange'.2
  by_cases habove : raw' ≥ last.adc sensor
  · rw [hcelsius _ raw', if_neg (by omega), if_pos habove, hzero]
    exact hrange.1
  rw [hcelsius _ raw, hcelsius _ raw', if_neg hbelow, if_neg (by omega), if_neg habove,
    if_neg (by omega)]
  exact interpolate_antitone rows hle (not_lt.1 hbelow) (htable ▸ h.falling)
    ⟨last, List.mem_of_getLast? hlast, by omega⟩

/-! ## Sorted columns -/

/-- The column of the sensor does not fall. -/
def Sorted (sensor : Sensor) (table : List TempEntry) : Prop :=
  table.Pairwise fun a b => a.adc sensor ≤ b.adc sensor

/-- The search passes the rows that are not above the reading. -/
theorem interpolate_append (pre : List TempEntry) :
    ∀ {first : TempEntry} {next : TempEntry} {post : List TempEntry},
      (∀ r ∈ pre, r.adc sensor ≤ raw) → row.adc sensor = raw →
      raw < next.adc sensor → first.adc sensor ≤ raw →
      interpolate sensor raw first (pre ++ row :: next :: post) = row.celsius := by
  induction pre with
  | nil =>
      intro first next post _ hrow hnext _
      rw [List.nil_append, interpolate, if_neg (by omega), interpolate, if_pos hnext,
        hrow, sub_self, zero_mul, Int.zero_tdiv, add_zero]
  | cons r pre ih =>
      intro first next post hpre hrow hnext _
      obtain ⟨hr, hpre⟩ := List.forall_mem_cons.1 hpre
      rw [List.cons_append, interpolate, if_neg (by omega)]
      exact ih hpre hrow hnext hr

/-- At the last of the rows with the reading, its temperature is returned. -/
theorem celsiusOf_row (h : Reached table) (hsorted : Sorted sensor table)
    {pre post : List TempEntry} (htable : table = pre ++ row :: post)
    (hlast : ∀ r ∈ post, row.adc sensor < r.adc sensor) :
    celsiusOf sensor (row.adc sensor) table = row.celsius := by
  obtain ⟨first, rows, last, hcons, hgetLast, -, -, hcelsius⟩ := h.ends
  have hpre : ∀ r ∈ pre, r.adc sensor ≤ row.adc sensor := by
    intro r hr
    rw [Sorted, htable, List.pairwise_append] at hsorted
    exact hsorted.2.2 r hr row List.mem_cons_self
  have hfirst : first.adc sensor ≤ row.adc sensor := by
    rw [htable] at hcons
    cases pre with
    | nil => exact ((List.cons.inj hcons).1 ▸ le_rfl)
    | cons r pre =>
        obtain ⟨rfl, -⟩ := List.cons.inj hcons
        exact hpre r List.mem_cons_self
  have hend : table.getLast? = some last := by
    rw [hcons, List.getLast?_cons, hgetLast]
    rfl
  rw [hcelsius, if_neg (not_lt.2 hfirst)]
  cases post with
  | nil =>
      have heq : row = last := by
        rw [htable, List.getLast?_concat] at hend
        exact Option.some.inj hend
      rw [heq, if_pos le_rfl]
  | cons next post =>
      have habove : row.adc sensor < last.adc sensor := by
        refine hlast last ?_
        rw [htable, List.getLast?_append, List.getLast?_cons_cons] at hend
        exact List.mem_of_getLast? hend
      rw [if_neg (not_le.2 habove)]
      have hnext := hlast next List.mem_cons_self
      rw [htable] at hcons
      cases pre with
      | nil =>
          obtain ⟨rfl, rfl⟩ := List.cons.inj hcons
          rw [interpolate, if_pos hnext, sub_self, zero_mul, Int.zero_tdiv, add_zero]
      | cons r pre =>
          obtain ⟨rfl, rfl⟩ := List.cons.inj hcons
          exact interpolate_append pre (fun r hr => hpre r (List.mem_cons_of_mem _ hr))
            rfl hnext hfirst

/-! ## The readings -/

/-- `read_temp` returns the temperature looked up: no conversion changes it. -/
theorem readTemp_currentTemp {s : TempState} (h : Reached s.table) (sensor : Sensor)
    (analog : Int) : (readTemp sensor analog s).currentTemp sensor =
      celsiusOf sensor (int32 ((readTemp sensor analog s).adcFiltered sensor)) s.table := by
  have hfiltered : (readTemp sensor analog s).adcFiltered sensor =
      filterAdc (s.adcFiltered sensor) analog := Function.update_self ..
  have hcurrent : (readTemp sensor analog s).currentTemp sensor =
      uint16 (int16 (celsiusOf sensor
        (int32 (filterAdc (s.adcFiltered sensor) analog)) s.table)) :=
    Function.update_self ..
  obtain ⟨hlo, hhi⟩ := celsiusOf_range sensor
    (int32 (filterAdc (s.adcFiltered sensor) analog)) h.falling
  unfold maxCelsius at hhi
  rw [hcurrent, hfiltered, int16, wrapSigned_of_range (by omega) (by omega), uint16,
    wrapUnsigned_of_range hlo (by omega)]

/-- The lookup in a table that can be reached. -/
theorem temperature_lookup (h : Reached table) (sensor : Sensor) :
    (∀ raw, Looked sensor raw table (celsiusOf sensor raw table) ∧
        0 ≤ celsiusOf sensor raw table ∧ celsiusOf sensor raw table ≤ 300) ∧
      (Sorted sensor table →
        (Antitone fun raw => celsiusOf sensor raw table) ∧
          ∀ pre row post, table = pre ++ row :: post →
            (∀ r ∈ post, row.adc sensor < r.adc sensor) →
            celsiusOf sensor (row.adc sensor) table = row.celsius) ∧
      ∀ (s : TempState) (analog : Int), s.table = table →
        (readTemp sensor analog s).currentTemp sensor =
          celsiusOf sensor (int32 ((readTemp sensor analog s).adcFiltered sensor)) table := by
  refine ⟨fun raw => ⟨celsiusOf_looked h sensor raw, celsiusOf_range sensor raw h.falling⟩,
    fun hsorted => ⟨celsiusOf_antitone h sensor, fun pre row post htable hlast =>
      celsiusOf_row h hsorted htable hlast⟩, ?_⟩
  rintro s analog rfl
  exact readTemp_currentTemp h sensor analog

/-- The bed sensor, with two rows made equal. -/
def equalRows : List TempEntry := setEntry .heatedBed0 200 151 temptable

theorem temperature_lookup_equalRows :
    (Antitone fun raw => celsiusOf .heatedBed0 raw equalRows) ∧
      celsiusOf .heatedBed0 151 equalRows = 200 := by
  have hreached : Reached equalRows := .set .heatedBed0 200 151 .initial
  obtain ⟨-, hsorted, -⟩ := temperature_lookup hreached .heatedBed0
  obtain ⟨hantitone, hrow⟩ := hsorted (by unfold Sorted; decide +kernel)
  have hlast := hrow (equalRows.take 10)
    { tempEntry 2573 182 200 with
      adc := Function.update (tempEntry 2573 182 200).adc .heatedBed0 151 }
    (equalRows.drop 11) rfl (by decide +kernel)
  exact ⟨hantitone, hlast⟩

end R2C2Firmware.Ports.TempTable
