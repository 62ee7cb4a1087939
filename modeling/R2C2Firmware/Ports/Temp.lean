import R2C2Firmware.Verified.Number

/-!
# Temperatures

A transcription of `temp.c`: the two sensors, their conversion tables, and the
on/off control of the heaters.  The heater pins themselves belong to the
firmware state; `tempTick` says which of them to switch.
-/

namespace R2C2Firmware.Ports.Temp

open R2C2Firmware.Verified.Number

/-- `EXTRUDER_0` and `HEATED_BED_0` -/
inductive Sensor where
  | extruder0 | heatedBed0
  deriving DecidableEq, Repr

/-- A row of `temptable`. -/
structure TempEntry where
  adc : Sensor → Int
  celsius : Int

/-- A row of `temptable`, in the order of the source. -/
def tempEntry (extruder bed celsius : Int) : TempEntry where
  adc
    | .extruder0 => extruder
    | .heatedBed0 => bed
  celsius

/-- The initial `temptable`. -/
def temptable : List TempEntry :=
  [ tempEntry 1009 36 300
  , tempEntry 1119 42 290
  , tempEntry 1240 48 280
  , tempEntry 1372 56 270
  , tempEntry 1517 65 260
  , tempEntry 1673 76 250
  , tempEntry 1839 90 240
  , tempEntry 2015 106 230
  , tempEntry 2198 126 220
  , tempEntry 2385 151 210
  , tempEntry 2573 182 200
  , tempEntry 2759 220 190
  , tempEntry 2940 268 180
  , tempEntry 3112 328 170
  , tempEntry 3270 402 160
  , tempEntry 3415 496 150
  , tempEntry 3544 614 140
  , tempEntry 3655 761 130
  , tempEntry 3750 941 120
  , tempEntry 3830 1161 110
  , tempEntry 3894 1420 100
  , tempEntry 3946 1719 90
  , tempEntry 3986 2048 80
  , tempEntry 4017 2394 70
  , tempEntry 4041 2737 60
  , tempEntry 4058 3056 50
  , tempEntry 4070 3335 40
  , tempEntry 4079 3563 30
  , tempEntry 4085 3738 20
  , tempEntry 4089 3866 10
  , tempEntry 4092 3954 0 ]

/-- The statics of `temp.c`. -/
structure TempState where
  currentTemp : Sensor → Int
  targetTemp : Sensor → Int
  adcFiltered : Sensor → Int
  ticks : Int
  table : List TempEntry

/-- The statics at program start. -/
def TempState.zero : TempState where
  currentTemp := fun _ => 0
  targetTemp := fun _ => 0
  adcFiltered := fun _ => 0
  ticks := 0
  table := temptable

/-- The assignment of `temp_set`. -/
def setTarget (t : Int) (sensor : Sensor) (s : TempState) : TempState :=
  { s with targetTemp := Function.update s.targetTemp sensor t }

/-- `temp_achieved` -/
def tempAchieved (sensor : Sensor) (s : TempState) : Bool :=
  decide (s.currentTemp sensor ≥ s.targetTemp sensor - 2)

/-- The interpolation loop of `read_temp`: the first row above `raw`, with the
row before it. -/
def interpolate (sensor : Sensor) (raw : Int) :
    TempEntry → List TempEntry → Int
  | _, [] => 0
  | previous, row :: rows =>
      if raw < row.adc sensor then
        previous.celsius + ((raw - previous.adc sensor)
          * (row.celsius - previous.celsius)).tdiv
            (row.adc sensor - previous.adc sensor)
      else interpolate sensor raw row rows

/-- The table lookup of `read_temp`. -/
def celsiusOf (sensor : Sensor) (raw : Int) (table : List TempEntry) : Int :=
  match table with
  | [] => 0
  | first :: rows =>
      if raw < first.adc sensor then first.celsius
      else
        match rows.getLast? with
        | some last =>
            if raw ≥ last.adc sensor then last.celsius
            else interpolate sensor raw first rows
        | none => 0

/-- The filter of `read_temp`, in unsigned arithmetic. -/
def filterAdc (filtered analog : Int) : Int := uint32 (filtered * 7 + analog) / 8

/-- `read_temp`, given the reading of the converter. -/
def readTemp (sensor : Sensor) (analog : Int) (s : TempState) : TempState :=
  let filtered := filterAdc (s.adcFiltered sensor) analog
  let celsius := int16 (celsiusOf sensor (int32 filtered) s.table)
  { s with
    adcFiltered := Function.update s.adcFiltered sensor filtered
    currentTemp := Function.update s.currentTemp sensor (uint16 celsius) }

/-- `temp_tick`, given the readings of the converter.  Every `NUM_TICKS` ticks
the second component says which heaters to switch on and which off. -/
def tempTick (analog : Sensor → Int) (s : TempState) :
    TempState × Option (Sensor → Bool) :=
  let s := readTemp .extruder0 (analog .extruder0) s
  let s := readTemp .heatedBed0 (analog .heatedBed0) s
  let ticks := uint16 (s.ticks + 1)
  if ticks = 20 then
    ({ s with ticks := 0 },
      some fun sensor => decide (s.currentTemp sensor < s.targetTemp sensor))
  else ({ s with ticks }, none)

/-- The search loop of `temp_set_table_entry`: the first row of the
temperature is replaced. -/
def setEntry (sensor : Sensor) (temp adcVal : Int) :
    List TempEntry → List TempEntry
  | [] => []
  | row :: rows =>
      if row.celsius = temp then
        { row with adc := Function.update row.adc sensor adcVal } :: rows
      else row :: setEntry sensor temp adcVal rows

/-- `temp_set_table_entry` -/
def tempSetTableEntry (sensor : Sensor) (temp adcVal : Int) (s : TempState) :
    TempState :=
  { s with table := setEntry sensor temp adcVal s.table }

/-- `temp_get_table_entry` -/
def tempGetTableEntry (sensor : Sensor) (temp : Int) (s : TempState) : Int :=
  match s.table.find? (fun row => row.celsius == temp) with
  | some row => row.adc sensor
  | none => 0xffff

end R2C2Firmware.Ports.Temp
