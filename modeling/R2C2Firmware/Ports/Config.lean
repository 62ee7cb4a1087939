import R2C2Firmware.Verified.Number

/-!
# Machine configuration

The record `struct configuration` of `config.h`, and the table `config_lookup`
of `config.c` through which `read_config` and `print_config` reach its fields
by name.  The `double` fields range over an ordered field `R`; the `int32_t`
fields are integers.

The table is transcribed row by row: the entry named `dump_pos_y` really does
point at `config.dump_pos_x`.
-/

namespace R2C2Firmware.Ports.Config

variable {R : Type*}

/-- The four stepper axes, `X_AXIS` to `E_AXIS` in `stepper.h`. -/
inductive Axis where
  | x | y | z | e
  deriving DecidableEq, Repr

/-- All axes, in index order. -/
def Axis.all : List Axis := [.x, .y, .z, .e]

@[simp] theorem Axis.mem_all (a : Axis) : a ∈ Axis.all := by
  cases a <;> simp [Axis.all]

/-- Replace the entry of one axis. -/
def Axis.set {α : Type*} (a : Axis) (v : α) (f : Axis → α) : Axis → α :=
  Function.update f a v

/-- `struct configuration`.  The four-axis families are indexed by `Axis`. -/
structure Configuration (R : Type*) where
  stepsPerMm : Axis → R
  maximumFeedrate : Axis → Int
  acceleration : R
  junctionDeviation : R
  searchFeedrate : Axis → Int
  homingFeedrateX : Int
  homingFeedrateY : Int
  homingFeedrateZ : Int
  homeDirectionX : Int
  homeDirectionY : Int
  homeDirectionZ : Int
  homePosX : Int
  homePosY : Int
  homePosZ : Int
  printingVolX : Int
  printingVolY : Int
  printingVolZ : Int
  haveDumpPos : Int
  dumpPosX : Int
  dumpPosY : Int
  haveRestPos : Int
  restPosX : Int
  restPosY : Int
  haveWipePos : Int
  wipePosX : Int
  wipePosY : Int
  stepsPerRevolutionE : Int
  waitOnTemp : Int
  enableExtruder1 : Int
  dhcp : Int
  httpd : Int
  httpdPort : Int

/-- The value column of `tConfigItem`: a typed pointer into the record and the
default.  Address and string entries are known by name only; neither
`read_config` nor `print_config` touches their values. -/
inductive ConfigValue (R : Type*) where
  | int (get : Configuration R → Int)
      (set : Int → Configuration R → Configuration R) (val : Int)
  | double (get : Configuration R → R)
      (set : R → Configuration R → Configuration R) (val : R)
  | other

/-- `tConfigItem` -/
structure ConfigItem (R : Type*) where
  name : String
  value : ConfigValue R

section Table

variable [Field R]

/-- The rows `steps_per_mm_*`. -/
def stepsPerMmItem (name : String) (a : Axis) (val : R) : ConfigItem R :=
  ⟨name, .double (fun c => c.stepsPerMm a)
    (fun v c => { c with stepsPerMm := a.set v c.stepsPerMm }) val⟩

/-- The rows `maximum_feedrate_*`. -/
def maximumFeedrateItem (name : String) (a : Axis) (val : Int) :
    ConfigItem R :=
  ⟨name, .int (fun c => c.maximumFeedrate a)
    (fun v c => { c with maximumFeedrate := a.set v c.maximumFeedrate }) val⟩

/-- The rows `search_feedrate_*`. -/
def searchFeedrateItem (name : String) (a : Axis) (val : Int) :
    ConfigItem R :=
  ⟨name, .int (fun c => c.searchFeedrate a)
    (fun v c => { c with searchFeedrate := a.set v c.searchFeedrate }) val⟩

/-- `config_lookup`, with the default values. -/
def configLookup : List (ConfigItem R) :=
  [ stepsPerMmItem "steps_per_mm_x" .x 80
  , stepsPerMmItem "steps_per_mm_y" .y 80
  , stepsPerMmItem "steps_per_mm_z" .z 6400
  , stepsPerMmItem "steps_per_mm_e" .e 36
  , maximumFeedrateItem "maximum_feedrate_x" .x 3000
  , maximumFeedrateItem "maximum_feedrate_y" .y 3000
  , maximumFeedrateItem "maximum_feedrate_z" .z 60
  , maximumFeedrateItem "maximum_feedrate_e" .e 3000
  , ⟨"acceleration", .double (·.acceleration)
      (fun v c => { c with acceleration := v }) 100⟩
  , ⟨"junction_deviation", .double (·.junctionDeviation)
      (fun v c => { c with junctionDeviation := v }) (5 / 100)⟩
  , searchFeedrateItem "search_feedrate_x" .x 120
  , searchFeedrateItem "search_feedrate_y" .y 120
  , searchFeedrateItem "search_feedrate_z" .z 60
  , searchFeedrateItem "search_feedrate_e" .e 1600
  , ⟨"homing_feedrate_x", .int (·.homingFeedrateX)
      (fun v c => { c with homingFeedrateX := v }) 3000⟩
  , ⟨"homing_feedrate_y", .int (·.homingFeedrateY)
      (fun v c => { c with homingFeedrateY := v }) 3000⟩
  , ⟨"homing_feedrate_z", .int (·.homingFeedrateZ)
      (fun v c => { c with homingFeedrateZ := v }) 60⟩
  , ⟨"home_direction_x", .int (·.homeDirectionX)
      (fun v c => { c with homeDirectionX := v }) (-1)⟩
  , ⟨"home_direction_y", .int (·.homeDirectionY)
      (fun v c => { c with homeDirectionY := v }) (-1)⟩
  , ⟨"home_direction_z", .int (·.homeDirectionZ)
      (fun v c => { c with homeDirectionZ := v }) (-1)⟩
  , ⟨"home_pos_x", .int (·.homePosX)
      (fun v c => { c with homePosX := v }) 0⟩
  , ⟨"home_pos_y", .int (·.homePosY)
      (fun v c => { c with homePosY := v }) 0⟩
  , ⟨"home_pos_z", .int (·.homePosZ)
      (fun v c => { c with homePosZ := v }) 0⟩
  , ⟨"printing_vol_x", .int (·.printingVolX)
      (fun v c => { c with printingVolX := v }) 0⟩
  , ⟨"printing_vol_y", .int (·.printingVolY)
      (fun v c => { c with printingVolY := v }) 0⟩
  , ⟨"printing_vol_z", .int (·.printingVolZ)
      (fun v c => { c with printingVolZ := v }) 0⟩
  , ⟨"have_dump_pos", .int (·.haveDumpPos)
      (fun v c => { c with haveDumpPos := v }) 0⟩
  , ⟨"dump_pos_x", .int (·.dumpPosX)
      (fun v c => { c with dumpPosX := v }) 0⟩
  , ⟨"dump_pos_y", .int (·.dumpPosX)
      (fun v c => { c with dumpPosX := v }) 0⟩
  , ⟨"have_rest_pos", .int (·.haveRestPos)
      (fun v c => { c with haveRestPos := v }) 0⟩
  , ⟨"rest_pos_x", .int (·.restPosX)
      (fun v c => { c with restPosX := v }) 0⟩
  , ⟨"rest_pos_y", .int (·.restPosY)
      (fun v c => { c with restPosY := v }) 0⟩
  , ⟨"have_wipe_pos", .int (·.haveWipePos)
      (fun v c => { c with haveWipePos := v }) 0⟩
  , ⟨"wipe_pos_x", .int (·.wipePosX)
      (fun v c => { c with wipePosX := v }) 0⟩
  , ⟨"wipe_pos_y", .int (·.wipePosY)
      (fun v c => { c with wipePosY := v }) 0⟩
  , ⟨"steps_per_revolution_e", .int (·.stepsPerRevolutionE)
      (fun v c => { c with stepsPerRevolutionE := v }) 3200⟩
  , ⟨"wait_on_temp", .int (·.waitOnTemp)
      (fun v c => { c with waitOnTemp := v }) 0⟩
  , ⟨"enable_extruder_1", .int (·.enableExtruder1)
      (fun v c => { c with enableExtruder1 := v }) 1⟩
  , ⟨"dhcp", .int (·.dhcp) (fun v c => { c with dhcp := v }) 1⟩
  , ⟨"ip_addr", .other⟩
  , ⟨"ip_mask", .other⟩
  , ⟨"ip_gw", .other⟩
  , ⟨"httpd", .int (·.httpd) (fun v c => { c with httpd := v }) 1⟩
  , ⟨"httpd_port", .int (·.httpdPort)
      (fun v c => { c with httpdPort := v }) 80⟩
  , ⟨"http_docroot", .other⟩ ]

/-- Store an entry's default: one turn of the first loop of `read_config`. -/
def ConfigItem.setDefault (item : ConfigItem R) (c : Configuration R) :
    Configuration R :=
  match item.value with
  | .int _ set val => set val c
  | .double _ set val => set val c
  | .other => c

/-- The zero-initialised static `config`. -/
def Configuration.zero : Configuration R where
  stepsPerMm := fun _ => 0
  maximumFeedrate := fun _ => 0
  acceleration := 0
  junctionDeviation := 0
  searchFeedrate := fun _ => 0
  homingFeedrateX := 0
  homingFeedrateY := 0
  homingFeedrateZ := 0
  homeDirectionX := 0
  homeDirectionY := 0
  homeDirectionZ := 0
  homePosX := 0
  homePosY := 0
  homePosZ := 0
  printingVolX := 0
  printingVolY := 0
  printingVolZ := 0
  haveDumpPos := 0
  dumpPosX := 0
  dumpPosY := 0
  haveRestPos := 0
  restPosX := 0
  restPosY := 0
  haveWipePos := 0
  wipePosX := 0
  wipePosY := 0
  stepsPerRevolutionE := 0
  waitOnTemp := 0
  enableExtruder1 := 0
  dhcp := 0
  httpd := 0
  httpdPort := 0

/-- The configuration after the first loop of `read_config`: every entry at
its default. -/
def Configuration.default : Configuration R :=
  configLookup.foldl (fun c item => item.setDefault c) .zero

end Table

end R2C2Firmware.Ports.Config
