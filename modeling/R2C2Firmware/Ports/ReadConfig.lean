import R2C2Firmware.Ports.Config
import R2C2Firmware.Ports.Sermsg

/-!
# Reading the configuration

`read_config` stores the default of every entry and then reads `config.txt` line
by line.  `get_token` cuts a line into words, numbers and single characters; a
line names an entry, then comes `=`, then a value.  The entry is looked up in
`config_lookup`, and the value stored through its pointer.

The table has entries of two more types, addresses and strings.  There is no case
for them, neither for the defaults nor for a line.

## Main results

* `getToken_eq_some_iff` — the tokens of a line, by their grammar.
* `atoi_unsigned`, `atoi_negative`, `atod_decimal` — the numbers that are read.
* `readLine_assigns`, `readLine_nothing` — what a line stores.
-/

namespace R2C2Firmware.Ports.ReadConfig

open R2C2Firmware.Verified.Number
open R2C2Firmware.Ports.Config
open R2C2Firmware.Ports.Sermsg

variable {R : Type}

/-! ## Tokens -/

/-- The text in a buffer: up to the first zero byte. -/
def cString (bytes : List UInt8) : List UInt8 := bytes.takeWhile (· ≠ 0)

/-- `char_match` -/
def charMatch (c : UInt8) (s : String) : Bool := (str s).contains c

/-- `isdigit` -/
def isdigit (c : UInt8) : Bool := decide (48 ≤ c ∧ c ≤ 57)

/-- `isalpha` -/
def isalpha (c : UInt8) : Bool :=
  decide (65 ≤ c ∧ c ≤ 90) || decide (97 ≤ c ∧ c ≤ 122)

/-- What is skipped in front of a token. -/
def isBlank (c : UInt8) : Bool := charMatch c " \t\n"

/-- A character inside an identifier. -/
def isWord (c : UInt8) : Bool := isalpha c || isdigit c || c == 95

/-- The first character of a number. -/
def isNumberStart (c : UInt8) : Bool := isdigit c || charMatch c "+-"

/-- `get_token`: the next token of a text, and the text behind it. -/
def getToken (text : List UInt8) : Option (List UInt8 × List UInt8) :=
  match text.dropWhile isBlank with
  | [] => none
  | c :: t =>
      if isalpha c then some (c :: t.takeWhile isWord, t.dropWhile isWord)
      else if isNumberStart c then
        match t.dropWhile isdigit with
        | 46 :: f =>
            some (c :: t.takeWhile isdigit ++ 46 :: f.takeWhile isdigit,
              f.dropWhile isdigit)
        | rest => some (c :: t.takeWhile isdigit, rest)
      else some ([c], t)

/-- The lower-case form of a letter. -/
def tolower (c : UInt8) : UInt8 := if 65 ≤ c ∧ c ≤ 90 then c + 32 else c

/-- `stricmp` finds no difference. -/
def stricmp (s t : List UInt8) : Bool := s.map tolower == t.map tolower

/-! ## Numbers -/

/-- White space of the C library. -/
def isspace (c : UInt8) : Bool := c == 32 || decide (9 ≤ c ∧ c ≤ 13)

/-- `atoi` of the C library, where a number that does not fit is replaced by the
nearest that does. -/
def atoi (s : List UInt8) : Int :=
  match s.dropWhile isspace with
  | 45 :: t => max (-(ofDigits (t.takeWhile isdigit) : Int)) (-2147483648)
  | 43 :: t => min (ofDigits (t.takeWhile isdigit)) 2147483647
  | t => min (ofDigits (t.takeWhile isdigit)) 2147483647

section Atod

variable [Field R]

/-- The loops of `atod` that take up characters. -/
def horner (s : List UInt8) : R :=
  s.foldl (fun r c => r * 10 + (((c.toNat : Int) - 48 : Int) : R)) 0

/-- `atod`.  It knows no sign. -/
def atod (s : List UInt8) : R :=
  let result := horner (s.takeWhile (· ≠ 46))
  match s.dropWhile (· ≠ 46) with
  | [] => result
  | _ :: frac => result + (fun r => r / 10)^[frac.length] (horner frac)

end Atod

/-! ## Lines -/

/-- The fields of `struct configuration` that belong to the entries of the other
two types. -/
structure Network where
  ipaddr : Nat
  ipmask : Nat
  ipgw : Nat
  httpdDocroot : Option (List UInt8)

/-- `struct configuration` -/
structure Settings (R : Type) where
  config : Configuration R
  network : Network

section Read

variable [Field R]

/-- Store the value of a token through the pointer of an entry.  The switch has
no case for addresses and strings. -/
def store (item : ConfigItem R) (token : List UInt8) (c : Configuration R) :
    Configuration R :=
  match item.value with
  | .int _ set _ => set (atoi token) c
  | .double _ set _ => set (atod token) c
  | .other => c

variable [LinearOrder R] [FloorRing R]

/-- One turn of the loop over the lines: what is sent, and the configuration.
While a message is sent, the line ends behind the last token. -/
def readLine (line : List UInt8) (c : Configuration R) :
    List UInt8 × Configuration R :=
  let text := cString line
  match getToken text with
  | none => ([], c)
  | some (name, rest) =>
      if name.head? = some 35 then ([], c)
      else
        match configLookup.find? fun item => stricmp name (str item.name) with
        | none => (sersendf "Unknown config: %s\r\n" [(.string name : Arg R)], c)
        | some item =>
            match getToken rest with
            | none =>
                (sersendf "Expected '='%s\r\n" [(.string text : Arg R)], c)
            | some (sign, rest) =>
                if sign.head? = some 61 then
                  match getToken rest with
                  | some (token, _) => ([], store item token c)
                  | none =>
                      (sersendf "Missing value for %s\r\n"
                        [(.string (str item.name) : Arg R)], c)
                else
                  (sersendf "Expected '='%s\r\n"
                    [(.string (text.take (text.length - rest.length)) : Arg R)], c)

/-- The part of `read_config` that reads `config.txt`, given the lines that
`f_gets` returns: what is sent, and the configuration. -/
def readConfig (lines : List (List UInt8)) (s : Settings R) :
    List UInt8 × Settings R :=
  let c := configLookup.foldl (fun c item => item.setDefault c) s.config
  let r := lines.foldl
    (fun r line =>
      ((r.1 ++ (readLine line r.2).1, (readLine line r.2).2) :
        List UInt8 × Configuration R)) ([], c)
  (r.1, { s with config := r.2 })

end Read

/-! ## The grammar of tokens -/

/-- A text that does not go on with such a character. -/
def Stops (p : UInt8 → Bool) (rest : List UInt8) : Prop :=
  ∀ c ∈ rest.head?, p c = false

/-- A token, and the text behind it: a word, a number without or with a decimal
point, or a single character. -/
inductive IsToken : List UInt8 → List UInt8 → Prop where
  | word {c : UInt8} {w rest : List UInt8} (hc : isalpha c = true)
      (hw : ∀ b ∈ w, isWord b = true) (hrest : Stops isWord rest) :
      IsToken (c :: w) rest
  | integer {c : UInt8} {w rest : List UInt8} (hc : isNumberStart c = true)
      (hw : ∀ b ∈ w, isdigit b = true)
      (hrest : Stops (fun b => isdigit b || b == 46) rest) :
      IsToken (c :: w) rest
  | decimal {c : UInt8} {w f rest : List UInt8} (hc : isNumberStart c = true)
      (hw : ∀ b ∈ w, isdigit b = true) (hf : ∀ b ∈ f, isdigit b = true)
      (hrest : Stops isdigit rest) : IsToken (c :: w ++ 46 :: f) rest
  | symbol {c : UInt8} {rest : List UInt8} (hc : isalpha c = false)
      (hnumber : isNumberStart c = false) (hblank : isBlank c = false) :
      IsToken [c] rest

theorem takeWhile_stops {p : UInt8 → Bool} {w rest : List UInt8}
    (hw : ∀ b ∈ w, p b = true) (hrest : Stops p rest) :
    (w ++ rest).takeWhile p = w ∧ (w ++ rest).dropWhile p = rest := by
  rw [List.takeWhile_append_of_pos hw, List.dropWhile_append_of_pos hw]
  cases rest with
  | nil => simp
  | cons c rest =>
      have hc : p c = false := hrest c rfl
      simp [hc]

theorem stops_dropWhile (p : UInt8 → Bool) (t : List UInt8) :
    Stops p (t.dropWhile p) := by
  intro c hc
  have h := List.head?_dropWhile_not p t
  rw [hc] at h
  simpa using h

/-- Blanks in front of a token are skipped. -/
theorem getToken_blanks {b : List UInt8} (hb : ∀ c ∈ b, isBlank c = true)
    (t : List UInt8) : getToken (b ++ t) = getToken t := by
  rw [getToken, List.dropWhile_append_of_pos hb, getToken]

theorem mem_takeWhile {p : UInt8 → Bool} {t : List UInt8} :
    ∀ b ∈ t.takeWhile p, p b = true :=
  List.all_eq_true.1 List.all_takeWhile

theorem isBlank_iff {c : UInt8} : isBlank c = true ↔ c = 32 ∨ c = 9 ∨ c = 10 := by
  simp [isBlank, charMatch, str]

theorem isNumberStart_iff {c : UInt8} :
    isNumberStart c = true ↔ isdigit c = true ∨ c = 43 ∨ c = 45 := by
  simp [isNumberStart, charMatch, str]

/-- A word does not start with a blank. -/
theorem isBlank_of_isalpha {c : UInt8} (h : isalpha c = true) :
    isBlank c = false := by
  by_contra hblank
  rcases isBlank_iff.1 (by simpa using hblank) with rfl | rfl | rfl
  all_goals exact absurd h (by decide)

/-- A number starts neither with a blank nor with a letter. -/
theorem isBlank_of_isNumberStart {c : UInt8} (h : isNumberStart c = true) :
    isBlank c = false ∧ isalpha c = false := by
  constructor
  · by_contra hblank
    rcases isBlank_iff.1 (by simpa using hblank) with rfl | rfl | rfl
    all_goals exact absurd h (by decide)
  · rcases isNumberStart_iff.1 h with hdigit | rfl | rfl
    · have hrange : 48 ≤ c ∧ c ≤ 57 := of_decide_eq_true hdigit
      rw [UInt8.le_iff_toNat_le, UInt8.le_iff_toNat_le] at hrange
      rw [isalpha, Bool.or_eq_false_iff, decide_eq_false_iff_not,
        decide_eq_false_iff_not]
      simp only [UInt8.le_iff_toNat_le] at hrange ⊢
      constructor
      · rintro ⟨hlo, -⟩
        exact absurd (hlo.trans hrange.2) (by decide)
      · rintro ⟨hlo, -⟩
        exact absurd (hlo.trans hrange.2) (by decide)
    · decide
    · decide

/-- The first token of a text that starts with one. -/
theorem getToken_of_isToken {v rest : List UInt8} (h : IsToken v rest) :
    getToken (v ++ rest) = some (v, rest) := by
  cases h with
  | @word c w _ hc hw hrest =>
      obtain ⟨htake, hdrop⟩ := takeWhile_stops hw hrest
      rw [getToken, List.cons_append, List.dropWhile_cons_of_neg
        (by simp [isBlank_of_isalpha hc])]
      dsimp only
      rw [if_pos hc, htake, hdrop]
  | @integer c w _ hc hw hrest =>
      obtain ⟨hblank, hword⟩ := isBlank_of_isNumberStart hc
      have hstops : Stops isdigit rest := by
        intro b hb
        have hboth := hrest b hb
        rw [Bool.or_eq_false_iff] at hboth
        exact hboth.1
      obtain ⟨htake, hdrop⟩ := takeWhile_stops hw hstops
      rw [getToken, List.cons_append, List.dropWhile_cons_of_neg (by simp [hblank])]
      dsimp only
      rw [if_neg (by simp [hword]), if_pos hc, htake, hdrop]
      split
      · next f heq =>
          have hdot := hrest 46 (by simp)
          exact absurd hdot (by decide)
      · rfl
  | @decimal c w f _ hc hw hf hrest =>
      obtain ⟨hblank, hword⟩ := isBlank_of_isNumberStart hc
      have hstops : Stops isdigit (46 :: (f ++ rest)) := by
        intro b hb
        rw [← Option.some.inj hb]
        decide
      obtain ⟨htake, hdrop⟩ := takeWhile_stops hw hstops
      obtain ⟨htake', hdrop'⟩ := takeWhile_stops hf hrest
      have htext : c :: w ++ 46 :: f ++ rest = c :: (w ++ 46 :: (f ++ rest)) := by
        simp
      rw [getToken, htext, List.dropWhile_cons_of_neg (by simp [hblank])]
      dsimp only
      rw [if_neg (by simp [hword]), if_pos hc, htake, hdrop]
      show some (c :: w ++ 46 :: (f ++ rest).takeWhile isdigit,
        (f ++ rest).dropWhile isdigit) = _
      rw [htake', hdrop']
  | @symbol c _ hc hnumber hblank =>
      rw [getToken, List.singleton_append,
        List.dropWhile_cons_of_neg (by simp [hblank])]
      dsimp only
      rw [if_neg (by simp [hc]), if_neg (by simp [hnumber])]

/-- The tokens of a text are those of the grammar, behind blanks. -/
theorem getToken_eq_some_iff {text v rest : List UInt8} :
    getToken text = some (v, rest) ↔
      ∃ b, (∀ c ∈ b, isBlank c = true) ∧ text = b ++ (v ++ rest) ∧
        IsToken v rest := by
  constructor
  · intro h
    have hblanks : ∀ c ∈ text.takeWhile isBlank, isBlank c = true :=
      mem_takeWhile
    have htext := (List.takeWhile_append_dropWhile (p := isBlank) (l := text)).symm
    suffices hsuffices : text.dropWhile isBlank = v ++ rest ∧ IsToken v rest from
      ⟨text.takeWhile isBlank, hblanks, by rw [← hsuffices.1]; exact htext,
        hsuffices.2⟩
    rw [getToken] at h
    have hstops := stops_dropWhile isBlank text
    cases hdrop : text.dropWhile isBlank with
    | nil =>
        rw [hdrop] at h
        exact absurd h (by simp)
    | cons c t =>
        rw [hdrop] at h hstops
        have hblank : isBlank c = false := hstops c rfl
        dsimp only at h
        split at h
        · next hc =>
            obtain ⟨rfl, rfl⟩ := Prod.mk.inj (Option.some.inj h)
            refine ⟨?_, .word hc mem_takeWhile
              (stops_dropWhile isWord t)⟩
            rw [List.cons_append, List.takeWhile_append_dropWhile]
        · next hc =>
          have hdigits : ∀ b ∈ t.takeWhile isdigit, isdigit b = true :=
            mem_takeWhile
          have happend := List.takeWhile_append_dropWhile (p := isdigit) (l := t)
          split at h
          · next hnumber =>
            split at h
            · next f heq =>
                obtain ⟨rfl, rfl⟩ := Prod.mk.inj (Option.some.inj h)
                refine ⟨?_, .decimal hnumber hdigits
                  mem_takeWhile
                  (stops_dropWhile isdigit f)⟩
                have hf := List.takeWhile_append_dropWhile (p := isdigit) (l := f)
                rw [List.append_assoc, List.cons_append, List.cons_append, hf,
                  ← heq, happend]
            · next hno =>
                obtain ⟨rfl, rfl⟩ := Prod.mk.inj (Option.some.inj h)
                refine ⟨by rw [List.cons_append, happend], .integer hnumber hdigits ?_⟩
                intro b hb
                rw [Bool.or_eq_false_iff]
                refine ⟨stops_dropWhile isdigit t b hb, ?_⟩
                by_contra hdot
                have hb46 : b = 46 := by simpa using hdot
                subst hb46
                cases hrest : t.dropWhile isdigit with
                | nil =>
                    rw [hrest] at hb
                    exact absurd hb (by simp)
                | cons d f =>
                    rw [hrest] at hb
                    obtain rfl := Option.some.inj hb
                    exact hno f hrest
          · next hnumber =>
              obtain ⟨rfl, rfl⟩ := Prod.mk.inj (Option.some.inj h)
              exact ⟨rfl, .symbol (by simpa using hc) (by simpa using hnumber) hblank⟩
  · rintro ⟨b, hb, rfl, htoken⟩
    rw [getToken_blanks hb]
    exact getToken_of_isToken htoken

/-! ## Numbers that are read -/

section Numbers

theorem isdigit_iff {c : UInt8} : isdigit c = true ↔ IsDigit c := by
  rw [isdigit, decide_eq_true_iff, UInt8.le_iff_toNat_le, UInt8.le_iff_toNat_le]
  exact Iff.rfl

theorem takeWhile_isdigit {v : List UInt8} (hv : ∀ b ∈ v, isdigit b = true) :
    v.takeWhile isdigit = v := by
  have h := (takeWhile_stops hv (show Stops _ [] by simp [Stops])).1
  rwa [List.append_nil] at h

/-- Digits are not skipped and are no sign. -/
theorem atoi_unsigned {v : List UInt8} (hv : ∀ b ∈ v, isdigit b = true) :
    atoi v = min (ofDigits v : Int) 2147483647 := by
  have hspace : v.dropWhile isspace = v := by
    cases v with
    | nil => rfl
    | cons c v =>
        refine List.dropWhile_cons_of_neg ?_
        have hc := isdigit_iff.1 (hv c List.mem_cons_self)
        unfold IsDigit at hc
        rw [isspace, Bool.or_eq_true, not_or, decide_eq_true_iff,
          UInt8.le_iff_toNat_le, UInt8.le_iff_toNat_le, beq_iff_eq]
        refine ⟨?_, ?_⟩
        · rintro rfl
          exact absurd hc.1 (by decide)
        · rintro ⟨-, hhi⟩
          exact absurd (hc.1.trans hhi) (by decide)
  rw [atoi, hspace]
  split
  · exact absurd (hv 45 List.mem_cons_self) (by decide)
  · exact absurd (hv 43 List.mem_cons_self) (by decide)
  · rw [takeWhile_isdigit hv]

theorem atoi_negative {v : List UInt8} (hv : ∀ b ∈ v, isdigit b = true) :
    atoi (45 :: v) = max (-(ofDigits v : Int)) (-2147483648) := by
  rw [atoi, List.dropWhile_cons_of_neg (by decide)]
  show max (-(ofDigits (v.takeWhile isdigit) : Int)) (-2147483648) = _
  rw [takeWhile_isdigit hv]

variable [Field R]

theorem horner_eq {v : List UInt8} (hv : ∀ b ∈ v, isdigit b = true) :
    (horner v : R) = (ofDigits v : R) := by
  induction v using List.reverseRecOn with
  | nil => simp [horner, ofDigits]
  | append_singleton v c ih =>
      have hc := isdigit_iff.1 (hv c (by simp))
      have hcast : (((c.toNat : Int) - 48 : Int) : R) = ((c.toNat - 48 : Nat) : R) := by
        rw [Nat.cast_sub hc.1]
        push_cast
        rfl
      have hv' := ih fun b hb => hv b (List.mem_append_left _ hb)
      unfold horner at hv' ⊢
      unfold ofDigits at hv' ⊢
      rw [List.foldl_append, List.foldl_append, List.foldl_cons, List.foldl_nil,
        List.foldl_cons, List.foldl_nil, hv', hcast]
      push_cast
      rfl

theorem iterate_div (n : Nat) (r : R) :
    (fun r : R => r / 10)^[n] r = r / 10 ^ n := by
  induction n generalizing r with
  | zero => simp
  | succ n ih =>
      rw [Function.iterate_succ_apply, ih, pow_succ', div_div]

theorem digits_ne_point {v : List UInt8} (hv : ∀ b ∈ v, isdigit b = true) :
    ∀ b ∈ v, decide (b ≠ 46) = true := by
  intro b hb
  rw [decide_eq_true_iff]
  rintro rfl
  exact absurd (hv 46 hb) (by decide)

theorem atod_decimal {w f : List UInt8} (hw : ∀ b ∈ w, isdigit b = true)
    (hf : ∀ b ∈ f, isdigit b = true) :
    (atod (w ++ 46 :: f) : R) = ofDigits w + ofDigits f / 10 ^ f.length := by
  obtain ⟨htake, hdrop⟩ := takeWhile_stops (digits_ne_point hw)
    (show Stops _ (46 :: f) by simp [Stops])
  rw [atod, htake, hdrop]
  dsimp only
  rw [horner_eq hw, horner_eq hf, iterate_div]

end Numbers

/-! ## Lines that store something -/

/-- The line has the form `name = value`: first the name, in any case of its
letters, then the sign, then a token. -/
def Assigns (name : String) (line token : List UInt8) : Prop :=
  ∃ b₁ n b₂ b₃ rest, (∀ c ∈ b₁ ++ b₂ ++ b₃, isBlank c = true) ∧
    cString line = b₁ ++ (n ++ (b₂ ++ 61 :: (b₃ ++ (token ++ rest)))) ∧
    n.map tolower = (str name).map tolower ∧ IsToken token rest

section Lines

theorem isalpha_tolower (c : UInt8) : isalpha (tolower c) = isalpha c := by
  revert c
  exact forall_byte (by decide +kernel)

theorem isWord_tolower (c : UInt8) : isWord (tolower c) = isWord c := by
  revert c
  exact forall_byte (by decide +kernel)

/-- The names of the entries. -/
def entryNames : List String := (configLookup (R := ℚ)).map (·.name)

/-- A name is a word. -/
def isName (n : List UInt8) : Bool :=
  match n with
  | [] => false
  | c :: w => isalpha c && w.all isWord

theorem entryNames_isName : ∀ name ∈ entryNames, isName (str name) = true := by
  decide +kernel

theorem entryNames_nodup :
    (entryNames.map fun name => (str name).map tolower).Nodup := by
  decide +kernel

theorem isName_of_map_tolower {n m : List UInt8}
    (h : n.map tolower = m.map tolower) (hm : isName m = true) :
    isName n = true := by
  have hall : ∀ w : List UInt8, w.all isWord = (w.map tolower).all isWord := by
    intro w
    rw [List.all_map]
    exact congrArg w.all (funext fun c => (isWord_tolower c).symm)
  cases m with
  | nil => exact absurd hm (by decide)
  | cons d m =>
      cases n with
      | nil => exact absurd h (by simp)
      | cons c n =>
          rw [List.map_cons, List.map_cons] at h
          obtain ⟨hhead, htail⟩ := List.cons.inj h
          unfold isName at hm ⊢
          dsimp only at hm ⊢
          rw [← isalpha_tolower c, hall n, htail, hhead, isalpha_tolower d, ← hall m]
          exact hm

/-- A name in front of blanks or the sign is a token. -/
theorem isToken_name {n rest : List UInt8} (hn : isName n = true)
    (hrest : Stops isWord rest) : IsToken n rest := by
  cases n with
  | nil => exact absurd hn (by decide)
  | cons c w =>
      unfold isName at hn
      dsimp only at hn
      rw [Bool.and_eq_true, List.all_eq_true] at hn
      exact .word hn.1 hn.2 hrest

/-- The tokens of a line that assigns. -/
theorem assigns_iff {name : String} (hname : name ∈ entryNames)
    {line token : List UInt8} :
    Assigns name line token ↔
      ∃ n rest sign rest' rest'', getToken (cString line) = some (n, rest) ∧
        n.map tolower = (str name).map tolower ∧
        getToken rest = some (sign, rest') ∧ sign.head? = some 61 ∧
        getToken rest' = some (token, rest'') := by
  have hisName := entryNames_isName name hname
  constructor
  · rintro ⟨b₁, n, b₂, b₃, rest, hblank, hline, hn, htoken⟩
    have hblank₁ : ∀ c ∈ b₁, isBlank c = true := fun c hc =>
      hblank c (List.mem_append_left _ (List.mem_append_left _ hc))
    have hblank₂ : ∀ c ∈ b₂, isBlank c = true := fun c hc =>
      hblank c (List.mem_append_left _ (List.mem_append_right _ hc))
    have hblank₃ : ∀ c ∈ b₃, isBlank c = true := fun c hc =>
      hblank c (List.mem_append_right _ hc)
    have hstops : Stops isWord (b₂ ++ 61 :: (b₃ ++ (token ++ rest))) := by
      intro c hc
      cases b₂ with
      | nil =>
          rw [← Option.some.inj hc]
          decide
      | cons b b₂ =>
          rw [← Option.some.inj hc]
          rcases isBlank_iff.1 (hblank₂ b List.mem_cons_self) with rfl | rfl | rfl
          all_goals decide
    have hsign : IsToken [61] (b₃ ++ (token ++ rest)) :=
      .symbol (by decide) (by decide) (by decide)
    refine ⟨n, b₂ ++ 61 :: (b₃ ++ (token ++ rest)), [61], b₃ ++ (token ++ rest), rest,
      getToken_eq_some_iff.2 ⟨b₁, hblank₁, hline,
        isToken_name (isName_of_map_tolower hn hisName) hstops⟩, hn,
      getToken_eq_some_iff.2 ⟨b₂, hblank₂, rfl, hsign⟩, rfl,
      getToken_eq_some_iff.2 ⟨b₃, hblank₃, rfl, htoken⟩⟩
  · rintro ⟨n, rest, sign, rest', rest'', hname', hn, hsign, hhead, hvalue⟩
    obtain ⟨b₁, hblank₁, hline, -⟩ := getToken_eq_some_iff.1 hname'
    obtain ⟨b₂, hblank₂, hrest, hsignToken⟩ := getToken_eq_some_iff.1 hsign
    obtain ⟨b₃, hblank₃, hrest', htoken⟩ := getToken_eq_some_iff.1 hvalue
    -- a token that starts with the sign is the sign
    have hsingle : sign = [61] := by
      cases hsignToken with
      | word hc =>
          obtain rfl := Option.some.inj hhead
          exact absurd hc (by decide)
      | integer hc =>
          obtain rfl := Option.some.inj hhead
          exact absurd hc (by decide)
      | decimal hc =>
          obtain rfl := Option.some.inj hhead
          exact absurd hc (by decide)
      | symbol _ _ _ => rw [Option.some.inj hhead]
    refine ⟨b₁, n, b₂, b₃, rest'', ?_, ?_, hn, htoken⟩
    · intro c hc
      rcases List.mem_append.1 hc with hc | hc
      · rcases List.mem_append.1 hc with hc | hc
        · exact hblank₁ c hc
        · exact hblank₂ c hc
      · exact hblank₃ c hc
    · rw [hline, hrest, hsingle, hrest']
      rfl

/-- A line has one name and one value. -/
theorem Assigns.unique {name name' : String} (hname : name ∈ entryNames)
    (hname' : name' ∈ entryNames) {line token token' : List UInt8}
    (h : Assigns name line token) (h' : Assigns name' line token') :
    name = name' ∧ token = token' := by
  obtain ⟨n, rest, sign, rest', rest'', hn, hlower, hsign, -, htoken⟩ :=
    (assigns_iff hname).1 h
  obtain ⟨m, s, sign', s', s'', hm, hlower', hsign', -, htoken'⟩ :=
    (assigns_iff hname').1 h'
  obtain ⟨rfl, rfl⟩ := Prod.mk.inj (Option.some.inj (hn.symm.trans hm))
  obtain ⟨rfl, rfl⟩ := Prod.mk.inj (Option.some.inj (hsign.symm.trans hsign'))
  obtain ⟨rfl, rfl⟩ := Prod.mk.inj (Option.some.inj (htoken.symm.trans htoken'))
  exact ⟨List.inj_on_of_nodup_map entryNames_nodup hname hname'
    (hlower.symm.trans hlower'), rfl⟩

/-- The names of the entries do not depend on the numbers. -/
theorem map_name [Field R] : (configLookup (R := R)).map (·.name) = entryNames :=
  rfl

theorem mem_entryNames [Field R] {item : ConfigItem R}
    (h : item ∈ configLookup) : item.name ∈ entryNames := by
  rw [← map_name (R := R)]
  exact List.mem_map_of_mem h

/-- The loop over the table finds the entry with the name. -/
theorem find_entry [Field R] {item : ConfigItem R} (hitem : item ∈ configLookup)
    {n : List UInt8} (hn : n.map tolower = (str item.name).map tolower) :
    configLookup.find? (fun item : ConfigItem R => stricmp n (str item.name)) =
      some item := by
  have hmatch : stricmp n (str item.name) = true := by simp [stricmp, hn]
  cases hfind : configLookup.find?
      (fun item : ConfigItem R => stricmp n (str item.name)) with
  | none => exact absurd hmatch (List.find?_eq_none.1 hfind item hitem)
  | some item' =>
      have hmem := List.mem_of_find?_eq_some hfind
      have hsome := List.find?_some hfind
      have hlower : (str item'.name).map tolower = (str item.name).map tolower := by
        rw [← hn]
        exact (by simpa [stricmp] using hsome : _ = _).symm
      have hname : item'.name = item.name :=
        List.inj_on_of_nodup_map entryNames_nodup (mem_entryNames hmem)
          (mem_entryNames hitem) hlower
      have hnodup : ((configLookup (R := R)).map (·.name)).Nodup := by
        rw [map_name]
        exact List.Nodup.of_map _ entryNames_nodup
      rw [List.inj_on_of_nodup_map hnodup hmem hitem hname]

variable [Field R] [LinearOrder R] [FloorRing R]

/-- A line that assigns to an entry stores the token there. -/
theorem readLine_assigns {item : ConfigItem R} (hitem : item ∈ configLookup)
    {line token : List UInt8} (h : Assigns item.name line token)
    (c : Configuration R) : (readLine line c).2 = store item token c := by
  have hmem := mem_entryNames hitem
  obtain ⟨n, rest, sign, rest', rest'', hn, hlower, hsign, hhead, htoken⟩ :=
    (assigns_iff hmem).1 h
  have hcomment : n.head? ≠ some 35 := by
    have hisName := isName_of_map_tolower hlower (entryNames_isName _ hmem)
    intro h35
    cases n with
    | nil => exact absurd h35 (by simp)
    | cons d w =>
        obtain rfl := Option.some.inj h35
        exact absurd hisName (by simp [isName, show isalpha 35 = false by decide])
  rw [readLine, hn]
  dsimp only
  rw [if_neg hcomment, find_entry hitem hlower]
  dsimp only
  rw [hsign]
  dsimp only
  rw [if_pos hhead, htoken]

/-- A line that assigns to none of the names changes nothing. -/
theorem readLine_nothing {line : List UInt8}
    (h : ∀ item ∈ configLookup (R := R), ∀ token, ¬Assigns item.name line token)
    (c : Configuration R) : (readLine line c).2 = c := by
  rw [readLine]
  split
  · rfl
  · next n rest hn =>
    split
    · rfl
    · split
      · rfl
      · next item hfind =>
        split
        · rfl
        · next sign rest' hsign =>
          split
          · next hhead =>
            split
            · next token rest'' htoken =>
                have hmem := List.mem_of_find?_eq_some hfind
                have hmatch := List.find?_some hfind
                exact absurd ((assigns_iff (mem_entryNames hmem)).2
                  ⟨n, rest, sign, rest', rest'', hn, by simpa [stricmp] using hmatch,
                    hsign, hhead, htoken⟩) (h item hmem token)
            · rfl
          · rfl

end Lines

end R2C2Firmware.Ports.ReadConfig
