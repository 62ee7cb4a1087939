import R2C2Firmware.Verified.Binary64
import R2C2Firmware.Ports.Comments
import R2C2Firmware.Ports.NumberRounding

/-!
# The numbers of a command

The number behind a letter is stored in a field of 8, 16 or 32 bits without a check of
its range.  A number that does not fit is another one for the handlers: `G256` is run as
`G0`, `M65640` as `M104`, and `S40000` is `-25536`.

An integer of 53 bits is read as it is written.  The time of a `G4` need not be one: it
is read with a rounding for every digit, and multiplied by 1000 with another, so that
`G4 P0.33` waits for 329 milliseconds.

A line is made of words; behind an M word that opens a file name the name follows,
and a checksum behind that.

## Main results

* `Spells.scanLine` — the command that a line spells.
* `scales_integer` — the time of a `G4` in whole seconds is scaled without a loss.
* `numbers_kept_iff` — when the handlers get the numbers that were written.
* `g256_runs_g0` — a number that does not fit.
-/

set_option linter.unusedSectionVars false

namespace R2C2Firmware.Ports.CommandNumbers

open R2C2Firmware.Verified.Number
open R2C2Firmware.Verified.Binary64
open R2C2Firmware.Ports.Config
open R2C2Firmware.Ports.MotionPlanner
open R2C2Firmware.Ports.Sermsg
open R2C2Firmware.Ports.GcodeParse
open R2C2Firmware.Ports.Mendel
open R2C2Firmware.Ports.GcodeProcess
open R2C2Firmware.Ports.MainLoop
open R2C2Firmware.Ports.Checksum
open R2C2Firmware.Ports.StaleWords
open R2C2Firmware.Ports.LineIndependence
open R2C2Firmware.Ports.NumberWords
open R2C2Firmware.Ports.WordOrder
open R2C2Firmware.Ports.Comments
open R2C2Firmware.Ports.NumberRounding

variable {R σ : Type} [Field R] [LinearOrder R] [FloorRing R] [HasDouble R]
  {p r : Parser R}

/-! ## File names -/

/-- A character of a file name. -/
def IsNameChar (c : UInt8) : Prop := ¬(c = 10 ∨ c = 13 ∨ c = 32 ∨ c = 42)

/-- A file name can follow: the word before it has been put away or will be by the
next letter. -/
structure Naming (t : GcodeCommand R) (p : Parser R) : Prop where
  getting : t.gettingString = true
  semi : t.seenSemiComment = false
  parens : t.seenParensComment = false
  committed : ∃ name pos, committed p = { t with filename := name, chpos := pos }
  clear : stray p = (false, 0, 0)

/-- The parser behind the name. -/
def named (t : GcodeCommand R) (name : List UInt8) (pos : Nat) : Parser R where
  nextTarget :=
    { t with filename := name, chpos := pos, gettingString := false }
  lastField := none
  sign := false
  exponent := 0
  value := 0

theorem uppercase_name {c : UInt8} (h : IsNameChar c) : IsNameChar (uppercase c) := by
  have hall : ∀ c : UInt8, (uppercase c = 10 ∨ uppercase c = 13 ∨ uppercase c = 32 ∨
      uppercase c = 42) → c = 10 ∨ c = 13 ∨ c = 32 ∨ c = 42 :=
    forall_byte (by decide +kernel)
  exact fun hc => h (hall c hc)

theorem commit_naming {t : GcodeCommand R} (h : Naming t p) {c : UInt8}
    (hc : isFieldEnd (uppercase c) = true ∨ p.lastField = none) :
    commitField (uppercase c) p = settled p := by
  rcases hc with hc | hnone
  · exact commitField_end p hc
  · rw [commitField_none hnone]
    obtain ⟨t', field, sign, exponent, value⟩ := p
    obtain rfl : field = none := hnone
    rfl

/-- A character of the name. -/
theorem Naming.char {t : GcodeCommand R} (h : Naming t p) {c : UInt8}
    (hc : isFieldEnd (uppercase c) = true ∨ p.lastField = none) (hname : IsNameChar c) :
    Naming t (scan p c) ∧ (scan p c).lastField = none := by
  obtain ⟨name, pos, hcommitted⟩ := h.committed
  have hcapture : ∃ name' pos', captureString (uppercase c) (settled p).nextTarget =
      { t with filename := name', chpos := pos' } := by
    show ∃ name' pos', captureString (uppercase c) (NumberWords.committed p) = _
    rw [hcommitted, captureString, if_pos h.getting, if_neg (uppercase_name hname)]
    split
    · exact ⟨_, _, rfl⟩
    · exact ⟨name, pos, rfl⟩
  obtain ⟨name', pos', hcapture⟩ := hcapture
  have hscan : scan p c =
      { nextTarget := { t with filename := name', chpos := pos' }
        lastField := none
        sign := false
        exponent := 0
        value := 0 } := by
    unfold scan
    dsimp only
    rw [commit_naming h hc, hcapture, processChar, if_neg (by simp [h.getting]),
      if_neg (by simp [h.parens])]
    show ({ settled p with nextTarget := _ } : Parser R) = _
    unfold settled
    rw [h.clear]
  rw [hscan]
  exact ⟨⟨h.getting, h.semi, h.parens, ⟨name', pos', rfl⟩, rfl⟩, rfl⟩

theorem Naming.chars {t : GcodeCommand R} {name : List UInt8}
    (hname : ∀ c ∈ name, IsNameChar c) (h : Naming t p) (hfield : p.lastField = none) :
    Naming t (scanLine p name) := by
  induction name generalizing p with
  | nil => exact h
  | cons c name ih =>
      obtain ⟨hnext, hnone⟩ := h.char (.inr hfield) (hname c List.mem_cons_self)
      exact ih (fun d hd => hname d (List.mem_cons_of_mem _ hd)) hnext hnone

/-- The line end or a `*` ends the name, and goes on as if there had been none. -/
theorem Naming.stop {t : GcodeCommand R} (h : Naming t p) {c : UInt8}
    (hc : c = 10 ∨ c = 13 ∨ c = 42) :
    ∃ name pos, scan p c = scan (named t name pos) c := by
  obtain ⟨name, pos, hcommitted⟩ := h.committed
  refine ⟨name, pos, ?_⟩
  have hfacts : uppercase c = c ∧ isFieldEnd c = true := by
    rcases hc with rfl | rfl | rfl <;> exact ⟨rfl, rfl⟩
  have hdelimiter : c = 10 ∨ c = 13 ∨ c = 32 ∨ c = 42 := by tauto
  have hend : captureString c (settled p).nextTarget =
      (named t name pos).nextTarget := by
    show captureString c (NumberWords.committed p) = _
    rw [hcommitted, captureString, if_pos h.getting, if_pos hdelimiter]
    rfl
  have hkeep : captureString c (named t name pos).nextTarget =
      (named t name pos).nextTarget := captureString_plain rfl c
  have hsettled : ({ settled p with nextTarget := (named t name pos).nextTarget } :
      Parser R) = named t name pos := by
    unfold settled
    rw [h.clear]
    rfl
  unfold scan
  dsimp only
  rw [hfacts.1, commitField_end p hfacts.2, commitField_none rfl, hkeep]
  show processChar c { settled p with
    nextTarget := captureString c (settled p).nextTarget } = _
  rw [hend, hsettled]

/-! ## Lines -/

/-- The text of a line and its words.  A file name starts with a letter: a digit
would still belong to the number before it. -/
inductive Spells (R : Type) [Field R] [LinearOrder R] [FloorRing R] [HasDouble R] :
    List UInt8 → List NumberWord → Prop where
  | words {l : List (Nat × NumberWord)} {c : UInt8} (hl : ∀ x ∈ l, ¬x.2.Names R)
      (hc : isLineEnd c = true) : Spells R (wordsText l ++ [c]) (l.map (·.2))
  | file {l : List (Nat × NumberWord)} {e : NumberWord} {name : List UInt8} {c : UInt8}
      (before behind : Nat) (hl : ∀ x ∈ l, ¬x.2.Names R) (he : e.Names R)
      (hname : ∀ d ∈ name, IsNameChar d)
      (hfirst : ∀ d ∈ name.head?, isFieldEnd (uppercase d) = true)
      (hc : isLineEnd c = true) :
      Spells R
        (wordsText l ++ (List.replicate before 32 ++ (e.text ++
          (List.replicate behind 32 ++ (name ++ [c])))))
        (l.map (·.2) ++ [e])
  | checkedFile {l : List (Nat × NumberWord)} {e star : NumberWord} {name : List UInt8}
      {c : UInt8} (before behind : Nat) (hl : ∀ x ∈ l, ¬x.2.Names R) (he : e.Names R)
      (hname : ∀ d ∈ name, IsNameChar d)
      (hfirst : ∀ d ∈ name.head?, isFieldEnd (uppercase d) = true)
      (hstar : star.word = .checksum) (hc : isLineEnd c = true) :
      Spells R
        (wordsText l ++ (List.replicate before 32 ++ (e.text ++
          (List.replicate behind 32 ++ (name ++ (star.text ++ [c]))))))
        (l.map (·.2) ++ [e, star])

/-- A line of words with blanks between them. -/
theorem lineOf_spells {blanks : List Nat} {ws : List NumberWord} {c : UInt8}
    (hlen : blanks.length = ws.length) (hnames : ∀ e ∈ ws, ¬e.Names R)
    (hc : isLineEnd c = true) : Spells R (lineOf blanks ws c) ws := by
  have hmap : (blanks.zip ws).map (·.2) = ws := List.map_snd_zip hlen.ge
  have h := Spells.words (R := R) (l := blanks.zip ws)
    (fun x hx => hnames _ (hmap ▸ List.mem_map_of_mem hx)) hc
  rwa [hmap] at h

section Lines

theorem store_names {t : GcodeCommand R} {e : NumberWord} (he : e.Names R) :
    (e.store t).gettingString = true ∧
      (e.store t).seenSemiComment = t.seenSemiComment ∧
      (e.store t).seenParensComment = t.seenParensComment := by
  obtain ⟨hword, hnumber⟩ := he
  unfold NumberWord.store
  rw [hword]
  exact ⟨if_pos hnumber, rfl, rfl⟩

/-- The words of a line up to the file name. -/
theorem naming_file {l : List (Nat × NumberWord)} (hl : ∀ x ∈ l, ¬x.2.Names R)
    {e : NumberWord} (he : e.Names R) {name : List UInt8}
    (hname : ∀ d ∈ name, IsNameChar d)
    (hfirst : ∀ d ∈ name.head?, isFieldEnd (uppercase d) = true) (h : AtWord p)
    (before behind : Nat) :
    Naming (e.store ((l.map (·.2)).foldl NumberWord.store (committed p)))
      (scanLine p (wordsText l ++ (List.replicate before 32 ++ (e.text ++
        (List.replicate behind 32 ++ name))))) := by
  obtain ⟨hend, hfold⟩ := h.words hl
  rw [scanLine_append, ← hfold]
  generalize scanLine p (wordsText l) = q at hend ⊢
  obtain ⟨k, hk⟩ := hend.read e
  obtain ⟨hgetting, hsemi, hparens⟩ := store_names (t := committed q) he
  rw [scanLine_append, scanLine_blanks hend.plain, scanLine_append, hk, scanLine_append,
    scanLine_blanks (by exact hend.committed.seeWord e.word)]
  have hword : Naming (e.store (committed q))
      ({ nextTarget := seeWord e.word (committed q)
         lastField := some e.word
         sign := e.number.neg
         exponent := k
         value := e.number.register R } : Parser R) :=
    ⟨hgetting, hsemi.trans hend.committed.semi, hparens.trans hend.committed.parens,
      ⟨(e.store (committed q)).filename, (e.store (committed q)).chpos, rfl⟩, rfl⟩
  cases name with
  | nil => exact hword
  | cons c name =>
      obtain ⟨hnext, hnone⟩ := hword.char (.inl (hfirst c rfl))
        (hname c List.mem_cons_self)
      rw [scanLine_cons]
      exact hnext.chars (fun d hd => hname d (List.mem_cons_of_mem _ hd)) hnone

theorem named_atWord {t : GcodeCommand R} (hsemi : t.seenSemiComment = false)
    (hparens : t.seenParensComment = false) (name : List UInt8) (pos : Nat) :
    AtWord (named t name pos) :=
  ⟨⟨hsemi, hparens, rfl⟩, ⟨hsemi, hparens, rfl⟩, rfl⟩

theorem letter_star {c : UInt8} (h : wordOf (uppercase c) = some .checksum) : c = 42 := by
  have hall : ∀ c : UInt8, wordOf (uppercase c) = some .checksum → c = 42 :=
    forall_byte (by decide +kernel)
  exact hall c h

/-- The command that a line spells, with the file name it may have. -/
theorem Spells.scanLine {data : List UInt8} {ws : List NumberWord}
    (hdata : Spells R data ws) (h : AtWord p) :
    ∃ name pos, NumberWords.scanLine p data =
      named (ws.foldl NumberWord.store (committed p)) name pos := by
  cases hdata with
  | @words l c hl hc =>
      obtain ⟨hend, hfold⟩ := h.words hl
      have hplain := hend.committed
      rw [hfold] at hplain
      rw [scanLine_append]
      show ∃ name pos, scan (NumberWords.scanLine p (wordsText l)) c = _
      rw [scan_lineEnd hend.committed hc, hend.clear, hfold]
      generalize List.foldl NumberWord.store (committed p) (l.map (·.2)) = t at hplain
      refine ⟨t.filename, t.chpos, ?_⟩
      unfold named
      rw [← hplain.name]
  | @file l e name c before behind hl he hname hfirst hc =>
      have hnaming := naming_file hl he hname hfirst h before behind
      rw [List.foldl_append, List.foldl_cons, List.foldl_nil]
      generalize e.store (List.foldl NumberWord.store (committed p) (l.map (·.2))) = t at hnaming
      have hcases : c = 10 ∨ c = 13 ∨ c = 42 := by
        have h : c = 10 ∨ c = 13 := by simpa [isLineEnd] using hc
        tauto
      obtain ⟨name', pos', hstop⟩ := hnaming.stop hcases
      have hat := named_atWord hnaming.semi hnaming.parens name' pos'
      refine ⟨name', pos', ?_⟩
      have hsplit : wordsText l ++ (List.replicate before 32 ++ (e.text ++
          (List.replicate behind 32 ++ (name ++ [c])))) =
          (wordsText l ++ (List.replicate before 32 ++ (e.text ++
            (List.replicate behind 32 ++ name)))) ++ [c] := by
        simp only [List.append_assoc]
      rw [hsplit, scanLine_append]
      show scan (NumberWords.scanLine p _) c = _
      rw [hstop, scan_lineEnd hat.committed hc]
      rfl
  | @checkedFile l e star name c before behind hl he hname hfirst hstar hc =>
      have hnaming := naming_file hl he hname hfirst h before behind
      rw [List.foldl_append, List.foldl_cons, List.foldl_cons, List.foldl_nil]
      generalize e.store (List.foldl NumberWord.store (committed p) (l.map (·.2))) = t at hnaming
      have hletter : star.letter = 42 := letter_star (hstar ▸ star.is_word)
      obtain ⟨name', pos', hstop⟩ := hnaming.stop (c := star.letter)
        (.inr (.inr hletter))
      have hat := named_atWord hnaming.semi hnaming.parens name' pos'
      have hno : ¬star.Names R := fun hn => absurd (hstar.symm.trans hn.1) (by decide)
      obtain ⟨hend, hstore, -⟩ := hat.word hno
      refine ⟨name', pos', ?_⟩
      have hsplit : wordsText l ++ (List.replicate before 32 ++ (e.text ++
          (List.replicate behind 32 ++ (name ++ (star.text ++ [c]))))) =
          (wordsText l ++ (List.replicate before 32 ++ (e.text ++
            (List.replicate behind 32 ++ name)))) ++ (star.text ++ [c]) := by
        simp only [List.append_assoc]
      rw [hsplit, scanLine_append, scanLine_append]
      have htext : NumberWords.scanLine (NumberWords.scanLine p (wordsText l ++
          (List.replicate before 32 ++ (e.text ++ (List.replicate behind 32 ++ name)))))
          star.text = NumberWords.scanLine (named t name' pos') star.text :=
        congrArg (fun q => NumberWords.scanLine q star.number.text) hstop
      rw [htext]
      show scan (NumberWords.scanLine (named t name' pos') star.text) c = _
      rw [scan_lineEnd hend.committed hc, hend.clear, hstore]
      show (⟨star.store { t with
        filename := name', chpos := pos', gettingString := false }, none, false, 0, 0⟩ :
          Parser R) = _
      unfold NumberWord.store named
      rw [hstar]
      rfl

end Lines

/-! ## Numbers -/

/-- An integer that was written is the one that is used. -/
def Kept (used : Int) (written : R) : Prop := ∀ z : Int, written = z → used = z

/-- An integer that was written lies in a range. -/
def Within (lo hi : Int) (written : R) : Prop :=
  ∀ z : Int, written = z → lo ≤ z ∧ z ≤ hi

section Conversions

variable [IsStrictOrderedRing R] {v w : R}

/-- A number `w` that is read as `v`, where they are the same if it fits. -/
theorem kept_unsigned {m : Int} (hm : 0 < m)
    (hread : ∀ z : Int, 0 ≤ z → z ≤ m - 1 → w = z → v = z) :
    Kept (wrapUnsigned m (truncate v)) w ↔ Within 0 (m - 1) w := by
  refine forall_congr' fun z => ?_
  constructor
  · intro h hz
    have hkept := h hz
    have hlo := Int.emod_nonneg (truncate v) hm.ne'
    have hhi := Int.emod_lt_of_pos (truncate v) hm
    unfold wrapUnsigned at hkept
    omega
  · intro h hz
    obtain ⟨hlo, hhi⟩ := h hz
    rw [hread z hlo hhi hz, truncate_intCast, wrapUnsigned_of_range hlo (by omega)]

@[inherit_doc kept_unsigned]
theorem kept_int16 (hread : ∀ z : Int, -32768 ≤ z → z ≤ 32767 → w = z → v = z) :
    Kept (int16 (truncate v)) w ↔ Within (-32768) 32767 w := by
  refine forall_congr' fun z => ?_
  constructor
  · intro h hz
    have hkept := h hz
    unfold int16 wrapSigned at hkept
    omega
  · intro h hz
    obtain ⟨hlo, hhi⟩ := h hz
    rw [hread z hlo hhi hz, truncate_intCast]
    exact wrapSigned_of_range (by omega) (by omega)

/-- A number that is an integer of the range is within it. -/
theorem within_of {lo hi n : Int} (h : w = n) (hrange : lo ≤ n ∧ n ≤ hi) :
    Within lo hi w := by
  intro z hz
  obtain rfl : n = z := by exact_mod_cast h.symm.trans hz
  exact hrange

/-- A handler is found only for its own code exactly if the number written fits, or what
is stored is no code at all. -/
theorem code_kept {C : Type} {table : List (Int × C)} {m : Int}
    (htable : ∀ x ∈ table, 0 ≤ x.1 ∧ x.1 ≤ m - 1)
    (hread : ∀ z : Int, 0 ≤ z → z ≤ m - 1 → w = z → v = z) :
    (∀ code, table.lookup (wrapUnsigned m (truncate v)) = some code →
        ∃ n : Int, (n, code) ∈ table ∧ w = n) ↔
      table.lookup (wrapUnsigned m (truncate v)) = none ∨
        ∃ n : Int, w = n ∧ 0 ≤ n ∧ n ≤ m - 1 := by
  constructor
  · intro h
    cases hlookup : table.lookup (wrapUnsigned m (truncate v)) with
    | none => exact .inl rfl
    | some code =>
        obtain ⟨n, hmem, hw⟩ := h code hlookup
        exact .inr ⟨n, hw, htable _ hmem⟩
  · rintro (hnone | ⟨n, hw, hlo, hhi⟩) code hlookup
    · rw [hnone] at hlookup
      exact absurd hlookup (by simp)
    · refine ⟨n, ?_, hw⟩
      rw [hread n hlo hhi hw, truncate_intCast, wrapUnsigned_of_range hlo (by omega)]
        at hlookup
      obtain ⟨l, r, hsplit, -⟩ := List.lookup_eq_some_iff.1 hlookup
      rw [hsplit]
      exact List.mem_append_right _ List.mem_cons_self

variable [LawfulDouble R]

/-- A number of a field of 16 bits. -/
theorem read_field (d : Decimal) {lo hi : Int} (hlo : -65535 ≤ lo) (hhi : hi ≤ 65535) :
    ∀ z : Int, lo ≤ z → z ≤ hi → d.number R = z → d.read R = z :=
  fun z hz hz' hnumber => read_integer (abs_le.2 ⟨by omega, by omega⟩) hnumber

/-- The thousandths are in range, and the roundings of the digits and of the product
take them neither below their number nor to the next one. -/
def Scales (R : Type) [Field R] [LinearOrder R] [FloorRing R] [HasDouble R]
    (d : Decimal) : Prop :=
  ∀ z : Int, d.number R * 1000 = z →
    (0 ≤ z ∧ z ≤ 65535) ∧
      (z : R) ≤ toDouble (d.read R * 1000) ∧ toDouble (d.read R * 1000) < z + 1

/-- The whole part of a number that is not negative. -/
theorem truncate_between {x : R} {a b : Nat} (h : (a : R) ≤ x) (h' : x < b) :
    (a : Int) ≤ truncate x ∧ truncate x < b := by
  have hpos : 0 ≤ x := (Nat.cast_nonneg a).trans h
  rw [truncate, if_pos hpos, Int.le_floor, Int.floor_lt, Int.cast_natCast, Int.cast_natCast]
  exact ⟨h, h'⟩

theorem truncate_eq_iff {x : R} {z : Int} (h : 0 ≤ x) :
    truncate x = z ↔ (z : R) ≤ x ∧ x < z + 1 := by
  rw [truncate, if_pos h, Int.floor_eq_iff]

/-- Whole seconds are scaled, as long as their thousandths fit. -/
theorem scales_integer {d : Decimal} {n : Nat} (h : d.number R = n) (hn : n ≤ 65) :
    Scales R d := by
  have hread : d.read R = n :=
    (read_integer (z := n) (abs_le.2 ⟨by omega, by omega⟩)
      (h.trans (Int.cast_natCast n).symm)).trans (Int.cast_natCast n)
  have hproduct := toDouble_natCast (R := R) (n := n * 1000) (by omega)
  push_cast at hproduct
  intro z hz
  have hvalue : ((n * 1000 : Nat) : R) = z := by
    push_cast
    rw [← hz, h]
  obtain rfl : ((n * 1000 : Nat) : Int) = z := by exact_mod_cast hvalue
  rw [hread, hproduct]
  refine ⟨⟨by omega, by omega⟩, ?_, ?_⟩
  · push_cast
    exact le_rfl
  · push_cast
    linarith

/-- A time in seconds that is stored as one in milliseconds. -/
theorem kept_scaled (d : Decimal) :
    Kept (uint16 (truncate (toDouble (d.read R * 1000)))) (d.number R * 1000) ↔
      Scales R d := by
  refine forall_congr' fun z => ?_
  constructor
  · intro h hz
    have hkept := h hz
    have hrange : 0 ≤ z ∧ z ≤ 65535 := by
      unfold uint16 wrapUnsigned at hkept
      omega
    obtain ⟨n, rfl⟩ := Int.eq_ofNat_of_zero_le hrange.1
    -- what is stored is within two seconds of the time, so it has not wrapped
    obtain ⟨hlo, hhi, -⟩ := read_thousandths (R := R) (d := d) (z := n) (by omega)
      (hz.trans (Int.cast_natCast n))
    obtain ⟨k, hk⟩ : ∃ k, k = n / 1000 := ⟨_, rfl⟩
    rw [← hk] at hlo hhi
    have hleast := toDouble_natCast (R := R) (n := k * 1000) (by omega)
    have hmost := toDouble_natCast (R := R) (n := (k + 2) * 1000) (by omega)
    push_cast at hleast hmost
    have hproduct := le_toDouble hleast
      (show (k : R) * 1000 ≤ d.read R * 1000 by gcongr)
    have hproduct' := toDouble_le hmost
      (show d.read R * 1000 ≤ ((k : R) + 2) * 1000 by gcongr)
    have hbetween := truncate_between (x := toDouble (d.read R * 1000)) (a := k * 1000)
      (b := (k + 2) * 1000 + 1) (by push_cast; exact hproduct) (by push_cast; linarith)
    refine ⟨hrange, (truncate_eq_iff ((by positivity : (0 : R) ≤ k * 1000).trans
      hproduct)).1 ?_⟩
    unfold uint16 wrapUnsigned at hkept
    omega
  · intro h hz
    obtain ⟨⟨hlo, hhi⟩, hbelow, habove⟩ := h hz
    have hpos : 0 ≤ toDouble (d.read R * 1000) :=
      (by exact_mod_cast hlo : (0 : R) ≤ z).trans hbelow
    rw [(truncate_eq_iff hpos).2 ⟨hbelow, habove⟩, uint16,
      wrapUnsigned_of_range hlo (by omega)]

/-- A time in seconds that is stored as it is. -/
theorem kept_unscaled (d : Decimal) :
    Kept (uint16 (truncate (d.read R))) (d.number R * 1000) ↔
      Within 0 0 (d.number R * 1000) := by
  refine forall_congr' fun z => ?_
  constructor
  · intro h hz
    have hkept := h hz
    have hrange : 0 ≤ z ∧ z ≤ 65535 := by
      unfold uint16 wrapUnsigned at hkept
      omega
    obtain ⟨n, rfl⟩ := Int.eq_ofNat_of_zero_le hrange.1
    obtain ⟨hlo, hhi, hsmall⟩ := read_thousandths (R := R) (d := d) (z := n) (by omega)
      (hz.trans (Int.cast_natCast n))
    obtain ⟨k, hk⟩ : ∃ k, k = n / 1000 := ⟨_, rfl⟩
    rw [← hk] at hlo hhi
    have hbetween := truncate_between (b := k + 2) hlo (by push_cast; exact hhi)
    rw [uint16, wrapUnsigned_of_range (by omega) (by omega)] at hkept
    -- so it is at most two thousandths, and of so few nothing is left
    have hone := truncate_between (b := 1) hlo
      (by rw [Nat.cast_one]; exact hsmall (by omega))
    omega
  · intro h hz
    have hzero : z = 0 := le_antisymm (h hz).2 (h hz).1
    have hnumber : d.number R = ((0 : Int) : R) := by
      rw [hzero, Int.cast_zero] at hz
      rw [Int.cast_zero]
      linarith
    rw [read_integer (by decide) hnumber, truncate_intCast, hzero]
    decide

end Conversions

/-! ## The command of a line -/

theorem gcodes_range : ∀ x ∈ gcodes, 0 ≤ x.1 ∧ x.1 ≤ 256 - 1 := by decide

theorem mcodes_range : ∀ x ∈ mcodes, 0 ≤ x.1 ∧ x.1 ≤ 65536 - 1 := by decide

theorem gcodeOf_four : ∀ g : Int, gcodeOf g = some .g4 → g = 4 := by
  intro g hg
  obtain ⟨l, r, hsplit, -⟩ := List.lookup_eq_some_iff.1 hg
  have hmem : (g, GCode.g4) ∈ gcodes := by
    rw [hsplit]
    exact List.mem_append_right _ List.mem_cons_self
  have hall : ∀ x ∈ gcodes, x.2 = .g4 → x.1 = 4 := by decide
  exact hall _ hmem rfl

/-- The numbers that the handlers use are those that were written. -/
structure NumbersKept (ws : List NumberWord) (c : GcodeCommand R) : Prop where
  g : ∀ code, commandOf c = .g code →
    ∃ e ∈ ws, e.word = .g ∧ ∃ n : Int, (n, code) ∈ gcodes ∧ e.number.number R = n
  m : ∀ code, commandOf c = .m code →
    ∃ e ∈ ws, e.word = .m ∧ ∃ n : Int, (n, code) ∈ mcodes ∧ e.number.number R = n
  s : ∀ e ∈ ws, e.word = .s → Kept c.s (e.number.number R)
  p : ∀ e ∈ ws, e.word = .p →
    Kept c.p (if commandOf c = .g .g4 then e.number.number R * 1000
      else e.number.number R)

/-- The numbers fit into their fields: a G or M number is an integer that fits, or
is not taken for a code, and the time of a `G4` is given behind it. -/
structure NumbersFit (R : Type) [Field R] [LinearOrder R] [FloorRing R] [HasDouble R]
    (ws : List NumberWord) : Prop where
  g : ∀ e ∈ ws, e.word = .g →
    gcodeOf (uint8 (truncate (e.number.read R))) = none ∨
      ∃ n : Int, e.number.number R = n ∧ 0 ≤ n ∧ n ≤ 255
  m : ∀ e ∈ ws, e.word = .m →
    mcodeOf (uint16 (truncate (e.number.read R))) = none ∨
      ∃ n : Int, e.number.number R = n ∧ 0 ≤ n ∧ n ≤ 65535
  s : ∀ e ∈ ws, e.word = .s → Within (-32768) 32767 (e.number.number R)
  p : ∀ pre e post, ws = pre ++ e :: post → e.word = .p →
    ((∃ e' ∈ pre, Dwells R e') → Scales R e.number) ∧
      ((∃ e' ∈ post, Dwells R e') → Within 0 0 (e.number.number R * 1000)) ∧
      ((¬∃ e' ∈ ws, Dwells R e') → Within 0 65535 (e.number.number R))

section Command

variable {ws : List NumberWord} {t c : GcodeCommand R}

/-- A command with the words of a line stored in it. -/
structure Stored (ws : List NumberWord) (t c : GcodeCommand R) : Prop where
  one : OneCommand ws
  unseen : ∀ w, seen w t = false
  g_zero : t.g = 0
  seen_eq : ∀ w, seen w c = seen w (ws.foldl NumberWord.store t)
  value_eq : ∀ w, valueOf w c = valueOf w (ws.foldl NumberWord.store t)

theorem Stored.value (h : Stored ws t c) {e : NumberWord} (he : e ∈ ws)
    (hu : e.word ≠ .unknown) (hp : e.word ≠ .p) :
    valueOf e.word c = valueOf e.word (storeWord e.word (e.number.read R) t) := by
  rw [h.value_eq, value_word h.one he hu hp]

theorem Stored.seen (h : Stored ws t c) {w : Word} (hw : w ≠ .unknown) :
    StaleWords.seen w c = true ↔ ∃ e ∈ ws, e.word = w := by
  rw [h.seen_eq, seen_words h.one hw (h.unseen w)]

/-- The code of a G word. -/
theorem Stored.commandOf_g (h : Stored ws t c) {e : NumberWord} (he : e ∈ ws)
    (hword : e.word = .g) (code : GCode) :
    commandOf c = .g code ↔
      gcodeOf (uint8 (truncate (e.number.read R))) = some code := by
  have hseen : c.seenG = true := (h.seen (w := .g) (by decide)).2 ⟨e, he, hword⟩
  have hvalue := h.value he (by simp [hword]) (by simp [hword])
  rw [hword] at hvalue
  have hg : c.g = uint8 (truncate (e.number.read R)) := Sum.inl.inj hvalue
  rw [commandOf, if_pos hseen, hg]
  cases gcodeOf (uint8 (truncate (e.number.read R))) with
  | none => simp
  | some code' => simp

/-- The command of a line with an M word is the one whose code is stored. -/
theorem Stored.commandOf_m (h : Stored ws t c) {e : NumberWord} (he : e ∈ ws)
    (hword : e.word = .m) (code : MCode) :
    commandOf c = .m code ↔
      mcodeOf (uint16 (truncate (e.number.read R))) = some code := by
  have hseen : c.seenM = true := (h.seen (w := .m) (by decide)).2 ⟨e, he, hword⟩
  have hunseen : ¬c.seenG = true := by
    intro hG
    obtain ⟨e', he', hword'⟩ := (h.seen (w := .g) (by decide)).1 hG
    exact h.one.single e' he' hword' e he hword
  have hvalue := h.value he (by simp [hword]) (by simp [hword])
  rw [hword] at hvalue
  have hm : c.m = uint16 (truncate (e.number.read R)) := Sum.inl.inj hvalue
  rw [commandOf, if_neg hunseen, if_pos hseen, hm]
  cases mcodeOf (uint16 (truncate (e.number.read R))) with
  | none => simp
  | some code' => simp

/-- A line has a command only if one of its words is a G or an M. -/
theorem Stored.of_command (h : Stored ws t c) :
    (∀ code, commandOf c = .g code → ∃ e ∈ ws, e.word = .g) ∧
      ∀ code, commandOf c = .m code → ∃ e ∈ ws, e.word = .m := by
  constructor
  · intro code hcommand
    refine (h.seen (w := .g) (by decide)).1 ?_
    show c.seenG = true
    by_contra hunseen
    rw [commandOf, if_neg hunseen] at hcommand
    split at hcommand
    · split at hcommand <;> exact absurd hcommand (by simp)
    · exact absurd hcommand (by simp)
  · intro code hcommand
    refine (h.seen (w := .m) (by decide)).1 ?_
    show c.seenM = true
    by_contra hunseen
    rw [commandOf] at hcommand
    split at hcommand
    · split at hcommand <;> exact absurd hcommand (by simp)
    · exact absurd hcommand (by simp)

theorem Stored.dwells (h : Stored ws t c) :
    commandOf c = .g .g4 ↔ ∃ e ∈ ws, Dwells R e := by
  constructor
  · intro hcommand
    obtain ⟨e, he, hword⟩ := h.of_command.1 _ hcommand
    exact ⟨e, he, hword, gcodeOf_four _ ((h.commandOf_g he hword _).1 hcommand)⟩
  · rintro ⟨e, he, hword, hfour⟩
    rw [h.commandOf_g he hword, hfour]
    rfl

variable [IsStrictOrderedRing R] [LawfulDouble R]

/-- The handler of a G code runs for its own number only, exactly if the G numbers fit
or are no codes as they are stored. -/
theorem Stored.kept_g (h : Stored ws t c) :
    (∀ code, commandOf c = .g code → ∃ e ∈ ws, e.word = .g ∧
        ∃ n : Int, (n, code) ∈ gcodes ∧ e.number.number R = n) ↔
      ∀ e ∈ ws, e.word = .g →
        gcodeOf (uint8 (truncate (e.number.read R))) = none ∨
          ∃ n : Int, e.number.number R = n ∧ 0 ≤ n ∧ n ≤ 255 := by
  constructor
  · intro hkept e he hword
    refine (code_kept gcodes_range
      (read_field e.number (by decide) (by decide))).1 fun code hcode => ?_
    obtain ⟨e', he', hword', n, hmem, hn⟩ :=
      hkept code ((h.commandOf_g he hword code).2 hcode)
    rw [h.one.unique he he' (by simp [hword]) (hword.trans hword'.symm)]
    exact ⟨n, hmem, hn⟩
  · intro hfit code hcommand
    obtain ⟨e, he, hword⟩ := h.of_command.1 code hcommand
    obtain ⟨n, hmem, hn⟩ := (code_kept gcodes_range
      (read_field e.number (by decide) (by decide))).2
      (hfit e he hword) code ((h.commandOf_g he hword code).1 hcommand)
    exact ⟨e, he, hword, n, hmem, hn⟩

/-- The handler of an M code runs for its own number only, exactly if the M numbers fit
or are no codes as they are stored. -/
theorem Stored.kept_m (h : Stored ws t c) :
    (∀ code, commandOf c = .m code → ∃ e ∈ ws, e.word = .m ∧
        ∃ n : Int, (n, code) ∈ mcodes ∧ e.number.number R = n) ↔
      ∀ e ∈ ws, e.word = .m →
        mcodeOf (uint16 (truncate (e.number.read R))) = none ∨
          ∃ n : Int, e.number.number R = n ∧ 0 ≤ n ∧ n ≤ 65535 := by
  constructor
  · intro hkept e he hword
    refine (code_kept mcodes_range
      (read_field e.number (by decide) (by decide))).1 fun code hcode => ?_
    obtain ⟨e', he', hword', n, hmem, hn⟩ :=
      hkept code ((h.commandOf_m he hword code).2 hcode)
    rw [h.one.unique he he' (by simp [hword]) (hword.trans hword'.symm)]
    exact ⟨n, hmem, hn⟩
  · intro hfit code hcommand
    obtain ⟨e, he, hword⟩ := h.of_command.2 code hcommand
    obtain ⟨n, hmem, hn⟩ := (code_kept mcodes_range
      (read_field e.number (by decide) (by decide))).2
      (hfit e he hword) code ((h.commandOf_m he hword code).1 hcommand)
    exact ⟨e, he, hword, n, hmem, hn⟩

/-- The number of an S word or a checksum. -/
theorem Stored.kept_s (h : Stored ws t c) {e : NumberWord} (he : e ∈ ws)
    (hword : e.word = .s) :
    Kept c.s (e.number.number R) ↔ Within (-32768) 32767 (e.number.number R) := by
  have hvalue := h.value he (by simp [hword]) (by simp [hword])
  rw [hword] at hvalue
  have hs : c.s = int16 (truncate (e.number.read R)) := Sum.inl.inj hvalue
  rw [hs]
  exact kept_int16 (read_field e.number (by decide) (by decide))

@[inherit_doc Stored.kept_s]
theorem Stored.kept_checksum (h : Stored ws t c) {e : NumberWord} (he : e ∈ ws)
    (hword : e.word = .checksum) :
    Kept c.checksumRead (e.number.number R) ↔ Within 0 255 (e.number.number R) := by
  have hvalue := h.value he (by simp [hword]) (by simp [hword])
  rw [hword] at hvalue
  have hread : c.checksumRead = uint8 (truncate (e.number.read R)) :=
    Sum.inl.inj hvalue
  rw [hread]
  exact kept_unsigned (by decide) (read_field e.number (by decide) (by decide))

/-- The `G4` of a line stands in front of the P word or behind it. -/
theorem dwells_split {pre post : List NumberWord} {e : NumberWord}
    (hsplit : ws = pre ++ e :: post) (hword : e.word = .p) :
    (∃ e' ∈ ws, Dwells R e') ↔ (∃ e' ∈ pre, Dwells R e') ∨ ∃ e' ∈ post, Dwells R e' := by
  rw [hsplit]
  constructor
  · rintro ⟨e', he', hdwells⟩
    rcases List.mem_append.1 he' with hmem | hmem
    · exact .inl ⟨e', hmem, hdwells⟩
    · rcases List.mem_cons.1 hmem with rfl | hmem
      · exact absurd (hword.symm.trans hdwells.1) (by decide)
      · exact .inr ⟨e', hmem, hdwells⟩
  · rintro (⟨e', hmem, hdwells⟩ | ⟨e', hmem, hdwells⟩)
    · exact ⟨e', List.mem_append_left _ hmem, hdwells⟩
    · exact ⟨e', List.mem_append_right _ (List.mem_cons_of_mem _ hmem), hdwells⟩

/-- A line with a `G4` in front of the P word has none behind it. -/
theorem Stored.dwells_once (h : Stored ws t c) {pre post : List NumberWord}
    {e : NumberWord} (hsplit : ws = pre ++ e :: post) (hpre : ∃ e' ∈ pre, Dwells R e') :
    ¬∃ e' ∈ post, Dwells R e' := by
  obtain ⟨e₁, h₁, hd₁⟩ := hpre
  rintro ⟨e₂, h₂, hd₂⟩
  have hdistinct := h.one.distinct
  rw [hsplit, List.pairwise_append] at hdistinct
  have hunknown := hdistinct.2.2 e₁ h₁ e₂ (List.mem_cons_of_mem _ h₂)
    (hd₁.1.trans hd₂.1.symm)
  exact absurd (hd₁.1.symm.trans hunknown) (by decide)

/-- An integer behind P is used as written exactly if it fits; which field it has to fit
depends on whether the line has a `G4`, and where. -/
theorem Stored.kept_p (h : Stored ws t c) {pre post : List NumberWord} {e : NumberWord}
    (hsplit : ws = pre ++ e :: post) (hword : e.word = .p) :
    Kept c.p (if commandOf c = .g .g4 then e.number.number R * 1000
        else e.number.number R) ↔
      ((∃ e' ∈ pre, Dwells R e') → Scales R e.number) ∧
        ((∃ e' ∈ post, Dwells R e') → Within 0 0 (e.number.number R * 1000)) ∧
        ((¬∃ e' ∈ ws, Dwells R e') → Within 0 65535 (e.number.number R)) := by
  have hp : c.p = (ws.foldl NumberWord.store t).p := Sum.inl.inj (h.value_eq .p)
  have hall := dwells_split (R := R) hsplit hword
  rcases dwell_word (R := R) h.one hsplit hword h.g_zero with
    ⟨hpre, hvalue⟩ | ⟨hpre, hvalue⟩
  · rw [if_pos (h.dwells.2 (hall.2 (.inl hpre))), hp, hvalue, kept_scaled]
    constructor
    · exact fun hscales => ⟨fun _ => hscales,
        fun hpost => absurd hpost (h.dwells_once hsplit hpre),
        fun hno => absurd (hall.2 (.inl hpre)) hno⟩
    · exact fun hfit => hfit.1 hpre
  · by_cases hpost : ∃ e' ∈ post, Dwells R e'
    · rw [if_pos (h.dwells.2 (hall.2 (.inr hpost))), hp, hvalue, kept_unscaled]
      constructor
      · exact fun hwithin => ⟨fun hdwells => absurd hdwells hpre, fun _ => hwithin,
          fun hno => absurd (hall.2 (.inr hpost)) hno⟩
      · exact fun hfit => hfit.2.1 hpost
    · have hnone : ¬∃ e' ∈ ws, Dwells R e' := fun hdwells =>
        (hall.1 hdwells).elim hpre hpost
      rw [if_neg fun hcommand => hnone (h.dwells.1 hcommand), hp, hvalue, uint16,
        kept_unsigned (by decide) (read_field e.number (by decide) (by decide))]
      constructor
      · exact fun hwithin => ⟨fun hdwells => absurd hdwells hpre,
          fun hdwells => absurd hdwells hpost, fun _ => hwithin⟩
      · exact fun hfit => hfit.2.2 hnone

/-- The handlers get the numbers that were written exactly if these fit. -/
theorem Stored.kept_iff (h : Stored ws t c) :
    NumbersKept ws c ↔ NumbersFit R ws := by
  constructor
  · intro hkept
    refine ⟨h.kept_g.1 hkept.g, h.kept_m.1 hkept.m,
      fun e he hword => (h.kept_s he hword).1 (hkept.s e he hword),
      fun pre e post hsplit hword => (h.kept_p hsplit hword).1 (hkept.p e ?_ hword)⟩
    rw [hsplit]
    exact List.mem_append_right _ List.mem_cons_self
  · intro hfit
    refine ⟨h.kept_g.2 hfit.g, h.kept_m.2 hfit.m,
      fun e he hword => (h.kept_s he hword).2 (hfit.s e he hword),
      fun e he hword => ?_⟩
    obtain ⟨pre, post, hsplit⟩ := List.append_of_mem he
    exact (h.kept_p hsplit hword).2 (hfit.p pre e post hsplit hword)

end Command

section Sessions

variable [HasSqrt R] [IsStrictOrderedRing R] [LawfulDouble R] {P : Platform σ}
  {s : Session R σ} {data : List UInt8} {ws : List NumberWord}

theorem Spells.stored (hdata : Spells R data ws) (hone : OneCommand ws)
    (h : Rested s.parser) (hclosed : s.parser.nextTarget.gettingString = false) :
    Stored ws s.parser.nextTarget (parsed s data) := by
  obtain ⟨hat, hcommitted⟩ := rested_atWord h hclosed
  obtain ⟨name, pos, hscan⟩ := hdata.scanLine hat
  obtain ⟨k, hk⟩ := parseChars_scan s.parser data
  have hparsed : parsed s data =
      { ws.foldl NumberWord.store s.parser.nextTarget with
        filename := name
        chpos := pos
        gettingString := false
        checksumCalculated := k } := by
    rw [parsed, hk, hscan, hcommitted]
    rfl
  refine ⟨hone, rested_unseen h, rested_g h, fun w => ?_, fun w => ?_⟩
  · rw [hparsed]
    cases w <;> rfl
  · rw [hparsed]
    cases w <;> rfl

/-- The handlers of a line get the numbers that were written, and its checksum is
the one that was written, exactly if the line is not executed or its numbers fit, and
the checksum fits. -/
theorem numbers_kept_iff (hs : Reachable P s)
    (hclosed : s.parser.nextTarget.gettingString = false) (hdata : Spells R data ws)
    (hone : OneCommand ws) :
    ((Processes s data → NumbersKept ws (parsed s data)) ∧
        ∀ e ∈ ws, e.word = .checksum →
          Kept (parsed s data).checksumRead (e.number.number R)) ↔
      (Processes s data → NumbersFit R ws) ∧
        ∀ e ∈ ws, e.word = .checksum → Within 0 255 (e.number.number R) := by
  have hstored := hdata.stored hone (reachable_rested hs) hclosed
  refine and_congr (imp_congr_right fun _ => hstored.kept_iff) ?_
  exact forall₃_congr fun e he hword => hstored.kept_checksum he hword

end Sessions

/-! ## Some lines -/

section Lines

attribute [local instance] binary64 binary64_lawful

/-- A word with a number of three digits. -/
def threeDigits (letter : UInt8) (w : Word) (h : wordOf (uppercase letter) = some w)
    (a b c : Fin 10) : NumberWord where
  letter
  word := w
  is_word := h
  number :=
    { neg := false
      whole := [digit a, digit b, digit c]
      frac := none
      whole_digits := by
        simp only [List.forall_mem_cons, List.not_mem_nil, false_implies, implies_true,
          and_true]
        exact ⟨digit_isDigit a.isLt, digit_isDigit b.isLt, digit_isDigit c.isLt⟩
      frac_digits := no_frac_digits
      nonempty := .inl (by simp) }

theorem wordOf_p : wordOf (uppercase 80) = some .p := rfl

/-- `P0.25` -/
def quarterWord : NumberWord where
  letter := 80
  word := .p
  is_word := wordOf_p
  number :=
    { neg := false
      whole := [48]
      frac := some [50, 53]
      whole_digits := zero_digits
      frac_digits := fun _ hds => Option.mem_some.1 hds ▸ by decide +kernel
      nonempty := .inl (by simp) }

/-- `M300 S440 P250*122` -/
def beepWords : List NumberWord :=
  [threeDigits 77 .m rfl 3 0 0, threeDigits 83 .s rfl 4 4 0,
    threeDigits 80 .p wordOf_p 2 5 0, threeDigits 42 .checksum rfl 1 2 2]

/-- `G4 P0.25*026` -/
def dwellWords : List NumberWord :=
  [g4Word, quarterWord, threeDigits 42 .checksum rfl 0 2 6]

theorem beepWords_fit : NumbersFit ℚ beepWords := by
  have hm : ∀ e ∈ beepWords, e.word = .m → e.number.number ℚ = 300 := by decide +kernel
  have hs : ∀ e ∈ beepWords, e.word = .s → e.number.number ℚ = (440 : Int) := by
    decide +kernel
  have hp : ∀ e ∈ beepWords, e.word = .p → e.number.number ℚ = (250 : Int) := by
    decide +kernel
  have hg : ∀ e ∈ beepWords, e.word ≠ .g := by decide
  refine ⟨fun e he hword => absurd hword (hg e he), fun e he hword => ?_,
    fun e he hword => ?_, fun pre e post hsplit hword => ?_⟩
  · exact .inr ⟨300, hm e he hword, by decide, by decide⟩
  · exact within_of (hs e he hword) (by decide)
  · have hmem : e ∈ beepWords := by
      rw [hsplit]
      exact List.mem_append_right _ List.mem_cons_self
    have hno : ∀ l : List NumberWord, l ⊆ beepWords → ¬∃ e ∈ l, Dwells ℚ e := by
      rintro l hl ⟨e', he', hword', -⟩
      exact hg e' (hl he') hword'
    refine ⟨fun h => absurd h (hno pre ?_), fun h => absurd h (hno post ?_),
      fun _ => within_of (hp e hmem hword) (by decide)⟩
    · rw [hsplit]
      exact List.subset_append_left _ _
    · rw [hsplit]
      exact fun x hx => List.mem_append_right _ (List.mem_cons_of_mem _ hx)

theorem quarterWord_scales : Scales ℚ quarterWord.number := by
  intro z hz
  have hvalue : quarterWord.number.number ℚ * 1000 = ((250 : Int) : ℚ) := by decide +kernel
  obtain rfl : (250 : Int) = z := by exact_mod_cast hvalue.symm.trans hz
  decide +kernel

theorem dwellWords_fit : NumbersFit ℚ dwellWords := by
  have hg : ∀ e ∈ dwellWords, e.word = .g → e.number.number ℚ = 4 := by decide +kernel
  have hm : ∀ e ∈ dwellWords, e.word ≠ .m ∧ e.word ≠ .s := by decide
  refine ⟨fun e he hword => .inr ⟨4, hg e he hword, by decide, by decide⟩,
    fun e he hword => absurd hword (hm e he).1, fun e he hword => absurd hword (hm e he).2,
    fun pre e post hsplit hword => ?_⟩
  -- the time stands behind the `G4`, in front of the checksum
  obtain ⟨rfl, rfl, rfl⟩ : pre = [g4Word] ∧ e = quarterWord ∧
      post = [threeDigits 42 .checksum rfl 0 2 6] := by
    unfold dwellWords at hsplit
    rcases pre with _ | ⟨a, _ | ⟨b, pre⟩⟩
    · obtain ⟨rfl, -⟩ := List.cons.inj hsplit
      exact absurd hword (by decide)
    · obtain ⟨rfl, hrest⟩ := List.cons.inj hsplit
      obtain ⟨rfl, rfl⟩ := List.cons.inj hrest
      exact ⟨rfl, rfl, rfl⟩
    · obtain ⟨-, hrest⟩ := List.cons.inj hsplit
      obtain ⟨-, hrest⟩ := List.cons.inj hrest
      have hmem : e ∈ [threeDigits 42 .checksum rfl 0 2 6] := by
        rw [hrest]
        exact List.mem_append_right _ List.mem_cons_self
      rw [List.mem_singleton.1 hmem] at hword
      exact absurd hword (by decide)
  have hbehind : ¬∃ e ∈ [threeDigits 42 .checksum rfl 0 2 6], Dwells ℚ e := by
    decide +kernel
  exact ⟨fun _ => quarterWord_scales, fun h => absurd h hbehind,
    fun h => absurd (by decide +kernel) h⟩

/-- A beep with its frequency and its time, and a wait of a quarter of a second, both
with a checksum. -/
theorem numbers_kept_checked :
    (NumbersKept beepWords (parsed defaultStart (str "M300 S440 P250*122\n")) ∧
        ∀ e ∈ beepWords, e.word = .checksum →
          Kept (parsed defaultStart (str "M300 S440 P250*122\n")).checksumRead
            (e.number.number ℚ)) ∧
      NumbersKept dwellWords (parsed defaultStart (str "G4 P0.25*026\n")) ∧
        ∀ e ∈ dwellWords, e.word = .checksum →
          Kept (parsed defaultStart (str "G4 P0.25*026\n")).checksumRead
            (e.number.number ℚ) := by
  have hbeep : str "M300 S440 P250*122\n" = lineOf [0, 1, 1, 0] beepWords 10 := by
    decide +kernel
  have hdwell : str "G4 P0.25*026\n" = lineOf [0, 1, 0] dwellWords 10 := by
    decide +kernel
  have hsum : ∀ e ∈ beepWords, e.word = .checksum → e.number.number ℚ = (122 : Int) := by
    decide +kernel
  have hsum' : ∀ e ∈ dwellWords, e.word = .checksum → e.number.number ℚ = (26 : Int) := by
    decide +kernel
  have hb := (numbers_kept_iff (P := noCard) (s := defaultStart) (reachable_init _ _) rfl
    (hbeep ▸ lineOf_spells rfl (by decide +kernel) rfl) (by decide)).2
    ⟨fun _ => beepWords_fit, fun e he hword => within_of (hsum e he hword) (by decide)⟩
  have hd := (numbers_kept_iff (P := noCard) (s := defaultStart) (reachable_init _ _) rfl
    (hdwell ▸ lineOf_spells rfl (by decide +kernel) rfl) (by decide)).2
    ⟨fun _ => dwellWords_fit, fun e he hword => within_of (hsum' e he hword) (by decide)⟩
  exact ⟨⟨hb.1 (by decide +kernel), hb.2⟩, hd.1 (by decide +kernel), hd.2⟩

/-- `G256` is run as `G0`. -/
theorem g256_runs_g0 :
    Reachable noCard defaultStart ∧
      Spells ℚ (str "G256\n") [threeDigits 71 .g rfl 2 5 6] ∧
      Processes defaultStart (str "G256\n") ∧
      commandOf (parsed defaultStart (str "G256\n")) = .g .g0 ∧
      ¬NumbersKept [threeDigits 71 .g rfl 2 5 6]
        (parsed defaultStart (str "G256\n")) := by
  have hcommand : commandOf (parsed defaultStart (str "G256\n")) = .g .g0 := by
    decide +kernel
  have hline : Spells ℚ (str "G256\n") [threeDigits 71 .g rfl 2 5 6] := by
    rw [show str "G256\n" = wordsText [(0, threeDigits 71 .g rfl 2 5 6)] ++ [10] by
      decide]
    refine .words (l := [(0, threeDigits 71 .g rfl 2 5 6)]) (fun x hx => ?_) rfl
    rw [List.mem_singleton.1 hx]
    exact fun hn => absurd (show Word.g = Word.m from hn.1) (by decide)
  refine ⟨reachable_init _ _, hline, by decide +kernel, hcommand, fun hkept => ?_⟩
  obtain ⟨e, he, -, n, hmem, hn⟩ := hkept.g _ hcommand
  rw [List.mem_singleton.1 he] at hn
  have hzero : n = 0 := by
    have hall : ∀ x ∈ gcodes, x.2 = .g0 → x.1 = 0 := by decide
    exact hall _ hmem rfl
  rw [hzero] at hn
  exact absurd hn (by decide +kernel)

example :
    commandOf (parsed defaultStart (str "M65640\n")) = .m .m104 ∧
      (parsed defaultStart (str "M104 S40000\n")).s = -25536 ∧
      (parsed defaultStart (str "M300 P65536\n")).p = 0 ∧
      (parsed defaultStart (str "G4 P0.33\n")).p = 329 := by
  decide +kernel

end Lines

end R2C2Firmware.Ports.CommandNumbers
