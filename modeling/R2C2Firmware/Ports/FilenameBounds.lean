import R2C2Firmware.Ports.ParserInvariant

/-!
# The buffer of a file name

The stores of `gcode_parse_char` to `next_target.filename`, which has 120 bytes: a
character at `chpos` and a zero behind it.  The guard is `chpos < 120`, so the zero
goes to index 120 when `chpos` is 119.

A line sets `chpos` back at its end, but not `getting_string`.  A line that starts a
name has the letter and the number of its command in front of it, which leaves room
enough; a line that goes on with the name of a line without a line end has none.

The memory is given from the start of `filename` on, and beyond its end.

## Main results

* `captures_slack`, `captures_naming` — what is left of a line.
* `captures_iff` — the lines whose stores are all in bounds.
* `filename_in_bounds` — the same for all the lines of a run.
-/

set_option linter.unusedSectionVars false

namespace R2C2Firmware.Ports.FilenameBounds

open R2C2Firmware.Verified.Number
open R2C2Firmware.Ports.Config
open R2C2Firmware.Ports.MotionPlanner
open R2C2Firmware.Ports.Sermsg
open R2C2Firmware.Ports.GcodeParse
open R2C2Firmware.Ports.Mendel
open R2C2Firmware.Ports.GcodeProcess
open R2C2Firmware.Ports.MainLoop
open R2C2Firmware.Ports.GcodeParse

variable {R σ : Type} [Field R] [LinearOrder R] [FloorRing R]

/-! ## Stores -/

/-- The character ends a file name. -/
def EndsString (c : UInt8) : Prop := c = 10 ∨ c = 13 ∨ c = 32 ∨ c = 42

instance (c : UInt8) : Decidable (EndsString c) :=
  inferInstanceAs (Decidable (_ ∨ _))

/-- The stores to `filename` for a character, in order. -/
def charStores (p : Parser R) (saveCh : UInt8) : List (Nat × UInt8) :=
  let c := uppercase saveCh
  let t := (commitField c p).nextTarget
  if t.gettingString then
    if EndsString c then []
    else if t.chpos < 120 then [(t.chpos, c), (t.chpos + 1, 0)]
    else []
  else []

/-- The memory after some stores. -/
def storeAll (m : Nat → UInt8) (stores : List (Nat × UInt8)) : Nat → UInt8 :=
  stores.foldl (fun m x => Function.update m x.1 x.2) m

/-- The file name is a string of `chpos` characters, those that the parser has. -/
structure IsString (m : Nat → UInt8) (t : GcodeCommand R) : Prop where
  terminated : m t.chpos = 0
  noNul : ∀ i < t.chpos, m i ≠ 0
  filename : t.filename = (List.range t.chpos).map m

/-- Every store for the characters is in bounds, and behind a character that is stored
there is a string. -/
def Captures : Parser R → (Nat → UInt8) → List UInt8 → Prop
  | _, _, [] => True
  | p, m, c :: line =>
      (∀ x ∈ charStores p c, x.1 < 120) ∧
        (charStores p c ≠ [] →
          IsString (storeAll m (charStores p c)) (gcodeParseChar p c).nextTarget) ∧
        Captures (gcodeParseChar p c) (storeAll m (charStores p c)) line

/-! ## One character -/

/-- What the parser knows of the file name. -/
def capture (t : GcodeCommand R) : Bool × Nat × List UInt8 :=
  (t.gettingString, t.chpos, t.filename)

theorem scanChar_capture (c : UInt8) (p : Parser R) :
    capture (scanChar c p).nextTarget = capture p.nextTarget := by
  unfold scanChar
  split
  · next w _ => cases w <;> rfl
  · split_ifs <;> rfl

theorem gcodeParseChar_capture (p : Parser R) (c : UInt8) :
    capture (gcodeParseChar p c).nextTarget =
      capture (captureString (uppercase c) (commitField (uppercase c) p).nextTarget) := by
  have hchecksum : ∀ q : Parser R,
      capture (updateChecksum c q).nextTarget = capture q.nextTarget := by
    intro q
    unfold updateChecksum
    split <;> rfl
  have hprocess : ∀ q : Parser R,
      capture (processChar (uppercase c) q).nextTarget = capture q.nextTarget := by
    intro q
    unfold processChar
    dsimp only
    split_ifs
    · exact scanChar_capture _ _
    · rfl
    · rfl
  unfold gcodeParseChar
  dsimp only
  rw [hchecksum, hprocess]

theorem captureString_capture (c : UInt8) (t : GcodeCommand R) :
    capture (captureString c t) =
      if t.gettingString then
        if EndsString c then (false, t.chpos, t.filename)
        else if t.chpos < 120 then
          (true, t.chpos + 1, t.filename.take t.chpos ++ [c])
        else (true, t.chpos, t.filename)
      else (false, t.chpos, t.filename) := by
  unfold captureString
  by_cases hgetting : t.gettingString = true
  · rw [if_pos hgetting, if_pos hgetting]
    by_cases hend : c = 10 ∨ c = 13 ∨ c = 32 ∨ c = 42
    · rw [if_pos hend, if_pos (show EndsString c from hend)]
      rfl
    · rw [if_neg hend, if_neg (show ¬EndsString c from hend)]
      split
      · rw [capture, hgetting]
      · rw [capture, hgetting]
  · rw [if_neg hgetting, if_neg hgetting, capture, Bool.eq_false_of_not_eq_true hgetting]

theorem commitField_chpos (c : UInt8) (p : Parser R) :
    (commitField c p).nextTarget.chpos = p.nextTarget.chpos ∧
      (commitField c p).nextTarget.filename = p.nextTarget.filename := by
  unfold commitField
  split
  · next w _ =>
      split
      · cases w <;> exact ⟨rfl, rfl⟩
      · exact ⟨rfl, rfl⟩
  · exact ⟨rfl, rfl⟩

theorem uppercase_ne_zero {c : UInt8} (h : c ≠ 0) : uppercase c ≠ 0 := by
  have hall : ∀ c : UInt8, uppercase c = 0 → c = 0 := forall_byte (by decide +kernel)
  exact fun hc => h (hall c hc)

theorem endsString_uppercase {c : UInt8} : EndsString (uppercase c) ↔ EndsString c := by
  have hall : ∀ c : UInt8, EndsString (uppercase c) ↔ EndsString c :=
    forall_byte (by decide +kernel)
  exact hall c

/-- The characters stored so far. -/
structure Stored (m : Nat → UInt8) (t : GcodeCommand R) : Prop where
  noNul : ∀ i < t.chpos, m i ≠ 0
  filename : t.filename.take t.chpos = (List.range t.chpos).map m

theorem stored_start {t : GcodeCommand R} (h : t.chpos = 0) (m : Nat → UInt8) :
    Stored m t := by
  constructor
  · rw [h]
    exact fun i hi => absurd hi (Nat.not_lt_zero i)
  · rw [h]
    rfl

theorem isString_of_stored {t t' : GcodeCommand R} {m : Nat → UInt8} {c : UInt8}
    (hc : c ≠ 0) (hstored : Stored m t) (hchpos : t'.chpos = t.chpos + 1)
    (hfilename : t'.filename = t.filename.take t.chpos ++ [uppercase c]) :
    IsString (storeAll m [(t.chpos, uppercase c), (t.chpos + 1, 0)]) t' := by
  have hold : ∀ i < t.chpos,
      storeAll m [(t.chpos, uppercase c), (t.chpos + 1, 0)] i = m i := by
    intro i hi
    show Function.update (Function.update m t.chpos (uppercase c)) (t.chpos + 1) 0 i = m i
    rw [Function.update_of_ne (by omega), Function.update_of_ne (by omega)]
  have hnew : storeAll m [(t.chpos, uppercase c), (t.chpos + 1, 0)] t.chpos =
      uppercase c := by
    show Function.update (Function.update m t.chpos (uppercase c)) (t.chpos + 1) 0 t.chpos = _
    rw [Function.update_of_ne (by omega), Function.update_self]
  refine ⟨?_, fun i hi => ?_, ?_⟩
  · rw [hchpos]
    exact Function.update_self _ _ _
  · rw [hchpos] at hi
    rcases Nat.lt_succ_iff_lt_or_eq.1 hi with hi | rfl
    · rw [hold i hi]
      exact hstored.noNul i hi
    · rw [hnew]
      exact uppercase_ne_zero hc
  · rw [hfilename, hchpos, List.range_succ, List.map_append, hstored.filename]
    congr 1
    · exact List.map_congr_left fun i hi => (hold i (List.mem_range.1 hi)).symm
    · rw [List.map_singleton, hnew]

/-- Behind a stored character, the characters stored so far are the string. -/
theorem IsString.stored {m : Nat → UInt8} {t : GcodeCommand R} (h : IsString m t) :
    Stored m t := by
  refine ⟨h.noNul, ?_⟩
  rw [h.filename, List.take_of_length_le (by simp)]

/-- A character is stored, or nothing is. -/
theorem charStores_cases {p : Parser R} {m : Nat → UInt8} {c : UInt8} (hc : c ≠ 0)
    (hstored : Stored m p.nextTarget) (hchpos : p.nextTarget.chpos < 120) :
    (charStores p c =
        [(p.nextTarget.chpos, uppercase c), (p.nextTarget.chpos + 1, 0)] ∧
      (gcodeParseChar p c).nextTarget.chpos = p.nextTarget.chpos + 1 ∧
      IsString (storeAll m (charStores p c)) (gcodeParseChar p c).nextTarget) ∨
    (charStores p c = [] ∧
      (gcodeParseChar p c).nextTarget.chpos = p.nextTarget.chpos ∧
      (gcodeParseChar p c).nextTarget.filename = p.nextTarget.filename) := by
  have hcapture := gcodeParseChar_capture p c
  obtain ⟨hchpos', hfilename⟩ := commitField_chpos (uppercase c) p
  unfold charStores
  dsimp only
  rw [captureString_capture, hchpos', hfilename] at hcapture
  rw [hchpos']
  by_cases hgetting : (commitField (uppercase c) p).nextTarget.gettingString = true
  · rw [if_pos hgetting] at hcapture ⊢
    by_cases hend : EndsString (uppercase c)
    · rw [if_pos hend] at hcapture ⊢
      exact .inr ⟨rfl, congrArg (fun x => x.2.1) hcapture,
        congrArg (fun x => x.2.2) hcapture⟩
    · rw [if_neg hend, if_pos hchpos] at hcapture ⊢
      have hpos : (gcodeParseChar p c).nextTarget.chpos = p.nextTarget.chpos + 1 :=
        congrArg (fun x => x.2.1) hcapture
      have hname : (gcodeParseChar p c).nextTarget.filename =
          p.nextTarget.filename.take p.nextTarget.chpos ++ [uppercase c] :=
        congrArg (fun x => x.2.2) hcapture
      exact .inl ⟨rfl, hpos, isString_of_stored hc hstored hpos hname⟩
  · rw [if_neg hgetting] at hcapture ⊢
    exact .inr ⟨rfl, congrArg (fun x => x.2.1) hcapture,
      congrArg (fun x => x.2.2) hcapture⟩

theorem updateChecksum_lastField (c : UInt8) (q : Parser R) :
    (updateChecksum c q).lastField = q.lastField := by
  unfold updateChecksum
  split <;> rfl

theorem processChar_naming {q : Parser R} (h : q.nextTarget.gettingString = true)
    (c : UInt8) : (processChar c q).lastField = q.lastField := by
  unfold processChar
  dsimp only
  rw [if_neg (by simp [h])]
  split <;> rfl

/-- While a name goes on, a character belongs to it or ends it. -/
theorem naming_char {p : Parser R} {c : UInt8}
    (hgetting : p.nextTarget.gettingString = true) (hlast : p.lastField = none)
    (hchpos : p.nextTarget.chpos < 120) :
    (EndsString c ∧ charStores p c = []) ∨
    (¬EndsString c ∧ charStores p c =
        [(p.nextTarget.chpos, uppercase c), (p.nextTarget.chpos + 1, 0)] ∧
      (gcodeParseChar p c).nextTarget.gettingString = true ∧
      (gcodeParseChar p c).lastField = none) := by
  have hcommit : commitField (uppercase c) p = p := by
    unfold commitField
    rw [hlast]
  have hcapture := gcodeParseChar_capture p c
  rw [hcommit, captureString_capture, if_pos hgetting] at hcapture
  unfold charStores
  dsimp only
  rw [hcommit, if_pos hgetting]
  by_cases hend : EndsString c
  · rw [if_pos (endsString_uppercase.2 hend)]
    exact .inl ⟨hend, rfl⟩
  · have hend' : ¬EndsString (uppercase c) := fun h => hend (endsString_uppercase.1 h)
    rw [if_neg hend', if_pos hchpos] at hcapture ⊢
    refine .inr ⟨hend, rfl, congrArg Prod.fst hcapture, ?_⟩
    have hopen : (captureString (uppercase c) p.nextTarget).gettingString = true := by
      have hcaptured := captureString_capture (uppercase c) p.nextTarget
      rw [if_pos hgetting, if_neg hend', if_pos hchpos] at hcaptured
      exact congrArg Prod.fst hcaptured
    show (updateChecksum c (processChar (uppercase c)
      { commitField (uppercase c) p with
        nextTarget := captureString (uppercase c)
          (commitField (uppercase c) p).nextTarget })).lastField = none
    rw [updateChecksum_lastField, hcommit, processChar_naming hopen]
    exact hlast

/-! ## What is left of a line -/

variable {p : Parser R} {m : Nat → UInt8} {line : List UInt8}

/-- There is room enough for all characters that are left. -/
theorem captures_slack (hline : (0 : UInt8) ∉ line) (hstored : Stored m p.nextTarget)
    (hroom : p.nextTarget.chpos + line.length < 120) : Captures p m line := by
  induction line generalizing p m with
  | nil => trivial
  | cons c line ih =>
      simp only [List.mem_cons, not_or, List.length_cons] at hline hroom
      rcases charStores_cases (Ne.symm hline.1) hstored (by omega) with
        ⟨hstores, hchpos, hstring⟩ | ⟨hstores, hchpos, hfilename⟩
      · refine ⟨?_, fun _ => hstring, ih hline.2 hstring.stored (by omega)⟩
        rw [hstores]
        intro x hx
        simp only [List.mem_cons, List.not_mem_nil, or_false] at hx
        rcases hx with rfl | rfl <;> dsimp only <;> omega
      · refine ⟨by simp [hstores], fun h => absurd hstores h, ih hline.2 ?_ (by omega)⟩
        rw [hstores]
        refine ⟨?_, ?_⟩
        · rw [hchpos]
          exact hstored.noNul
        · rw [hchpos, hfilename]
          exact hstored.filename

/-- A name goes on: it leaves the buffer exactly when all that is left belongs to it
and reaches the end. -/
theorem captures_naming (hline : (0 : UInt8) ∉ line) (hstored : Stored m p.nextTarget)
    (hgetting : p.nextTarget.gettingString = true) (hlast : p.lastField = none)
    (hchpos : p.nextTarget.chpos < 120) (hroom : p.nextTarget.chpos + line.length ≤ 120) :
    Captures p m line ↔
      ¬(p.nextTarget.chpos + line.length = 120 ∧ ∀ c ∈ line, ¬EndsString c) := by
  induction line generalizing p m with
  | nil =>
      refine ⟨fun _ h => ?_, fun _ => trivial⟩
      rw [List.length_nil] at h
      omega
  | cons c line ih =>
      simp only [List.mem_cons, not_or, List.length_cons] at hline hroom
      have hstep := charStores_cases (Ne.symm hline.1) hstored (by omega)
      rcases naming_char hgetting hlast hchpos with ⟨hend, hnone⟩ | ⟨hend, hstores, hnext, hlast'⟩
      · obtain ⟨-, hchpos', hfilename⟩ := hstep.resolve_left fun h =>
          absurd (hnone.symm.trans h.1) (by simp)
        refine iff_of_true ⟨by simp [hnone], fun h => absurd hnone h, ?_⟩ ?_
        · refine captures_slack hline.2 ?_ (by omega)
          rw [hnone]
          refine ⟨?_, ?_⟩
          · rw [hchpos']
            exact hstored.noNul
          · rw [hchpos', hfilename]
            exact hstored.filename
        · rintro ⟨-, hall⟩
          exact hall c List.mem_cons_self hend
      · obtain ⟨-, hchpos', hstring⟩ := hstep.resolve_right fun h =>
          absurd (hstores.symm.trans h.1) (by simp)
        have hbound : (∀ x ∈ charStores p c, x.1 < 120) ↔ p.nextTarget.chpos + 1 < 120 := by
          rw [hstores]
          constructor
          · intro h
            exact h (p.nextTarget.chpos + 1, 0) (by simp)
          · intro h x hx
            simp only [List.mem_cons, List.not_mem_nil, or_false] at hx
            rcases hx with rfl | rfl <;> dsimp only <;> omega
        have hall : (∀ d ∈ c :: line, ¬EndsString d) ↔ ∀ d ∈ line, ¬EndsString d := by
          rw [List.forall_mem_cons]
          exact and_iff_right hend
        rw [Captures, hbound, hall]
        by_cases hlong : p.nextTarget.chpos + 1 < 120
        · have hrest := ih hline.2 hstring.stored hnext hlast' (by omega) (by omega)
          rw [hchpos'] at hrest
          rw [hrest, List.length_cons]
          constructor
          · rintro ⟨-, -, h⟩ ⟨hlength, hnames⟩
            exact h ⟨by omega, hnames⟩
          · intro h
            exact ⟨hlong, fun _ => hstring, fun ⟨hlength, hnames⟩ =>
              h ⟨by omega, hnames⟩⟩
        · -- the last byte of the buffer: the zero goes behind it
          have hnil : line = [] := List.length_eq_zero_iff.1 (by omega)
          subst hnil
          refine iff_of_false (fun h => hlong h.1) fun h =>
            h ⟨?_, fun d hd => absurd hd List.not_mem_nil⟩
          simp only [List.length_cons, List.length_nil]
          omega

/-! ## Lines -/

/-- A name that the line before has left open takes up the whole line, and the whole
buffer. -/
def FillsFilename (p : Parser R) (line : List UInt8) : Prop :=
  p.nextTarget.gettingString = true ∧ line.length = 120 ∧ ∀ c ∈ line, ¬EndsString c

theorem captures_iff (hp : Rested p) (hline : (0 : UInt8) ∉ line)
    (hlength : line.length ≤ maxLine) (m : Nat → UInt8) :
    Captures p m line ↔ ¬FillsFilename p line := by
  have hchpos : p.nextTarget.chpos = 0 := by
    rw [← hp.fixed]
    rfl
  have hlast : p.lastField = none := by
    rw [← hp.fixed]
    rfl
  have hmax : maxLine = 120 := rfl
  rw [hmax] at hlength
  have hstored := stored_start hchpos m
  by_cases hgetting : p.nextTarget.gettingString = true
  · have hnaming := captures_naming hline hstored hgetting hlast (by omega) (by omega)
    rw [hnaming, hchpos, Nat.zero_add, FillsFilename]
    exact not_congr (and_iff_right hgetting).symm
  · refine iff_of_true ?_ fun h => hgetting h.1
    cases line with
    | nil => trivial
    | cons c line =>
        simp only [List.mem_cons, not_or, List.length_cons] at hline hlength
        have hnone : charStores p c = [] := by
          have hcommit : commitField (uppercase c) p = p := by
            unfold commitField
            rw [hlast]
          unfold charStores
          dsimp only
          rw [hcommit, if_neg hgetting]
        obtain ⟨-, hchpos', -⟩ :=
          (charStores_cases (Ne.symm hline.1) hstored (by omega)).resolve_left
            fun h => by simp [hnone] at h
        rw [hchpos] at hchpos'
        exact ⟨by simp [hnone], fun h => absurd hnone h,
          captures_slack hline.2 (stored_start hchpos' _) (by omega)⟩

section Runs

variable [HasSqrt R] {P : Platform σ}

/-- The lines of a run, the one that is still waiting included: every store to the file
name is in bounds, exactly when no line goes on with a name and fills the buffer with
it. -/
theorem filename_in_bounds {s₀ : Session R σ} {hist : List (Session R σ × List UInt8)}
    {fw : Firmware R σ} (h₀ : Reachable P s₀) (h : Visited P s₀ hist fw)
    (hlines : ∀ x ∈ hist, x.2.length ≤ maxLine ∧ (0 : UInt8) ∉ x.2) :
    (∀ x ∈ hist, ∀ m, Captures x.1.parser m x.2) ↔
      ∀ x ∈ hist, ¬FillsFilename x.1.parser x.2 := by
  refine forall₂_congr fun x hx => ?_
  obtain ⟨hist', hsuffix⟩ : ∃ hist', x :: hist' <:+ hist := by
    obtain ⟨pre, post, rfl⟩ := List.append_of_mem hx
    exact ⟨post, List.suffix_append _ _⟩
  have hrun : Run P s₀ hist' x.1 := h.of_suffix hsuffix
  have hrested : Rested x.1.parser := run_rested hrun (reachable_rested h₀)
  obtain ⟨hlength, hnul⟩ := hlines x hx
  exact ⟨fun hall => (captures_iff hrested hnul hlength fun _ => 0).1 (hall _),
    fun hfills m => (captures_iff hrested hnul hlength m).2 hfills⟩

end Runs

/-! ## Two lines -/

private theorem opened_isSome :
    (playLine noCard defaultStart (str "M23X")).isSome = true := by
  decide +kernel

/-- The session behind a line that ends within a name. -/
def nameOpen : Session ℚ Unit := (playLine noCard defaultStart (str "M23X")).get opened_isSome

theorem run_nameOpen :
    Run noCard defaultStart [(defaultStart, str "M23X")] nameOpen :=
  .line .refl (lineDone_of_playLine (Option.some_get opened_isSome).symm)

/-- A name is given in one line. -/
theorem filename_in_bounds_oneLine :
    Captures defaultStart.parser (fun _ => 0) (str "M23 X.G\n") := by
  have hreachable : Reachable noCard defaultStart := reachable_init _ _
  have hvisited : Visited noCard defaultStart [(defaultStart, str "M23 X.G\n")] _ :=
    .waiting .refl (str "M23 X.G\n") []
  have hlines : ∀ x ∈ [(defaultStart, str "M23 X.G\n")],
      x.2.length ≤ maxLine ∧ (0 : UInt8) ∉ x.2 := by
    intro x hx
    rw [List.mem_singleton.1 hx]
    exact ⟨by decide, by decide⟩
  refine (filename_in_bounds hreachable hvisited hlines).2 (fun x hx => ?_) _
    List.mem_cons_self _
  rw [List.mem_singleton.1 hx]
  exact fun h => absurd h.2.1 (by decide)

/-- A name is left open, and the next line goes on with it to its end. -/
theorem filename_overrun :
    ¬∀ (hist : List (Session ℚ Unit × List UInt8)) (fw : Firmware ℚ Unit),
      Visited noCard defaultStart hist fw →
        (∀ x ∈ hist, x.2.length ≤ maxLine ∧ (0 : UInt8) ∉ x.2) →
          ∀ x ∈ hist, ∀ m, Captures x.1.parser m x.2 := by
  intro h
  have hall := h [(nameOpen, List.replicate 120 65), (defaultStart, str "M23X")] _
    (.waiting run_nameOpen (List.replicate 120 65) [])
    (by
      intro x hx
      rcases List.mem_cons.1 hx with rfl | hx
      · exact ⟨by simp [maxLine], by simp⟩
      · rw [List.mem_singleton.1 hx]
        exact ⟨by decide, by decide⟩)
  have hrested : Rested nameOpen.parser :=
    run_rested run_nameOpen (reachable_rested (reachable_init (P := noCard) _ _))
  refine (captures_iff hrested (by simp) (by simp [maxLine]) fun _ => 0).1
    (hall _ List.mem_cons_self _) ⟨by decide +kernel, by simp, ?_⟩
  intro c hc
  rw [List.eq_of_mem_replicate hc]
  decide

end R2C2Firmware.Ports.FilenameBounds
