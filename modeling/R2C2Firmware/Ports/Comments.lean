import R2C2Firmware.Ports.WordOrder

/-!
# Comments

A comment in parentheses, or behind a `;` or `^`, is skipped.  Letters and `*` still
put the word before the comment away while they are skipped, a little earlier than
the next word or the line end would.  That makes no difference, unless the word
opens a file name: then the comment is read as the name.

`M23` and `M28` open a file name, and so does every M number that is stored as one
of these, such as `M65559`.

## Main results

* `scanLine_parens`, `scanLine_semi` — a comment between two words, and one before
  the line end.
* `comments_transparent_iff` — where all comments are skipped.
* `comment_reveals_word` — `M65559 (A )X1`.
-/

set_option linter.unusedSectionVars false

namespace R2C2Firmware.Ports.Comments

open R2C2Firmware.Verified.Number
open R2C2Firmware.Ports.Config
open R2C2Firmware.Ports.MotionPlanner
open R2C2Firmware.Ports.Sermsg
open R2C2Firmware.Ports.GcodeParse
open R2C2Firmware.Ports.Mendel
open R2C2Firmware.Ports.GcodeProcess
open R2C2Firmware.Ports.MainLoop
open R2C2Firmware.Ports.Checksum
open R2C2Firmware.Ports.StaleWords
open R2C2Firmware.Ports.LineIndependence
open R2C2Firmware.Ports.NumberWords
open R2C2Firmware.Ports.WordOrder

variable {R σ : Type} [Field R] [LinearOrder R] [FloorRing R] {p q : Parser R}

/-! ## Inside a comment -/

/-- The parser when the word under construction has been put away. -/
def settled [HasDouble R] (p : Parser R) : Parser R where
  nextTarget := committed p
  lastField := none
  sign := (stray p).1
  exponent := (stray p).2.1
  value := (stray p).2.2

/-- The word under construction is put away by the next character that ends it, if
not before. -/
def SameNext (p q : Parser R) : Prop := settled p = settled q

theorem settled_settled (p : Parser R) : settled (settled p) = settled p := rfl

/-- A character that ends a word does not see whether it was put away before. -/
theorem SameNext.scan (h : SameNext p q) {c : UInt8}
    (hc : isFieldEnd (uppercase c) = true) :
    NumberWords.scan p c = NumberWords.scan q c := by
  have hcommit : ∀ p : Parser R, commitField (uppercase c) p = settled p :=
    fun p => commitField_end p hc
  unfold NumberWords.scan
  dsimp only
  rw [hcommit, hcommit, h]

/-- The parser with another mark of a comment in parentheses. -/
def markParens (b : Bool) (p : Parser R) : Parser R :=
  { p with nextTarget := { p.nextTarget with seenParensComment := b } }

/-- The parser with another mark of a comment up to the line end. -/
def markSemi (b : Bool) (p : Parser R) : Parser R :=
  { p with nextTarget := { p.nextTarget with seenSemiComment := b } }

theorem settled_markParens (b : Bool) (p : Parser R) :
    settled (markParens b p) = markParens b (settled p) := by
  obtain ⟨t, field, sign, exponent, value⟩ := p
  cases field with
  | none => rfl
  | some w => cases w <;> rfl

theorem settled_markSemi (b : Bool) (p : Parser R) :
    settled (markSemi b p) = markSemi b (settled p) := by
  obtain ⟨t, field, sign, exponent, value⟩ := p
  cases field with
  | none => rfl
  | some w => cases w <;> rfl

/-- Inside a comment, with a word before it that opens no file name. -/
structure InComment (b : Bool) (p : Parser R) : Prop where
  parens : p.nextTarget.seenParensComment = b
  semi : b = false → p.nextTarget.seenSemiComment = true
  name : p.nextTarget.gettingString = false
  committed : (committed p).gettingString = false

theorem InComment.settled {b : Bool} (h : InComment b p) :
    InComment b (settled p) := by
  have hmarks : (NumberWords.committed p).seenParensComment =
        p.nextTarget.seenParensComment ∧
      (NumberWords.committed p).seenSemiComment = p.nextTarget.seenSemiComment := by
    unfold NumberWords.committed
    split
    · next w _ => cases w <;> exact ⟨rfl, rfl⟩
    · exact ⟨rfl, rfl⟩
  exact ⟨hmarks.1.trans h.parens, fun hp => hmarks.2.trans (h.semi hp), h.committed,
    h.committed⟩

theorem InComment.skip {b : Bool} (h : InComment b p) {c : UInt8}
    (hc : b = true → c ≠ 41) : processChar c p = p := by
  have hopen : ¬(!p.nextTarget.seenSemiComment && !p.nextTarget.seenParensComment &&
      !p.nextTarget.gettingString) = true := by
    cases b with
    | true => simp [h.parens]
    | false => simp [h.semi rfl]
  rw [processChar, if_neg hopen, if_neg]
  rintro ⟨hparens, rfl⟩
  exact hc (h.parens.symm.trans hparens) rfl

/-- A character of the comment puts the word away or does nothing. -/
theorem InComment.scan {b : Bool} (h : InComment b p) {c : UInt8}
    (hc : b = true → uppercase c ≠ 41) :
    NumberWords.scan p c = p ∨ NumberWords.scan p c = Comments.settled p := by
  unfold NumberWords.scan
  dsimp only
  cases hend : isFieldEnd (uppercase c) with
  | true =>
      have hcommit : commitField (uppercase c) p = Comments.settled p :=
        commitField_end p hend
      rw [hcommit, captureString_plain h.settled.name]
      exact .inr (h.settled.skip hc)
  | false =>
      rw [commitField_skip p hend, captureString_plain h.name]
      exact .inl (h.skip hc)

/-- Text inside a comment, up to the sign that closes it, leaves the parser inside, with
all that the next word depends on. -/
theorem InComment.run {b : Bool} {t : List UInt8}
    (ht : ∀ c ∈ t, b = true → uppercase c ≠ 41) (h : InComment b p) :
    InComment b (scanLine p t) ∧ SameNext (scanLine p t) p := by
  induction t generalizing p with
  | nil => exact ⟨h, rfl⟩
  | cons c t ih =>
      have hrest : ∀ d ∈ t, b = true → uppercase d ≠ 41 := fun d hd =>
        ht d (List.mem_cons_of_mem _ hd)
      rw [scanLine_cons]
      rcases h.scan (ht c List.mem_cons_self) with hsame | hsettled
      · rw [hsame]
        exact ih hrest h
      · rw [hsettled]
        obtain ⟨hin, hnext⟩ := ih hrest h.settled
        exact ⟨hin, Eq.trans hnext (settled_settled p)⟩

/-! ## Comments at the end of a word -/

/-- An M word is under construction that opens a file name. -/
def OpensName (p : Parser R) : Prop :=
  p.lastField = some .m ∧
    (uint16 (truncate (if p.sign then -p.value else p.value)) = 23 ∨
      uint16 (truncate (if p.sign then -p.value else p.value)) = 28)

theorem committed_name (h : NumberWords.Plain p.nextTarget) (hopens : ¬OpensName p) :
    NumberWords.Plain (committed p) := by
  obtain ⟨hsemi, hparens, hname⟩ := h
  unfold committed
  unfold OpensName at hopens
  split
  · next w hw =>
    rw [hw] at hopens
    cases w with
    | m =>
        refine ⟨hsemi, hparens, ?_⟩
        show (if _ then true else p.nextTarget.gettingString) = false
        rw [if_neg fun h => hopens ⟨rfl, h⟩]
        exact hname
    | g | x | y | z | e | f | s | p | n | checksum | unknown =>
        exact ⟨hsemi, hparens, hname⟩
  · exact ⟨hsemi, hparens, hname⟩

theorem uppercase_eq_paren {c : UInt8} (h : uppercase c = 41) : c = 41 := by
  have hall : ∀ c : UInt8, uppercase c = 41 → c = 41 := forall_byte (by decide +kernel)
  exact hall c h

theorem scan_close (hname : p.nextTarget.gettingString = false)
    (hparens : p.nextTarget.seenParensComment = true) :
    scan p 41 = markParens false p := by
  unfold scan
  dsimp only
  rw [commitField_skip p (show isFieldEnd (uppercase 41) = false from rfl),
    captureString_plain hname]
  show processChar 41 p = _
  rw [processChar, if_neg (by simp [hparens]), if_pos ⟨hparens, rfl⟩]
  rfl

/-- A comment in parentheses. -/
theorem scanLine_parens (h : NumberWords.Plain p.nextTarget) (hopens : ¬OpensName p)
    {t : List UInt8} (ht : (41 : UInt8) ∉ t) :
    SameNext (scanLine p (40 :: (t ++ [41]))) p := by
  have hcommitted := committed_name h hopens
  have hopen : scan p 40 = markParens true p := scan_inside h rfl
  have hmarked : NumberWords.committed (markParens true p) =
      { NumberWords.committed p with seenParensComment := true } :=
    congrArg Parser.nextTarget (settled_markParens true p)
  have hin : InComment true (markParens true p) :=
    ⟨rfl, fun hf => absurd hf (by simp), h.name, by rw [hmarked]; exact hcommitted.name⟩
  obtain ⟨hend, hnext⟩ := hin.run (t := t) fun c hc _ hupper =>
    ht (uppercase_eq_paren hupper ▸ hc)
  rw [scanLine_cons, hopen, scanLine_append]
  generalize scanLine (markParens true p) t = q at hend hnext ⊢
  have hclose := scan_close hend.name hend.parens
  show settled (scan q 41) = settled p
  have hq : settled q = settled (markParens true p) := hnext
  rw [hclose, settled_markParens, hq, settled_markParens]
  show ({ settled p with
    nextTarget := { committed p with seenParensComment := false } } : Parser R) = settled p
  rw [← hcommitted.parens]
  rfl

theorem isFieldEnd_lineEnd {c : UInt8} (hc : isLineEnd c = true) :
    uppercase c = c ∧ isFieldEnd c = true := by
  have hcases : c = 10 ∨ c = 13 := by simpa [isLineEnd] using hc
  rcases hcases with rfl | rfl <;> exact ⟨rfl, rfl⟩

/-- The line end behind a comment that has put the word away. -/
theorem InComment.lineEnds {v : List UInt8} (hv : ∀ c ∈ v, isLineEnd c = true)
    (hne : v ≠ []) (h : InComment false p) : scanLine p v = Comments.settled p := by
  induction v generalizing p with
  | nil => exact absurd rfl hne
  | cons c v ih =>
      obtain ⟨hupper, hend⟩ := isFieldEnd_lineEnd (hv c List.mem_cons_self)
      have hfirst : NumberWords.scan p c = Comments.settled p := by
        unfold NumberWords.scan
        dsimp only
        rw [hupper, commitField_end p hend, captureString_plain h.committed]
        exact h.settled.skip fun hf => absurd hf (by simp)
      rw [scanLine_cons, hfirst]
      by_cases hlast : v = []
      · rw [hlast]
        rfl
      · rw [ih (fun d hd => hv d (List.mem_cons_of_mem _ hd)) hlast h.settled]
        rfl

/-- Line ends behind a word put it away, and the second one finds nothing to do. -/
theorem scanLine_lineEnds {v : List UInt8} (hv : ∀ c ∈ v, isLineEnd c = true)
    (hne : v ≠ []) (h : NumberWords.Plain (committed p)) :
    scanLine p v = settled p := by
  induction v generalizing p with
  | nil => exact absurd rfl hne
  | cons c v ih =>
      rw [scanLine_cons, scan_lineEnd h (hv c List.mem_cons_self)]
      by_cases hlast : v = []
      · rw [hlast]
        rfl
      · exact (ih (p := settled p) (fun d hd => hv d (List.mem_cons_of_mem _ hd)) hlast
          h).trans (settled_settled p)

/-- A comment up to the line end. -/
theorem scanLine_semi (h : NumberWords.Plain p.nextTarget) (hopens : ¬OpensName p)
    {b : UInt8} (hb : b = 59 ∨ b = 94) (t : List UInt8) {v : List UInt8}
    (hv : ∀ c ∈ v, isLineEnd c = true) (hne : v ≠ []) :
    scanLine p (b :: (t ++ v)) = markSemi true (scanLine p v) := by
  have hcommitted := committed_name h hopens
  have hopen : scan p b = markSemi true p := by
    rcases hb with rfl | rfl
    · exact scan_inside h rfl
    · exact scan_inside h rfl
  have hmarked : NumberWords.committed (markSemi true p) =
      { NumberWords.committed p with seenSemiComment := true } :=
    congrArg Parser.nextTarget (settled_markSemi true p)
  have hin : InComment false (markSemi true p) :=
    ⟨h.parens, fun _ => rfl, h.name, by rw [hmarked]; exact hcommitted.name⟩
  obtain ⟨hend, hnext⟩ := hin.run (t := t) fun c _ hf => absurd hf (by simp)
  have hq : settled (scanLine (markSemi true p) t) = settled (markSemi true p) := hnext
  rw [scanLine_cons, hopen, scanLine_append, hend.lineEnds hv hne, hq, settled_markSemi,
    scanLine_lineEnds hv hne hcommitted]

/-! ## A comment behind a word that opens a file name -/

theorem captureString_open {t : GcodeCommand R} (h : t.gettingString = true) (c : UInt8) :
    ∃ name pos, captureString c t =
      { t with
        filename := name
        chpos := pos
        gettingString := !(c == 10 || c == 13 || c == 32 || c == 42) } := by
  unfold captureString
  rw [if_pos h]
  by_cases hc : c = 10 ∨ c = 13 ∨ c = 32 ∨ c = 42
  · refine ⟨t.filename, t.chpos, ?_⟩
    rw [if_pos hc]
    rcases hc with rfl | rfl | rfl | rfl <;> rfl
  · have hkeep : (!(c == 10 || c == 13 || c == 32 || c == 42)) = true := by
      simpa [not_or, and_assoc] using hc
    rw [if_neg hc, hkeep, ← h]
    split
    · exact ⟨_, _, rfl⟩
    · exact ⟨t.filename, t.chpos, rfl⟩

theorem committed_opens (hopens : OpensName p) :
    (committed p).gettingString = true ∧ stray p = (false, 0, 0) ∧
      (committed p).target = p.nextTarget.target ∧
      (committed p).optionInches = p.nextTarget.optionInches ∧
      (committed p).seenSemiComment = p.nextTarget.seenSemiComment ∧
      (committed p).seenParensComment = p.nextTarget.seenParensComment := by
  obtain ⟨hfield, hnumber⟩ := hopens
  unfold committed stray
  rw [hfield]
  exact ⟨if_pos hnumber, rfl, rfl, rfl, rfl, rfl⟩

/-- A character behind the word is taken into the name. -/
theorem scan_opens (hopens : OpensName p)
    {c : UInt8} (hc : isFieldEnd (uppercase c) = true)
    (hc' : (uppercase c == 10 || uppercase c == 13 || uppercase c == 32 ||
      uppercase c == 42) = false) (hparen : uppercase c ≠ 41) :
    ∃ name pos, scan p c =
      { nextTarget := { committed p with filename := name, chpos := pos }
        lastField := none
        sign := false
        exponent := 0
        value := 0 } := by
  obtain ⟨hgetting, hclear, -⟩ := committed_opens hopens
  obtain ⟨name, pos, hcapture⟩ := captureString_open hgetting (uppercase c)
  refine ⟨name, pos, ?_⟩
  rw [hc', Bool.not_false, ← hgetting] at hcapture
  unfold scan
  dsimp only
  rw [commitField_end p hc, hclear]
  dsimp only
  rw [hcapture, processChar, if_neg (by simp [hgetting]), if_neg fun h => hparen h.2]

/-- A character of a file name changes the name and its position only. -/
theorem scan_name (hname : p.nextTarget.gettingString = true)
    (hfield : p.lastField = none) {c : UInt8} (hparen : uppercase c ≠ 41)
    (hc : (uppercase c == 10 || uppercase c == 13 || uppercase c == 32 ||
      uppercase c == 42) = false ∨ p.nextTarget.seenParensComment = true ∨ c = 10) :
    ∃ name pos, scan p c =
      { p with
        nextTarget :=
          { p.nextTarget with
            filename := name
            chpos := pos
            gettingString := !(uppercase c == 10 || uppercase c == 13 ||
              uppercase c == 32 || uppercase c == 42) } } := by
  obtain ⟨name, pos, hcapture⟩ := captureString_open hname (uppercase c)
  refine ⟨name, pos, ?_⟩
  unfold scan
  dsimp only
  rw [commitField_none hfield, hcapture]
  unfold processChar
  dsimp only
  rcases hc with hc | hc | rfl
  · rw [hc, if_neg (by simp), if_neg fun h => hparen h.2]
  · rw [if_neg (by simp [hc]), if_neg fun h => hparen h.2]
  · split
    · rfl
    · exact if_neg fun h => hparen h.2

variable [IsStrictOrderedRing R]

/-- The digits `0` and `1` are not among the characters that the parser treats apart. -/
theorem digit_facts {d : UInt8} (hd : d = 48 ∨ d = 49) :
    IsDigit d ∧ uppercase d = d ∧
      (d == 10 || d == 13 || d == 32 || d == 42) = false ∧ d ≠ 41 := by
  rcases hd with rfl | rfl
  · exact ⟨⟨by decide, by decide⟩, rfl, rfl, by decide⟩
  · exact ⟨⟨by decide, by decide⟩, rfl, rfl, by decide⟩

/-- An X word behind the word is the name of the file. -/
theorem name_hides_word (hopens : OpensName p) {d : UInt8} (hd : d = 48 ∨ d = 49) :
    (scanLine p [88, d, 10]).nextTarget.target = p.nextTarget.target ∧
      (scanLine p [88, d, 10]).nextTarget.seenChecksum =
        p.nextTarget.seenChecksum := by
  obtain ⟨-, hupper, hplain, hparen⟩ := digit_facts hd
  obtain ⟨hgetting, -, htarget, -⟩ := committed_opens hopens
  have hsum : (committed p).seenChecksum = p.nextTarget.seenChecksum := by
    obtain ⟨hfield, -⟩ := hopens
    unfold committed
    rw [hfield]
    rfl
  obtain ⟨name₁, pos₁, h₁⟩ := scan_opens hopens (c := 88) rfl rfl (by decide)
  obtain ⟨name₂, pos₂, h₂⟩ := scan_name (p := scan p 88) (c := d)
    (by rw [h₁]; exact hgetting) (by rw [h₁]) (by rw [hupper]; exact hparen)
    (.inl (by rw [hupper]; exact hplain))
  rw [hupper, hplain, h₁] at h₂
  obtain ⟨name₃, pos₃, h₃⟩ := scan_name (p := scan (scan p 88) d) (c := 10)
    (by rw [h₁, h₂]; rfl) (by rw [h₁, h₂]) (by decide) (.inr (.inr rfl))
  show (scan (scan (scan p 88) d) 10).nextTarget.target = _ ∧
    (scan (scan (scan p 88) d) 10).nextTarget.seenChecksum = _
  rw [h₃, h₁, h₂]
  exact ⟨htarget, hsum⟩

/-- Behind a comment it is an X word. -/
theorem comment_ends_name (h : NumberWords.Plain p.nextTarget) (hopens : OpensName p)
    {d : UInt8} (hd : d = 48 ∨ d = 49) :
    (scanLine p ([40, 65, 32, 41] ++ [88, d, 10])).nextTarget.target.x =
      inUnits p.nextTarget ((d.toNat - 48 : Nat) : R) := by
  obtain ⟨hdigit, -⟩ := digit_facts hd
  have hopen : scan p 40 = markParens true p := scan_inside h rfl
  have hopens' : OpensName (markParens true p) := hopens
  obtain ⟨hgetting, -, -, hinches, hsemi, hparens⟩ := committed_opens hopens'
  obtain ⟨name₁, pos₁, h₁⟩ := scan_opens hopens' (c := 65) rfl rfl (by decide)
  obtain ⟨name₂, pos₂, h₂⟩ := scan_name (p := scan (markParens true p) 65) (c := 32)
    (by rw [h₁]; exact hgetting) (by rw [h₁]) (by decide)
    (.inr (.inl (by rw [h₁]; exact hparens)))
  rw [h₁] at h₂
  -- the name is closed, and then the comment
  obtain ⟨q, hq⟩ : ∃ q, q = scan (scan (scan (markParens true p) 65) 32) 41 := ⟨_, rfl⟩
  have hclosed : q =
      { nextTarget :=
          { committed (markParens true p) with
            filename := name₂
            chpos := pos₂
            gettingString := false
            seenParensComment := false }
        lastField := none
        sign := false
        exponent := 0
        value := 0 } := by
    rw [hq, h₁, h₂, scan_close rfl hparens]
    rfl
  have hplain : NumberWords.Plain q.nextTarget := by
    rw [hclosed]
    exact ⟨hsemi.trans h.semi, rfl, rfl⟩
  have hat : AtWord q := by
    refine ⟨hplain, ?_, ?_⟩
    · rw [show committed q = q.nextTarget by rw [hclosed]; rfl]
      exact hplain
    · rw [hclosed]
      rfl
  have hword : ¬(digitWord 88 .x rfl d hdigit).Names R := fun hn =>
    absurd (show Word.x = Word.m from hn.1) (by decide)
  obtain ⟨hend, hstore, -⟩ := hat.word hword
  have hline : scanLine p ([40, 65, 32, 41] ++ [88, d, 10]) =
      scan (scanLine q (digitWord 88 .x rfl d hdigit).text) 10 := by
    rw [hq, ← hopen]
    rfl
  rw [hline, scan_lineEnd hend.committed rfl, hstore]
  show inUnits (committed q) ((AxisWords.oneDigit d hdigit).read R) = _
  rw [read_exact, AxisWords.oneDigit_number, show committed q = q.nextTarget by rw [hclosed]; rfl,
    hclosed]
  unfold inUnits
  show (if (committed (markParens true p)).optionInches = true then _ else _) = _
  rw [hinches]
  rfl

/-! ## Lines -/

/-- The comments that can be put in front of the rest of a line: one in parentheses
before a word or the line end, and one behind a `;` or `^` before the line end. -/
inductive Comment : List UInt8 → List UInt8 → Prop where
  | parens {t rest : List UInt8} {c : UInt8}
      (ht : ∀ d ∈ t, d ≠ 41 ∧ isLineEnd d = false)
      (hc : isFieldEnd (uppercase c) = true) :
      Comment (40 :: (t ++ [41])) (c :: rest)
  | semi {t rest : List UInt8} {b : UInt8} (hb : b = 59 ∨ b = 94)
      (ht : ∀ d ∈ t, isLineEnd d = false)
      (hrest : ∀ d ∈ rest, isLineEnd d = true) (hne : rest ≠ []) :
      Comment (b :: t) rest

/-- The command of a line but for the checksum and the mark of a comment. -/
def unmarked (t : GcodeCommand R) : GcodeCommand R :=
  { t with checksumCalculated := 0, seenSemiComment := false }

theorem unmarked_setSum (k : UInt8) (p : Parser R) :
    unmarked (setSum k p).nextTarget = unmarked p.nextTarget :=
  rfl

/-- A comment is skipped, where no file name is opened. -/
theorem Comment.scanLine {com rest : List UInt8} (hcom : Comment com rest)
    (h : NumberWords.Plain p.nextTarget) (hopens : ¬OpensName p) :
    unmarked (NumberWords.scanLine p (com ++ rest)).nextTarget =
      unmarked (NumberWords.scanLine p rest).nextTarget := by
  cases hcom with
  | @parens t rest c ht hc =>
      have hnext := scanLine_parens h hopens (t := t) fun hmem => (ht 41 hmem).1 rfl
      rw [scanLine_append, scanLine_cons (NumberWords.scanLine _ _),
        scanLine_cons p c rest, hnext.scan hc]
  | @semi t rest b hb ht hrest hne =>
      rw [List.cons_append, scanLine_semi h hopens hb t hrest hne]
      rfl

section Lines

variable {s : Session R σ} {u : List UInt8}

/-- Behind `u`, no comment changes the command of a line without a checksum, and
none keeps it from being executed. -/
def Transparent (s : Session R σ) (u : List UInt8) : Prop :=
  ∀ com rest, Comment com rest → IsTerminated rest →
    (parsed s (u ++ rest)).seenChecksum = false →
      unmarked (parsed s (u ++ com ++ rest)) = unmarked (parsed s (u ++ rest)) ∧
        (Processes s (u ++ com ++ rest) ↔ Processes s (u ++ rest))

theorem unmarked_parsed (v : List UInt8) :
    unmarked (parsed s (u ++ v)) =
      unmarked (scanLine (scanLine s.parser u) v).nextTarget := by
  obtain ⟨k, hk⟩ := parseChars_scan s.parser (u ++ v)
  rw [parsed, hk, unmarked_setSum, scanLine_append]

theorem opensName_setSum (k : UInt8) (p : Parser R) :
    OpensName (setSum k p) ↔ OpensName p :=
  Iff.rfl

/-- All comments are skipped exactly if the word before them does not open a file name.
The place where they stand is outside comments and file names; inside a comment no other
one begins. -/
theorem comments_transparent_iff
    (hplace : NumberWords.Plain (parseChars s.parser u).nextTarget)
    (hunchecked : (parsed s u).seenChecksum = false) :
    Transparent s u ↔ ¬OpensName (parseChars s.parser u) := by
  obtain ⟨k, hk⟩ := parseChars_scan s.parser u
  have hplain : NumberWords.Plain (scanLine s.parser u).nextTarget := by
    rw [hk] at hplace
    exact ⟨hplace.semi, hplace.parens, hplace.name⟩
  have hsum : (scanLine s.parser u).nextTarget.seenChecksum = false := by
    rw [parsed, hk] at hunchecked
    exact hunchecked
  rw [hk, opensName_setSum]
  constructor
  · -- the comment `(A )` in front of `X0` or `X1`
    intro htransparent hopens
    have hx : ∀ d : UInt8, d = 48 ∨ d = 49 →
        inUnits (scanLine s.parser u).nextTarget ((d.toNat - 48 : Nat) : R) =
          (scanLine s.parser u).nextTarget.target.x := by
      intro d hd
      obtain ⟨htarget, hseen⟩ := name_hides_word hopens hd
      have hrest : (parsed s (u ++ [88, d, 10])).seenChecksum = false := by
        have hmarks := congrArg GcodeCommand.seenChecksum
          (unmarked_parsed (s := s) (u := u) [88, d, 10])
        exact hmarks.trans (hseen.trans hsum)
      have hsame := (htransparent [40, 65, 32, 41] [88, d, 10]
        (.parens (t := [65, 32]) (by decide +kernel) rfl) (.inl rfl) hrest).1
      rw [List.append_assoc, unmarked_parsed, unmarked_parsed] at hsame
      have hcoord : (scanLine (scanLine s.parser u)
            ([40, 65, 32, 41] ++ [88, d, 10])).nextTarget.target.x =
          (scanLine (scanLine s.parser u) [88, d, 10]).nextTarget.target.x :=
        congrArg (·.target.x) hsame
      rw [comment_ends_name hplain hopens hd, htarget] at hcoord
      exact hcoord
    have hzero := hx 48 (.inl rfl)
    have hone := (hx 49 (.inr rfl)).trans hzero.symm
    unfold inUnits inchToMm at hone
    split at hone
    · norm_num at hone
      exact absurd hone (by decide)
    · norm_num at hone
      exact absurd hone (by decide)
  · intro hopens com rest hcom hterminated hseen
    have hsame : unmarked (parsed s (u ++ com ++ rest)) =
        unmarked (parsed s (u ++ rest)) := by
      rw [List.append_assoc, unmarked_parsed, unmarked_parsed,
        hcom.scanLine hplain hopens]
    have hseen' : (parsed s (u ++ com ++ rest)).seenChecksum = false :=
      (congrArg GcodeCommand.seenChecksum hsame).trans hseen
    refine ⟨hsame, and_congr_left fun _ => ?_⟩
    rw [checksumAccepted, checksumAccepted, hseen, hseen']
    simp

end Lines

/-- Comments behind `G1` are skipped. -/
theorem comments_transparent_g1 : Transparent defaultStart (str "G1 ") := by
  have hplace : NumberWords.Plain
      (parseChars defaultStart.parser (str "G1 ")).nextTarget :=
    ⟨by decide +kernel, by decide +kernel, by decide +kernel⟩
  refine (comments_transparent_iff hplace (by decide +kernel)).2 fun hopens => ?_
  exact absurd hopens.1 (by decide +kernel)

/-- `M65559` is stored as `M23`: the X word behind it is the name of a file, and
that behind a comment is not. -/
theorem comment_reveals_word :
    Reachable noCard defaultStart ∧
      defaultStart.parser.nextTarget.gettingString = false ∧
      Comment (str "(A )") (str "X1\n") ∧
      (parsed defaultStart (str "M65559 " ++ str "X1\n")).seenChecksum = false ∧
      (parsed defaultStart (str "M65559 " ++ str "X1\n")).seenX = false ∧
      (parsed defaultStart (str "M65559 " ++ str "(A )" ++ str "X1\n")).seenX =
        true := by
  refine ⟨reachable_init _ _, rfl, .parens (t := str "A ") (by decide +kernel) rfl, ?_, ?_, ?_⟩
  · decide +kernel
  · decide +kernel
  · decide +kernel

end R2C2Firmware.Ports.Comments
