import R2C2Firmware.Ports.SdSwitching

/-!
# Writing a file and reading it back

While a file is being written, the lines of the serial port are handed to
`f_write`; later `sd_read_file` reads them back with `f_gets`.  The two agree on
what a line is, but not on how long it may be: the serial port fills a buffer of
`MAX_LINE` bytes, and `f_gets` needs one of them for the end of the string.  A
line that fills the buffer comes back as two.

`sd_write_to_file` does not look at the number of bytes written.  When the card
is full, FatFs writes what fits and reports no error, and the line is answered
`ok` all the same.

## Main results

* `run_contents` — the file while it is being written.
* `round_trip_iff` — when the lines come back as they were.
-/

set_option linter.unusedSectionVars false

namespace R2C2Firmware.Ports.SdRoundTrip

open R2C2Firmware.Verified
open R2C2Firmware.Verified.LineReader
open R2C2Firmware.Verified.Number
open R2C2Firmware.Verified.BusyWait
open R2C2Firmware.Ports.MotionPlanner
open R2C2Firmware.Ports.Sermsg
open R2C2Firmware.Ports.GcodeParse
open R2C2Firmware.Ports.Mendel
open R2C2Firmware.Ports.GcodeProcess
open R2C2Firmware.Ports.MainLoop
open R2C2Firmware.Ports.AppMain
open R2C2Firmware.Ports.SdCard
open R2C2Firmware.Ports.SdPrinting
open R2C2Firmware.Ports.SdSwitching

variable {R σ : Type}

/-! ## Lines of the serial port -/

/-- A line that the serial port has put together, with its end and without
NUL bytes. -/
structure IsSerialLine (line : List UInt8) : Prop where
  assembled : ∃ rx, (assemble .empty rx).1 = ⟨line, true⟩
  ended : line.getLast? = some 10 ∨ line.getLast? = some 13
  noNul : (0 : UInt8) ∉ line

theorem IsSerialLine.sound {line : List UInt8} (h : IsSerialLine line) :
    LineBuffer.Sound ⟨line, true⟩ := by
  obtain ⟨rx, hrx⟩ := h.assembled
  rw [← hrx]
  exact assemble_sound empty_sound rx

/-- A line is stored with a line feed at its end. -/
theorem IsSerialLine.storedLine {line : List UInt8} (h : IsSerialLine line) :
    storedLine line = line.dropLast ++ [10] := by
  unfold GcodeProcess.storedLine
  rcases h.ended with hend | hend
  · rw [if_neg (by rw [hend]; decide)]
    exact (List.dropLast_append_getLast? 10 hend).symm
  · rw [if_pos hend]

theorem IsSerialLine.length {line : List UInt8} (h : IsSerialLine line) :
    (GcodeProcess.storedLine line).length = line.length := by
  have hlong := h.sound.long rfl
  dsimp only at hlong
  rw [h.storedLine, List.length_append, List.length_dropLast,
    List.length_singleton]
  omega

theorem IsSerialLine.isLine {line : List UInt8} (h : IsSerialLine line) :
    IsLine 10 13 (GcodeProcess.storedLine line) := by
  have hinner := h.sound.inner
  exact ⟨line.dropLast, h.storedLine, fun hm => (hinner 10 hm).1 rfl,
    fun hm => (hinner 13 hm).2 rfl⟩

theorem IsSerialLine.noNul_stored {line : List UInt8} (h : IsSerialLine line) :
    (0 : UInt8) ∉ GcodeProcess.storedLine line := by
  rw [h.storedLine, List.mem_append, List.mem_singleton]
  rintro (hm | hm)
  · exact h.noNul (List.dropLast_subset _ hm)
  · exact absurd hm (by decide)

/-! ## Reading back -/

/-- `sd_read_file` returns these lines, and then false. -/
inductive ReadsBack (P : Platform σ) : Firmware R σ → List (List UInt8) → Prop where
  | done {fw : Firmware R σ} : (sdReadFile P fw).1 = none → ReadsBack P fw []
  | line {fw : Firmware R σ} {line : List UInt8} {lines : List (List UInt8)} :
      (sdReadFile P fw).1 = some line →
      ReadsBack P (sdReadFile P fw).2 lines → ReadsBack P fw (line :: lines)

theorem ReadsBack.head {P : Platform σ} {fw : Firmware R σ} {line : List UInt8}
    {lines : List (List UInt8)} (h : ReadsBack P fw (line :: lines)) :
    (sdReadFile P fw).1 = some line := by
  cases h with
  | line hsome _ => exact hsome

section ReadBack

variable {P : Platform σ} {unread : σ → List UInt8}

theorem fGetsBytes_append {bytes : List UInt8} (h : (13 : UInt8) ∉ bytes) :
    (fGetsBytes bytes).1 ++ (fGetsBytes bytes).2 = bytes :=
  gets_append (maxLine - 1) h

/-- One call, on a text without the bytes that `f_gets` drops or that end a
string. -/
theorem sdReadFile_gets (hP : ReadsFile P unread) {fw : Firmware R σ}
    (hcr : (13 : UInt8) ∉ unread fw.fs) (hnul : (0 : UInt8) ∉ unread fw.fs) :
    (sdReadFile P fw).1 =
        (if (fGetsBytes (unread fw.fs)).1 = [] then none
          else some (fGetsBytes (unread fw.fs)).1) ∧
      unread (sdReadFile P fw).2.fs = (fGetsBytes (unread fw.fs)).2 := by
  have hstring : (fGetsBytes (unread fw.fs)).1.takeWhile (· ≠ 0) =
      (fGetsBytes (unread fw.fs)).1 := by
    rw [List.takeWhile_eq_self_iff]
    intro c hc
    rw [decide_eq_true_eq]
    rintro rfl
    refine hnul ?_
    rw [← fGetsBytes_append hcr]
    exact List.mem_append_left _ hc
  have hline := hP.line fw.fs
  have hrest := hP.rest fw.fs
  rw [hstring] at hline
  unfold sdReadFile
  rcases hget : P.fGets maxLine fw.fs with ⟨_ | line, fs⟩
  · rw [hget] at hline hrest
    exact ⟨hline, hrest⟩
  · rw [hget] at hline hrest
    exact ⟨hline, hrest⟩

/-- The lines that are read back are those that repeated calls of `f_gets` make of the
file. -/
theorem readsBack_iff (hP : ReadsFile P unread) {fw : Firmware R σ}
    {lines : List (List UInt8)} (hcr : (13 : UInt8) ∉ unread fw.fs)
    (hnul : (0 : UInt8) ∉ unread fw.fs) :
    ReadsBack P fw lines ↔ Reads 10 13 (maxLine - 1) (unread fw.fs) lines := by
  have hleft : ∀ {fw : Firmware R σ}, (13 : UInt8) ∉ unread fw.fs →
      (0 : UInt8) ∉ unread fw.fs → (13 : UInt8) ∉ (fGetsBytes (unread fw.fs)).2 ∧
        (0 : UInt8) ∉ (fGetsBytes (unread fw.fs)).2 := by
    intro fw hcr hnul
    have happend := fGetsBytes_append hcr
    constructor
    · intro hm
      rw [← happend] at hcr
      exact hcr (List.mem_append_right _ hm)
    · intro hm
      rw [← happend] at hnul
      exact hnul (List.mem_append_right _ hm)
  induction lines generalizing fw with
  | nil =>
      obtain ⟨hline, -⟩ := sdReadFile_gets hP hcr hnul
      constructor
      · rintro ⟨hnone⟩
        rw [hline] at hnone
        split at hnone
        · next hnil => exact .done hnil
        · exact absurd hnone (by simp)
      · rintro ⟨hnil⟩
        exact .done (hline.trans (if_pos hnil))
  | cons line lines ih =>
      obtain ⟨hline, hrest⟩ := sdReadFile_gets hP hcr hnul
      obtain ⟨hcr', hnul'⟩ := hleft hcr hnul
      rw [← hrest] at hcr' hnul'
      constructor
      · rintro (_ | ⟨hsome, hback⟩)
        rw [hline] at hsome
        split at hsome
        · exact absurd hsome (by simp)
        · next hne =>
          obtain rfl := Option.some.inj hsome
          refine .line hne ?_
          have hreads := (ih hcr' hnul').1 hback
          rw [hrest] at hreads
          exact hreads
      · rintro (_ | ⟨hne, hreads⟩)
        refine .line (hline.trans (if_neg hne)) ((ih hcr' hnul').2 ?_)
        rw [hrest]
        exact hreads

end ReadBack

/-! ## Writing -/

/-- `f_write` on the bytes of the file: without an error it appends the first
bytes of what it is given, as many as the card takes. -/
def WritesFile (P : Platform σ) (contents : σ → List UInt8)
    (taken : List UInt8 → σ → Nat) : Prop :=
  ∀ bytes fs, (P.fWrite bytes fs).1 = 0 →
    contents (P.fWrite bytes fs).2 = contents fs ++ bytes.take (taken bytes fs)

section Upload

variable [Field R] [LinearOrder R] [HasSqrt R] [FloorRing R]
  {P : Platform σ} {unread contents : σ → List UInt8}
  {taken : List UInt8 → σ → Nat}

/-- The line is answered `ok`, whatever interrupts arrive. -/
def AnsweredOk (P : Platform σ) (x : Session R σ × List UInt8) : Prop :=
  ∀ irqs, (takeLine P x.1 x.2 irqs).2.state.tx = x.1.fw.tx ++ str "ok\r\n"

/-- The reply to a line that is stored. -/
theorem takeLine_tx {s : Session R σ} {data : List UInt8}
    (hsd : s.fw.sdWritingFile = true) (h : IsStored s data) (irqs : List Irq) :
    (takeLine P s data irqs).2.state.tx =
      s.fw.tx ++ if (P.fWrite (storedLine data) s.fw.fs).1 = 0 then str "ok\r\n"
        else str "error writing to file\r\n" := by
  have hnot : ¬((parsed s data).seenM = true ∧ 20 ≤ (parsed s data).m ∧
      (parsed s data).m ≤ 29) := h.2
  rw [takeLine_state, if_pos h.1, if_pos hsd, writeLine, if_neg hnot,
    sdWriteToFile, bind_apply, get_bind_apply, modify_bind_apply, pure_apply]
  by_cases hres : (P.fWrite (storedLine data) s.fw.fs).1 = 0
  · rw [if_pos hres]
    dsimp only
    rw [if_pos (by simpa using hres)]
    rfl
  · rw [if_neg hres]
    dsimp only
    rw [if_neg (by simpa using hres)]
    rfl

/-- A line of the serial port that has been stored and acknowledged. -/
structure Uploaded (P : Platform σ) (x : Session R σ × List UInt8) : Prop where
  line : IsSerialLine x.2
  writing : x.1.fw.sdWritingFile = true
  stored : IsStored x.1 x.2
  ok : AnsweredOk P x

theorem Uploaded.result {x : Session R σ × List UInt8} (h : Uploaded P x) :
    (P.fWrite (storedLine x.2) x.1.fw.fs).1 = 0 := by
  by_contra hres
  have htx := h.ok []
  rw [takeLine_tx h.writing h.stored, if_neg hres] at htx
  exact absurd (List.append_cancel_left htx) (by decide)

/-- The card after the line. -/
theorem Uploaded.lineCard {x : Session R σ × List UInt8} (h : Uploaded P x) :
    lineCard P x.1 x.2 =
      { card x.1.fw with fs := (P.fWrite (storedLine x.2) x.1.fw.fs).2 } := by
  rw [lineCard_upload h.writing fun hends => h.stored.2 hends.2.1,
    if_pos h.stored]
  rfl

/-- What has been written, line by line; the history has the latest line first. -/
def pieces (taken : List UInt8 → σ → Nat)
    (hist : List (Session R σ × List UInt8)) : List (List UInt8) :=
  hist.reverse.map fun x =>
    (storedLine x.2).take (taken (storedLine x.2) x.1.fw.fs)

variable {s₀ s : Session R σ} {hist : List (Session R σ × List UInt8)}

/-- While a file is being written it holds the pieces of the lines so far, in their
order. -/
theorem run_contents (hW : WritesFile P contents taken) (hrun : Run P s₀ hist s)
    (hwriting : s₀.fw.sdWritingFile = true) (hpaused : s₀.fw.sdPrinting = false)
    (hnew : contents s₀.fw.fs = []) (hup : ∀ x ∈ hist, Uploaded P x) :
    s.fw.sdWritingFile = true ∧ s.fw.sdPrinting = false ∧
      contents s.fw.fs = (pieces taken hist).flatten := by
  induction hrun with
  | refl => exact ⟨hwriting, hpaused, hnew⟩
  | @background hist s fw _ hb ih =>
      obtain ⟨hw, hp, hc⟩ := ih hup
      have hcard : card fw = card s.fw := by
        cases hb with
        | irq i => exact serveIrq_card P i s.fw
        | sdPoll =>
            unfold sdPoll
            rw [hp, if_neg (by decide)]
        | countTimeout => exact countTimeout_card s.fw
      refine ⟨(congrArg Card.sdWritingFile hcard).trans hw,
        (congrArg Card.sdPrinting hcard).trans hp, ?_⟩
      rw [← hc]
      exact congrArg contents (congrArg Card.fs hcard)
  | @line hist s s' data _ hl ih =>
      obtain ⟨hw, hp, hc⟩ := ih fun x hx => hup x (List.mem_cons_of_mem _ hx)
      have hx := hup (s, data) List.mem_cons_self
      have hcard := (lineDone_card hl).trans hx.lineCard
      refine ⟨(congrArg Card.sdWritingFile hcard).trans hw,
        (congrArg Card.sdPrinting hcard).trans hp, ?_⟩
      have hfs : s'.fw.fs = (P.fWrite (storedLine data) s.fw.fs).2 :=
        congrArg Card.fs hcard
      rw [hfs, hW _ _ hx.result, hc, pieces, pieces, List.reverse_cons,
        List.map_append, List.flatten_append]
      congr 1
      exact (List.append_nil _).symm

/-! ## The round trip -/

/-- The history's lines, oldest first, as they are stored. -/
def storedLines (hist : List (Session R σ × List UInt8)) : List (List UInt8) :=
  hist.reverse.map fun x => storedLine x.2

/-- The card has taken the whole line. -/
def Complete (taken : List UInt8 → σ → Nat) (x : Session R σ × List UInt8) :
    Prop :=
  (storedLine x.2).length ≤ taken (storedLine x.2) x.1.fw.fs

theorem pieces_length_le (taken : List UInt8 → σ → Nat)
    (hist : List (Session R σ × List UInt8)) :
    (pieces taken hist).flatten.length ≤ (storedLines hist).flatten.length := by
  unfold pieces storedLines
  induction hist.reverse with
  | nil => exact Nat.le_refl _
  | cons x xs ih =>
      simp only [List.map_cons, List.flatten_cons, List.length_append,
        List.length_take]
      omega

/-- The bytes are all there only if every line is. -/
theorem complete_of_length (h : (storedLines hist).flatten.length ≤
    (pieces taken hist).flatten.length) : ∀ x ∈ hist, Complete taken x := by
  induction hist with
  | nil => simp
  | cons y hist ih =>
      have hle := pieces_length_le taken hist
      simp only [storedLines, pieces, List.reverse_cons, List.map_append,
        List.map_singleton, List.flatten_append, List.flatten_singleton,
        List.length_append, List.length_take] at h hle ih
      intro x hx
      rcases List.mem_cons.1 hx with rfl | hx
      · unfold Complete
        omega
      · exact ih (by omega) x hx

theorem pieces_of_complete (h : ∀ x ∈ hist, Complete taken x) :
    pieces taken hist = storedLines hist :=
  List.map_congr_left fun x hx =>
    List.take_of_length_le (h x (List.mem_reverse.1 hx))

/-- Bytes that no stored line has are not in the file. -/
theorem not_mem_pieces {b : UInt8} (h : ∀ x ∈ hist, b ∉ storedLine x.2) :
    b ∉ (pieces taken hist).flatten := by
  rw [List.mem_flatten]
  rintro ⟨piece, hpiece, hb⟩
  obtain ⟨x, hx, rfl⟩ := List.mem_map.1 hpiece
  exact h x (List.mem_reverse.1 hx) (List.mem_of_mem_take hb)

/-- Lines of the serial port, none of them a command of the card, are uploaded to
a new file, and each is answered `ok`.  Reading the file gives these lines back,
with a line feed at the end of each, if and only if each is shorter than
`MAX_LINE` and the card has taken each as a whole. -/
theorem round_trip_iff (hR : ReadsFile P unread) (hW : WritesFile P contents taken)
    (hreach : Reachable P s₀) (hwriting : s₀.fw.sdWritingFile = true)
    (hnew : contents s₀.fw.fs = []) (hrun : Run P s₀ hist s)
    (hup : ∀ x ∈ hist, Uploaded P x) {fw : Firmware R σ}
    (hfw : unread fw.fs = contents s.fw.fs) :
    ReadsBack P fw (storedLines hist) ↔
      ∀ x ∈ hist, x.2.length < maxLine ∧ Complete taken x := by
  have hpaused : s₀.fw.sdPrinting = false := by
    rw [← Bool.not_eq_true]
    exact fun hp => reachable_apart hreach ⟨hp, hwriting⟩
  obtain ⟨-, -, hcontents⟩ :=
    run_contents hW hrun hwriting hpaused hnew hup
  rw [hcontents] at hfw
  have hcr : (13 : UInt8) ∉ unread fw.fs := by
    rw [hfw]
    exact not_mem_pieces fun x hx =>
      (hup x hx).line.isLine.skip_not_mem (by decide)
  have hnul : (0 : UInt8) ∉ unread fw.fs := by
    rw [hfw]
    exact not_mem_pieces fun x hx => (hup x hx).line.noNul_stored
  rw [readsBack_iff hR hcr hnul]
  constructor
  · intro hreads x hx
    have hall := hreads.flatten (by decide) hcr
    rw [hfw] at hall
    refine ⟨?_, complete_of_length (by rw [hall]) x hx⟩
    have hmem : storedLine x.2 ∈ storedLines hist :=
      List.mem_map.2 ⟨x, List.mem_reverse.2 hx, rfl⟩
    have hlen := hreads.length_le _ hmem
    rw [(hup x hx).line.length] at hlen
    exact Nat.lt_of_le_of_lt hlen (by decide)
  · intro hall
    rw [hfw, pieces_of_complete fun x hx => (hall x hx).2]
    refine reads_lines (by decide) fun line hline => ?_
    obtain ⟨x, hx, rfl⟩ := List.mem_map.1 hline
    have hx := List.mem_reverse.1 hx
    refine ⟨(hup x hx).line.isLine, ?_⟩
    rw [(hup x hx).line.length]
    have hshort := (hall x hx).1
    omega

end Upload

/-! ## Two lines, one of them too long -/

/-- A new file has been opened. -/
def uploading : Session ℚ Disk :=
  (playLine disk oneMove.session (str "M28 B\n")).get (by decide +kernel)

theorem reachable_uploading : Reachable disk uploading := by
  have hreach : Reachable disk oneMove.session := reachable_init _ _
  exact hreach.line (lineDone_of_playLine (Option.some_get _).symm)

theorem disk_readsFile : ReadsFile disk Disk.unread :=
  ⟨fun _ => rfl, fun _ => rfl⟩

/-- The card takes everything. -/
theorem disk_writesFile :
    WritesFile disk Disk.uploaded fun bytes _ => bytes.length := by
  intro bytes fs _
  rw [List.take_length]
  rfl

/-- The file has been closed and is opened again, to be read. -/
def reopened (s : Session ℚ Disk) : Firmware ℚ Disk :=
  { s.fw with fs := { s.fw.fs with unread := s.fw.fs.uploaded } }

theorem reopened_unread (s : Session ℚ Disk) :
    (reopened s).fs.unread = s.fw.fs.uploaded :=
  rfl

/-- A line is uploaded. -/
theorem uploaded_disk {s : Session ℚ Disk} {data : List UInt8}
    (hline : IsSerialLine data) (hsd : s.fw.sdWritingFile = true)
    (hstored : IsStored s data) : Uploaded disk (s, data) :=
  ⟨hline, hsd, hstored, fun irqs => takeLine_tx (P := disk) hsd hstored irqs⟩

/-- A move has been uploaded. -/
def afterMove : Session ℚ Disk :=
  (playLine disk uploading (str "G1 X1\r")).get (by decide +kernel)

theorem round_trip_iff_move :
    ReadsBack disk (reopened afterMove) [str "G1 X1\n"] := by
  have hline : IsSerialLine (str "G1 X1\r") :=
    ⟨⟨str "G1 X1\r", by decide +kernel⟩, .inr (by decide), by decide⟩
  have hdone : LineDone disk uploading (str "G1 X1\r") afterMove :=
    lineDone_of_playLine (Option.some_get _).symm
  have hrun : Run disk uploading [(uploading, str "G1 X1\r")] afterMove :=
    .line .refl hdone
  have hup : ∀ x ∈ [(uploading, str "G1 X1\r")], Uploaded disk x := by
    intro x hx
    rw [List.mem_singleton.1 hx]
    exact uploaded_disk hline (by decide +kernel) (by decide +kernel)
  refine (round_trip_iff disk_readsFile disk_writesFile reachable_uploading
    (by decide +kernel) (by decide +kernel) hrun hup
    (reopened_unread afterMove)).2 fun x hx => ?_
  rw [List.mem_singleton.1 hx]
  exact ⟨by decide, Nat.le_refl _⟩

/-- A line that fills the buffer: a move and a comment. -/
def longLine : List UInt8 := str "G1 X1 ;" ++ List.replicate 112 120 ++ [10]

/-- The line has been uploaded. -/
def afterLongLine : Session ℚ Disk :=
  (playLine disk uploading longLine).get (by decide +kernel)

/-- A line of `MAX_LINE` bytes does not come back. -/
theorem long_line_split :
    ∃ (s₀ s : Session ℚ Disk) (hist : List (Session ℚ Disk × List UInt8)),
      Reachable disk s₀ ∧ s₀.fw.sdWritingFile = true ∧
        s₀.fw.fs.uploaded = [] ∧ Run disk s₀ hist s ∧
        (∀ x ∈ hist, Uploaded disk x) ∧
        ¬ReadsBack disk (reopened s) (storedLines hist) := by
  have hline : IsSerialLine longLine :=
    ⟨⟨longLine, by decide +kernel⟩, .inl (by decide +kernel), by decide +kernel⟩
  have hdone : LineDone disk uploading longLine afterLongLine :=
    lineDone_of_playLine (Option.some_get _).symm
  have hup : ∀ x ∈ [(uploading, longLine)], Uploaded disk x := by
    intro x hx
    rw [List.mem_singleton.1 hx]
    exact uploaded_disk hline (by decide +kernel) (by decide +kernel)
  refine ⟨uploading, afterLongLine, [(uploading, longLine)],
    reachable_uploading, by decide +kernel, by decide +kernel,
    .line .refl hdone, hup, fun hback => ?_⟩
  have hfirst : (sdReadFile disk (reopened afterLongLine)).1 = some longLine :=
    hback.head
  exact absurd hfirst (by decide +kernel)

end R2C2Firmware.Ports.SdRoundTrip
