import R2C2Firmware.Ports.SdPrinting

/-!
# Switching files

The main loop reads one line of the file ahead, into a buffer that `M23` and
`M28` do not look at.  A line that waits there while another file is selected is
handed over afterwards: it is carried out although its file is closed, or
written to the file that has just been opened.

When nothing waits there at every such command, no line outlives its file, and a
file that is being written gets the lines of the serial port and nothing else.

## Main results

* `reachable_apart` — a file is never printed and written at once.
* `LoopRun.conserved` — the lines read ahead, and what became of them.
* `LoopRun.writing` — the file between `M28` and `M29`.
* `switching_clean` — runs in which nothing waits when a file is selected.
-/

set_option linter.unusedSectionVars false

namespace R2C2Firmware.Ports.SdSwitching

open R2C2Firmware.Verified
open R2C2Firmware.Verified.Number
open R2C2Firmware.Verified.BusyWait
open R2C2Firmware.Ports.MotionPlanner
open R2C2Firmware.Ports.Sermsg
open R2C2Firmware.Ports.GcodeParse
open R2C2Firmware.Ports.Mendel
open R2C2Firmware.Ports.GcodeProcess
open R2C2Firmware.Ports.MainLoop
open R2C2Firmware.Ports.AppMain
open R2C2Firmware.Ports.SdCard
open R2C2Firmware.Ports.SdPrinting

variable {R σ : Type}

/-! ## Printing and writing -/

/-- The card is not read and written at once. -/
def Apart (k : Card σ) : Prop := ¬(k.sdPrinting = true ∧ k.sdWritingFile = true)

section Runs

variable [Field R] [LinearOrder R] [HasSqrt R] [FloorRing R] {P : Platform σ}

theorem cardCommand_apart (c : GcodeCommand R) {k : Card σ}
    (h : k.sdWritingFile = false) : Apart (cardCommand P c k) := by
  have hkeep : Apart k := fun hboth => by simp [h] at hboth
  unfold cardCommand
  split
  · exact fun hboth => absurd hboth.1 (by simp)
  · exact fun hboth => absurd hboth.1 (by simp)
  · exact fun hboth => absurd hboth.1 (by simp)
  · exact fun hboth => absurd hboth.2 (by simp [h])
  · exact fun hboth => absurd hboth.1 (by simp)
  · split
    · exact fun hboth => absurd hboth.2 (by simp [h])
    · exact hkeep
  · exact fun hboth => absurd hboth.1 (by simp)
  · exact hkeep

theorem cardWrite_apart (c : GcodeCommand R) (data : List UInt8) {k : Card σ}
    (h : Apart k) : Apart (cardWrite P c data k) := by
  unfold cardWrite
  split
  · split
    · exact fun hboth => absurd hboth.2 (by simp)
    · exact h
  · exact h

theorem lineCard_apart {s : Session R σ} (data : List UInt8)
    (h : Apart (card s.fw)) : Apart (lineCard P s data) := by
  unfold lineCard
  split
  · split
    · exact cardWrite_apart _ data h
    · next hsd =>
      have hsd : (card s.fw).sdWritingFile = false := Bool.not_eq_true _ ▸ hsd
      exact cardCommand_apart _ hsd
  · exact h

theorem background_apart {fw fw' : Firmware R σ} (hb : Background P fw fw')
    (h : Apart (card fw)) : Apart (card fw') := by
  cases hb with
  | irq i =>
      rw [serveIrq_card P i fw]
      exact h
  | sdPoll =>
      unfold sdPoll
      split
      · split
        · exact h
        · exact fun hboth => absurd hboth.1 (by simp [card])
      · exact h
  | countTimeout =>
      rw [countTimeout_card fw]
      exact h

/-- A file is never printed and written at once, in any state of a run. -/
theorem visited_apart {s₀ : Session R σ}
    {hist : List (Session R σ × List UInt8)} {fw : Firmware R σ}
    (hv : Visited P s₀ hist fw) (h₀ : Apart (card s₀.fw)) : Apart (card fw) := by
  have hline : ∀ (s : Session R σ) (data : List UInt8) (irqs : List Irq), True →
      Apart (card s.fw) → Apart (card (takeLine P s data irqs).2.state) := by
    intro s data irqs _ h
    rw [takeLine_card]
    exact lineCard_apart data h
  exact hv.invariant (I := fun fw => Apart (card fw))
    (fun _ _ hb h => background_apart hb h) hline h₀ fun _ _ => trivial

theorem reachable_apart {s : Session R σ} (h : Reachable P s) :
    Apart (card s.fw) := by
  have hboot : ∀ config : Config.Configuration R, ∀ fs : σ,
      Apart (card (Session.boot config fs).fw) :=
    fun _ _ hboth => absurd hboth.1 (by simp [card, Session.boot, bootFirmware])
  cases h with
  | boot config fs h => exact visited_apart (.between h) (hboot config fs)
  | @main config fs _ _ s₁ _ h h' =>
      have hmain : Apart (card s₁.fw) :=
        visited_apart (.between h) (hboot config fs)
      exact visited_apart (.between h') hmain

/-! ## The line read ahead -/

/-- The line read from the file. -/
def readData : Event R σ → Option (List UInt8)
  | .read line => some line
  | _ => none

/-- The lines that have been read from the file. -/
def readLines (evs : List (Event R σ)) : List (List UInt8) :=
  evs.filterMap readData

variable {l₀ l l' : Loop R σ} {ph₀ ph ph' : Phase} {evs new : List (Event R σ)}

theorem pollCard_conserved (l : Loop R σ) :
    cardLines (pollCard P l).1 ++ (pollCard P l).2.sdLineBuf.pending =
      l.sdLineBuf.pending ++ readLines (pollCard P l).1 := by
  unfold pollCard
  split
  · next hpolls =>
    have hempty : l.sdLineBuf.pending = [] := by
      rw [LineBuffer.pending, if_neg]
      simpa using (Bool.and_eq_true_iff.1 hpolls).1
    rw [hempty]
    split
    · rfl
    · exact hempty
  · exact (List.append_nil _).symm

theorem LoopStep.conserved (h : LoopStep P l ph new l' ph') :
    cardLines new ++ l'.sdLineBuf.pending =
      l.sdLineBuf.pending ++ readLines new := by
  cases h with
  | poll => exact pollCard_conserved l
  | cardLine _ _ hseen _ =>
      rw [LineBuffer.pending, if_neg (by simp [LineBuffer.empty]),
        LineBuffer.pending, if_pos hseen]
      rfl
  | _ => exact (List.append_nil _).symm

/-- What has been read is handed over, in order, or waits. -/
theorem LoopRun.conserved (h : LoopRun P l₀ ph₀ evs l ph) :
    cardLines evs ++ l.sdLineBuf.pending =
      l₀.sdLineBuf.pending ++ readLines evs := by
  induction h with
  | start => exact (List.append_nil _).symm
  | step _ hs ih =>
      rw [cardLines_append, List.append_assoc, LoopStep.conserved hs,
        ← List.append_assoc, ih, List.append_assoc]
      congr 1
      exact List.filterMap_append.symm

/-! ## Selecting a file -/

/-- The commands that select a file. -/
def Command.opens : Command → Bool
  | .m .m23 | .m .m28 => true
  | _ => false

/-- A line of the serial port that selects a file, with the checksum it has. -/
def Switches : Event R σ → Prop
  | .serialLine l =>
      checksumAccepted (parsed l.session l.serialLineBuf.data) = true ∧
        Command.opens (commandOf (parsed l.session l.serialLineBuf.data)) = true
  | _ => False

/-- No line waits while a line of the serial port selects a file. -/
def Clean : Event R σ → Prop
  | .serialLine l =>
      Processes l.session l.serialLineBuf.data →
        Command.opens (commandOf (parsed l.session l.serialLineBuf.data)) = true →
        l.sdLineBuf.seenLf = false
  | _ => True

instance (e : Event R σ) : Decidable (Switches e) :=
  match e with
  | .serialLine _ => inferInstanceAs (Decidable (_ ∧ _))
  | .cardLine _ | .read _ | .finished => inferInstanceAs (Decidable False)

instance (e : Event R σ) : Decidable (Clean e) :=
  match e with
  | .serialLine _ => inferInstanceAs (Decidable (_ → _ → _))
  | .cardLine _ | .read _ | .finished => inferInstanceAs (Decidable True)

theorem cardCommand_writing {c : GcodeCommand R} {k : Card σ}
    (h : (cardCommand P c k).sdWritingFile = true) :
    k.sdWritingFile = true ∨ Command.opens (commandOf c) = true := by
  unfold cardCommand at h
  cases hc : commandOf c with
  | m code =>
      rw [hc] at h
      cases code with
      | m23 | m28 => exact .inr rfl
      | m26 =>
          dsimp only at h
          split at h <;> exact .inl h
      | _ => exact .inl h
  | _ =>
      rw [hc] at h
      exact .inl h

/-- A file is being written after a line: it was before, or the line has
selected one. -/
theorem lineCard_writing {s : Session R σ} {data : List UInt8}
    (h : (lineCard P s data).sdWritingFile = true) :
    s.fw.sdWritingFile = true ∨
      Processes s data ∧ Command.opens (commandOf (parsed s data)) = true := by
  by_cases hsd : s.fw.sdWritingFile = true
  · exact .inl hsd
  · refine .inr ?_
    rw [Bool.not_eq_true] at hsd
    rw [lineCard, hsd] at h
    split at h
    · next hsum =>
      rw [if_neg (by decide)] at h
      refine ⟨⟨hsum, hsd⟩, (cardCommand_writing h).resolve_left ?_⟩
      show ¬s.fw.sdWritingFile = true
      simp [hsd]
    · rw [show (card s.fw).sdWritingFile = s.fw.sdWritingFile from rfl, hsd] at h
      exact absurd h (by decide)

/-- The file is not read and written at once, and no line of it waits while
another one is being written. -/
structure Settled (l : Loop R σ) : Prop where
  apart : Apart (card l.session.fw)
  nothing : l.session.fw.sdWritingFile = true → l.sdLineBuf.seenLf = false

/-- Steps that leave the buffer alone, and the writing of a file off. -/
theorem Settled.keep (h : Settled l) (hapart : Apart (card l'.session.fw))
    (hbuf : l'.sdLineBuf = l.sdLineBuf)
    (hwrite : l'.session.fw.sdWritingFile = true →
      l.session.fw.sdWritingFile = true) : Settled l' :=
  ⟨hapart, fun hw => by rw [hbuf]; exact h.nothing (hwrite hw)⟩

theorem pollCard_sdWritingFile (l : Loop R σ) :
    (pollCard P l).2.session.fw.sdWritingFile = l.session.fw.sdWritingFile := by
  unfold pollCard sdReadFile
  split
  · rcases P.fGets maxLine l.session.fw.fs with ⟨_ | line, fs⟩
    · rfl
    · rfl
  · rfl

theorem Settled.poll (h : Settled l) : Settled (pollCard P l).2 := by
  by_cases hpolls : (!l.sdLineBuf.seenLf && l.session.fw.sdPrinting) = true
  · have hoff : l.session.fw.sdWritingFile = false := by
      rw [← Bool.not_eq_true]
      exact fun hw => h.apart ⟨(Bool.and_eq_true_iff.1 hpolls).2, hw⟩
    have hoff' := (pollCard_sdWritingFile (P := P) l).trans hoff
    refine ⟨fun hboth => ?_, fun hw => ?_⟩
    · exact absurd hboth.2 (by simp [card, hoff'])
    · exact absurd hw (by simp [hoff'])
  · rw [pollCard, if_neg hpolls]
    exact h

theorem Settled.step (h : Settled l) (hs : LoopStep P l ph new l' ph')
    (hok : ∀ e ∈ new, Clean e) : Settled l' := by
  cases hs with
  | irq i =>
      have hcard := serveIrq_card P i l.session.fw
      refine h.keep ?_ rfl fun hw => hcard.sameFile.2 ▸ hw
      show Apart (card (serveIrq P i l.session.fw))
      rw [hcard]
      exact h.apart
  | receive bytes => exact ⟨h.apart, h.nothing⟩
  | assemble => exact ⟨h.apart, h.nothing⟩
  | poll => exact h.poll
  | hold _ => exact h
  | @serialLine _ s _ _ hl =>
      have hcard := lineDone_card hl
      refine ⟨?_, fun hw => ?_⟩
      · show Apart (card s.fw)
        rw [hcard]
        exact lineCard_apart _ h.apart
      · have hwrite : (lineCard P l.session l.serialLineBuf.data).sdWritingFile =
            true := by rw [← hcard]; exact hw
        rcases lineCard_writing hwrite with hw | ⟨hproc, hopens⟩
        · exact h.nothing hw
        · exact hok (.serialLine l) List.mem_cons_self hproc hopens
  | @cardLine _ s _ _ _ hl =>
      refine ⟨?_, fun _ => rfl⟩
      show Apart (card s.fw)
      rw [lineDone_card hl]
      exact lineCard_apart _ h.apart
  | timeout =>
      have hcard := countTimeout_card l.session.fw
      refine h.keep ?_ rfl fun hw => hcard.sameFile.2 ▸ hw
      show Apart (card (countTimeout l.session.fw))
      rw [hcard]
      exact h.apart
  | noTimeout => exact h

theorem LoopRun.settled (hrun : LoopRun P l₀ ph₀ evs l ph) (h : Settled l₀)
    (hok : ∀ e ∈ evs, Clean e) : Settled l := by
  induction hrun with
  | start => exact h
  | step _ hs ih =>
      exact (ih fun e he => hok e (List.mem_append_left _ he)).step hs
        fun e he => hok e (List.mem_append_right _ he)

theorem settled_init {s : Session R σ} (h : Reachable P s) :
    Settled (Loop.init s) :=
  ⟨reachable_apart h, fun _ => rfl⟩

/-! ## Writing a file -/

/-- The line, with the session that takes it up, ends the file. -/
def EndsUpload (x : Session R σ × List UInt8) : Prop :=
  checksumAccepted (parsed x.1 x.2) = true ∧ IsCardCommand (parsed x.1 x.2) ∧
    (parsed x.1 x.2).m = 29

/-- The line is accepted and is not a command of the card. -/
def IsStored (s : Session R σ) (data : List UInt8) : Prop :=
  checksumAccepted (parsed s data) = true ∧ ¬IsCardCommand (parsed s data)

instance (s : Session R σ) (data : List UInt8) : Decidable (IsStored s data) :=
  inferInstanceAs (Decidable (_ ∧ _))

/-- A line of the serial port for the file, as it is stored. -/
def uploadedData : Event R σ → Option (List UInt8)
  | .serialLine l =>
      if IsStored l.session l.serialLineBuf.data then
        some (storedLine l.serialLineBuf.data)
      else none
  | _ => none

/-- The lines for the file. -/
def uploaded (evs : List (Event R σ)) : List (List UInt8) :=
  evs.filterMap uploadedData

theorem uploaded_serialLine (l : Loop R σ) :
    uploaded [(.serialLine l : Event R σ)] =
      if IsStored l.session l.serialLineBuf.data then
        [storedLine l.serialLineBuf.data]
      else [] := by
  by_cases h : IsStored l.session l.serialLineBuf.data
  · simp [uploaded, uploadedData, h]
  · simp [uploaded, uploadedData, h]

/-- The file after these lines have been written to it. -/
def written (P : Platform σ) (fs : σ) (lines : List (List UInt8)) : σ :=
  lines.foldl (fun fs line => (P.fWrite line fs).2) fs

/-- A file is being written, and the lines of the serial port are what has been
written to it. -/
structure Writing (P : Platform σ) (fs₀ : σ) (evs : List (Event R σ))
    (l : Loop R σ) : Prop where
  writing : l.session.fw.sdWritingFile = true
  paused : l.session.fw.sdPrinting = false
  nothing : l.sdLineBuf.seenLf = false
  file : l.session.fw.fs = written P fs₀ (uploaded evs)

variable {fs₀ : σ}

theorem Writing.keep (h : Writing P fs₀ evs l)
    (hcard : card l'.session.fw = card l.session.fw)
    (hbuf : l'.sdLineBuf = l.sdLineBuf) : Writing P fs₀ (evs ++ []) l' where
  writing := (congrArg Card.sdWritingFile hcard).trans h.writing
  paused := (congrArg Card.sdPrinting hcard).trans h.paused
  nothing := hbuf ▸ h.nothing
  file := by
    rw [List.append_nil, ← h.file]
    exact congrArg Card.fs hcard

/-- What an accepted line does to the card while a file is being written, if it
does not end it. -/
theorem lineCard_upload {s : Session R σ} {data : List UInt8}
    (hsd : s.fw.sdWritingFile = true) (hends : ¬EndsUpload (s, data)) :
    lineCard P s data =
      { card s.fw with
        fs := written P s.fw.fs
          (if IsStored s data then [storedLine data] else []) } := by
  rw [lineCard, hsd]
  by_cases hsum : checksumAccepted (parsed s data) = true
  · rw [if_pos hsum, if_pos rfl, cardWrite]
    by_cases hcard : IsCardCommand (parsed s data)
    · rw [if_pos hcard, if_neg fun h => hends ⟨hsum, hcard, h⟩,
        if_neg fun h : IsStored s data => h.2 hcard]
      rfl
    · have hstored : IsStored s data := ⟨hsum, hcard⟩
      rw [if_neg hcard, if_pos hstored]
      rfl
  · rw [if_neg hsum, if_neg fun h : IsStored s data => hsum h.1]
    rfl

theorem Writing.step (h : Writing P fs₀ evs l)
    (hs : LoopStep P l ph new l' ph')
    (hends : ∀ e ∈ new, ∀ x, e.passed = some x → ¬EndsUpload x) :
    Writing P fs₀ (evs ++ new) l' := by
  cases hs with
  | irq i => exact h.keep (serveIrq_card P i _) rfl
  | receive bytes => exact h.keep rfl rfl
  | assemble => exact h.keep rfl rfl
  | poll =>
      have hidle : pollCard P l = ([], l) := by
        rw [pollCard, h.paused, Bool.and_false, if_neg (by decide)]
      rw [hidle]
      exact h.keep rfl rfl
  | hold _ => exact h.keep rfl rfl
  | @serialLine _ s _ _ hl =>
      have hcard := lineDone_card hl
      rw [lineCard_upload h.writing
        (hends (.serialLine l) List.mem_cons_self _ rfl)] at hcard
      refine ⟨(congrArg Card.sdWritingFile hcard).trans h.writing,
        (congrArg Card.sdPrinting hcard).trans h.paused, h.nothing, ?_⟩
      refine (congrArg Card.fs hcard).trans ?_
      show written P l.session.fw.fs _ = _
      rw [uploaded, List.filterMap_append, h.file, written, written, written,
        List.foldl_append]
      exact congrArg (List.foldl _ _) (uploaded_serialLine l).symm
  | cardLine _ _ hseen _ =>
      rw [h.nothing] at hseen
      exact absurd hseen (by decide)
  | timeout => exact h.keep (countTimeout_card _) rfl
  | noTimeout => exact h.keep rfl rfl

theorem LoopRun.writing (hrun : LoopRun P l₀ ph₀ evs l ph)
    (h : Writing P fs₀ [] l₀)
    (hends : ∀ e ∈ evs, ∀ x, e.passed = some x → ¬EndsUpload x) :
    Writing P fs₀ evs l := by
  induction hrun with
  | start => exact h
  | step _ hs ih =>
      exact (ih fun e he => hends e (List.mem_append_left _ he)).step hs
        fun e he => hends e (List.mem_append_right _ he)

/-- What `f_open` returns for a line that opens a file to write to. -/
def newFile (P : Platform σ) (x : Session R σ × List UInt8) : Nat × σ :=
  P.fOpen (filenameOf (parsed x.1 x.2)) true (P.fClose x.1.fw.fs)

/-- A successful `M28`. -/
def StartsUpload (P : Platform σ) (x : Session R σ × List UInt8) : Prop :=
  Processes x.1 x.2 ∧ commandOf (parsed x.1 x.2) = .m .m28 ∧ (newFile P x).1 = 0

theorem lineCard_startsUpload {x : Session R σ × List UInt8}
    (h : StartsUpload P x) :
    (lineCard P x.1 x.2).fs = (newFile P x).2 ∧
      (lineCard P x.1 x.2).sdPrinting = false ∧
      (lineCard P x.1 x.2).sdWritingFile = true := by
  obtain ⟨⟨hsum, hsd⟩, hcommand, hopened⟩ := h
  rw [lineCard, if_pos hsum, hsd, if_neg (by decide), cardCommand, hcommand]
  exact ⟨rfl, rfl, if_pos hopened⟩

/-- A step that hands over a successful `M28`. -/
theorem LoopStep.startsUpload {e : Event R σ} {x : Session R σ × List UInt8}
    (hs : LoopStep P l .dispatching [e] l' .timing) (he : e.passed = some x)
    (hx : StartsUpload P x) (hok : Clean e) :
    Writing P (newFile P x).2 [] l' := by
  obtain ⟨hfs, hpaused, hwriting⟩ := lineCard_startsUpload hx
  cases hs with
  | serialLine _ _ hl =>
      obtain rfl := Option.some.inj he
      rw [← lineDone_card hl] at hfs hpaused hwriting
      exact ⟨hwriting, hpaused, hok hx.1 (by rw [hx.2.1]; rfl), hfs⟩
  | cardLine _ _ _ hl =>
      obtain rfl := Option.some.inj he
      rw [← lineDone_card hl] at hfs hpaused hwriting
      exact ⟨hwriting, hpaused, rfl, hfs⟩

/-! ## Runs in which nothing waits -/

/-- No line of a file is passed on after another file has been selected, and reading and
writing never overlap. -/
structure FilesSeparate (P : Platform σ) (evs : List (Event R σ))
    (l : Loop R σ) : Prop where
  /-- between lines, and while a line waits -/
  apart : Apart (card l.session.fw) ∧
    ∀ data irqs, Apart (card (takeLine P l.session data irqs).2.state)
  /-- after a file has been selected, the lines that come from the card have been
  read after that -/
  noneLeft : ∀ pre e post, evs = pre ++ e :: post → Switches e →
    cardLines post ++ l.sdLineBuf.pending = readLines post
  /-- up to `M29` the file is written with the lines of the serial port -/
  upload : ∀ pre e post x, evs = pre ++ e :: post → e.passed = some x →
    StartsUpload P x →
    (∀ e' ∈ post, ∀ y, e'.passed = some y → ¬EndsUpload y) →
    l.session.fw.fs = written P (newFile P x).2 (uploaded post)

/-- A line of the serial port that selects a file while nothing waits. -/
theorem LoopStep.switches {e : Event R σ} (h : Settled l)
    (hs : LoopStep P l .dispatching [e] l' .timing) (he : Switches e)
    (hok : Clean e) : l'.sdLineBuf.pending = [] := by
  cases hs with
  | serialLine _ _ _ =>
      have hnone : l.sdLineBuf.seenLf = false := by
        by_cases hsd : l.session.fw.sdWritingFile = true
        · exact h.nothing hsd
        · exact hok ⟨he.1, by simpa using hsd⟩ he.2
      show l.sdLineBuf.pending = []
      rw [LineBuffer.pending, hnone]
      rfl
  | cardLine _ _ _ _ => exact absurd he (by simp [Switches])

/-- In a run of the main loop in which no line read ahead waits while a line of
the serial port selects a file: a file is never printed and written at once, no
line outlives its file, and a file being written gets the accepted lines of the
serial port that are not commands of the card, in order, and nothing else. -/
theorem switching_clean {s : Session R σ} (hreach : Reachable P s)
    (hrun : LoopRun P (Loop.init s) .assembling evs l ph)
    (hok : ∀ e ∈ evs, Clean e) : FilesSeparate P evs l := by
  have hsettled := LoopRun.settled hrun (settled_init hreach) hok
  refine ⟨⟨hsettled.apart, fun data irqs => ?_⟩, ?_, ?_⟩
  · rw [takeLine_card]
    exact lineCard_apart data hsettled.apart
  · rintro pre e post rfl he
    have hmem : e ∈ pre ++ e :: post := by simp
    have hpassed : ∃ x, e.passed = some x := by
      cases e with
      | serialLine l => exact ⟨_, rfl⟩
      | _ => exact absurd he (by simp [Switches])
    obtain ⟨x, hx⟩ := hpassed
    obtain ⟨l₁, l₂, hpre, hstep, hpost⟩ := hrun.split hx
    have hsettled₁ := LoopRun.settled hpre (settled_init hreach)
      fun e' he' => hok e' (List.mem_append_left _ he')
    have hnone := LoopStep.switches hsettled₁ hstep he (hok e hmem)
    rw [LoopRun.conserved hpost, hnone]
    rfl
  · rintro pre e post x rfl hx hstarts hends
    obtain ⟨l₁, l₂, hpre, hstep, hpost⟩ := hrun.split hx
    have hwriting := LoopStep.startsUpload hstep hx hstarts (hok e (by simp))
    exact (LoopRun.writing hpost hwriting hends).file

end Runs

/-! ## A line that outlives its file -/

/-- A card with a file to print, read up to some place, and a file that is being
written. -/
structure Disk where
  file : List UInt8
  unread : List UInt8
  uploaded : List UInt8

/-- The FatFs functions on a card with a file to print and one that is being written. -/
def disk : Platform Disk where
  fOpen _ write fs :=
    (0, if write then { fs with unread := [], uploaded := [] }
      else { fs with unread := fs.file })
  fClose fs := { fs with unread := [] }
  fWrite bytes fs := (0, { fs with uploaded := fs.uploaded ++ bytes })
  fGets _ fs :=
    (if (fGetsBytes fs.unread).1 = [] then none
      else some ((fGetsBytes fs.unread).1.takeWhile (· ≠ 0)),
      { fs with unread := (fGetsBytes fs.unread).2 })
  fSize fs := fs.file.length
  fLseek pos fs := { fs with unread := fs.file.drop pos.toNat }
  root _ := .done true
  hitHomeStopX pressed dir := pressed && !dir
  hitHomeStopZ pressed dir := pressed && !dir

/-- The main loop is entered with a file of one line on the card. -/
def oneMove : Loop ℚ Disk :=
  .init (Session.boot .default ⟨str "G1 X1\n", [], []⟩).init

/-- The file is printed to its end, and then another one is written. -/
def printThenWrite : List (Event ℚ Disk) × Loop ℚ Disk :=
  (turns disk oneMove
    [str "M23 A\n", str "M24\n", [], str "M28 B\n", str "G1 X2\n"]).get
    (by decide +kernel)

theorem switching_clean_printThenWrite :
    LoopRun disk oneMove .assembling printThenWrite.1 printThenWrite.2
        .assembling ∧
      cardLines printThenWrite.1 = [str "G1 X1\n"] ∧
      printThenWrite.2.session.fw.fs.uploaded = str "G1 X2\n" ∧
      FilesSeparate disk printThenWrite.1 printThenWrite.2 := by
  have hreach : Reachable disk oneMove.session := reachable_init _ _
  have hrun : LoopRun disk oneMove .assembling printThenWrite.1
      printThenWrite.2 .assembling :=
    turns_run (Option.some_get _).symm
  have hok : ∀ e ∈ printThenWrite.1, Clean e := by decide +kernel
  exact ⟨hrun, by decide +kernel, by decide +kernel,
    switching_clean hreach hrun hok⟩

/-- A line of the first file has been read ahead when `M28` comes. -/
def writeTooEarly : List (Event ℚ Disk) × Loop ℚ Disk :=
  (turns disk oneMove [str "M23 A\n", str "M24\n", str "M28 B\n", []]).get
    (by decide +kernel)

private theorem writeTooEarly_length : 3 < writeTooEarly.1.length := by
  decide +kernel

/-- The line is written to the second file, which gets no line from the serial
port. -/
theorem line_outlives_file :
    ∃ s : Session ℚ Disk, Reachable disk s ∧
      ∃ evs l, LoopRun disk (Loop.init s) .assembling evs l .assembling ∧
        l.session.fw.fs.uploaded = str "G1 X1\n" ∧
        ¬FilesSeparate disk evs l := by
  have hrun : LoopRun disk oneMove .assembling writeTooEarly.1 writeTooEarly.2
      .assembling :=
    turns_run (Option.some_get _).symm
  refine ⟨oneMove.session, reachable_init _ _, _, _, hrun, by decide +kernel,
    fun h => ?_⟩
  have hcut : writeTooEarly.1 = writeTooEarly.1.take 3 ++
      writeTooEarly.1.get ⟨3, writeTooEarly_length⟩ ::
        writeTooEarly.1.drop 4 := by
    rw [List.get_eq_getElem, ← List.drop_eq_getElem_cons writeTooEarly_length,
      List.take_append_drop]
  have hswitch : Switches (writeTooEarly.1.get ⟨3, writeTooEarly_length⟩) := by
    decide +kernel
  have hleft := h.noneLeft _ _ _ hcut hswitch
  exact absurd hleft (by decide +kernel)

end R2C2Firmware.Ports.SdSwitching
