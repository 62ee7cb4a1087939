import Mathlib.Data.List.TakeWhile
import R2C2Firmware.Ports.AppMain
import R2C2Firmware.Ports.SdCard

/-!
# Printing a file

While a file is printed the main loop reads one line ahead.  The line waits in
its buffer for as long as serial lines come first or the queue is full, and no
other line is read meanwhile.  So the lines handed to `gcode_parse_line`, the
one that waits, and those not yet read are the lines of the file, at any time
and however often printing is interrupted.

Of FatFs it is assumed that `f_gets` returns what its source says, on the bytes
of the file that have not been read: up to `MAX_LINE - 1` bytes, ending behind
a line feed, without carriage returns.

## Main results

* `LoopRun.accounted` — the lines of the file, accounted for.
* `printed_in_order` — the lines handed over are the first ones of the file, and
  all of them when the end has been reported.
-/

set_option linter.unusedSectionVars false

namespace R2C2Firmware.Ports.SdPrinting

open R2C2Firmware.Verified
open R2C2Firmware.Verified.LineReader
open R2C2Firmware.Verified.Number
open R2C2Firmware.Verified.BusyWait
open R2C2Firmware.Ports.MotionPlanner
open R2C2Firmware.Ports.Sermsg
open R2C2Firmware.Ports.GcodeParse
open R2C2Firmware.Ports.Mendel
open R2C2Firmware.Ports.GcodeProcess
open R2C2Firmware.Ports.MainLoop
open R2C2Firmware.Ports.AppMain
open R2C2Firmware.Ports.SdCard

variable {R σ : Type}

/-! ## The file -/

/-- What one call of `f_gets` reads: the bytes stored, and the bytes left. -/
def fGetsBytes (bytes : List UInt8) : List UInt8 × List UInt8 :=
  gets 10 13 (maxLine - 1) bytes

/-- `f_gets` on the bytes not yet read.  The buffer is a C string. -/
structure ReadsFile (P : Platform σ) (unread : σ → List UInt8) : Prop where
  line : ∀ fs, (P.fGets maxLine fs).1 =
    if (fGetsBytes (unread fs)).1 = [] then none
    else some ((fGetsBytes (unread fs)).1.takeWhile (· ≠ 0))
  rest : ∀ fs, unread (P.fGets maxLine fs).2 = (fGetsBytes (unread fs)).2

/-- A line of a file that `f_gets` returns whole. -/
structure IsFileLine (line : List UInt8) : Prop where
  ended : IsLine 10 13 line
  short : line.length < maxLine
  noNul : (0 : UInt8) ∉ line

section File

variable {P : Platform σ} {unread : σ → List UInt8}

/-- The next line. -/
theorem ReadsFile.next (h : ReadsFile P unread) {fs : σ} {line : List UInt8}
    {rest : List UInt8} (hline : IsFileLine line)
    (hfs : unread fs = line ++ rest) :
    (P.fGets maxLine fs).1 = some line ∧
      unread (P.fGets maxLine fs).2 = rest := by
  have hlen := hline.short
  have hget : fGetsBytes (unread fs) = (line, rest) := by
    rw [hfs]
    exact gets_line (by decide) hline.ended (by omega) rest
  have hstring : line.takeWhile (· ≠ 0) = line := by
    rw [List.takeWhile_eq_self_iff]
    intro c hc
    rw [decide_eq_true_eq]
    rintro rfl
    exact hline.noNul hc
  rw [h.line, h.rest, hget]
  dsimp only
  rw [if_neg hline.ended.ne_nil, hstring]
  exact ⟨rfl, rfl⟩

/-- At the end of the file there is no line, now or later. -/
theorem ReadsFile.end (h : ReadsFile P unread) {fs : σ} (hfs : unread fs = []) :
    (P.fGets maxLine fs).1 = none ∧ unread (P.fGets maxLine fs).2 = [] := by
  have hget : fGetsBytes (unread fs) = ([], []) := by
    rw [hfs]
    rfl
  rw [h.line, h.rest, hget]
  exact ⟨rfl, rfl⟩

end File

/-! ## Runs -/

/-- The line is one of the file. -/
def cardData : Event R σ → Option (List UInt8)
  | .cardLine l => some l.sdLineBuf.data
  | _ => none

/-- The lines of the file that have been handed over. -/
def cardLines (evs : List (Event R σ)) : List (List UInt8) :=
  evs.filterMap cardData

/-- The end of the file has been reported. -/
def isFinished : Event R σ → Bool
  | .finished => true
  | _ => false

section Runs

variable [Field R] [LinearOrder R] [HasSqrt R] [FloorRing R]
  {P : Platform σ} {unread : σ → List UInt8}

/-- The line handed over does not select another file, or another place in this
one. -/
def Harmless (e : Event R σ) : Prop :=
  ∀ x, e.passed = some x → Processes x.1 x.2 →
    Command.selects (commandOf (parsed x.1 x.2)) = false

/-- The lines of the file: handed over, waiting, and not yet read. -/
structure Accounted (unread : σ → List UInt8) (lines : List (List UInt8))
    (evs : List (Event R σ)) (l : Loop R σ) (rest : List (List UInt8)) :
    Prop where
  reading : l.session.fw.sdWritingFile = false
  file : unread l.session.fw.fs = rest.flatten
  lines_eq : cardLines evs ++ l.sdLineBuf.pending ++ rest = lines
  finished : evs.any isFinished = true → l.sdLineBuf.pending ++ rest = []

variable {l l' : Loop R σ} {evs new : List (Event R σ)} {ph ph' : Phase}
  {lines rest : List (List UInt8)}

theorem cardLines_append (evs new : List (Event R σ)) :
    cardLines (evs ++ new) = cardLines evs ++ cardLines new :=
  List.filterMap_append

/-- A step that reads and hands over no line of the file. -/
theorem Accounted.keep (h : Accounted unread lines evs l rest)
    (hcard : SameFile l.session.fw l'.session.fw)
    (hbuf : l'.sdLineBuf = l.sdLineBuf) (hlines : cardLines new = [])
    (hfinished : new.any isFinished = false) :
    Accounted unread lines (evs ++ new) l' rest where
  reading := hcard.2.trans h.reading
  file := by rw [hcard.1, h.file]
  lines_eq := by rw [cardLines_append, hlines, List.append_nil, hbuf, h.lines_eq]
  finished := by
    rw [List.any_append, hfinished, Bool.or_false, hbuf]
    exact h.finished

/-- Reading ahead moves a line from the file to the buffer, and keeps the account. -/
theorem Accounted.poll (hP : ReadsFile P unread)
    (h : Accounted unread lines evs l rest)
    (hlines : ∀ x ∈ rest, IsFileLine x) :
    ∃ rest', rest' <:+ rest ∧
      Accounted unread lines (evs ++ (pollCard P l).1) (pollCard P l).2
        rest' := by
  have hidle : pollCard P l = ([], l) → ∃ rest', rest' <:+ rest ∧
      Accounted unread lines (evs ++ (pollCard P l).1) (pollCard P l).2
        rest' := by
    intro hpoll
    rw [hpoll]
    exact ⟨rest, List.suffix_refl rest, h.keep ⟨rfl, rfl⟩ rfl rfl rfl⟩
  by_cases hpolls : (!l.sdLineBuf.seenLf && l.session.fw.sdPrinting) = true
  · have hempty : l.sdLineBuf.pending = [] := by
      rw [LineBuffer.pending, if_neg]
      simpa using (Bool.and_eq_true_iff.1 hpolls).1
    have hlines_eq := h.lines_eq
    rw [hempty, List.append_nil] at hlines_eq
    cases rest with
    | nil =>
        have hend : unread l.session.fw.fs = [] := h.file
        obtain ⟨hnone, hleft⟩ := hP.end hend
        have hget : P.fGets maxLine l.session.fw.fs =
            (none, (P.fGets maxLine l.session.fw.fs).2) := Prod.ext hnone rfl
        refine ⟨[], List.suffix_refl _, ?_⟩
        unfold pollCard sdReadFile
        rw [if_pos hpolls, hget]
        refine ⟨h.reading, hleft, ?_, fun _ => ?_⟩
        · show cardLines (evs ++ [.finished]) ++ l.sdLineBuf.pending ++ [] = _
          rw [hempty, cardLines_append,
            show cardLines [(.finished : Event R σ)] = [] from rfl,
            List.append_nil, List.append_nil]
          exact hlines_eq
        · show l.sdLineBuf.pending ++ [] = []
          rw [hempty]
          rfl
    | cons line rest =>
        obtain ⟨hsome, hleft⟩ :=
          hP.next (hlines line List.mem_cons_self) h.file
        have hget : P.fGets maxLine l.session.fw.fs =
            (some line, (P.fGets maxLine l.session.fw.fs).2) :=
          Prod.ext hsome rfl
        refine ⟨rest, List.suffix_cons line rest, ?_⟩
        unfold pollCard sdReadFile
        rw [if_pos hpolls, hget]
        refine ⟨h.reading, hleft, ?_, fun hfin => ?_⟩
        · show cardLines (evs ++ [.read line]) ++ [line] ++ rest = _
          rw [cardLines_append,
            show cardLines [(.read line : Event R σ)] = [] from rfl,
            List.append_nil, List.append_assoc]
          exact hlines_eq
        · have hbefore : evs.any isFinished = true := by
            simpa [isFinished] using hfin
          have hnone := h.finished hbefore
          rw [hempty] at hnone
          exact absurd hnone (by simp)
  · refine hidle ?_
    rw [pollCard, if_neg hpolls]

theorem lineDone_sameFile {s s' : Session R σ} {data : List UInt8}
    (hsd : s.fw.sdWritingFile = false)
    (h : Processes s data →
      Command.selects (commandOf (parsed s data)) = false)
    (hl : LineDone P s data s') : SameFile s.fw s'.fw := by
  obtain ⟨irqs, rem, hl⟩ := hl
  have hfile := takeLine_sameFile (P := P) hsd h irqs
  rw [hl] at hfile
  exact hfile

/-- A step of the main loop keeps the account: the lines passed on, those in the buffer
and those unread make up the file. -/
theorem Accounted.step (hP : ReadsFile P unread)
    (h : Accounted unread lines evs l rest)
    (hlines : ∀ x ∈ rest, IsFileLine x) (hs : LoopStep P l ph new l' ph')
    (hok : ∀ e ∈ new, Harmless e) :
    ∃ rest', rest' <:+ rest ∧ Accounted unread lines (evs ++ new) l' rest' := by
  have hkeep : SameFile l.session.fw l'.session.fw →
      l'.sdLineBuf = l.sdLineBuf → cardLines new = [] →
      new.any isFinished = false →
      ∃ rest', rest' <:+ rest ∧ Accounted unread lines (evs ++ new) l' rest' :=
    fun hcard hbuf hnone hfin =>
      ⟨rest, List.suffix_refl rest, h.keep hcard hbuf hnone hfin⟩
  cases hs with
  | irq i =>
      exact hkeep (serveIrq_card P i l.session.fw).sameFile rfl rfl rfl
  | receive bytes => exact hkeep ⟨rfl, rfl⟩ rfl rfl rfl
  | assemble => exact hkeep ⟨rfl, rfl⟩ rfl rfl rfl
  | poll => exact h.poll hP hlines
  | hold _ => exact hkeep ⟨rfl, rfl⟩ rfl rfl rfl
  | serialLine _ _ hl =>
      have hsel := hok (.serialLine l) List.mem_cons_self _ rfl
      exact hkeep (lineDone_sameFile h.reading hsel hl) rfl rfl rfl
  | @cardLine _ s _ _ hseen hl =>
      have hsel := hok (.cardLine l) List.mem_cons_self _ rfl
      have hfile := lineDone_sameFile h.reading hsel hl
      have hwaiting : l.sdLineBuf.pending = [l.sdLineBuf.data] := by
        rw [LineBuffer.pending, if_pos hseen]
      have hlines_eq := h.lines_eq
      rw [hwaiting] at hlines_eq
      refine ⟨rest, List.suffix_refl rest, hfile.2.trans h.reading, ?_, ?_,
        fun hfin => ?_⟩
      · rw [hfile.1, h.file]
      · rw [cardLines_append]
        simpa [cardLines, cardData, LineBuffer.empty, LineBuffer.pending]
          using hlines_eq
      · have hbefore : evs.any isFinished = true := by
          simpa [isFinished] using hfin
        have hnone := h.finished hbefore
        rw [hwaiting] at hnone
        exact absurd hnone (by simp)
  | timeout =>
      exact hkeep (countTimeout_card l.session.fw).sameFile rfl rfl rfl
  | noTimeout => exact hkeep ⟨rfl, rfl⟩ rfl rfl rfl

/-- The lines of the file, accounted for at any time. -/
theorem LoopRun.accounted {l₀ : Loop R σ} {ph₀ : Phase} (hP : ReadsFile P unread)
    (hrun : LoopRun P l₀ ph₀ evs l ph)
    (hsd : l₀.session.fw.sdWritingFile = false)
    (hlines : ∀ x ∈ lines, IsFileLine x)
    (hfile : unread l₀.session.fw.fs = lines.flatten)
    (hok : ∀ e ∈ evs, Harmless e) :
    ∃ rest, rest <:+ lines ∧
      Accounted unread (l₀.sdLineBuf.pending ++ lines) evs l rest := by
  induction hrun with
  | start =>
      exact ⟨lines, List.suffix_refl lines, hsd, hfile, rfl, by simp⟩
  | step _ hs ih =>
      obtain ⟨rest, hsuffix, hacc⟩ :=
        ih fun e he => hok e (List.mem_append_left _ he)
      obtain ⟨rest', hsuffix', hacc'⟩ := hacc.step hP
        (fun x hx => hlines x (hsuffix.subset hx)) hs
        fun e he => hok e (List.mem_append_right _ he)
      exact ⟨rest', hsuffix'.trans hsuffix, hacc'⟩

/-- From a loop in which a file is selected and not being written: the lines of
the file handed to `gcode_parse_line`, with the one that waits, are the first
lines of the file, in order; and once its end has been reported they are all of
them.  A line that was read before, if there is one, comes first. -/
theorem printed_in_order {l₀ : Loop R σ} {ph₀ : Phase} (hP : ReadsFile P unread)
    (hrun : LoopRun P l₀ ph₀ evs l ph)
    (hsd : l₀.session.fw.sdWritingFile = false)
    (hlines : ∀ x ∈ lines, IsFileLine x)
    (hfile : unread l₀.session.fw.fs = lines.flatten)
    (hok : ∀ e ∈ evs, Harmless e) :
    cardLines evs ++ l.sdLineBuf.pending <+: l₀.sdLineBuf.pending ++ lines ∧
      (evs.any isFinished = true →
        cardLines evs = l₀.sdLineBuf.pending ++ lines) := by
  obtain ⟨rest, -, hacc⟩ := LoopRun.accounted hP hrun hsd hlines hfile hok
  refine ⟨⟨rest, hacc.lines_eq⟩, fun hfin => ?_⟩
  have hnone := hacc.finished hfin
  rw [← hacc.lines_eq, List.append_assoc, hnone, List.append_nil]

end Runs

/-! ## A file of two lines -/

/-- A card whose one file is given by its unread bytes. -/
def oneFile : Platform (List UInt8) where
  fOpen _ _ fs := (0, fs)
  fClose fs := fs
  fWrite _ fs := (0, fs)
  fGets _ fs :=
    (if (fGetsBytes fs).1 = [] then none
      else some ((fGetsBytes fs).1.takeWhile (· ≠ 0)), (fGetsBytes fs).2)
  fSize fs := fs.length
  fLseek pos fs := fs.drop pos.toNat
  root _ := .done true
  hitHomeStopX pressed dir := pressed && !dir
  hitHomeStopZ pressed dir := pressed && !dir

/-- The loop with the file selected and printing started. -/
def printing (bytes : List UInt8) : Loop ℚ (List UInt8) :=
  let s := (Session.boot .default bytes).init
  .init { s with fw := { s.fw with sdActive := true, sdPrinting := true } }

/-- A file of two lines is printed, and from the host comes an `M25` while the second
is waiting, and an `M24` later. -/
def pausedPrint : Option (List (Event ℚ (List UInt8)) × Loop ℚ (List UInt8)) :=
  turns oneFile (printing (str "G21\nG20\n"))
    [[], str "M25\n", [], [], str "M24\n", []]

private theorem pausedPrint_isSome : pausedPrint.isSome = true := by decide +kernel

/-- The two lines of the file are handed over, and then its end is reported; the
commands of the host are executed in between. -/
theorem printed_in_order_paused :
    ∃ evs l, LoopRun oneFile (printing (str "G21\nG20\n")) .assembling evs l
        .assembling ∧
      evs.filterMap (fun e => e.passed.map (·.2)) =
        [str "G21\n", str "M25\n", str "G20\n", str "M24\n"] ∧
      evs.any isFinished = true ∧ cardLines evs = [str "G21\n", str "G20\n"] := by
  have hP : ReadsFile oneFile id := ⟨fun _ => rfl, fun _ => rfl⟩
  have hrun := turns_run (Option.some_get pausedPrint_isSome).symm
  refine ⟨_, _, hrun, by decide +kernel, by decide +kernel, ?_⟩
  have hlines : ∀ x ∈ [str "G21\n", str "G20\n"], IsFileLine x := by
    intro x hx
    rcases List.mem_pair.1 hx with rfl | rfl
    · exact ⟨⟨str "G21", rfl, by decide, by decide⟩, by decide, by decide⟩
    · exact ⟨⟨str "G20", rfl, by decide, by decide⟩, by decide, by decide⟩
  have hchecked : (pausedPrint.get pausedPrint_isSome).1.all (fun e =>
      e.passed.all fun x => !Command.selects (commandOf (parsed x.1 x.2))) = true := by
    decide +kernel
  refine (printed_in_order hP hrun rfl hlines rfl fun e he x hx _ => ?_).2
    (by decide +kernel)
  have hpassed := List.all_eq_true.1 hchecked e he
  rw [hx] at hpassed
  simpa using hpassed

end R2C2Firmware.Ports.SdPrinting
