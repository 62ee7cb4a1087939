import R2C2Firmware.Ports.MainLoop
import R2C2Firmware.Verified.LineReader

/-!
# The main loop

`app_main` collects the bytes of the serial port into a line, reads one line of
the file ahead while a file is printed, and hands one line to
`gcode_parse_line` when the queue has room: the serial one if there is one,
else the one of the file.  Both lines wait in buffers of their own.

The loop is modelled as it runs, in four parts.  Between them interrupts are
served and bytes arrive; the rest of an iteration then goes on with what they
left.  A run records what happened: the lines handed over, each with the loop
as it was, the lines read from the file, and the report of its end.

## Main results

* `assemble_sound` — the lines that come from the serial port.
* `LoopRun.run` — what the loop does to the session is a run of the session.
-/

set_option linter.unusedSectionVars false

namespace R2C2Firmware.Ports.AppMain

open R2C2Firmware.Verified
open R2C2Firmware.Verified.Number
open R2C2Firmware.Verified.BusyWait
open R2C2Firmware.Ports.MotionPlanner
open R2C2Firmware.Ports.Sermsg
open R2C2Firmware.Ports.GcodeParse
open R2C2Firmware.Ports.Mendel
open R2C2Firmware.Ports.GcodeProcess
open R2C2Firmware.Ports.MainLoop

variable {R σ : Type}

/-! ## Buffers -/

/-- `tLineBuffer`; `len` is the length of `data`. -/
structure LineBuffer where
  data : List UInt8
  seenLf : Bool
  deriving DecidableEq

/-- A buffer that has been handed over. -/
def LineBuffer.empty : LineBuffer := ⟨[], false⟩

/-- The line that waits in a buffer. -/
def LineBuffer.pending (buf : LineBuffer) : List (List UInt8) :=
  if buf.seenLf then [buf.data] else []

/-- One character from the serial port.  What does not fit is dropped; a line of
nothing but its end is no line. -/
def LineBuffer.push (buf : LineBuffer) (c : UInt8) : LineBuffer :=
  let data := if buf.data.length < maxLine then buf.data ++ [c] else buf.data
  if c = 10 ∨ c = 13 then
    if data.length > 1 then ⟨data, true⟩ else { buf with data := [] }
  else { buf with data }

/-- Process characters from the serial port: the buffer, and the characters that
stay in the port. -/
def assemble : LineBuffer → List UInt8 → LineBuffer × List UInt8
  | buf, [] => (buf, [])
  | buf, c :: rx =>
      if buf.seenLf then (buf, c :: rx) else assemble (buf.push c) rx

/-- A buffer as the port fills it: the characters that end a line stand at its
end only. -/
structure LineBuffer.Sound (buf : LineBuffer) : Prop where
  fits : buf.data.length ≤ maxLine
  inner : ∀ b ∈ if buf.seenLf then buf.data.dropLast else buf.data,
    b ≠ 10 ∧ b ≠ 13
  long : buf.seenLf = true → 1 < buf.data.length

theorem empty_sound : LineBuffer.empty.Sound :=
  ⟨Nat.zero_le _, fun _ hb => absurd hb List.not_mem_nil,
    fun h => absurd h (by decide)⟩

theorem LineBuffer.Sound.push {buf : LineBuffer} (h : buf.Sound)
    (hseen : buf.seenLf = false) (c : UInt8) : (buf.push c).Sound := by
  have hinner : ∀ b ∈ buf.data, b ≠ 10 ∧ b ≠ 13 := by
    have hin := h.inner
    rw [hseen] at hin
    exact hin
  have hfits := h.fits
  unfold LineBuffer.push
  generalize hdata :
    (if buf.data.length < maxLine then buf.data ++ [c] else buf.data) = data
  have hlen : data.length ≤ maxLine := by
    rw [← hdata]
    split
    · rw [List.length_append, List.length_singleton]
      omega
    · exact hfits
  have hbutLast : ∀ b ∈ data.dropLast, b ≠ 10 ∧ b ≠ 13 := by
    rw [← hdata]
    split
    · rw [List.dropLast_concat]
      exact hinner
    · exact fun b hb => hinner b (List.dropLast_subset _ hb)
  dsimp only
  split
  · split
    · next hlong => exact ⟨hlen, hbutLast, fun _ => hlong⟩
    · refine ⟨Nat.zero_le _, fun b hb => ?_, fun hs => ?_⟩
      · rw [hseen] at hb
        exact absurd hb List.not_mem_nil
      · exact absurd (hseen.symm.trans hs) (by decide)
  · next hend =>
    refine ⟨hlen, fun b hb => ?_, fun hs => absurd (hseen.symm.trans hs) (by decide)⟩
    rw [hseen, if_neg (by decide), ← hdata] at hb
    split at hb
    · rcases List.mem_append.1 hb with hb | hb
      · exact hinner b hb
      · rw [List.mem_singleton.1 hb]
        exact not_or.1 hend
    · exact hinner b hb

/-- Whatever comes in. -/
theorem assemble_sound {buf : LineBuffer} (h : buf.Sound) (rx : List UInt8) :
    (assemble buf rx).1.Sound := by
  induction rx generalizing buf with
  | nil => exact h
  | cons c rx ih =>
      unfold assemble
      split
      · exact h
      · next hseen => exact ih (h.push (by simpa using hseen) c)

/-! ## The loop -/

/-- The variables of `app_main`, and the bytes that wait in the serial port. -/
structure Loop (R σ : Type) where
  session : Session R σ
  serialLineBuf : LineBuffer
  sdLineBuf : LineBuffer
  rx : List UInt8

/-- The parts of an iteration. -/
inductive Phase where
  | assembling | polling | dispatching | timing
  deriving DecidableEq, Repr

/-- What a run records. -/
inductive Event (R σ : Type) where
  | serialLine (l : Loop R σ)
  | cardLine (l : Loop R σ)
  | read (line : List UInt8)
  | finished

/-- The line that is handed to `gcode_parse_line`, and the session it is handed
over in. -/
def Event.passed : Event R σ → Option (Session R σ × List UInt8)
  | .serialLine l => some (l.session, l.serialLineBuf.data)
  | .cardLine l => some (l.session, l.sdLineBuf.data)
  | .read _ | .finished => none

/-- `sd_read_file` -/
def sdReadFile (P : Platform σ) (fw : Firmware R σ) :
    Option (List UInt8) × Firmware R σ :=
  match P.fGets maxLine fw.fs with
  | (some line, fs) =>
      (some line, { fw with fs, sdPos := uint32 (fw.sdPos + line.length) })
  | (none, fs) => (none, { fw with fs })

/-- Read a line of the file ahead, or report its end. -/
def pollCard (P : Platform σ) (l : Loop R σ) : List (Event R σ) × Loop R σ :=
  if !l.sdLineBuf.seenLf && l.session.fw.sdPrinting then
    match sdReadFile P l.session.fw with
    | (some line, fw) =>
        ([.read line],
          { l with session := { l.session with fw }, sdLineBuf := ⟨line, true⟩ })
    | (none, fw) =>
        ([.finished],
          { l with
            session :=
              { l.session with
                fw :=
                  { fw with
                    sdPrinting := false
                    tx := fw.tx ++ str "Done printing file\r\n" } } })
  else ([], l)

/-- The queue has room for the line. -/
def Loop.hasRoom (l : Loop R σ) : Bool :=
  !planQueueFull l.session.fw.machine.planner

section Steps

variable [Field R] [LinearOrder R] [HasSqrt R] [FloorRing R]

/-- One step of the loop, with what it adds to the record. -/
inductive LoopStep (P : Platform σ) :
    Loop R σ → Phase → List (Event R σ) → Loop R σ → Phase → Prop where
  | irq (i : Irq) (l : Loop R σ) (ph : Phase) :
      LoopStep P l ph []
        { l with
          session := { l.session with fw := serveIrq P i l.session.fw } } ph
  | receive (bytes : List UInt8) (l : Loop R σ) (ph : Phase) :
      LoopStep P l ph [] { l with rx := l.rx ++ bytes } ph
  | assemble (l : Loop R σ) :
      LoopStep P l .assembling []
        { l with
          serialLineBuf := (assemble l.serialLineBuf l.rx).1
          rx := (assemble l.serialLineBuf l.rx).2 } .polling
  | poll (l : Loop R σ) :
      LoopStep P l .polling (pollCard P l).1 (pollCard P l).2 .dispatching
  /-- the queue is full, or no line is there -/
  | hold (l : Loop R σ) :
      l.hasRoom = false ∨
        l.serialLineBuf.seenLf = false ∧ l.sdLineBuf.seenLf = false →
      LoopStep P l .dispatching [] l .timing
  | serialLine {l : Loop R σ} {s : Session R σ} : l.hasRoom = true →
      l.serialLineBuf.seenLf = true →
      LineDone P l.session l.serialLineBuf.data s →
      LoopStep P l .dispatching [.serialLine l]
        { l with session := s, serialLineBuf := .empty } .timing
  | cardLine {l : Loop R σ} {s : Session R σ} : l.hasRoom = true →
      l.serialLineBuf.seenLf = false → l.sdLineBuf.seenLf = true →
      LineDone P l.session l.sdLineBuf.data s →
      LoopStep P l .dispatching [.cardLine l]
        { l with session := s, sdLineBuf := .empty } .timing
  /-- a tenth of a second has passed -/
  | timeout (l : Loop R σ) :
      LoopStep P l .timing []
        { l with
          session := { l.session with fw := countTimeout l.session.fw } }
        .assembling
  | noTimeout (l : Loop R σ) : LoopStep P l .timing [] l .assembling

/-- A run of the loop, with its record, oldest event first. -/
inductive LoopRun (P : Platform σ) (l₀ : Loop R σ) (ph₀ : Phase) :
    List (Event R σ) → Loop R σ → Phase → Prop where
  | start : LoopRun P l₀ ph₀ [] l₀ ph₀
  | step {evs new : List (Event R σ)} {l l' : Loop R σ} {ph ph' : Phase} :
      LoopRun P l₀ ph₀ evs l ph → LoopStep P l ph new l' ph' →
      LoopRun P l₀ ph₀ (evs ++ new) l' ph'

variable {P : Platform σ} {l₀ l l' : Loop R σ} {ph₀ ph ph' : Phase}
  {evs new : List (Event R σ)}

/-- The lines handed over, latest first. -/
def history (evs : List (Event R σ)) : List (Session R σ × List UInt8) :=
  evs.reverse.filterMap Event.passed

theorem history_append (evs new : List (Event R σ)) :
    history (evs ++ new) = history new ++ history evs := by
  rw [history, List.reverse_append, List.filterMap_append]
  rfl

theorem pollCard_session (P : Platform σ) (l : Loop R σ) :
    history (pollCard P l).1 = [] ∧
      (pollCard P l).2.session =
        { l.session with
          fw := if l.sdLineBuf.seenLf then l.session.fw
            else sdPoll P l.session.fw } := by
  unfold pollCard sdPoll sdReadFile
  cases l.sdLineBuf.seenLf with
  | true => exact ⟨rfl, rfl⟩
  | false =>
      cases l.session.fw.sdPrinting with
      | false => exact ⟨rfl, rfl⟩
      | true =>
          rcases P.fGets maxLine l.session.fw.fs with ⟨_ | line, fs⟩
          · exact ⟨rfl, rfl⟩
          · exact ⟨rfl, rfl⟩

/-- What the loop does to the session is a run of the session. -/
theorem LoopRun.run (h : LoopRun P l₀ ph₀ evs l ph) :
    Run P l₀.session (history evs) l.session := by
  induction h with
  | start => exact .refl
  | @step evs new l l' ph ph' _ hs ih =>
      rw [history_append]
      cases hs with
      | irq i => exact ih.background (.irq i _)
      | receive bytes => exact ih
      | assemble => exact ih
      | poll =>
          obtain ⟨hnone, hsession⟩ := pollCard_session P l
          rw [hnone, hsession]
          split
          · exact ih
          · exact ih.background (.sdPoll _)
      | hold _ => exact ih
      | serialLine _ _ hl => exact ih.line hl
      | cardLine _ _ _ hl => exact ih.line hl
      | timeout => exact ih.background (.countTimeout _)
      | noTimeout => exact ih

/-- A step adds nothing to the record, or an event; lines are handed over while
dispatching. -/
theorem LoopStep.record (h : LoopStep P l ph new l' ph') :
    new = [] ∨ ∃ e, new = [e] ∧
      (e.passed = none ∨ ph = .dispatching ∧ ph' = .timing) := by
  cases h with
  | poll =>
      unfold pollCard
      split
      · split
        · exact .inr ⟨_, rfl, .inl rfl⟩
        · exact .inr ⟨_, rfl, .inl rfl⟩
      · exact .inl rfl
  | serialLine _ _ _ => exact .inr ⟨_, rfl, .inr ⟨rfl, rfl⟩⟩
  | cardLine _ _ _ _ => exact .inr ⟨_, rfl, .inr ⟨rfl, rfl⟩⟩
  | _ => exact .inl rfl

private theorem append_cons_eq_concat {α : Type} {pre post evs : List α}
    {e e' : α} (h : pre ++ e :: post = evs ++ [e']) :
    (post = [] ∧ pre = evs ∧ e = e') ∨
      ∃ post', post = post' ++ [e'] ∧ pre ++ e :: post' = evs := by
  rcases List.eq_nil_or_concat post with rfl | ⟨post', b, rfl⟩
  · obtain ⟨hpre, hlast⟩ := List.append_inj' h rfl
    exact .inl ⟨rfl, hpre, List.singleton_inj.1 hlast⟩
  · rw [List.concat_eq_append, ← List.cons_append, ← List.append_assoc] at h
    obtain ⟨hevs, hlast⟩ := List.append_inj' h rfl
    refine .inr ⟨post', ?_, hevs⟩
    rw [List.concat_eq_append, List.singleton_inj.1 hlast]

/-- A line handed over cuts a run in two. -/
theorem LoopRun.split {pre post : List (Event R σ)} {e : Event R σ}
    {x : Session R σ × List UInt8} (he : e.passed = some x)
    (h : LoopRun P l₀ ph₀ (pre ++ e :: post) l ph) :
    ∃ l₁ l₂, LoopRun P l₀ ph₀ pre l₁ .dispatching ∧
      LoopStep P l₁ .dispatching [e] l₂ .timing ∧
      LoopRun P l₂ .timing post l ph := by
  generalize hevs : pre ++ e :: post = evs at h
  induction h generalizing post with
  | start => exact absurd hevs (by simp)
  | step hrun hs ih =>
      rcases hs.record with rfl | ⟨e', rfl, hphase⟩
      · rw [List.append_nil] at hevs
        obtain ⟨l₁, l₂, hpre, hstep, hpost⟩ := ih hevs
        have hnext := hpost.step hs
        rw [List.append_nil] at hnext
        exact ⟨l₁, l₂, hpre, hstep, hnext⟩
      · rcases append_cons_eq_concat hevs with
          ⟨rfl, rfl, rfl⟩ | ⟨post', rfl, hevs'⟩
        · rcases hphase with hnone | ⟨rfl, rfl⟩
          · rw [he] at hnone
            exact absurd hnone (by simp)
          · exact ⟨_, _, hrun, hs, .start⟩
        · obtain ⟨l₁, l₂, hpre, hstep, hpost⟩ := ih hevs'
          exact ⟨l₁, l₂, hpre, hstep, hpost.step hs⟩

theorem LoopRun.append {new : List (Event R σ)}
    (h : LoopRun P l₀ ph₀ evs l ph) (h' : LoopRun P l ph new l' ph') :
    LoopRun P l₀ ph₀ (evs ++ new) l' ph' := by
  induction h' with
  | start =>
      rw [List.append_nil]
      exact h
  | step _ hs ih =>
      rw [← List.append_assoc]
      exact ih.step hs

end Steps

/-- The loop when it is entered. -/
def Loop.init (s : Session R σ) : Loop R σ := ⟨s, .empty, .empty, []⟩

/-! ## Executing the loop -/

section Turns

variable [Field R] [LinearOrder R] [HasSqrt R] [FloorRing R] {P : Platform σ}

/-- Hand over the line that is due. -/
def dispatch (P : Platform σ) (l : Loop R σ) :
    Option (List (Event R σ) × Loop R σ) :=
  if !l.hasRoom then some ([], l)
  else if l.serialLineBuf.seenLf then
    (playLine P l.session l.serialLineBuf.data).map fun s =>
      ([.serialLine l], { l with session := s, serialLineBuf := .empty })
  else if l.sdLineBuf.seenLf then
    (playLine P l.session l.sdLineBuf.data).map fun s =>
      ([.cardLine l], { l with session := s, sdLineBuf := .empty })
  else some ([], l)

theorem dispatch_step {l l' : Loop R σ} {evs : List (Event R σ)}
    (h : dispatch P l = some (evs, l')) :
    LoopStep P l .dispatching evs l' .timing := by
  unfold dispatch at h
  split at h
  · next hroom =>
      obtain ⟨rfl, rfl⟩ := Prod.mk.inj (Option.some.inj h)
      exact .hold _ (.inl (by simpa using hroom))
  · next hroom =>
    have hroom : l.hasRoom = true := by simpa using hroom
    split at h
    · next hseen =>
        obtain ⟨s, hs, heq⟩ := Option.map_eq_some_iff.1 h
        obtain ⟨rfl, rfl⟩ := Prod.mk.inj heq
        exact .serialLine hroom hseen (lineDone_of_playLine hs)
    · next hserial =>
      have hserial : l.serialLineBuf.seenLf = false := by simpa using hserial
      split at h
      · next hseen =>
          obtain ⟨s, hs, heq⟩ := Option.map_eq_some_iff.1 h
          obtain ⟨rfl, rfl⟩ := Prod.mk.inj heq
          exact .cardLine hroom hserial hseen (lineDone_of_playLine hs)
      · next hcard =>
          obtain ⟨rfl, rfl⟩ := Prod.mk.inj (Option.some.inj h)
          exact .hold _ (.inr ⟨hserial, by simpa using hcard⟩)

/-- One iteration, without interrupts, with bytes that arrive before it. -/
def turn (P : Platform σ) (l : Loop R σ) (bytes : List UInt8) :
    Option (List (Event R σ) × Loop R σ) :=
  let buf := assemble l.serialLineBuf (l.rx ++ bytes)
  let polled := pollCard P { l with serialLineBuf := buf.1, rx := buf.2 }
  (dispatch P polled.2).map fun r => (polled.1 ++ r.1, r.2)

theorem turn_run {l l' : Loop R σ} {bytes : List UInt8}
    {evs : List (Event R σ)} (h : turn P l bytes = some (evs, l')) :
    LoopRun P l .assembling evs l' .assembling := by
  obtain ⟨⟨evs', l₁⟩, hd, heq⟩ := Option.map_eq_some_iff.1 h
  obtain ⟨rfl, rfl⟩ := Prod.mk.inj heq
  have hstart : LoopRun P l .assembling [] l .assembling := .start
  have hpoll := ((hstart.step (.receive bytes _ _)).step (.assemble _)).step
    (.poll _)
  have hrun := (hpoll.step (dispatch_step hd)).step (.noTimeout _)
  rw [List.append_nil] at hrun
  exact hrun

/-- Iterations one after another, with their record. -/
def turns (P : Platform σ) (l : Loop R σ) :
    List (List UInt8) → Option (List (Event R σ) × Loop R σ)
  | [] => some ([], l)
  | bytes :: rest => do
      let r ← turn P l bytes
      let r' ← turns P r.2 rest
      return (r.1 ++ r'.1, r'.2)

theorem turns_run {l l' : Loop R σ} {input : List (List UInt8)}
    {evs : List (Event R σ)} (h : turns P l input = some (evs, l')) :
    LoopRun P l .assembling evs l' .assembling := by
  induction input generalizing l evs with
  | nil =>
      obtain ⟨rfl, rfl⟩ := Prod.mk.inj (Option.some.inj h)
      exact .start
  | cons bytes rest ih =>
      obtain ⟨r, hr, h⟩ := Option.bind_eq_some_iff.1 h
      obtain ⟨r', hr', h⟩ := Option.bind_eq_some_iff.1 h
      obtain ⟨rfl, rfl⟩ := Prod.mk.inj (Option.some.inj h)
      exact (turn_run hr).append (ih hr')

end Turns

end R2C2Firmware.Ports.AppMain
