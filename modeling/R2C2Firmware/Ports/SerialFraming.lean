import R2C2Firmware.Ports.AppMain
import R2C2Firmware.Verified.Framing

/-!
# The lines of the serial port

The main loop pops bytes until a line is complete, and leaves the others in the
port while the line waits for room in the queue.  Bytes come in bursts, between
any two steps of the loop.

However they come, the lines handed over are the stream cut behind each CR and
LF.  The loop at any time: what has been popped of the stream has been cut, and
the buffer holds the last line or the beginning of the next one.

## Main results

* `LoopRun.fed` — a run of the loop receives some bursts.
* `assemble_framed` — popping bytes.
* `serial_framing` — the lines handed over.
-/

set_option linter.unusedSectionVars false

namespace R2C2Firmware.Ports.AppMain

open R2C2Firmware.Verified
open R2C2Firmware.Verified.Number
open R2C2Firmware.Ports.Sermsg
open R2C2Firmware.Ports.GcodeParse
open R2C2Firmware.Ports.Mendel
open R2C2Firmware.Ports.MainLoop

variable {R σ : Type}

/-! ## The buffer -/

/-- The buffer, and the lines before it, when `used` has been popped. -/
structure Framed (used : List UInt8) (before : List (List UInt8))
    (buf : LineBuffer) : Prop where
  lines : before ++ buf.pending = Framing.lines isLineEnd maxLine used
  ended : buf.seenLf = true → Framing.unfinished isLineEnd used = []
  begun : buf.seenLf = false →
    buf.data = (Framing.unfinished isLineEnd used).take maxLine

/-- What of a piece fits, with one more character. -/
theorem take_snoc (piece : List UInt8) (c : UInt8) :
    (piece ++ [c]).take maxLine =
      if (piece.take maxLine).length < maxLine then piece.take maxLine ++ [c]
      else piece.take maxLine := by
  rw [List.length_take]
  split
  · next hroom =>
    have hpiece : piece.take maxLine = piece :=
      List.take_of_length_le (by omega)
    rw [hpiece, List.take_of_length_le]
    rw [List.length_append, List.length_singleton]
    omega
  · next hfull =>
    rw [List.take_append_of_le_length (by omega)]

/-- A character that is put into a line buffer without a full line keeps the framing. -/
theorem Framed.push {used : List UInt8} {before : List (List UInt8)}
    {buf : LineBuffer} (h : Framed used before buf) (hseen : buf.seenLf = false)
    (c : UInt8) : Framed (used ++ [c]) before (buf.push c) := by
  have hbegun := h.begun hseen
  have hlines := h.lines
  rw [LineBuffer.pending, if_neg (by simp [hseen]), List.append_nil] at hlines
  have hdata : (if buf.data.length < maxLine then buf.data ++ [c] else buf.data) =
      (Framing.unfinished isLineEnd used ++ [c]).take maxLine := by
    rw [hbegun, take_snoc]
  have hend : (c = 10 ∨ c = 13) ↔ isLineEnd c = true := by
    simp [isLineEnd]
  have hsnoc := @Framing.lines_snoc _ isLineEnd maxLine used c
  have hrest := @Framing.unfinished_snoc _ isLineEnd used c
  unfold LineBuffer.push
  dsimp only
  rw [hdata]
  by_cases hc : isLineEnd c = true
  · rw [if_pos (hend.2 hc)]
    rw [if_pos hc] at hrest
    by_cases hnew : Framing.unfinished isLineEnd used = []
    · -- a line of nothing but its end
      rw [hnew] at hsnoc ⊢
      rw [if_neg (by simp), List.append_nil] at hsnoc
      rw [if_neg (by simp [maxLine])]
      refine ⟨?_, fun hs => absurd (hseen.symm.trans hs) (by decide), fun _ => ?_⟩
      · rw [hsnoc, ← hlines, LineBuffer.pending]
        simp [hseen]
      · rw [hrest]
        rfl
    · rw [if_pos ⟨hc, hnew⟩] at hsnoc
      have hlong : 1 < ((Framing.unfinished isLineEnd used ++ [c]).take
          maxLine).length := by
        have hpos := List.length_pos_iff.2 hnew
        have hmax : 1 < maxLine := by decide
        rw [List.length_take, List.length_append, List.length_singleton]
        omega
      rw [if_pos hlong]
      refine ⟨?_, fun _ => hrest, fun hs => absurd hs (by simp)⟩
      rw [hsnoc, hlines]
      rfl
  · rw [if_neg (mt hend.1 hc)]
    rw [if_neg hc] at hrest
    rw [if_neg (fun hboth => hc hboth.1), List.append_nil] at hsnoc
    refine ⟨?_, fun hs => absurd (hseen.symm.trans hs) (by decide), fun _ => ?_⟩
    · rw [hsnoc, ← hlines, LineBuffer.pending]
      simp [hseen]
    · rw [hrest]

/-- The characters that a line leaves in the port. -/
theorem assemble_framed {used : List UInt8} {before : List (List UInt8)}
    {buf : LineBuffer} (h : Framed used before buf) (rx : List UInt8) :
    ∃ popped, rx = popped ++ (assemble buf rx).2 ∧
      Framed (used ++ popped) before (assemble buf rx).1 := by
  induction rx generalizing used buf with
  | nil =>
      refine ⟨[], rfl, ?_⟩
      rw [List.append_nil]
      exact h
  | cons c rx ih =>
      unfold assemble
      split
      · refine ⟨[], rfl, ?_⟩
        rw [List.append_nil]
        exact h
      · next hseen =>
        obtain ⟨popped, hrx, hframed⟩ := ih (h.push (by simpa using hseen) c)
        refine ⟨c :: popped, congrArg (c :: ·) hrx, ?_⟩
        rw [List.append_assoc] at hframed
        exact hframed

/-! ## Runs -/

/-- The serial lines handed over. -/
def serialLines (evs : List (Event R σ)) : List (List UInt8) :=
  evs.filterMap fun
    | .serialLine l => some l.serialLineBuf.data
    | _ => none

section Fed

variable [Field R] [LinearOrder R] [HasSqrt R] [FloorRing R]

/-- A run that has received some bursts.  The other steps only take bytes out of
the port. -/
inductive Fed (P : Platform σ) (l₀ : Loop R σ) (ph₀ : Phase) :
    List (List UInt8) → List (Event R σ) → Loop R σ → Phase → Prop where
  | start : Fed P l₀ ph₀ [] [] l₀ ph₀
  | burst {bursts : List (List UInt8)} {evs : List (Event R σ)} {l : Loop R σ}
      {ph : Phase} (h : Fed P l₀ ph₀ bursts evs l ph) (bytes : List UInt8) :
      Fed P l₀ ph₀ (bursts ++ [bytes]) evs { l with rx := l.rx ++ bytes } ph
  | step {bursts : List (List UInt8)} {evs new : List (Event R σ)}
      {l l' : Loop R σ} {ph ph' : Phase} (h : Fed P l₀ ph₀ bursts evs l ph)
      (hs : LoopStep P l ph new l' ph') (hrx : l'.rx <:+ l.rx) :
      Fed P l₀ ph₀ bursts (evs ++ new) l' ph'

variable {P : Platform σ} {l₀ l : Loop R σ} {ph₀ ph : Phase}
  {evs : List (Event R σ)} {bursts : List (List UInt8)}

theorem pollCard_serial (P : Platform σ) (l : Loop R σ) :
    serialLines (pollCard P l).1 = [] ∧
      (pollCard P l).2.serialLineBuf = l.serialLineBuf ∧
      (pollCard P l).2.rx = l.rx := by
  unfold pollCard
  split
  · split <;> exact ⟨rfl, rfl, rfl⟩
  · exact ⟨rfl, rfl, rfl⟩

theorem assemble_suffix (buf : LineBuffer) (rx : List UInt8) :
    (assemble buf rx).2 <:+ rx := by
  induction rx generalizing buf with
  | nil => exact List.suffix_refl _
  | cons c rx ih =>
      unfold assemble
      split
      · exact List.suffix_refl _
      · exact (ih _).trans (List.suffix_cons c rx)

theorem serialLines_append (evs new : List (Event R σ)) :
    serialLines (evs ++ new) = serialLines evs ++ serialLines new :=
  List.filterMap_append ..

/-- A step that receives nothing pops some bytes. -/
theorem loopStep_framed {new : List (Event R σ)} {l' : Loop R σ} {ph' : Phase}
    {used : List UInt8} (hs : LoopStep P l ph new l' ph')
    (hrx : l'.rx <:+ l.rx) (h : Framed used (serialLines evs) l.serialLineBuf) :
    ∃ popped, l.rx = popped ++ l'.rx ∧
      Framed (used ++ popped) (serialLines (evs ++ new)) l'.serialLineBuf := by
  rw [serialLines_append]
  cases hs with
  | assemble =>
      obtain ⟨popped, hpopped, hframed⟩ := assemble_framed h l.rx
      exact ⟨popped, hpopped, by simpa [serialLines] using hframed⟩
  | poll =>
      obtain ⟨hnone, hbuf, hkeep⟩ := pollCard_serial P l
      refine ⟨[], hkeep.symm, ?_⟩
      rw [hnone, hbuf, List.append_nil, List.append_nil]
      exact h
  | serialLine _ hseen _ =>
      have hended := h.ended hseen
      have hlines := h.lines
      rw [LineBuffer.pending, if_pos hseen] at hlines
      refine ⟨[], rfl, ?_⟩
      rw [List.append_nil]
      refine ⟨?_, fun hs => absurd hs Bool.false_ne_true, fun _ => ?_⟩
      · rw [← hlines]
        exact List.append_nil _
      · rw [hended]
        rfl
  | receive bytes =>
      have hnil : bytes = [] := by
        have hlen := hrx.length_le
        rw [List.length_append] at hlen
        exact List.length_eq_zero_iff.1 (by omega)
      refine ⟨[], by rw [hnil]; exact (List.append_nil _).symm, ?_⟩
      simpa [serialLines] using h
  | _ => exact ⟨[], rfl, by simpa [serialLines] using h⟩

/-- The stream in the run of a loop: what has been popped, and what has not. -/
theorem Fed.framed {s : Session R σ}
    (h : Fed P (.init s) .assembling bursts evs l ph) :
    ∃ used, bursts.flatten = used ++ l.rx ∧
      Framed used (serialLines evs) l.serialLineBuf := by
  induction h with
  | start =>
      exact ⟨[], rfl, rfl, fun hs => absurd hs Bool.false_ne_true, fun _ => rfl⟩
  | @burst bursts evs l ph _ bytes ih =>
      obtain ⟨used, hstream, hframed⟩ := ih
      refine ⟨used, ?_, hframed⟩
      rw [List.flatten_append, hstream, List.append_assoc]
      simp
  | @step bursts evs new l l' ph ph' _ hs hrx ih =>
      obtain ⟨used, hstream, hframed⟩ := ih
      obtain ⟨popped, hpopped, hnext⟩ := loopStep_framed hs hrx hframed
      refine ⟨used ++ popped, ?_, hnext⟩
      rw [hstream, hpopped, List.append_assoc]

/-- The serial lines handed over and the one that waits are those of the part of
the stream that has been popped, and the buffer keeps what has not ended.  So
they are the first lines of the stream, and all of them when the port is empty
and no line waits. -/
theorem serial_framing {s : Session R σ}
    (h : Fed P (.init s) .assembling bursts evs l ph) :
    let stream := bursts.flatten
    (∃ used, stream = used ++ l.rx ∧
        serialLines evs ++ l.serialLineBuf.pending =
          Framing.lines isLineEnd maxLine used ∧
        if l.serialLineBuf.seenLf then Framing.unfinished isLineEnd used = []
        else l.serialLineBuf.data =
          (Framing.unfinished isLineEnd used).take maxLine) ∧
      serialLines evs <+: Framing.lines isLineEnd maxLine stream ∧
      (l.rx = [] → l.serialLineBuf.seenLf = false →
        serialLines evs = Framing.lines isLineEnd maxLine stream ∧
          l.serialLineBuf.data =
            (Framing.unfinished isLineEnd stream).take maxLine) := by
  intro stream
  obtain ⟨used, hstream, hframed⟩ := h.framed
  have hlines := hframed.lines
  refine ⟨⟨used, hstream, hlines, ?_⟩, ?_, fun hrx hseen => ?_⟩
  · split
    · next hseen => exact hframed.ended hseen
    · next hseen => exact hframed.begun (by simpa using hseen)
  · have hfirst := @Framing.lines_append _ isLineEnd maxLine used l.rx
    rw [← hlines, ← hstream] at hfirst
    exact (List.prefix_append _ _).trans hfirst
  · have hall : stream = used := by
      rw [show stream = used ++ l.rx from hstream, hrx, List.append_nil]
    rw [LineBuffer.pending, if_neg (by simp [hseen]), List.append_nil] at hlines
    rw [hall]
    exact ⟨hlines, hframed.begun hseen⟩

/-- An iteration into which a burst comes. -/
theorem turn_fed {l' : Loop R σ} {bytes : List UInt8} {new : List (Event R σ)}
    (h : Fed P l₀ ph₀ bursts evs l .assembling)
    (ht : turn P l bytes = some (new, l')) :
    Fed P l₀ ph₀ (bursts ++ [bytes]) (evs ++ new) l' .assembling := by
  obtain ⟨⟨evs', l₁⟩, hd, heq⟩ := Option.map_eq_some_iff.1 ht
  obtain ⟨rfl, rfl⟩ := Prod.mk.inj heq
  have hkeep : ∀ {l l' : Loop R σ} {evs : List (Event R σ)},
      dispatch P l = some (evs, l') → l'.rx = l.rx := by
    intro l l' evs hd
    cases dispatch_step hd <;> rfl
  have hassembled := (h.burst bytes).step (.assemble _) (assemble_suffix _ _)
  have hpolled := hassembled.step (.poll _) (by
    rw [(pollCard_serial P _).2.2])
  have hdone := (hpolled.step (dispatch_step hd) (by rw [hkeep hd])).step
    (.noTimeout _) (List.suffix_refl _)
  simpa [List.append_assoc] using hdone

end Fed

/-- One iteration, in which a line and a half arrive. -/
def firstTurn : List (Event ℚ Unit) × Loop ℚ Unit :=
  (turn noCard (.init defaultStart) (str "M105\r\nG1")).get (by decide +kernel)

/-- The line is handed over; the rest stays in the port. -/
theorem serial_framing_firstTurn :
    serialLines firstTurn.1 = [str "M105\r"] ∧ firstTurn.2.rx = str "\nG1" ∧
      serialLines firstTurn.1 <+:
        Framing.lines isLineEnd maxLine [str "M105\r\nG1"].flatten := by
  have hfed : Fed noCard (.init defaultStart) .assembling
      ([] ++ [str "M105\r\nG1"]) ([] ++ firstTurn.1) firstTurn.2 .assembling :=
    turn_fed .start (Option.some_get _).symm
  exact ⟨by decide +kernel, by decide +kernel, (serial_framing hfed).2.1⟩

end R2C2Firmware.Ports.AppMain
