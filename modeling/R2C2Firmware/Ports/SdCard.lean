import R2C2Firmware.Ports.CommandFrame

/-!
# What commands do to the card

The globals that belong to the card: the file object, the position and size that
are reported, and the flags.  All commands but seven leave them alone, whatever
they wait for; of those seven `M24` and `M25` change one flag.

## Main results

* `processGcodeCommand_keepsCard` — the commands that have nothing to do with
  the card.
* `m23_card`, `m28_card` — selecting a file, to read and to write.
* `takeLine_card` — what a line can do to the card.
-/

set_option linter.unusedSectionVars false

namespace R2C2Firmware.Ports.SdCard

open Relation
open R2C2Firmware.Verified.Number
open R2C2Firmware.Verified.BusyWait
open R2C2Firmware.Ports.Config
open R2C2Firmware.Ports.MotionPlanner
open R2C2Firmware.Ports.Stepper
open R2C2Firmware.Ports.Temp
open R2C2Firmware.Ports.Sermsg
open R2C2Firmware.Ports.GcodeParse
open R2C2Firmware.Ports.Mendel
open R2C2Firmware.Ports.GcodeProcess
open R2C2Firmware.Ports.MainLoop

variable {R σ : Type}

/-- The globals of the card. -/
structure Card (σ : Type) where
  fs : σ
  filesize : Int
  sdPos : Int
  sdPrinting : Bool
  sdActive : Bool
  sdWritingFile : Bool

/-- The card of a firmware. -/
def card (fw : Firmware R σ) : Card σ where
  fs := fw.fs
  filesize := fw.filesize
  sdPos := fw.sdPos
  sdPrinting := fw.sdPrinting
  sdActive := fw.sdActive
  sdWritingFile := fw.sdWritingFile

/-- The card is as it was. -/
def SameCard (fw fw' : Firmware R σ) : Prop := card fw' = card fw

instance sameCard_isPreorder :
    IsPreorder (Firmware R σ) (SameCard : Firmware R σ → _ → Prop) where
  refl _ := rfl
  trans _ _ _ h h' := h'.trans h

/-- The program leaves the card alone. -/
abbrev KeepsCard {α : Type} (x : FwM R σ α) : Prop := Moves SameCard x

theorem digitalWrite_card (port bit : Nat) (state : Bool)
    (fw : Firmware R σ) : card (digitalWrite port bit state fw) = card fw := by
  unfold digitalWrite
  dsimp only
  split <;> rfl

theorem serveIrq_card (P : Platform σ) (i : Irq) (fw : Firmware R σ) :
    SameCard fw (serveIrq P i fw) := by
  unfold SameCard
  cases i with
  | step =>
      unfold serveIrq
      dsimp only
      split <;> rfl
  | accel =>
      unfold serveIrq
      dsimp only
      split <;> rfl
  | temperature extruder bed =>
      show card (temperatureTimerCallback extruder bed fw) = _
      unfold temperatureTimerCallback
      dsimp only
      split
      · rfl
      · rw [digitalWrite_card, digitalWrite_card]
        rfl
  | buzzerOff => rfl
  | endstops x y z => rfl

theorem countTimeout_card (fw : Firmware R σ) :
    SameCard fw (countTimeout fw) := by
  unfold countTimeout
  split <;> rfl

section Handlers

variable [Field R] [LinearOrder R] [HasSqrt R] [FloorRing R]
  {P : Platform σ}

/-! ## Commands that leave the card alone -/

theorem frame_card : Frame P (SameCard : Firmware R σ → Firmware R σ → Prop) where
  irq := serveIrq_card P
  machine _ _ _ := rfl
  text _ _ := rfl
  effect _ _ _ := rfl
  extruder _ _ _ _ _ := rfl
  table _ _ _ _ := rfl
  timeout _ _ := rfl

theorem serialWrite_keepsCard (text : List UInt8) :
    KeepsCard (serialWrite text : FwM R σ Unit) :=
  Moves.modify fun _ => rfl

/-- The reply that ends a command. -/
theorem reply_keepsCard (out : Outcome R) :
    KeepsCard (do
      when (!out.replySent) (serialWritestr "ok\r\n")
      return out.change : FwM R σ (Change R)) :=
  Moves.return (Moves.when fun _ => serialWrite_keepsCard _) _

/-- The commands that have nothing to do with the card. -/
theorem processGcodeCommand_keepsCard {c : GcodeCommand R}
    (h : Command.usesCard (commandOf c) = false) :
    KeepsCard (processGcodeCommand P c : FwM R σ (Change R)) :=
  frame_card.processGcodeCommand (fun _ _ _ _ => rfl)
    (fun huses => absurd huses (by simp [h])) (fun _ _ _ => rfl) fun _ _ _ => rfl

/-! ## Commands of the card -/

/-- What a command does to the card. -/
def cardCommand (P : Platform σ) (c : GcodeCommand R) (k : Card σ) : Card σ :=
  match commandOf c with
  | .m .m21 => { k with sdPrinting := false, sdActive := true }
  | .m .m22 => { k with sdPrinting := false, sdActive := false }
  | .m .m23 =>
      let res := P.fOpen (filenameOf c) false (P.fClose k.fs)
      { k with
        fs := res.2
        filesize := if res.1 = 0 then uint32 (P.fSize res.2) else k.filesize
        sdPos := if res.1 = 0 then 0 else k.sdPos
        sdPrinting := false
        sdActive := true }
  | .m .m24 => { k with sdPrinting := k.sdPrinting || k.sdActive }
  | .m .m25 => { k with sdPrinting := false }
  | .m .m26 =>
      if k.sdActive && c.seenS then
        { k with sdPos := uint32 c.s, fs := P.fLseek (uint32 c.s) k.fs }
      else k
  | .m .m28 =>
      let res := P.fOpen (filenameOf c) true (P.fClose k.fs)
      { k with
        fs := res.2
        sdPrinting := false
        sdActive := true
        sdWritingFile := if res.1 = 0 then true else k.sdWritingFile }
  | _ => k

theorem cardCommand_of_not_usesCard {c : GcodeCommand R}
    (h : Command.usesCard (commandOf c) = false) (k : Card σ) :
    cardCommand P c k = k := by
  unfold cardCommand
  cases hc : commandOf c with
  | m code =>
      rw [hc] at h
      cases code <;> first | rfl | exact absurd h (by decide)
  | g code | badG g | badM m | nothing => rfl

/-- Opening a file. -/
theorem sdOpen_card (path : List UInt8) (write : Bool)
    (w : World (Firmware R σ) Irq) :
    ∃ fw', (sdOpen P path write : FwM R σ Bool) w =
        (some (decide ((P.fOpen path write w.state.fs).1 = 0)),
          ⟨fw', w.irqs⟩) ∧
      card fw' =
        { card w.state with fs := (P.fOpen path write w.state.fs).2 } := by
  unfold sdOpen
  rw [get_bind_apply, modify_bind_apply]
  by_cases hres : (P.fOpen path write w.state.fs).1 = 0
  · rw [if_pos hres, decide_eq_true hres]
    exact ⟨_, rfl, rfl⟩
  · rw [if_neg hres, decide_eq_false hres]
    exact ⟨_, rfl, rfl⟩

/-- `M23` closes the file that is open, and opens the one it names for reading. -/
theorem m23_card (c : GcodeCommand R) (w : World (Firmware R σ) Irq) :
    card (m23 P c w).2.state =
      let res := P.fOpen (filenameOf c) false (P.fClose w.state.fs)
      { card w.state with
        fs := res.2
        filesize :=
          if res.1 = 0 then uint32 (P.fSize res.2) else w.state.filesize
        sdPos := if res.1 = 0 then 0 else w.state.sdPos
        sdPrinting := false
        sdActive := true } := by
  unfold m23 sdInitialise sdClose
  rw [modify_bind_apply, modify_bind_apply, modify_bind_apply, bind_apply]
  obtain ⟨fw', hopen, hcard⟩ := sdOpen_card (P := P) (filenameOf c) false
    ⟨{ w.state with
        sdActive := true
        sdPrinting := false
        fs := P.fClose w.state.fs }, w.irqs⟩
  rw [hopen]
  dsimp only at hcard ⊢
  by_cases hres : (P.fOpen (filenameOf c) false (P.fClose w.state.fs)).1 = 0
  · rw [decide_eq_true hres, if_pos rfl, if_pos hres, if_pos hres,
      modify_bind_apply, get_bind_apply]
    show { card fw' with filesize := uint32 (P.fSize (card fw').fs), sdPos := 0 }
      = _
    rw [hcard]
    rfl
  · rw [decide_eq_false hres, if_neg (by simp), if_neg hres, if_neg hres]
    exact hcard

/-- `M26` sets the position in the file, if a card is active and an S is given. -/
theorem m26_card (c : GcodeCommand R) (w : World (Firmware R σ) Irq) :
    card (m26 P c w).2.state =
      if w.state.sdActive && c.seenS then
        { card w.state with
          sdPos := uint32 c.s
          fs := P.fLseek (uint32 c.s) w.state.fs }
      else card w.state := by
  by_cases hseek : (w.state.sdActive && c.seenS) = true
  · rw [m26, modify_apply, if_pos hseek, if_pos hseek]
    rfl
  · rw [m26, modify_apply, if_neg hseek, if_neg hseek]

/-- `M28` closes the file that is open, and opens the one it names for writing. -/
theorem m28_card (c : GcodeCommand R) (w : World (Firmware R σ) Irq) :
    card (m28 P c w).2.state =
      let res := P.fOpen (filenameOf c) true (P.fClose w.state.fs)
      { card w.state with
        fs := res.2
        sdPrinting := false
        sdActive := true
        sdWritingFile :=
          if res.1 = 0 then true else w.state.sdWritingFile } := by
  unfold m28 sdInitialise sdClose
  rw [modify_bind_apply, modify_bind_apply, modify_bind_apply, bind_apply]
  obtain ⟨fw', hopen, hcard⟩ := sdOpen_card (P := P) (filenameOf c) true
    ⟨{ w.state with
        sdActive := true
        fs := P.fClose w.state.fs
        sdPrinting := false }, w.irqs⟩
  rw [hopen]
  dsimp only at hcard ⊢
  by_cases hres : (P.fOpen (filenameOf c) true (P.fClose w.state.fs)).1 = 0
  · rw [decide_eq_true hres, if_pos rfl, if_pos hres]
    show { card fw' with sdWritingFile := true } = _
    rw [hcard]
    rfl
  · rw [decide_eq_false hres, if_neg (by simp), if_neg hres]
    exact hcard

/-- A program that is followed by one that leaves the card alone does to the card what
it does by itself. -/
theorem bind_card {α β : Type} {x : FwM R σ α} {f : α → FwM R σ β}
    (hf : ∀ a, KeepsCard (f a)) (w : World (Firmware R σ) Irq) :
    card ((x >>= f) w).2.state = card (x w).2.state := by
  rw [bind_apply]
  rcases x w with ⟨_ | a, w'⟩
  · rfl
  · exact hf a w'

/-- A handler that is followed by nothing but the reply. -/
theorem processGcodeCommand_of_handler {c : GcodeCommand R} {x : FwM R σ Unit}
    (h : runCommand P c = do x; return Outcome.plain)
    (w : World (Firmware R σ) Irq) :
    card (processGcodeCommand P c w).2.state = card (x w).2.state := by
  unfold processGcodeCommand
  rw [bind_card reply_keepsCard, h, bind_card fun _ => Moves.pure _]

/-- What a command does to the card, whatever interrupts arrive. -/
theorem processGcodeCommand_card (c : GcodeCommand R)
    (w : World (Firmware R σ) Irq) :
    card (processGcodeCommand P c w).2.state = cardCommand P c (card w.state) := by
  by_cases huses : Command.usesCard (commandOf c) = true
  · have hhandler : ∀ {x : FwM R σ Unit} {code : MCode},
        commandOf c = .m code →
        (processM P c code = do x; return Outcome.plain) →
        card (processGcodeCommand P c w).2.state = card (x w).2.state := by
      intro x code hc hx
      refine processGcodeCommand_of_handler ?_ w
      unfold runCommand
      rw [hc]
      exact hx
    unfold cardCommand
    cases hc : commandOf c with
    | g code | badG g | badM m | nothing =>
        rw [hc] at huses
        exact absurd huses (by simp [Command.usesCard])
    | m code =>
        rw [hc] at huses
        cases code with
        | m21 => exact hhandler hc rfl
        | m22 => exact hhandler hc rfl
        | m23 => rw [hhandler hc rfl, m23_card]; rfl
        | m24 => exact hhandler hc rfl
        | m25 => exact hhandler hc rfl
        | m26 =>
            rw [hhandler hc rfl]
            exact m26_card c w
        | m28 => rw [hhandler hc rfl, m28_card]; rfl
        | _ => exact absurd huses (by decide)
  · rw [Bool.not_eq_true] at huses
    rw [cardCommand_of_not_usesCard huses]
    exact processGcodeCommand_keepsCard huses w

/-! ## Lines -/

/-- The line names a command of the card. -/
def IsCardCommand (c : GcodeCommand R) : Prop :=
  c.seenM = true ∧ 20 ≤ c.m ∧ c.m ≤ 29

instance (c : GcodeCommand R) : Decidable (IsCardCommand c) :=
  inferInstanceAs (Decidable (_ ∧ _ ∧ _))

/-- What an accepted line does to the card while a file is being written. -/
def cardWrite (P : Platform σ) (c : GcodeCommand R) (data : List UInt8)
    (k : Card σ) : Card σ :=
  if IsCardCommand c then
    if c.m = 29 then { k with sdWritingFile := false, fs := P.fClose k.fs }
    else k
  else { k with fs := (P.fWrite (storedLine data) k.fs).2 }

theorem writeLine_card (c : GcodeCommand R) (data : List UInt8)
    (w : World (Firmware R σ) Irq) :
    card (writeLine P c data w).2.state = cardWrite P c data (card w.state) := by
  unfold writeLine cardWrite
  by_cases hcard : c.seenM = true ∧ 20 ≤ c.m ∧ c.m ≤ 29
  · rw [if_pos hcard, if_pos (show IsCardCommand c from hcard)]
    split
    · rfl
    · rfl
  · rw [if_neg hcard, if_neg (show ¬IsCardCommand c from hcard)]
    have hreply : ∀ written : Bool, KeepsCard
        (if written then serialWritestr "ok\r\n"
          else serialWritestr "error writing to file\r\n" : FwM R σ Unit) :=
      fun _ => Moves.ite (fun _ => serialWrite_keepsCard _)
        fun _ => serialWrite_keepsCard _
    rw [bind_card hreply]
    rfl

theorem rejectLine_keepsCard (c : GcodeCommand R) :
    KeepsCard (rejectLine c : FwM R σ Unit) :=
  serialWrite_keepsCard _

/-- What a line does to the card: it is stored, or its command is carried out, or
it is refused. -/
def lineCard (P : Platform σ) (s : Session R σ) (data : List UInt8) : Card σ :=
  if checksumAccepted (parsed s data) then
    if s.fw.sdWritingFile then cardWrite P (parsed s data) data (card s.fw)
    else cardCommand P (parsed s data) (card s.fw)
  else card s.fw

theorem takeLine_card (s : Session R σ) (data : List UInt8) (irqs : List Irq) :
    card (takeLine P s data irqs).2.state = lineCard P s data := by
  rw [takeLine_state]
  unfold lineCard
  split
  · split
    · exact writeLine_card _ data ⟨s.fw, irqs⟩
    · exact processGcodeCommand_card _ ⟨s.fw, irqs⟩
  · exact rejectLine_keepsCard _ ⟨s.fw, irqs⟩

theorem lineDone_card {s s' : Session R σ} {data : List UInt8}
    (h : LineDone P s data s') : card s'.fw = lineCard P s data := by
  obtain ⟨irqs, rest, h⟩ := h
  have hcard := takeLine_card (P := P) s data irqs
  rw [h] at hcard
  exact hcard

/-! ## The file -/

/-- The file object is as it was, and so is whether it is being written. -/
def SameFile (fw fw' : Firmware R σ) : Prop :=
  fw'.fs = fw.fs ∧ fw'.sdWritingFile = fw.sdWritingFile

theorem SameCard.sameFile {fw fw' : Firmware R σ} (h : SameCard fw fw') :
    SameFile fw fw' :=
  ⟨congrArg Card.fs h, congrArg Card.sdWritingFile h⟩

/-- The commands of the card that can change what is read next. -/
def Command.selects : Command → Bool
  | .m .m20 | .m .m21 | .m .m22 | .m .m23 | .m .m26 | .m .m28 | .m .m29 => true
  | _ => false

/-- A command that selects neither a file nor a place in it. -/
theorem cardCommand_sameFile {c : GcodeCommand R}
    (h : Command.selects (commandOf c) = false) (k : Card σ) :
    (cardCommand P c k).fs = k.fs ∧
      (cardCommand P c k).sdWritingFile = k.sdWritingFile := by
  unfold cardCommand
  cases hc : commandOf c with
  | m code =>
      rw [hc] at h
      cases code <;> first | exact ⟨rfl, rfl⟩ | exact absurd h (by decide)
  | g code | badG g | badM m | nothing => exact ⟨rfl, rfl⟩

/-- A line that selects neither a file nor a place in it, while none is being
written. -/
theorem takeLine_sameFile {s : Session R σ} {data : List UInt8}
    (hsd : s.fw.sdWritingFile = false)
    (h : Processes s data → Command.selects (commandOf (parsed s data)) = false)
    (irqs : List Irq) : SameFile s.fw (takeLine P s data irqs).2.state := by
  have hcard := takeLine_card (P := P) s data irqs
  rw [lineCard, hsd] at hcard
  split at hcard
  · next hsum =>
    rw [if_neg (by decide)] at hcard
    have hsame := cardCommand_sameFile (P := P) (h ⟨hsum, hsd⟩) (card s.fw)
    rw [← hcard] at hsame
    exact hsame
  · exact SameCard.sameFile hcard

end Handlers

end R2C2Firmware.Ports.SdCard
