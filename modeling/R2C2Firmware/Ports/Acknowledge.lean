import R2C2Firmware.Verified.TextLines
import R2C2Firmware.Ports.ParserInvariant

/-!
# One acknowledgement per line

The host sends the next line when it has read `ok` or `rs`.  So every line
should be answered by one of them, exactly once.

Replies come from many places: from the end of `process_gcode_command`, from the
commands that set `reply_sent`, from the branch that writes to a file, and from
the checksum test.  Three of them send nothing: `M114` while inches are
selected, `M29` while a file is being written, and a line that cannot be written
to the file.  In every other case there is exactly one acknowledgement.

## Main results

* `acknowledged_iff` — exactly one acknowledgement, except in those cases.
* `not_acknowledged` — `M114` in inch mode.
-/

set_option linter.unusedSectionVars false

namespace R2C2Firmware.Ports.Acknowledge

open R2C2Firmware.Verified
open R2C2Firmware.Verified.Number
open R2C2Firmware.Verified.BusyWait
open R2C2Firmware.Verified.TextLines
open R2C2Firmware.Ports.Config
open R2C2Firmware.Ports.MotionPlanner
open R2C2Firmware.Ports.Temp
open R2C2Firmware.Ports.Sermsg
open R2C2Firmware.Ports.GcodeParse
open R2C2Firmware.Ports.Mendel
open R2C2Firmware.Ports.GcodeProcess
open R2C2Firmware.Ports.MainLoop

/-! ## Acknowledgement lines -/

/-- A line that begins with `ok` or `rs `. -/
def isAck (line : List UInt8) : Bool :=
  (str "ok").isPrefixOf line || (str "rs ").isPrefixOf line

/-- The number of acknowledgement lines of a text. -/
def acks (text : List UInt8) : Nat := TextLines.count 10 isAck text

/-- The text adds `k` acknowledgement lines. -/
abbrev Acks (k : Nat) (text : List UInt8) : Prop := Lines 10 isAck k text

/-- The text begins with neither `o` nor `rs`: no acknowledgement begins so. -/
def plainText : List UInt8 → Bool
  | c :: rest => c != 111 && (c != 114 || rest.head?.any (· != 115))
  | [] => false

/-- A line that starts like a plain text is no acknowledgement, whatever follows. -/
theorem isAck_of_plainText {a : List UInt8} (ha : plainText a = true)
    (b : List UInt8) : isAck (a ++ b) = false := by
  rcases a with _ | ⟨c, a⟩
  · exact absurd ha (by decide)
  · simp only [plainText, Bool.and_eq_true, Bool.or_eq_true, bne_iff_ne] at ha
    obtain ⟨ho, hrs⟩ := ha
    have hok : (111 == c) = false := beq_eq_false_iff_ne.2 (Ne.symm ho)
    show ((111 == c && _) || (114 == c && List.isPrefixOf _ (a ++ b))) = false
    rw [hok, Bool.false_and, Bool.false_or]
    rcases hrs with hr | hs
    · rw [beq_eq_false_iff_ne.2 (Ne.symm hr), Bool.false_and]
    · rcases a with _ | ⟨d, a⟩
      · exact absurd hs (by simp)
      · have hd : (115 == d) = false := by
          rw [beq_eq_false_iff_ne]
          exact Ne.symm (by simpa using hs)
        show (114 == c && (115 == d && _)) = false
        rw [hd, Bool.false_and, Bool.and_false]

/-- What makes a line an acknowledgement stands at its start. -/
theorem isAck_append {a : List UInt8} (ha : isAck a = true) (b : List UInt8) :
    isAck (a ++ b) = true := by
  unfold isAck at ha ⊢
  simp only [Bool.or_eq_true, List.isPrefixOf_iff_prefix] at ha ⊢
  exact ha.imp (fun h => h.trans (List.prefix_append _ _))
    fun h => h.trans (List.prefix_append _ _)

/-- The rest of an output line. -/
abbrev Rest (t : List UInt8) : Prop := LineEnd 10 t

theorem rest_crlf : Rest (str "\r\n") := ⟨str "\r", rfl, by decide⟩

/-- A line of plain text in front of other lines adds no acknowledgement. -/
theorem acks_plain {a t : List UInt8} (ht : Rest t) (ha : (10 : UInt8) ∉ a)
    (hp : plainText a = true) : Acks 0 (a ++ t) :=
  Lines.start ht ha (isAck_of_plainText hp)

/-- An acknowledgement in front of lines that hold none is the only one. -/
theorem acks_ack {a t : List UInt8} (ht : Rest t) (ha : (10 : UInt8) ∉ a)
    (hp : isAck a = true) : Acks 1 (a ++ t) :=
  Lines.start ht ha (isAck_append hp)

/-- The reply `ok` is one acknowledgement. -/
theorem acks_ok : Acks 1 (str "ok\r\n") :=
  acks_ack rest_crlf (a := str "ok") (by decide) (by decide)

/-- A printed number holds no line feed. -/
theorem no_lf_of_numeric {text : List UInt8} (h : ∀ b ∈ text, IsNumeric b) :
    (10 : UInt8) ∉ text := by
  intro hmem
  rcases h 10 hmem with hdigit | heq | heq
  · exact absurd hdigit.1 (by decide)
  · exact absurd heq (by decide)
  · exact absurd heq (by decide)

theorem no_lf_uint32 (z : Int) :
    (10 : UInt8) ∉ serwriteUint32 (uint32 z).toNat :=
  no_lf_of_numeric (serwriteUint32_numeric (uint32_toNat_lt z))

theorem no_lf_int32 (z : Int) : (10 : UInt8) ∉ serwriteInt32 (int32 z) :=
  no_lf_of_numeric (serwriteInt32_numeric (int32_range z).2)

variable {R σ : Type} [Field R] [LinearOrder R] [HasSqrt R] [FloorRing R]
variable {P : Platform σ}

theorem no_lf_double (v : R) : (10 : UInt8) ∉ serwriteDouble v :=
  no_lf_of_numeric (serwriteDouble_numeric v)

/-! ## What programs send -/

/-- When the program returns `a`, it has sent a text with `k a`
acknowledgements. -/
def Sends {α : Type} (k : α → Nat) (x : FwM R σ α) : Prop :=
  ∀ w a w', x w = (some a, w') →
    ∃ t, w'.state.tx = w.state.tx ++ t ∧ Acks (k a) t

/-- The program sends no acknowledgement. -/
abbrev Silent {α : Type} (x : FwM R σ α) : Prop := Sends (fun _ => 0) x

theorem sends_pure {α : Type} {k : α → Nat} {a : α} (h : k a = 0) :
    Sends k (pure a : FwM R σ α) := by
  intro w a' w' hw
  obtain ⟨ha, rfl⟩ := Prod.mk.inj hw
  rw [← Option.some.inj ha, h]
  exact ⟨[], (List.append_nil _).symm, Lines.nil⟩

/-- The acknowledgements of two programs run one after the other add up. -/
theorem Sends.bind {α β : Type} {j : Nat} {k k' : β → Nat} {x : FwM R σ α}
    {f : α → FwM R σ β} (hx : Sends (fun _ => j) x) (hf : ∀ a, Sends k (f a))
    (hk : ∀ b, k' b = j + k b) : Sends k' (x >>= f) := by
  intro w b w' hw
  obtain ⟨a, w₁, hxw, hfw⟩ := bind_eq_some.1 hw
  obtain ⟨s, hs, hsk⟩ := hx w a w₁ hxw
  obtain ⟨t, ht, htk⟩ := hf a w₁ b w' hfw
  refine ⟨s ++ t, by rw [ht, hs, List.append_assoc], ?_⟩
  rw [hk]
  exact hsk.append htk

/-- A program that sends no acknowledgement leaves the count to what follows it. -/
theorem Silent.bind {α β : Type} {k : β → Nat} {x : FwM R σ α}
    {f : α → FwM R σ β} (hx : Silent x) (hf : ∀ a, Sends k (f a)) :
    Sends k (x >>= f) :=
  Sends.bind hx hf fun _ => (Nat.zero_add _).symm

theorem silent_get : Silent (get : FwM R σ (Firmware R σ)) := by
  intro w a w' hw
  obtain ⟨-, rfl⟩ := Prod.mk.inj hw
  exact ⟨[], (List.append_nil _).symm, Lines.nil⟩

/-- A change of the state that sends nothing acknowledges nothing. -/
theorem silent_modify {f : Firmware R σ → Firmware R σ}
    (h : ∀ fw, (f fw).tx = fw.tx) : Silent (modify f : FwM R σ Unit) := by
  intro w a w' hw
  obtain ⟨-, rfl⟩ := Prod.mk.inj hw
  exact ⟨[], (h _).trans (List.append_nil _).symm, Lines.nil⟩

/-- A text acknowledges as often as its lines do. -/
theorem sends_serialWrite {k : Nat} {text : List UInt8} (h : Acks k text) :
    Sends (fun _ => k) (serialWrite text : FwM R σ Unit) := by
  intro w a w' hw
  obtain ⟨-, rfl⟩ := Prod.mk.inj hw
  exact ⟨text, rfl, h⟩

theorem silent_when {b : Bool} {x : FwM R σ Unit} (hx : b = true → Silent x) :
    Silent (when b x) := by
  cases b with
  | true => exact hx rfl
  | false => exact sends_pure rfl

theorem sends_ite {α : Type} {k : α → Nat} {c : Prop} [Decidable c]
    {x y : FwM R σ α} (hx : Sends k x) (hy : Sends k y) :
    Sends k (if c then x else y) := by
  split
  · exact hx
  · exact hy

/-- No interrupt sends anything. -/
theorem serveIrq_tx (i : Irq) (fw : Firmware R σ) :
    (serveIrq P i fw).tx = fw.tx := by
  cases i with
  | step =>
      show (if fw.machine.timers.enabled 1 then _ else _ : Firmware R σ).tx = _
      split <;> rfl
  | accel =>
      show (if fw.machine.timers.enabled 0 then _ else _ : Firmware R σ).tx = _
      split <;> rfl
  | temperature extruder bed =>
      show (temperatureTimerCallback extruder bed fw).tx = _
      unfold temperatureTimerCallback
      dsimp only
      split <;> rfl
  | buzzerOff => rfl
  | endstops x y z => rfl

/-- The relation of having sent the same text. -/
def SameTx (fw fw' : Firmware R σ) : Prop := fw'.tx = fw.tx

instance sameTx_isPreorder :
    IsPreorder (Firmware R σ) (SameTx : Firmware R σ → _ → Prop) where
  refl _ := rfl
  trans _ _ _ h h' := Eq.trans h' h

/-- Waiting sends nothing, whatever interrupts arrive. -/
theorem silent_spinUntil (cond : Firmware R σ → Bool) :
    Silent (spinUntil (serveIrq P) cond : FwM R σ Unit) := by
  intro w a w' hw
  have h : SameTx w.state w'.state :=
    (Moves.spinUntil (fun i fw => serveIrq_tx (P := P) i fw) cond).of_eq hw
  exact ⟨[], h.trans (List.append_nil _).symm, Lines.nil⟩

/-! ## Handlers that are silent -/

theorem Silent.return {x : FwM R σ Unit} (hx : Silent x) {α : Type}
    {k : α → Nat} {a : α} (h : k a = 0) : Sends k (do x; return a) :=
  hx.bind fun _ => sends_pure h

theorem silent_modifyAfter {cond : Firmware R σ → Bool}
    {f : Firmware R σ → Firmware R σ} (h : ∀ fw, (f fw).tx = fw.tx) :
    Silent (do spinUntil (serveIrq P) cond; modify f : FwM R σ Unit) :=
  (silent_spinUntil cond).bind fun _ => silent_modify h

/-- Queueing a request sends nothing, also when it has to wait for room. -/
theorem planBufferActionWait_silent (request : ActionRequest R) :
    Silent (planBufferActionWait P request : FwM R σ Unit) :=
  silent_modifyAfter fun _ => by rfl

/-- A move sends nothing, whether it goes into the queue or only sets the feed rate. -/
theorem enqueueMoved_silent (t : Target R) :
    Silent (enqueueMoved P t : FwM R σ Unit) :=
  silent_get.bind fun _ => sends_ite (planBufferActionWait_silent _)
    (silent_modify fun _ => by rfl)

theorem specialMoveXY_silent (x y f : R) :
    Silent (specialMoveXY P x y f : FwM R σ Unit) :=
  silent_get.bind fun _ => planBufferActionWait_silent _

theorem specialMoveZ_silent (z f : R) :
    Silent (specialMoveZ P z f : FwM R σ Unit) :=
  silent_get.bind fun _ => planBufferActionWait_silent _

theorem specialMoveE_silent (e f : R) :
    Silent (specialMoveE P e f : FwM R σ Unit) :=
  silent_get.bind fun _ => sends_ite (enqueueMoved_silent _) (sends_pure rfl)

theorem synchQueue_silent : Silent (synchQueue P : FwM R σ Unit) :=
  silent_spinUntil _

theorem onPlanner_silent (f : Configuration R → Planner R → Planner R) :
    Silent (onPlanner f : FwM R σ Unit) :=
  silent_modify fun _ => by rfl

/-- Setting the origin sends nothing. -/
theorem setCurrentPosition_silent (t : Target R) :
    Silent (setCurrentPosition t : FwM R σ Unit) :=
  onPlanner_silent _

/-- Homing an axis sends nothing. -/
theorem zeroX_silent : Silent (zeroX P : FwM R σ Unit) :=
  silent_get.bind fun _ => (specialMoveXY_silent _ _ _).bind fun _ =>
    synchQueue_silent.bind fun _ =>
    silent_get.bind fun _ => (specialMoveXY_silent _ _ _).bind fun _ =>
    silent_get.bind fun _ => (specialMoveXY_silent _ _ _).bind fun _ =>
    synchQueue_silent.bind fun _ =>
    silent_get.bind fun _ => setCurrentPosition_silent _

theorem zeroY_silent : Silent (zeroY P : FwM R σ Unit) :=
  silent_get.bind fun _ => (specialMoveXY_silent _ _ _).bind fun _ =>
    synchQueue_silent.bind fun _ =>
    silent_get.bind fun _ => (specialMoveXY_silent _ _ _).bind fun _ =>
    silent_get.bind fun _ => (specialMoveXY_silent _ _ _).bind fun _ =>
    synchQueue_silent.bind fun _ =>
    silent_get.bind fun _ => setCurrentPosition_silent _

theorem zeroZ_silent : Silent (zeroZ P : FwM R σ Unit) :=
  silent_get.bind fun _ => (specialMoveZ_silent _ _).bind fun _ =>
    synchQueue_silent.bind fun _ =>
    silent_get.bind fun _ => (specialMoveZ_silent _ _).bind fun _ =>
    synchQueue_silent.bind fun _ =>
    silent_get.bind fun _ => (specialMoveZ_silent _ _).bind fun _ =>
    synchQueue_silent.bind fun _ =>
    silent_get.bind fun _ => setCurrentPosition_silent _

theorem zeroE_silent : Silent (zeroE : FwM R σ Unit) :=
  silent_get.bind fun _ => setCurrentPosition_silent _

/-- Homing all axes sends nothing. -/
theorem homeAll_silent : Silent (homeAll P : FwM R σ Unit) :=
  silent_get.bind fun _ => (enqueueMoved_silent _).bind fun _ =>
    zeroX_silent.bind fun _ => zeroY_silent.bind fun _ =>
    zeroZ_silent.bind fun _ => zeroE_silent

/-- `G28` leaves its acknowledgement to the end of the command. -/
theorem g28_silent (c : GcodeCommand R) : Silent (g28 P c : FwM R σ Unit) :=
  (silent_when fun _ => zeroX_silent).bind fun _ =>
    (silent_when fun _ => zeroY_silent).bind fun _ =>
    (silent_when fun _ => zeroZ_silent).bind fun _ =>
    (silent_when fun _ => zeroE_silent).bind fun _ =>
    silent_when fun _ => homeAll_silent

/-- What a handler has acknowledged when it returns. -/
def acknowledged (out : Outcome R) : Nat := if out.replySent then 1 else 0

/-- The outcomes of the G-codes leave the reply to the caller. -/
theorem processG_sends (c : GcodeCommand R) (code : GCode) :
    Sends acknowledged (processG P c code : FwM R σ (Outcome R)) := by
  cases code with
  | g0 =>
      exact Silent.return (silent_get.bind fun _ => enqueueMoved_silent _) rfl
  | g1 =>
      exact Silent.return (silent_get.bind fun _ => enqueueMoved_silent _) rfl
  | g4 =>
      exact Silent.return
        (synchQueue_silent.bind fun _ => silent_modify fun _ => by rfl) rfl
  | g20 => exact sends_pure rfl
  | g21 => exact sends_pure rfl
  | g28 => exact Silent.return (g28_silent c) rfl
  | g30 =>
      exact Silent.return (silent_get.bind fun _ =>
        (enqueueMoved_silent _).bind fun _ => g28_silent c) rfl
  | g90 => exact sends_pure rfl
  | g91 => exact sends_pure rfl
  | g92 =>
      exact Silent.return (synchQueue_silent.bind fun _ =>
        silent_get.bind fun _ => setCurrentPosition_silent _) rfl

/-! ## Texts of the M-codes -/

/-- A literal line that is no acknowledgement. -/
theorem sends_literal {s b : String} (hs : str s = str b ++ str "\r\n")
    (hb : (10 : UInt8) ∉ str b) (hplain : plainText (str b) = true) :
    Silent (serialWritestr s : FwM R σ Unit) :=
  sends_serialWrite (hs ▸ acks_plain rest_crlf hb hplain)

/-- A name of the file system holds no line feed. -/
theorem FatName.no_lf (name : FatName) : (10 : UInt8) ∉ name.bytes := by
  intro hmem
  exact absurd (name.printable 10 hmem) (by decide)

/-- A path inside the card. -/
structure IsPath (path : List UInt8) : Prop where
  no_lf : (10 : UInt8) ∉ path
  start : path = [] ∨ path.head? = some 47

/-- A path that is extended by a name still starts with a slash and holds no line feed.
-/
theorem IsPath.append {path : List UInt8} (h : IsPath path) (name : FatName) :
    (10 : UInt8) ∉ path ++ str "/" ++ name.bytes ∧
      (path ++ str "/" ++ name.bytes).head? = some 47 := by
  constructor
  · intro hmem
    simp only [List.mem_append] at hmem
    rcases hmem with (hmem | hmem) | hmem
    · exact h.no_lf hmem
    · exact absurd hmem (by decide)
    · exact FatName.no_lf name hmem
  · rcases h.start with rfl | hhead
    · rfl
    · cases path with
      | nil => exact absurd hhead (by simp)
      | cons c path => exact hhead

/-- A line that starts with a slash is no acknowledgement. -/
theorem plainText_of_slash {a : List UInt8} (h : a.head? = some 47) :
    plainText a = true := by
  cases a with
  | nil => exact absurd h (by simp)
  | cons c a =>
      obtain rfl := Option.some.inj h
      rfl

/-- Every line of a directory listing begins with a slash. -/
theorem sdListDirSub_acks (path : List UInt8) (d : DirList)
    (hpath : IsPath path) : Acks 0 (sdListDirSub path d).1 := by
  induction d generalizing path with
  | done ok => exact Lines.nil
  | file name rest ih =>
      obtain ⟨hlf, hhead⟩ := hpath.append name
      rw [sdListDirSub]
      split
      · exact ih path hpath
      · exact (acks_plain rest_crlf hlf (plainText_of_slash hhead)).append
          (ih path hpath)
  | dir name sub rest ihsub ih =>
      obtain ⟨hlf, hhead⟩ := hpath.append name
      have hline : Acks 0 (path ++ str "/" ++ name.bytes ++ str "/\r\n") :=
        acks_plain ⟨str "/\r", rfl, by decide⟩ hlf (plainText_of_slash hhead)
      have hsub := ihsub _ ⟨hlf, .inr hhead⟩
      rw [sdListDirSub]
      split
      · exact ih path hpath
      · dsimp only
        split
        · exact (hline.append hsub).append (ih path hpath)
        · exact hline.append hsub

/-- The listing of `M20` holds no acknowledgement, whatever the files are called. -/
theorem m20_silent : Silent (m20 P : FwM R σ Unit) :=
  Silent.bind (sends_literal (b := "Begin file list") rfl (by decide) rfl)
    fun _ => Silent.bind
      (silent_get.bind fun _ => sends_serialWrite
        (sdListDirSub_acks [] _ ⟨by simp, .inl rfl⟩))
      fun _ => sends_literal (b := "End file list") rfl (by decide) rfl

/-- The two texts about a file that has been opened acknowledge nothing. -/
theorem opened_acks {name : List UInt8} (hname : (10 : UInt8) ∉ name)
    (size : Int) :
    Acks 0 (sersendf "File opened: %s Size: %d\r\n"
      [(.string name : Arg R), .int size]) := by
  show Acks 0 (str "File opened: " ++ (name ++ (str " Size: " ++
    (serwriteInt32 (int32 size) ++ str "\r\n"))))
  refine acks_plain ?_ (by decide) rfl
  exact ((rest_crlf.append (no_lf_int32 size)).append (by decide)).append hname

/-- A file name that the parser has stored holds no line feed. -/
theorem filenameOf_no_lf {c : GcodeCommand R} (hc : ParserInv c) :
    (10 : UInt8) ∉ filenameOf c :=
  fun hmem => hc.filename (List.takeWhile_subset _ hmem)

/-- A failed `sd_open` begins the line that the next text ends. -/
theorem sdOpen_silent {path : List UInt8} {write : Bool}
    {yes : FwM R σ Unit} {text : List UInt8} (hyes : Silent yes)
    (htext : Rest text) :
    Silent (do
      let opened ← sdOpen P path write
      if opened then yes else serialWrite text : FwM R σ Unit) := by
  intro w a w' hw
  obtain ⟨opened, w₁, hopen, hrest⟩ := bind_eq_some.1 hw
  unfold sdOpen at hopen
  rw [get_bind_apply, modify_bind_apply] at hopen
  split at hopen
  · obtain ⟨hopened, rfl⟩ := Prod.mk.inj hopen
    rw [← Option.some.inj hopened, if_pos rfl] at hrest
    obtain ⟨t, ht, hk⟩ := hyes _ _ _ hrest
    exact ⟨t, ht, hk⟩
  · obtain ⟨hopened, rfl⟩ := Prod.mk.inj hopen
    rw [← Option.some.inj hopened] at hrest
    obtain ⟨-, rfl⟩ := Prod.mk.inj hrest
    refine ⟨_, List.append_assoc _ _ _, ?_⟩
    rw [List.append_assoc]
    exact acks_plain (htext.append (no_lf_int32 _)) (by decide) rfl

/-- `M23` reports on the file it opens, but does not acknowledge. -/
theorem m23_silent {c : GcodeCommand R} (hc : ParserInv c) :
    Silent (m23 P c : FwM R σ Unit) :=
  (silent_modify fun _ => by rfl).bind fun _ =>
    (silent_modify fun _ => by rfl).bind fun _ =>
    (silent_modify fun _ => by rfl).bind fun _ =>
    sdOpen_silent
      ((silent_modify fun _ => by rfl).bind fun _ =>
        silent_get.bind fun _ =>
        Silent.bind (sends_serialWrite (opened_acks (filenameOf_no_lf hc) _))
          fun _ => (silent_modify fun _ => by rfl).bind fun _ =>
            sends_serialWrite
              (acks_plain rest_crlf (a := str "File selected") (by decide) rfl))
      ⟨str "file.open failed\r", rfl, by decide⟩

theorem m27_silent : Silent (m27 : FwM R σ Unit) := by
  refine silent_get.bind fun fw => sends_ite ?_ ?_
  · refine sends_serialWrite ?_
    show Acks 0 (str "SD printing byte " ++ (serwriteInt32 (int32 fw.sdPos) ++
      (str "/" ++ (serwriteInt32 (int32 fw.filesize) ++ str "\r\n"))))
    refine acks_plain ?_ (by decide) rfl
    exact ((rest_crlf.append (no_lf_int32 _)).append (by decide)).append
      (no_lf_int32 _)
  · exact sends_literal (b := "Not SD printing") rfl (by decide) rfl

/-- `M28` reports on the file it creates, but does not acknowledge. -/
theorem m28_silent {c : GcodeCommand R} (hc : ParserInv c) :
    Silent (m28 P c : FwM R σ Unit) := by
  have hname := filenameOf_no_lf hc
  refine (silent_modify fun _ => by rfl).bind fun _ =>
    (silent_modify fun _ => by rfl).bind fun _ =>
    (silent_modify fun _ => by rfl).bind fun _ => sdOpen_silent ?_ ?_
  · refine (silent_modify fun _ => by rfl).bind fun _ => sends_serialWrite ?_
    show Acks 0 (str "Writing to file: " ++ (filenameOf c ++ str "\r\n"))
    exact acks_plain (rest_crlf.append hname) (by decide) rfl
  · show Rest (str "open failed, File: " ++ (filenameOf c ++ str ".\r\n"))
    have hdot : Rest (str ".\r\n") := ⟨str ".\r", rfl, by decide⟩
    exact (hdot.append hname).append (by decide)

/-- Text between two conversions is sent as it is. -/
theorem sersendf_text {l : List UInt8} (h : (37 : UInt8) ∉ l)
    (writestr : List UInt8 → Option (List UInt8))
    (writeDouble : R → Option (List UInt8)) (cs : List UInt8) (args : List (Arg R)) :
    sersendfLoop writestr writeDouble 0 (l ++ cs) args =
      (sersendfLoop writestr writeDouble 0 cs args).map (l ++ ·) := by
  induction l with
  | nil => exact (Option.map_id_apply (x := _)).symm
  | cons c l ih =>
      rw [List.mem_cons, not_or] at h
      rw [List.cons_append, sersendfLoop, if_neg (by decide), if_neg (Ne.symm h.1),
        ih h.2, Option.map_map]
      rfl

/-- The text of `M115`; a `%%` prints nothing. -/
theorem m115_text :
    sersendf ("FIRMWARE_NAME:Teacup_R2C2 " ++
      "FIRMWARE_URL:http%%3A//github.com/bitboxelectronics/R2C2 " ++
      "PROTOCOL_VERSION:1.0 MACHINE_TYPE:Mendel\r\n") ([] : List (Arg R)) =
    str "FIRMWARE_NAME:Teacup_R2C2 FIRMWARE_URL:http" ++
      (str ("3A//github.com/bitboxelectronics/R2C2 " ++
        "PROTOCOL_VERSION:1.0 MACHINE_TYPE:Mendel\r\n") ++ []) := by
  have hformat : str ("FIRMWARE_NAME:Teacup_R2C2 " ++
      "FIRMWARE_URL:http%%3A//github.com/bitboxelectronics/R2C2 " ++
      "PROTOCOL_VERSION:1.0 MACHINE_TYPE:Mendel\r\n") =
    str "FIRMWARE_NAME:Teacup_R2C2 FIRMWARE_URL:http" ++ 37 :: 37 ::
      (str ("3A//github.com/bitboxelectronics/R2C2 " ++
        "PROTOCOL_VERSION:1.0 MACHINE_TYPE:Mendel\r\n") ++ []) := by
    decide +kernel
  have hskip : ∀ cs, sersendfLoop some (fun v : R => some (serwriteDouble v)) 0
      (37 :: 37 :: cs) [] =
        (sersendfLoop some (fun v : R => some (serwriteDouble v)) 0 cs []).map
          ([] ++ ·) := fun _ => rfl
  rw [sersendf, hformat, sersendf_text (by decide +kernel), hskip,
    sersendf_text (by decide +kernel), sersendfLoop]
  rfl

/-- The identification of `M115` is no acknowledgement. -/
theorem m115_silent : Silent (m115 : FwM R σ Unit) := by
  refine sends_serialWrite ?_
  rw [m115_text]
  refine acks_plain ⟨str ("3A//github.com/bitboxelectronics/R2C2 " ++
    "PROTOCOL_VERSION:1.0 MACHINE_TYPE:Mendel\r"), ?_, ?_⟩ ?_ rfl
  · decide +kernel
  · decide +kernel
  · decide +kernel

/-- The endstops of `M119` are no acknowledgement. -/
theorem m119_silent : Silent (m119 : FwM R σ Unit) := by
  refine silent_get.bind fun fw => sends_serialWrite ?_
  have hlevel : ∀ a, (10 : UInt8) ∉
      (if fw.endstop a then str "H " else str "L ") := by
    intro a
    split <;> decide
  simp only [List.append_assoc]
  refine acks_plain ?_ (by decide) rfl
  exact ((((rest_crlf.append (hlevel .z)).append (by decide)).append
    (hlevel .y)).append (by decide)).append (hlevel .x)

/-- The names of the settings. -/
def settingNames : List String :=
  ["steps_per_mm_x", "steps_per_mm_y", "steps_per_mm_z", "steps_per_mm_e",
   "maximum_feedrate_x", "maximum_feedrate_y", "maximum_feedrate_z",
   "maximum_feedrate_e", "acceleration", "junction_deviation",
   "search_feedrate_x", "search_feedrate_y", "search_feedrate_z",
   "search_feedrate_e", "homing_feedrate_x", "homing_feedrate_y",
   "homing_feedrate_z", "home_direction_x", "home_direction_y",
   "home_direction_z", "home_pos_x", "home_pos_y", "home_pos_z",
   "printing_vol_x", "printing_vol_y", "printing_vol_z", "have_dump_pos",
   "dump_pos_x", "dump_pos_y", "have_rest_pos", "rest_pos_x", "rest_pos_y",
   "have_wipe_pos", "wipe_pos_x", "wipe_pos_y", "steps_per_revolution_e",
   "wait_on_temp", "enable_extruder_1", "dhcp", "ip_addr", "ip_mask", "ip_gw",
   "httpd", "httpd_port", "http_docroot"]

/-- The settings in the order of the table. -/
theorem configLookup_names :
    (configLookup : List (ConfigItem R)).map (·.name) = settingNames := by
  rfl

/-- No setting is named like an acknowledgement. -/
theorem settingNames_plain :
    ∀ name ∈ settingNames,
      plainText (str name) = true ∧ (10 : UInt8) ∉ str name := by
  decide +kernel

/-- A setting is printed without an acknowledgement. -/
theorem printItem_acks (cfg : Configuration R) {item : ConfigItem R}
    (hitem : item ∈ (configLookup : List (ConfigItem R))) :
    Acks 0 (printItem cfg item) := by
  have hname : item.name ∈ settingNames := by
    rw [← configLookup_names (R := R)]
    exact List.mem_map_of_mem hitem
  have h := settingNames_plain item.name hname
  unfold printItem
  split
  · next read _ _ _ =>
      show Acks 0 (str item.name ++ (str " = " ++
        (serwriteInt32 (int32 (read cfg)) ++ str "\r\n")))
      exact acks_plain ((rest_crlf.append (no_lf_int32 _)).append (by decide))
        h.2 h.1
  · next read _ _ _ =>
      show Acks 0 (str item.name ++ (str " = " ++
        (serwriteDouble (read cfg) ++ str "\r\n")))
      exact acks_plain ((rest_crlf.append (no_lf_double _)).append (by decide))
        h.2 h.1
  · exact Lines.nil

/-- The settings of `M600` are printed without an acknowledgement. -/
theorem printConfig_silent : Silent (printConfig : FwM R σ Unit) :=
  silent_get.bind fun fw => sends_serialWrite
    (Lines.flatMap fun _ hitem => printItem_acks fw.config hitem)

/-! ## Replies -/

/-- The text of `M105`: two temperatures between fixed texts. -/
theorem tempPrint_text (t b : Int) :
    sersendf "ok T:%u.0 B:%u.0\r\n" [(.int t : Arg R), .int b] =
      str "ok T:" ++ (serwriteUint32 (uint32 t).toNat ++ (str ".0 B:" ++
        (serwriteUint32 (uint32 b).toNat ++ (str ".0\r\n" ++ [])))) := by
  have hformat : str "ok T:%u.0 B:%u.0\r\n" =
      str "ok T:" ++ 37 :: 117 ::
        (str ".0 B:" ++ 37 :: 117 :: (str ".0\r\n" ++ [])) := by
    decide
  have hunsigned : ∀ (v : Int) cs args,
      sersendfLoop some (fun v : R => some (serwriteDouble v)) 0 (37 :: 117 :: cs)
          (.int v :: args) =
        (sersendfLoop some (fun v : R => some (serwriteDouble v)) 0 cs args).map
          (serwriteUint32 (uint32 v).toNat ++ ·) := fun _ _ _ => rfl
  rw [sersendf, hformat, sersendf_text (by decide), hunsigned,
    sersendf_text (by decide), hunsigned, sersendf_text (by decide), sersendfLoop]
  rfl

/-- The reply of `M105` is its acknowledgement. -/
theorem tempPrint_sends :
    Sends (fun _ => 1) (tempPrint : FwM R σ Unit) := by
  refine silent_get.bind fun fw => sends_serialWrite ?_
  rw [tempPrint_text]
  have hzero : Rest (str ".0\r\n" ++ []) := ⟨str ".0\r", rfl, by decide⟩
  exact acks_ack (((hzero.append (no_lf_uint32 _)).append (by decide)).append
    (no_lf_uint32 _)) (by decide) rfl

/-- The reply of `M114` is its acknowledgement. -/
theorem report_position (x y z e : R) :
    Acks 1 (sersendf "ok C: X:%g Y:%g Z:%g E:%g\r\n"
      [.double x, .double y, .double z, .double e]) := by
  show Acks 1 (str "ok C: X:" ++ (serwriteDouble x ++ (str " Y:" ++
    (serwriteDouble y ++ (str " Z:" ++ (serwriteDouble z ++ (str " E:" ++
      (serwriteDouble e ++ str "\r\n"))))))))
  exact acks_ack (((((((rest_crlf.append (no_lf_double _)).append
    (by decide)).append (no_lf_double _)).append (by decide)).append
    (no_lf_double _)).append (by decide)).append (no_lf_double _)) (by decide)
    rfl

/-- An `M200` without an axis replies with the scales, which is its acknowledgement. -/
theorem reportSteps_sends :
    Sends (fun _ => 1) (reportSteps : FwM R σ Unit) := by
  refine silent_get.bind fun fw => sends_serialWrite ?_
  show Acks 1 (str "ok X" ++ (serwriteDouble (fw.config.stepsPerMm .x) ++
    (str " Y" ++ (serwriteDouble (fw.config.stepsPerMm .y) ++
    (str " Z" ++ (serwriteDouble (fw.config.stepsPerMm .z) ++
    (str " E" ++ (serwriteDouble (fw.config.stepsPerMm .e) ++
      str "\r\n"))))))))
  exact acks_ack (((((((rest_crlf.append (no_lf_double _)).append
    (by decide)).append (no_lf_double _)).append (by decide)).append
    (no_lf_double _)).append (by decide)).append (no_lf_double _)) (by decide)
    rfl

/-- An `M202` without an axis replies with the feed rates, which is its acknowledgement.
-/
theorem reportFeedrates_sends :
    Sends (fun _ => 1) (reportFeedrates : FwM R σ Unit) := by
  refine silent_get.bind fun fw => sends_serialWrite ?_
  show Acks 1 (str "ok X" ++
    (serwriteInt32 (int32 (fw.config.maximumFeedrate .x)) ++ (str " Y" ++
    (serwriteInt32 (int32 (fw.config.maximumFeedrate .y)) ++ (str " Z" ++
    (serwriteInt32 (int32 (fw.config.maximumFeedrate .z)) ++ (str " E" ++
    (serwriteInt32 (int32 (fw.config.maximumFeedrate .e)) ++
      str "\r\n"))))))))
  exact acks_ack (((((((rest_crlf.append (no_lf_int32 _)).append
    (by decide)).append (no_lf_int32 _)).append (by decide)).append
    (no_lf_int32 _)).append (by decide)).append (no_lf_int32 _)) (by decide)
    rfl

/-- An `M206` without a value replies with the acceleration, which is its
acknowledgement. -/
theorem reportAcceleration_sends :
    Sends (fun _ => 1) (reportAcceleration : FwM R σ Unit) := by
  refine silent_get.bind fun fw => sends_serialWrite ?_
  show Acks 1 (str "ok X" ++ (serwriteDouble fw.config.acceleration ++
    str "\r\n"))
  exact acks_ack (rest_crlf.append (no_lf_double _)) (by decide) rfl

/-- A command that has replied is not acknowledged once more. -/
theorem Sends.replied {x : FwM R σ Unit} (hx : Sends (fun _ => 1) x) :
    Sends acknowledged
      (do x; return Outcome.replied : FwM R σ (Outcome R)) := by
  intro w out w' hw
  obtain ⟨_, w₁, hxw, hret⟩ := bind_eq_some.1 hw
  obtain ⟨hout, rfl⟩ := Prod.mk.inj hret
  rw [← Option.some.inj hout]
  exact hx _ _ _ hxw

/-- `M500` and `M501` reply, or leave the acknowledgement to the end of the command. -/
theorem tableEntry_sends (sensor : Sensor) (c : GcodeCommand R) :
    Sends acknowledged (tableEntry sensor c : FwM R σ (Outcome R)) := by
  refine sends_ite ?_ (sends_ite ?_ ?_)
  · exact Silent.return (silent_modify fun _ => by rfl) rfl
  · refine silent_get.bind fun fw => Sends.replied (sends_serialWrite ?_)
    show Acks 1 (str "ok [" ++ (serwriteInt32 (int32 c.s) ++ (str "] = " ++
      (serwriteInt32 (int32 (tempGetTableEntry sensor (uint16 c.s) fw.temp)) ++
        str "\r\n"))))
    exact acks_ack (((rest_crlf.append (no_lf_int32 _)).append
      (by decide)).append (no_lf_int32 _)) (by decide) rfl
  · exact Silent.return
      (sends_literal (b := "E: bad param") rfl (by decide) rfl) rfl

/-! ## M-codes -/

theorem m26_silent (c : GcodeCommand R) : Silent (m26 P c : FwM R σ Unit) := by
  refine silent_modify fun fw => ?_
  split <;> rfl

/-- Setting a temperature sends nothing. -/
theorem tempSet_silent (t : Int) (sensor : Sensor) :
    Silent (tempSet t sensor : FwM R σ Unit) :=
  silent_modify fun _ => by rfl

theorem setConfig_silent (f : Configuration R → Configuration R) :
    Silent (setConfig f : FwM R σ Unit) :=
  silent_modify fun _ => by rfl

theorem enqueueWaitTemp_silent : Silent (enqueueWaitTemp P : FwM R σ Unit) :=
  planBufferActionWait_silent _

theorem m101_silent : Silent (m101 P : FwM R σ Unit) :=
  (silent_modify fun _ => by rfl).bind fun _ => silent_get.bind fun _ =>
    silent_when fun _ => specialMoveE_silent _ _

theorem m103_silent : Silent (m103 P : FwM R σ Unit) :=
  (silent_modify fun _ => by rfl).bind fun _ => silent_get.bind fun _ =>
    silent_when fun _ => specialMoveE_silent _ _

/-- `M104` sends nothing, also when it waits for room in the queue. -/
theorem m104_silent (c : GcodeCommand R) : Silent (m104 P c : FwM R σ Unit) :=
  silent_get.bind fun _ => silent_when fun _ =>
    (tempSet_silent _ _).bind fun _ => silent_when fun _ =>
      enqueueWaitTemp_silent

/-- `M109` sends nothing; what waits is the queue. -/
theorem m109_silent (c : GcodeCommand R) : Silent (m109 P c : FwM R σ Unit) :=
  silent_get.bind fun _ => silent_when fun _ =>
    (tempSet_silent _ _).bind fun _ => enqueueWaitTemp_silent

theorem enablePins_silent (disabled : Bool) :
    Silent (enablePins disabled : FwM R σ Unit) :=
  silent_modify fun _ => by rfl

theorem m190_silent : Silent (m190 : FwM R σ Unit) :=
  (enablePins_silent false).bind fun _ => silent_modify fun _ => by rfl

theorem m300_silent (c : GcodeCommand R) : Silent (m300 P c : FwM R σ Unit) :=
  (silent_spinUntil _).bind fun _ => silent_modify fun _ => by rfl

theorem m542_silent (c : GcodeCommand R) : Silent (m542 P c : FwM R σ Unit) :=
  silent_get.bind fun _ => silent_when fun _ =>
    (silent_when fun _ => enqueueMoved_silent _).bind fun _ =>
    silent_get.bind fun _ => enqueueMoved_silent _

theorem m551_silent (c : GcodeCommand R) : Silent (m551 P c : FwM R σ Unit) :=
  silent_when fun _ => specialMoveE_silent _ _

/-- The line whose reply is forgotten: `M114` while inches are selected. -/
def ForgetsReply (c : GcodeCommand R) : Prop :=
  commandOf c = .m .m114 ∧ c.optionInches = true

/-- In millimetres `M114` replies with the position. -/
theorem m114_sends {c : GcodeCommand R} (h : c.optionInches = false) :
    Sends (fun _ => 1) (m114 c : FwM R σ Unit) := by
  refine silent_get.bind fun fw => ?_
  rw [h]
  exact sends_serialWrite (report_position _ _ _ _)

/-- Every M command is acknowledged once, except an `M114` in inches. -/
theorem processM_sends {c : GcodeCommand R} (hc : ParserInv c) {code : MCode}
    (hforget : code = .m114 → c.optionInches = false) :
    Sends acknowledged (processM P c code : FwM R σ (Outcome R)) := by
  cases code with
  | m20 => exact m20_silent.return rfl
  | m21 =>
      exact Silent.return
        ((silent_modify fun _ => by rfl).bind fun _ =>
          silent_modify fun _ => by rfl) rfl
  | m22 => exact Silent.return (silent_modify fun _ => by rfl) rfl
  | m23 => exact (m23_silent hc).return rfl
  | m24 => exact Silent.return (silent_modify fun _ => by rfl) rfl
  | m25 => exact Silent.return (silent_modify fun _ => by rfl) rfl
  | m26 => exact (m26_silent c).return rfl
  | m27 => exact m27_silent.return rfl
  | m28 => exact (m28_silent hc).return rfl
  | m101 => exact m101_silent.return rfl
  | m103 => exact m103_silent.return rfl
  | m104 => exact (m104_silent c).return rfl
  | m105 => exact tempPrint_sends.replied
  | m106 => exact Silent.return (silent_modify fun _ => by rfl) rfl
  | m107 => exact Silent.return (silent_modify fun _ => by rfl) rfl
  | m108 =>
      exact Silent.return
        (silent_when fun _ => silent_modify fun _ => by rfl) rfl
  | m109 => exact (m109_silent c).return rfl
  | m110 => exact sends_pure rfl
  | m112 => exact Silent.return (silent_modify fun _ => by rfl) rfl
  | m114 => exact (m114_sends (hforget rfl)).replied
  | m115 => exact m115_silent.return rfl
  | m119 => exact m119_silent.return rfl
  | m140 => exact (tempSet_silent _ _).return rfl
  | m190 => exact m190_silent.return rfl
  | m191 => exact Silent.return (enablePins_silent true) rfl
  | m200 =>
      exact sends_ite (Sends.replied reportSteps_sends)
        (Silent.bind (setConfig_silent _) fun _ =>
          silent_get.bind fun _ => sends_pure rfl)
  | m202 =>
      exact sends_ite (Sends.replied reportFeedrates_sends)
        (Silent.return (setConfig_silent _) rfl)
  | m206 =>
      exact sends_ite (Sends.replied reportAcceleration_sends)
        (Silent.return (setConfig_silent _) rfl)
  | m227 =>
      exact Silent.return
        (silent_when fun _ => silent_modify fun _ => by rfl) rfl
  | m228 => exact Silent.return (silent_modify fun _ => by rfl) rfl
  | m229 =>
      exact Silent.return
        (silent_when fun _ => silent_modify fun _ => by rfl) rfl
  | m300 => exact (m300_silent c).return rfl
  | m500 => exact tableEntry_sends _ c
  | m501 => exact tableEntry_sends _ c
  | m542 => exact (m542_silent c).return rfl
  | m551 => exact (m551_silent c).return rfl
  | m600 => exact printConfig_silent.return rfl
  | m29 | m82 | m111 | m113 | m130 | m131 | m132 | m133 | m134 | m141 | m142
  | m543 => exact sends_pure rfl

/-! ## Lines -/

theorem uint8_toNat_lt {z : Int} (h : uint8 z = z) :
    z.toNat < 10000000000 := by
  unfold uint8 wrapUnsigned at h
  omega

theorem uint16_toNat_lt {z : Int} (h : uint16 z = z) :
    z.toNat < 10000000000 := by
  unfold uint16 wrapUnsigned at h
  omega

/-- A G number that is reported as unknown is the one stored. -/
theorem commandOf_badG {c : GcodeCommand R} {g : Int}
    (h : commandOf c = .badG g) : g = c.g := by
  unfold commandOf at h
  split_ifs at h
  · split at h
    · exact absurd h (by simp)
    · exact (Command.badG.inj h).symm
  · split at h
    · exact absurd h (by simp)
    · exact absurd h (by simp)

/-- An M number that is reported as unknown is the one stored. -/
theorem commandOf_badM {c : GcodeCommand R} {m : Int}
    (h : commandOf c = .badM m) : m = c.m := by
  unfold commandOf at h
  split_ifs at h
  · split at h
    · exact absurd h (by simp)
    · exact absurd h (by simp)
  · split at h
    · exact absurd h (by simp)
    · exact (Command.badM.inj h).symm

/-- The complaint about an unknown code is no acknowledgement. -/
theorem badCode_silent {s : String} {z : Int} (hz : z.toNat < 10000000000)
    (hs : (10 : UInt8) ∉ str s) (hplain : plainText (str s) = true) :
    Sends acknowledged (do
      serialWrite (str s ++ serwriteUint32 z.toNat ++ str "\r\n")
      return Outcome.plain : FwM R σ (Outcome R)) := by
  refine Silent.return (sends_serialWrite ?_) rfl
  rw [List.append_assoc]
  exact acks_plain (rest_crlf.append
    (no_lf_of_numeric (serwriteUint32_numeric hz))) hs hplain

/-- Every command is acknowledged once, by itself or at its end, except an `M114` in
inches. -/
theorem runCommand_sends {c : GcodeCommand R} (hc : ParserInv c)
    (hforget : ¬ForgetsReply c) :
    Sends acknowledged (runCommand P c : FwM R σ (Outcome R)) := by
  unfold runCommand
  split
  · exact processG_sends c _
  · next g hcommand =>
    obtain rfl := commandOf_badG hcommand
    exact badCode_silent (uint8_toNat_lt hc.g) (by decide) rfl
  · next code hcommand =>
    refine processM_sends hc fun hcode => ?_
    rw [hcode] at hcommand
    exact Bool.eq_false_iff.2 fun hinches => hforget ⟨hcommand, hinches⟩
  · next m hcommand =>
    obtain rfl := commandOf_badM hcommand
    exact badCode_silent (uint16_toNat_lt hc.m) (by decide) rfl
  · exact sends_pure rfl

/-- A line that is executed is acknowledged once, except an `M114` in inches. -/
theorem processGcodeCommand_sends {c : GcodeCommand R} (hc : ParserInv c)
    (hforget : ¬ForgetsReply c) :
    Sends (fun _ => 1) (processGcodeCommand P c : FwM R σ (Change R)) := by
  intro w change w' hw
  obtain ⟨out, w₁, hrun, hreply⟩ := bind_eq_some.1 hw
  obtain ⟨t, ht, hk⟩ := runCommand_sends hc hforget _ _ _ hrun
  cases hout : out.replySent with
  | true =>
      rw [hout] at hreply
      obtain ⟨-, rfl⟩ := Prod.mk.inj hreply
      rw [acknowledged, hout] at hk
      exact ⟨t, ht, hk⟩
  | false =>
      rw [hout] at hreply
      obtain ⟨-, rfl⟩ := Prod.mk.inj hreply
      rw [acknowledged, hout] at hk
      refine ⟨t ++ str "ok\r\n", ?_, hk.append acks_ok⟩
      rw [← List.append_assoc, ← ht]

/-- The reply of `M114` is forgotten while inches are selected. -/
theorem processGcodeCommand_forgets {c : GcodeCommand R}
    (h : ForgetsReply c) :
    Silent (processGcodeCommand P c : FwM R σ (Change R)) := by
  have hrun : (runCommand P c : FwM R σ (Outcome R)) =
      processM P c .m114 := by
    rw [runCommand, h.1]
  intro w change w' hw
  rw [processGcodeCommand, hrun] at hw
  have hm : (processM P c .m114 : FwM R σ (Outcome R)) w =
      (some .replied, w) := by
    show ((when (!c.optionInches) _ : FwM R σ Unit) >>= _) w = _
    rw [h.2]
    rfl
  rw [bind_apply, hm] at hw
  obtain ⟨-, rfl⟩ := Prod.mk.inj hw
  exact ⟨[], (List.append_nil _).symm, Lines.nil⟩

/-- The request to send a line again takes the place of the acknowledgement. -/
theorem rejectLine_sends {c : GcodeCommand R} (hc : ParserInv c) :
    Sends (fun _ => 1) (rejectLine c : FwM R σ Unit) := by
  have hn : c.n.toNat < 10000000000 := by
    have h := uint32_toNat_lt c.n
    rwa [hc.n] at h
  have hsum : c.checksumCalculated.toNat < 10000000000 := by
    have h := c.checksumCalculated.toNat_lt
    omega
  refine sends_serialWrite ?_
  simp only [List.append_assoc]
  rw [← List.append_assoc (serwriteUint32 _) (str "\r\n"), ← List.append_assoc]
  refine Lines.append (j := 0) (k := 1) ?_ ?_
  · exact acks_plain (rest_crlf.append
      (no_lf_of_numeric (serwriteUint32_numeric hsum))) (by decide) rfl
  · exact acks_ack (rest_crlf.append
      (no_lf_of_numeric (serwriteUint32_numeric hn))) (by decide) rfl

/-- The line ends the upload. -/
def EndsUpload (c : GcodeCommand R) : Prop := c.seenM = true ∧ c.m = 29

/-- The line is no SD command, and the card does not take it. -/
def FailsToStore (P : Platform σ) (fs : σ) (c : GcodeCommand R)
    (data : List UInt8) : Prop :=
  ¬(c.seenM = true ∧ 20 ≤ c.m ∧ c.m ≤ 29) ∧ (P.fWrite (storedLine data) fs).1 ≠ 0

/-- A line for the file is acknowledged once, unless it ends the upload or cannot be
stored. -/
theorem writeLine_sends {c : GcodeCommand R} {data : List UInt8}
    {w w' : World (Firmware R σ) Irq}
    (hw : writeLine P c data w = (some (), w')) :
    ∃ t k, w'.state.tx = w.state.tx ++ t ∧ Acks k t ∧
      (k = 1 ↔ ¬EndsUpload c ∧ ¬FailsToStore P w.state.fs c data) := by
  unfold writeLine at hw
  split at hw
  · next hsd =>
    split at hw
    · next hend =>
      obtain ⟨-, rfl⟩ := Prod.mk.inj hw
      refine ⟨_, 0, rfl, acks_plain rest_crlf (a := str "Done saving file")
        (by decide) rfl, ?_⟩
      have hup : EndsUpload c := ⟨hsd.1, hend⟩
      simp [hup]
    · next hend =>
      obtain ⟨-, rfl⟩ := Prod.mk.inj hw
      refine ⟨_, 1, rfl, acks_ok, ?_⟩
      simp [EndsUpload, FailsToStore, hsd, hend]
  · next hsd =>
    have hup : ¬EndsUpload c := by
      rintro ⟨hm, hend⟩
      exact hsd ⟨hm, by omega, by omega⟩
    rw [sdWriteToFile, bind_apply, get_bind_apply, modify_bind_apply,
      pure_apply] at hw
    by_cases hres : (P.fWrite (storedLine data) w.state.fs).1 = 0
    · have hyes : ((P.fWrite (storedLine data) w.state.fs).1 == 0) = true :=
        beq_iff_eq.2 hres
      dsimp only at hw
      rw [hyes, if_pos rfl] at hw
      obtain ⟨-, rfl⟩ := Prod.mk.inj hw
      refine ⟨_, 1, rfl, acks_ok, ?_⟩
      simp [FailsToStore, hup, hres]
    · have hno : ((P.fWrite (storedLine data) w.state.fs).1 == 0) = false :=
        beq_eq_false_iff_ne.2 hres
      dsimp only at hw
      rw [hno, if_neg Bool.false_ne_true] at hw
      obtain ⟨-, rfl⟩ := Prod.mk.inj hw
      refine ⟨_, 0, rfl, acks_plain rest_crlf
        (a := str "error writing to file") (by decide) rfl, ?_⟩
      have hfails : FailsToStore P w.state.fs c data := ⟨hsd, hres⟩
      simp [hfails]

/-- The accepted lines that are not acknowledged. -/
def Unanswered (P : Platform σ) (s : Session R σ) (data : List UInt8) : Prop :=
  checksumAccepted (parsed s data) = true ∧
    if s.fw.sdWritingFile then
      EndsUpload (parsed s data) ∨ FailsToStore P s.fw.fs (parsed s data) data
    else ForgetsReply (parsed s data)

/-- A line is answered by exactly one acknowledgement, unless it is one of the
three kinds that are not acknowledged. -/
theorem acknowledged_iff {s : Session R σ} (hs : Reachable P s)
    {data : List UInt8} {irqs : List Irq} {p : Parser R}
    {w : World (Firmware R σ) Irq}
    (h : takeLine P s data irqs = (some p, w)) :
    ∃ t, w.state.tx = s.fw.tx ++ t ∧ (acks t = 1 ↔ ¬Unanswered P s data) := by
  have hinv : ParserInv (parsed s data) :=
    parseChars_inv data (reachable_rested hs).inv
  have hcount : ∀ {k t}, Acks k t → acks t = k :=
    fun hk => Lines.count_eq hk (by decide)
  rw [takeLine_eq] at h
  by_cases hsum : checksumAccepted (parsed s data) = true
  · rw [if_pos hsum] at h
    obtain ⟨c, w₁, haccept, hret⟩ := bind_eq_some.1 h
    obtain ⟨-, rfl⟩ := Prod.mk.inj hret
    rw [acceptLine, get_bind_apply] at haccept
    by_cases hsd : s.fw.sdWritingFile = true
    · rw [if_pos hsd] at haccept
      obtain ⟨_, w₂, hwrite, hret⟩ := bind_eq_some.1 haccept
      obtain ⟨-, rfl⟩ := Prod.mk.inj hret
      obtain ⟨t, k, ht, hk, hiff⟩ := writeLine_sends hwrite
      refine ⟨t, ht, ?_⟩
      rw [hcount hk, hiff, Unanswered, if_pos hsd, not_and, not_or]
      exact ⟨fun hno _ => hno, fun hno => hno hsum⟩
    · rw [if_neg hsd] at haccept
      obtain ⟨change, w₂, hprocess, hret⟩ := bind_eq_some.1 haccept
      obtain ⟨-, rfl⟩ := Prod.mk.inj hret
      by_cases hforget : ForgetsReply (parsed s data)
      · obtain ⟨t, ht, hk⟩ := processGcodeCommand_forgets hforget _ _ _ hprocess
        refine ⟨t, ht, ?_⟩
        rw [hcount hk, Unanswered, if_neg hsd]
        exact iff_of_false Nat.zero_ne_one fun hno => hno ⟨hsum, hforget⟩
      · obtain ⟨t, ht, hk⟩ := processGcodeCommand_sends hinv hforget _ _ _ hprocess
        refine ⟨t, ht, ?_⟩
        rw [hcount hk, Unanswered, if_neg hsd]
        exact iff_of_true rfl fun hno => hforget hno.2
  · rw [if_neg hsum] at h
    obtain ⟨_, w₁, hreject, hret⟩ := bind_eq_some.1 h
    obtain ⟨-, rfl⟩ := Prod.mk.inj hret
    obtain ⟨t, ht, hk⟩ := rejectLine_sends hinv _ _ _ hreject
    refine ⟨t, ht, ?_⟩
    rw [hcount hk]
    exact iff_of_true rfl fun hno => hsum hno.1

/-! ## `M114` in inches -/

/-- Inches have been selected. -/
def inches : Session ℚ Unit :=
  (playLine noCard defaultStart (str "G20\n")).get (by decide +kernel)

/-- The state with inches is reached from power-up. -/
theorem inches_reachable : Reachable noCard inches :=
  have hdone : LineDone noCard defaultStart (str "G20\n") inches :=
    lineDone_of_playLine (Option.some_get _).symm
  (reachable_init _ _).line hdone

private theorem inches_returns :
    (takeLine noCard inches (str "M114\n") []).1.isSome = true := by
  decide +kernel

/-- In inches `M114` sends nothing at all. -/
private theorem inches_tx :
    (takeLine noCard inches (str "M114\n") []).2.state.tx = inches.fw.tx := by
  decide +kernel

/-- `M114` in inch mode is not answered at all. -/
theorem not_acknowledged :
    ∃ (s : Session ℚ Unit) (data : List UInt8) (irqs : List Irq)
      (p : Parser ℚ) (w : World (Firmware ℚ Unit) Irq),
      Reachable noCard s ∧ takeLine noCard s data irqs = (some p, w) ∧
        ∀ t, w.state.tx = s.fw.tx ++ t → acks t ≠ 1 := by
  refine ⟨inches, str "M114\n", [],
    (takeLine noCard inches (str "M114\n") []).1.get inches_returns,
    (takeLine noCard inches (str "M114\n") []).2, inches_reachable, ?_, ?_⟩
  · exact takeLine_of_isSome inches_returns
  · intro t ht
    rw [inches_tx, List.self_eq_append_right] at ht
    rw [ht]
    decide

private theorem start_returns :
    (takeLine noCard defaultStart (str "M114\n") []).1.isSome = true := by
  decide +kernel

private theorem start_inches :
    (parsed defaultStart (str "M114\n")).optionInches = false := by
  decide +kernel

/-- `M114` is answered before inches are selected. -/
theorem acknowledged_iff_start :
    ∃ t, (takeLine noCard defaultStart (str "M114\n") []).2.state.tx =
      defaultStart.fw.tx ++ t ∧ acks t = 1 := by
  have hreach : Reachable noCard defaultStart := reachable_init _ _
  obtain ⟨t, ht, hiff⟩ :=
    acknowledged_iff hreach (takeLine_of_isSome start_returns)
  refine ⟨t, ht, hiff.2 ?_⟩
  rintro ⟨-, hforget⟩
  rw [if_neg (by decide), ForgetsReply, start_inches] at hforget
  exact absurd hforget.2 (by decide)

end R2C2Firmware.Ports.Acknowledge
