import R2C2Firmware.Ports.SdPrinting

/-!
# The reported position in a file

`sd_pos` is what `M27` reports and what `M26` sets.  `sd_read_file` adds to it the
length of the line it gets; `f_gets` leaves out the carriage returns it reads.  So
the position stays that of the file for as long as no line is read that has a
carriage return in it.

Of FatFs it is assumed that a file that has been opened is read from its start, that
`f_lseek` goes to a place in the file, and that `f_gets` does what its source says.

## Main results

* `read_located` — one call of `sd_read_file`.
* `sd_position` — the runs in which the position is always the real one.
-/

namespace R2C2Firmware.Ports.SdPosition

open R2C2Firmware.Verified
open R2C2Firmware.Verified.LineReader
open R2C2Firmware.Verified.Number
open R2C2Firmware.Verified.BusyWait
open R2C2Firmware.Ports.Config
open R2C2Firmware.Ports.Stepper
open R2C2Firmware.Ports.MotionPlanner
open R2C2Firmware.Ports.Sermsg
open R2C2Firmware.Ports.GcodeParse
open R2C2Firmware.Ports.Mendel
open R2C2Firmware.Ports.GcodeProcess
open R2C2Firmware.Ports.MainLoop
open R2C2Firmware.Ports.AppMain
open R2C2Firmware.Ports.SdCard
open R2C2Firmware.Ports.SdPrinting

variable {R σ : Type}

/-! ## The file -/

/-- The file that is open: its bytes, and the number of them before the place that is
read next. -/
structure Positioned (P : Platform σ) (content : σ → List UInt8) (offset : σ → Nat) :
    Prop where
  opened : ∀ path fs, (P.fOpen path false fs).1 = 0 →
    offset (P.fOpen path false fs).2 = 0
  size : ∀ fs, P.fSize fs = (content fs).length
  inside : ∀ fs, offset fs ≤ (content fs).length
  sought : ∀ (n : Nat) fs, n ≤ (content fs).length →
    content (P.fLseek n fs) = content fs ∧ offset (P.fLseek n fs) = n
  reads : ReadsFile P fun fs => (content fs).drop (offset fs)
  same : ∀ fs, content (P.fGets maxLine fs).2 = content fs

/-- A file without zeros, of a size that FatFs can have. -/
structure IsFile (bytes : List UInt8) : Prop where
  noNul : (0 : UInt8) ∉ bytes
  short : bytes.length < 2 ^ 32

/-- The position on record is the one in the open file. -/
def Located (offset : σ → Nat) (fw : Firmware R σ) : Prop :=
  fw.sdPos = offset fw.fs

/-- The next line that is read has a carriage return in it, or in front of it. -/
def CrAhead (content : σ → List UInt8) (offset : σ → Nat) (fw : Firmware R σ) : Prop :=
  SkipAhead 10 13 (maxLine - 1) ((content fw.fs).drop (offset fw.fs))

theorem sdReadFile_fs {P : Platform σ} (fw : Firmware R σ) :
    (sdReadFile P fw).2.fs = (P.fGets maxLine fw.fs).2 := by
  unfold sdReadFile
  rcases P.fGets maxLine fw.fs with ⟨_ | line, fs⟩ <;> rfl

/-- A line is read. -/
theorem read_located {P : Platform σ} {content : σ → List UInt8} {offset : σ → Nat}
    (hP : Positioned P content offset) {fw : Firmware R σ}
    (hfile : IsFile (content fw.fs)) (hlocated : Located offset fw) :
    Located offset (sdReadFile P fw).2 ↔ ¬CrAhead content offset fw := by
  have hinside := hP.inside fw.fs
  have hinside' := hP.inside (P.fGets maxLine fw.fs).2
  have hrest := congrArg List.length (hP.reads.rest fw.fs)
  obtain ⟨hle, htaken⟩ := @gets_taken UInt8 10 13 _ (maxLine - 1)
    ((content fw.fs).drop (offset fw.fs))
  have hstring : (fGetsBytes ((content fw.fs).drop (offset fw.fs))).1.takeWhile (· ≠ 0) =
      (fGetsBytes ((content fw.fs).drop (offset fw.fs))).1 := by
    rw [List.takeWhile_eq_self_iff]
    intro c hc
    rw [decide_eq_true_eq]
    rintro rfl
    exact hfile.noNul (List.mem_of_mem_drop (mem_of_mem_gets hc))
  have hline := hP.reads.line fw.fs
  have hshort := hfile.short
  rw [hstring] at hline
  rw [hP.same] at hinside' hrest
  rw [fGetsBytes] at hrest hline
  rw [CrAhead, ← htaken]
  generalize gets 10 13 (maxLine - 1) ((content fw.fs).drop (offset fw.fs)) = got at *
  rw [List.length_drop] at hrest hle ⊢
  unfold Located at hlocated ⊢
  unfold sdReadFile
  by_cases hnil : got.1 = []
  · rw [if_pos hnil] at hline
    rw [show P.fGets maxLine fw.fs = (none, (P.fGets maxLine fw.fs).2) from
      Prod.ext hline rfl]
    dsimp only
    rw [hnil] at hle ⊢
    simp only [List.length_nil] at hle ⊢
    omega
  · rw [if_neg hnil] at hline
    rw [show P.fGets maxLine fw.fs = (some got.1, (P.fGets maxLine fw.fs).2) from
      Prod.ext hline rfl]
    dsimp only
    rw [hlocated, uint32_of_range (by omega) (by omega)]
    omega

/-! ## Runs -/

/-- What is done to the card: a command, while these interrupts arrive, or the read of
a line. -/
inductive Op (R : Type) where
  | command (c : GcodeCommand R) (irqs : List Irq)
  | read

section Runs

variable [Field R] [LinearOrder R] [HasSqrt R] [FloorRing R]
  {P : Platform σ} {content : σ → List UInt8} {offset : σ → Nat}

/-- The firmware afterwards. -/
def Op.apply (P : Platform σ) (op : Op R) (fw : Firmware R σ) : Firmware R σ :=
  match op with
  | .command c irqs => (processGcodeCommand P c ⟨fw, irqs⟩).2.state
  | .read => (sdReadFile P fw).2

/-- The operations of a run: a file is selected and opened, printing is started or
paused, the position is set to a place in the file that fits into `S`, or a line is
read. -/
def Op.Allowed (P : Platform σ) (content : σ → List UInt8) (fw : Firmware R σ)
    (op : Op R) : Prop :=
  match op with
  | .command c _ =>
      match commandOf c with
      | .m .m23 =>
          (P.fOpen (filenameOf c) false (P.fClose fw.fs)).1 = 0 ∧
            IsFile (content (P.fOpen (filenameOf c) false (P.fClose fw.fs)).2)
      | .m .m24 | .m .m25 => True
      | .m .m26 => c.seenS = true → 0 ≤ c.s ∧ c.s ≤ 32767 ∧ c.s ≤ P.fSize fw.fs
      | _ => False
  | .read => True

/-- Something holds of every step of a run. -/
def Along (P : Platform σ) (p : Firmware R σ → Op R → Prop) :
    Firmware R σ → List (Op R) → Prop
  | _, [] => True
  | fw, op :: ops => p fw op ∧ Along P p (op.apply P fw) ops

/-- A command does not take the position away from the file. -/
theorem command_located (hP : Positioned P content offset) {fw : Firmware R σ}
    {c : GcodeCommand R} {irqs : List Irq}
    (hallowed : (Op.command c irqs).Allowed P content fw)
    (hfw : commandOf c ≠ .m .m23 → IsFile (content fw.fs) ∧ Located offset fw) :
    IsFile (content ((Op.command c irqs).apply P fw).fs) ∧
      Located offset ((Op.command c irqs).apply P fw) := by
  have hcard : card ((Op.command c irqs).apply P fw) = cardCommand P c (card fw) :=
    processGcodeCommand_card c ⟨fw, irqs⟩
  have hfs : ((Op.command c irqs).apply P fw).fs = (cardCommand P c (card fw)).fs :=
    congrArg Card.fs hcard
  have hpos : ((Op.command c irqs).apply P fw).sdPos = (cardCommand P c (card fw)).sdPos :=
    congrArg Card.sdPos hcard
  unfold Located
  rw [hfs, hpos]
  dsimp only [Op.Allowed] at hallowed
  unfold cardCommand
  cases hc : commandOf c with
  | g _ | badG _ | badM _ | nothing =>
      rw [hc] at hallowed
      exact hallowed.elim
  | m code =>
      rw [hc] at hallowed hfw
      cases code with
      | m23 =>
          obtain ⟨hopen, hfile⟩ := hallowed
          refine ⟨hfile, ?_⟩
          show (if (P.fOpen (filenameOf c) false (P.fClose fw.fs)).1 = 0 then 0 else _) = _
          rw [if_pos hopen]
          exact (congrArg Int.ofNat (hP.opened _ _ hopen)).symm
      | m24 => exact hfw (by simp)
      | m25 => exact hfw (by simp)
      | m26 =>
          obtain ⟨hfile, hlocated⟩ := hfw (by simp)
          by_cases hseek : ((card fw).sdActive && c.seenS) = true
          · obtain ⟨hlo, hhi, hsize⟩ := hallowed (Bool.and_eq_true_iff.1 hseek).2
            obtain ⟨n, hn⟩ := Int.eq_ofNat_of_zero_le hlo
            have hinside : n ≤ (content fw.fs).length := by
              rw [hP.size, hn] at hsize
              exact_mod_cast hsize
            obtain ⟨hcontent, hoffset⟩ := hP.sought n fw.fs hinside
            have hs : uint32 c.s = n := by
              rw [uint32_of_range hlo (by omega), hn]
            dsimp only
            rw [if_pos hseek, hs]
            show IsFile (content (P.fLseek n fw.fs)) ∧ (n : Int) = offset (P.fLseek n fw.fs)
            rw [hcontent, hoffset]
            exact ⟨hfile, rfl⟩
          · dsimp only
            rw [if_neg hseek]
            exact ⟨hfile, hlocated⟩
      | _ => exact hallowed.elim

/-- The position is the real one all the time, exactly when no line is read that has a
carriage return in it. -/
theorem along_located (hP : Positioned P content offset) :
    ∀ (ops : List (Op R)) {fw : Firmware R σ}, IsFile (content fw.fs) → Located offset fw →
      Along P (Op.Allowed P content) fw ops →
      (Along P (fun fw op => Located offset (op.apply P fw)) fw ops ↔
        Along P (fun fw op => op = .read → ¬CrAhead content offset fw) fw ops)
  | [], _, _, _, _ => Iff.rfl
  | .command c irqs :: ops, fw, hfile, hlocated, hallowed => by
      obtain ⟨hfile', hlocated'⟩ :=
        command_located hP hallowed.1 fun _ => ⟨hfile, hlocated⟩
      have hrest := along_located hP ops hfile' hlocated' hallowed.2
      simp only [Along, hlocated', hrest, true_and, reduceCtorEq, false_imp_iff]
  | .read :: ops, fw, hfile, hlocated, hallowed => by
      have hread := read_located hP hfile hlocated
      have hfile' : IsFile (content ((Op.read : Op R).apply P fw).fs) := by
        rw [show ((Op.read : Op R).apply P fw).fs = _ from sdReadFile_fs fw, hP.same]
        exact hfile
      simp only [Along, true_imp_iff, ← hread]
      refine and_congr_right fun hlocated' => ?_
      exact along_located hP ops hfile' hlocated' hallowed.2

/-- From the selection of a file on, the reported position is the real one all the time,
exactly when no line is read that has a carriage return in it. -/
theorem sd_position (hP : Positioned P content offset) {fw : Firmware R σ}
    {c : GcodeCommand R} {irqs : List Irq} (hselect : commandOf c = .m .m23)
    {ops : List (Op R)}
    (hallowed : Along P (Op.Allowed P content) fw (.command c irqs :: ops)) :
    Along P (fun fw op => Located offset (op.apply P fw)) fw (.command c irqs :: ops) ↔
      Along P (fun fw op => op = .read → ¬CrAhead content offset fw) fw
        (.command c irqs :: ops) := by
  obtain ⟨hfile, hlocated⟩ :=
    command_located hP hallowed.1 fun hne => absurd hselect hne
  have hrest := along_located hP ops hfile hlocated hallowed.2
  simp only [Along, hlocated, hrest, true_and, reduceCtorEq, false_imp_iff]

end Runs

/-! ## Two files -/

/-- A file, and a place in it. -/
structure File where
  bytes : List UInt8
  place : Nat
  inside : place ≤ bytes.length

/-- A card with one file. -/
def disk : Platform File where
  fOpen _ _ f := (0, { f with place := 0, inside := Nat.zero_le _ })
  fClose f := f
  fWrite _ f := (0, f)
  fGets _ f :=
    let got := fGetsBytes (f.bytes.drop f.place)
    (if got.1 = [] then none else some (got.1.takeWhile (· ≠ 0)),
      { f with place := f.bytes.length - got.2.length, inside := Nat.sub_le _ _ })
  fSize f := f.bytes.length
  fLseek pos f :=
    if h : pos.toNat ≤ f.bytes.length then { f with place := pos.toNat, inside := h } else f
  root _ := .done true
  hitHomeStopX pressed dir := pressed && !dir
  hitHomeStopZ pressed dir := pressed && !dir

theorem disk_positioned : Positioned disk File.bytes File.place where
  opened _ _ _ := rfl
  size _ := rfl
  inside f := f.inside
  sought n f hn := by
    have hseek : disk.fLseek n f = { f with place := n, inside := hn } := dif_pos hn
    rw [hseek]
    exact ⟨rfl, rfl⟩
  reads := by
    refine ⟨fun _ => rfl, fun f => ?_⟩
    have hsuffix : (fGetsBytes (f.bytes.drop f.place)).2 <:+ f.bytes :=
      (gets_suffix _ _).trans (List.drop_suffix _ _)
    exact (List.suffix_iff_eq_drop.1 hsuffix).symm
  same _ := rfl

/-- The firmware after the start, with a file on the card. -/
def withFile (bytes : List UInt8) : Firmware ℚ File :=
  bootFirmware .default ⟨bytes, 0, Nat.zero_le _⟩

/-- `M23` -/
def select : GcodeCommand ℚ :=
  { (Parser.zero : Parser ℚ).nextTarget with seenM := true, m := 23 }

theorem commandOf_select : commandOf select = .m .m23 := by decide +kernel

theorem select_allowed {bytes : List UInt8} (hfile : IsFile bytes) :
    (Op.command select []).Allowed disk File.bytes (withFile bytes) := by
  dsimp only [Op.Allowed]
  rw [commandOf_select]
  exact ⟨rfl, hfile⟩

theorem select_fs (bytes : List UInt8) :
    ((Op.command select []).apply disk (withFile bytes)).fs =
      ⟨bytes, 0, Nat.zero_le _⟩ := by
  have hcard := processGcodeCommand_card (P := disk) select ⟨withFile bytes, []⟩
  have hfs := congrArg Card.fs hcard
  unfold cardCommand at hfs
  rw [commandOf_select] at hfs
  exact hfs

/-- A file without carriage returns is selected and read. -/
theorem sd_position_lf :
    Along disk (fun fw op => Located File.place (op.apply disk fw)) (withFile (str "A\n"))
      [.command select [], .read] := by
  have hallowed : Along disk (Op.Allowed disk File.bytes) (withFile (str "A\n"))
      [.command select [], .read] :=
    ⟨select_allowed ⟨by decide, by decide⟩, trivial, trivial⟩
  refine (sd_position disk_positioned commandOf_select hallowed).2
    ⟨by simp, fun _ => ?_, trivial⟩
  unfold CrAhead
  rw [select_fs]
  exact not_skipAhead (by decide)

/-- A line that ends with a carriage return and a line feed is counted one byte short. -/
theorem crlf_counted_short :
    ¬∀ ops : List (Op ℚ),
      Along disk (Op.Allowed disk File.bytes) (withFile (str "A\r\n"))
          (.command select [] :: ops) →
        Along disk (fun fw op => Located File.place (op.apply disk fw))
          (withFile (str "A\r\n")) (.command select [] :: ops) := by
  intro h
  have hselect : (Op.command select []).Allowed disk File.bytes (withFile (str "A\r\n")) :=
    select_allowed ⟨by decide, by decide⟩
  obtain ⟨hlocated, hread, -⟩ := h [.read] ⟨hselect, trivial, trivial⟩
  have hfile : IsFile
      (((Op.command select []).apply disk (withFile (str "A\r\n"))).fs.bytes) := by
    rw [select_fs]
    exact ⟨by decide, by decide⟩
  refine (read_located disk_positioned hfile hlocated).1 hread ?_
  unfold CrAhead
  rw [select_fs]
  exact ⟨str "A", str "\n", by decide, by decide, by decide, by decide⟩

end R2C2Firmware.Ports.SdPosition
