import R2C2Firmware.Ports.Checksum

/-!
# The line a resend request names

`request_resend` prints `next_target.N`.  That is the number of the last N word
that the parser has read to its end, whether in this line or in an earlier one,
and whether that line was accepted or not; of the line that is refused it is
the very text that is corrupt.  What the host has to be asked for is
`N_expected`, the number behind the last line accepted.

Lines that are stored in a file do not count: `N_expected` is moved on by the
lines that are processed.

## Main results

* `parseChars_n` — `N` is the number of the last N word read.
* `run_numbers` — `N` and `N_expected` in terms of the lines received.
* `resend_names_iff` — when the request names the line to be sent.
* `resend_misnamed` — a digit of the N word is changed.
-/

set_option linter.unusedSectionVars false

namespace R2C2Firmware.Ports.Resend

open R2C2Firmware.Verified.Number
open R2C2Firmware.Verified.BusyWait
open R2C2Firmware.Ports.Config
open R2C2Firmware.Ports.MotionPlanner
open R2C2Firmware.Ports.Sermsg
open R2C2Firmware.Ports.GcodeParse
open R2C2Firmware.Ports.Mendel
open R2C2Firmware.Ports.GcodeProcess
open R2C2Firmware.Ports.MainLoop
open R2C2Firmware.Ports.Checksum

variable {R σ : Type} [Field R] [LinearOrder R] [FloorRing R]

/-! ## N words -/

/-- The number of an N word that the character ends. -/
def completed (p : Parser R) (c : UInt8) : Option Int :=
  if p.lastField = some .n ∧ isFieldEnd (uppercase c) then
    some (uint32 (truncate (if p.sign then -p.value else p.value)))
  else none

/-- The numbers of the N words of a text, in order. -/
def nWords (p : Parser R) : List UInt8 → List Int
  | [] => []
  | c :: u => (completed p c).toList ++ nWords (gcodeParseChar p c) u

theorem commitField_n (p : Parser R) (c : UInt8) :
    (commitField (uppercase c) p).nextTarget.n =
      (completed p c).getD p.nextTarget.n := by
  unfold commitField completed
  cases hfield : p.lastField with
  | none => rfl
  | some w =>
      cases hend : isFieldEnd (uppercase c) with
      | false => simp
      | true => cases w <;> rfl

theorem gcodeParseChar_n (p : Parser R) (c : UInt8) :
    (gcodeParseChar p c).nextTarget.n =
      (completed p c).getD p.nextTarget.n := by
  have hcapture : ∀ (c) (t : GcodeCommand R), (captureString c t).n = t.n := by
    intro c t
    unfold captureString
    split_ifs <;> rfl
  have hprocess : ∀ (c) (q : Parser R),
      (processChar c q).nextTarget.n = q.nextTarget.n := by
    intro c q
    unfold processChar scanChar
    dsimp only
    split
    · split
      · next w _ => cases w <;> rfl
      · split_ifs <;> rfl
    · split <;> rfl
  have hupdate : ∀ (c) (q : Parser R),
      (updateChecksum c q).nextTarget.n = q.nextTarget.n := by
    intro c q
    unfold updateChecksum
    split <;> rfl
  unfold gcodeParseChar
  dsimp only
  rw [hupdate, hprocess]
  exact (hcapture _ _).trans (commitField_n p c)

/-- `N` is the number of the last N word read. -/
theorem parseChars_n (p : Parser R) (u : List UInt8) :
    (parseChars p u).nextTarget.n =
      (nWords p u).getLast?.getD p.nextTarget.n := by
  induction u generalizing p with
  | nil => rfl
  | cons c u ih =>
      rw [parseChars_cons, ih, gcodeParseChar_n, nWords, List.getLast?_append]
      cases (nWords (gcodeParseChar p c) u).getLast? with
      | some n => rfl
      | none =>
          cases completed p c with
          | some n => rfl
          | none => rfl

/-! ## Ranges -/

/-- A change of `N_expected` is a change to a `uint32_t`. -/
def Fits : Change R → Prop
  | .nExpected n => uint32 n = n
  | _ => True

section Commands

variable [HasSqrt R] {P : Platform σ}

/-- The result of a handler that changes `next_target` as it may. -/
abbrev Fit (x : FwM R σ (Outcome R)) : Prop :=
  Returns (fun out => Fits out.change) x

theorem fit_return {α : Type} {x : FwM R σ α} {out : Outcome R}
    (h : Fits out.change) : Fit (x >>= fun _ => pure out) :=
  Returns.bind fun _ => Returns.pure h

theorem tableEntry_fit (sensor : Temp.Sensor) (c : GcodeCommand R) :
    Fit (tableEntry sensor c : FwM R σ (Outcome R)) :=
  Returns.ite (fit_return trivial)
    (Returns.ite (Returns.bind fun _ => fit_return trivial)
      (fit_return trivial))

theorem processG_fit (c : GcodeCommand R) (code : GCode) :
    Fit (processG P c code : FwM R σ (Outcome R)) := by
  cases code with
  | g20 | g21 | g90 | g91 => exact Returns.pure trivial
  | _ => exact fit_return trivial

theorem processM_fit (c : GcodeCommand R) (code : MCode) :
    Fit (processM P c code : FwM R σ (Outcome R)) := by
  cases code with
  | m110 => exact Returns.pure (uint32_uint32 _)
  | m200 =>
      exact Returns.ite (fit_return trivial)
        (Returns.bind fun _ => Returns.bind fun _ => Returns.pure trivial)
  | m202 | m206 =>
      exact Returns.ite (fit_return trivial) (fit_return trivial)
  | m500 | m501 => exact tableEntry_fit _ c
  | m29 | m82 | m111 | m113 | m130 | m131 | m132 | m133 | m134 | m141 | m142
  | m543 => exact Returns.pure trivial
  | _ => exact fit_return trivial

theorem processGcodeCommand_fits (c : GcodeCommand R) :
    Returns Fits (processGcodeCommand P c : FwM R σ (Change R)) := by
  have hrun : Fit (runCommand P c : FwM R σ (Outcome R)) := by
    unfold runCommand
    split
    · exact processG_fit c _
    · exact fit_return trivial
    · exact processM_fit c _
    · exact fit_return trivial
    · exact Returns.pure trivial
  intro w change h
  obtain ⟨out, w₁, hout, hrest⟩ := bind_eq_some.1
    (show processGcodeCommand P c w = (some change, _) from
      Prod.ext h rfl)
  obtain ⟨_, w₂, -, hret⟩ := bind_eq_some.1 hrest
  rw [← Option.some.inj (Prod.mk.inj hret).1]
  exact hrun w out (by rw [hout])

/-- `N_expected` is a `uint32_t`. -/
def Counted (p : Parser R) : Prop :=
  uint32 p.nextTarget.nExpected = p.nextTarget.nExpected

theorem parseChars_nExpected (p : Parser R) (u : List UInt8) :
    (parseChars p u).nextTarget.nExpected = p.nextTarget.nExpected :=
  congrArg (fun o => o.2.2) (parseChars_options u p)

theorem lineDone_counted {s s' : Session R σ} {data : List UInt8}
    (h : Counted s.parser) (hl : LineDone P s data s') :
    Counted s'.parser := by
  obtain ⟨irqs, rest, hl⟩ := hl
  have hparsed : uint32 (parsed s data).nExpected =
      (parsed s data).nExpected := by
    show uint32 (parseChars s.parser data).nextTarget.nExpected =
      (parseChars s.parser data).nextTarget.nExpected
    rw [parseChars_nExpected]
    exact h
  by_cases hproc : Processes s data
  · obtain ⟨change, hchange, hp⟩ := takeLine_returns hproc hl
    have hfits := processGcodeCommand_fits (P := P) (parsed s data)
      ⟨s.fw, irqs⟩ change (by rw [hchange])
    have happly : uint32 (change.apply (parsed s data)).nExpected =
        (change.apply (parsed s data)).nExpected := by
      cases change with
      | nExpected n => exact hfits
      | none | optionInches on | optionRelative on | feedRate f =>
          exact hparsed
    rw [hp]
    show uint32 (expectNext _).nExpected = (expectNext _).nExpected
    unfold expectNext
    split
    · exact uint32_uint32 _
    · exact happly
  · rw [takeLine_notProcessed hproc hl]
    exact hparsed

theorem run_counted {s₀ s : Session R σ}
    {hist : List (Session R σ × List UInt8)} (h : Run P s₀ hist s)
    (h₀ : Counted s₀.parser) : Counted s.parser := by
  induction h with
  | refl => exact h₀
  | background h hb ih => exact ih
  | line h hl ih => exact lineDone_counted ih hl

theorem reachable_counted {s : Session R σ} (h : Reachable P s) :
    Counted s.parser := by
  cases h with
  | boot config fs h => exact run_counted h rfl
  | @main config fs _ _ s₁ _ h h' =>
      have hboot : Counted s₁.parser := run_counted h rfl
      exact run_counted h' hboot

end Commands

/-! ## Runs -/

/-- The number of the last N word of a history, latest line first. -/
def lastNumber (n₀ : Int) : List (Session R σ × List UInt8) → Int
  | [] => n₀
  | x :: hist => (nWords x.1.parser x.2).getLast?.getD (lastNumber n₀ hist)

/-- The number behind that of the last line with the property `p`. -/
def following (p : Session R σ × List UInt8 → Bool) (n₀ e₀ : Int) :
    List (Session R σ × List UInt8) → Int
  | [] => e₀
  | x :: hist =>
      if p x then uint32 (lastNumber n₀ (x :: hist) + 1)
      else following p n₀ e₀ hist

/-- The line has passed its checksum, if it has one. -/
def isAccepted (x : Session R σ × List UInt8) : Bool :=
  checksumAccepted (parsed x.1 x.2)

/-- The line has been handed to `process_gcode_command`. -/
def isProcessed (x : Session R σ × List UInt8) : Bool :=
  isAccepted x && !x.1.fw.sdWritingFile

/-- Every line that is accepted has an N word. -/
def Numbered (hist : List (Session R σ × List UInt8)) : Prop :=
  ∀ x ∈ hist, isAccepted x = true → (parsed x.1 x.2).seenN = true

theorem isProcessed_iff {s : Session R σ} {data : List UInt8} :
    isProcessed (s, data) = true ↔ Processes s data := by
  show (checksumAccepted (parsed s data) && !s.fw.sdWritingFile) = true ↔ _
  rw [Bool.and_eq_true, Bool.not_eq_true']
  rfl

section Runs

variable [HasSqrt R] {P : Platform σ} {s₀ s : Session R σ}
  {hist : List (Session R σ × List UInt8)}

theorem lineDone_n {s' : Session R σ} {data : List UInt8}
    (hl : LineDone P s data s') :
    s'.parser.nextTarget.n =
      (nWords s.parser data).getLast?.getD s.parser.nextTarget.n := by
  obtain ⟨irqs, rest, hl⟩ := hl
  rw [← parseChars_n]
  rcases takeLine_rest hl with hp | ⟨change, hp⟩
  · rw [hp]
    rfl
  · rw [hp]
    show (expectNext (change.apply (parsed s data))).n = _
    have hexpect : ∀ t : GcodeCommand R, (expectNext t).n = t.n := by
      intro t
      unfold expectNext
      split <;> rfl
    rw [hexpect]
    cases change <;> rfl

theorem lineDone_nExpected {s' : Session R σ} {data : List UInt8}
    (hnum : isAccepted (s, data) = true → (parsed s data).seenN = true)
    (hl : LineDone P s data s') :
    s'.parser.nextTarget.nExpected =
      if isProcessed (s, data) then uint32 (s'.parser.nextTarget.n + 1)
      else s.parser.nextTarget.nExpected := by
  have hn := lineDone_n hl
  obtain ⟨irqs, rest, hl⟩ := hl
  by_cases hproc : Processes s data
  · rw [if_pos (isProcessed_iff.2 hproc), hn, ← parseChars_n]
    obtain ⟨change, -, hp⟩ := takeLine_returns hproc hl
    have hseen : (change.apply (parsed s data)).seenN = true := by
      rw [← hnum hproc.1]
      cases change <;> rfl
    rw [hp]
    show (expectNext (change.apply (parsed s data))).nExpected = _
    rw [expectNext, if_pos hseen]
    cases change <;> rfl
  · rw [if_neg (fun h => hproc (isProcessed_iff.1 h)),
      takeLine_notProcessed hproc hl]
    exact parseChars_nExpected s.parser data

/-- `N` and `N_expected` in terms of the lines received. -/
theorem run_numbers (h : Run P s₀ hist s) (hnum : Numbered hist) :
    s.parser.nextTarget.n = lastNumber s₀.parser.nextTarget.n hist ∧
      s.parser.nextTarget.nExpected =
        following isProcessed s₀.parser.nextTarget.n
          s₀.parser.nextTarget.nExpected hist := by
  induction h with
  | refl => exact ⟨rfl, rfl⟩
  | background h hb ih => exact ih hnum
  | @line hist s s' data h hl ih =>
      obtain ⟨hn, hexpected⟩ :=
        ih fun x hx => hnum x (List.mem_cons_of_mem _ hx)
      have hlast : s'.parser.nextTarget.n =
          lastNumber s₀.parser.nextTarget.n ((s, data) :: hist) := by
        rw [lineDone_n hl, hn]
        rfl
      refine ⟨hlast, ?_⟩
      rw [lineDone_nExpected (hnum (s, data) List.mem_cons_self) hl, hexpected,
        hlast]
      rfl

theorem following_range (p : Session R σ × List UInt8 → Bool) (n₀ : Int)
    {e₀ : Int} (he : uint32 e₀ = e₀) (hist : List (Session R σ × List UInt8)) :
    uint32 (following p n₀ e₀ hist) = following p n₀ e₀ hist := by
  induction hist with
  | nil => exact he
  | cons x hist ih =>
      rw [following]
      split
      · exact uint32_uint32 _
      · exact ih

/-! ## Requests -/

/-- What a line that is refused is answered, if the line `next` is asked
for. -/
def request (s : Session R σ) (data : List UInt8) (next : Int) : List UInt8 :=
  str "Expected checksum " ++
    serwriteUint32 (parsed s data).checksumCalculated.toNat ++ str "\r\n" ++
    str "rs " ++ serwriteUint32 next.toNat ++ str "\r\n"

/-- The answer asks for the line `next`, which is the one expected. -/
def Names (P : Platform σ) (s : Session R σ) (data : List UInt8) (next : Int) :
    Prop :=
  s.parser.nextTarget.nExpected = next ∧
    ∀ irqs, (takeLine P s data irqs).2.state.tx =
      s.fw.tx ++ request s data next

theorem takeLine_refused {data : List UInt8}
    (h : checksumAccepted (parsed s data) = false) (irqs : List Irq) :
    (takeLine P s data irqs).2.state.tx =
      s.fw.tx ++ request s data (parsed s data).n := by
  rw [takeLine_state, if_neg (by simp [h])]
  rfl

theorem request_injective {data : List UInt8} {n m : Int} (hn : uint32 n = n)
    (hm : uint32 m = m) (h : request s data n = request s data m) : n = m := by
  have hrange := uint32_range n
  have hrange' := uint32_range m
  rw [hn] at hrange
  rw [hm] at hrange'
  unfold request at h
  have hdigits := List.append_cancel_left (List.append_cancel_right h)
  have hnat := serwriteUint32_injective (by omega) (by omega) hdigits
  omega

/-- The request for a line that is refused names the number behind the last line
accepted exactly if this is the number of the last N word received, that of the
refused line included, and the last line accepted was not stored in a file. -/
theorem resend_names_iff (hs₀ : Reachable P s₀) (h : Run P s₀ hist s)
    (hnum : Numbered hist) {data : List UInt8}
    (hrefused : checksumAccepted (parsed s data) = false) :
    let n₀ := s₀.parser.nextTarget.n
    let e₀ := s₀.parser.nextTarget.nExpected
    let next := following isAccepted n₀ e₀ hist
    Names P s data next ↔
      lastNumber n₀ ((s, data) :: hist) = next ∧
        following isProcessed n₀ e₀ hist = next := by
  intro n₀ e₀ next
  obtain ⟨hn, hexpected⟩ := run_numbers h hnum
  have hrange : uint32 next = next :=
    following_range isAccepted n₀ (reachable_counted hs₀) hist
  have hparsed : (parsed s data).n = lastNumber n₀ ((s, data) :: hist) := by
    show (parseChars s.parser data).nextTarget.n = _
    rw [parseChars_n, hn]
    rfl
  have hfits : uint32 (parsed s data).n = (parsed s data).n :=
    (parseChars_inv data (run_rested h (reachable_rested hs₀)).inv).n
  unfold Names
  rw [hexpected, ← hparsed]
  constructor
  · rintro ⟨hnext, hanswer⟩
    have htext := (takeLine_refused (P := P) hrefused []).symm.trans (hanswer [])
    exact ⟨request_injective hfits hrange (List.append_cancel_left htext), hnext⟩
  · rintro ⟨hnumber, hnext⟩
    refine ⟨hnext, fun irqs => ?_⟩
    rw [takeLine_refused hrefused, hnumber]

end Runs

/-! ## Two lines -/

/-- A line as the host sends it. -/
def sent (text : String) : List UInt8 := checkedLine (str text) (xorSum (str text))

/-- The line as it arrives. -/
def garbled (text text' : String) : List UInt8 :=
  checkedLine (str text') (xorSum (str text))

/-- The host has sent its line 1. -/
def firstLine : Session ℚ Unit :=
  (playLine noCard defaultStart (sent "N1 G21")).get (by decide +kernel)

private theorem firstLine_run :
    Run noCard defaultStart [(defaultStart, sent "N1 G21")] firstLine :=
  .line .refl (lineDone_of_playLine (Option.some_get _).symm)

private theorem firstLine_numbered :
    Numbered [(defaultStart, sent "N1 G21")] := by
  intro x hx _
  rw [List.mem_singleton.1 hx]
  show (parsed defaultStart (sent "N1 G21")).seenN = true
  decide +kernel

private theorem host_reachable : Reachable noCard defaultStart :=
  reachable_init _ _

/-- Line 2 arrives as line 7, and line 7 is asked for. -/
theorem resend_misnamed :
    Reachable noCard defaultStart ∧
      Run noCard defaultStart [(defaultStart, sent "N1 G21")] firstLine ∧
      Numbered [(defaultStart, sent "N1 G21")] ∧
      following isAccepted 0 0 [(defaultStart, sent "N1 G21")] = 2 ∧
      checksumAccepted
        (parsed firstLine (garbled "N2 M105" "N7 M105")) = false ∧
      (parsed firstLine (garbled "N2 M105" "N7 M105")).n = 7 ∧
      ¬Names noCard firstLine (garbled "N2 M105" "N7 M105") 2 := by
  have hrefused : checksumAccepted
      (parsed firstLine (garbled "N2 M105" "N7 M105")) = false := by
    decide +kernel
  have hseven : (parsed firstLine (garbled "N2 M105" "N7 M105")).n = 7 := by
    decide +kernel
  refine ⟨host_reachable, firstLine_run, firstLine_numbered, by decide +kernel,
    hrefused, hseven, ?_⟩
  rintro ⟨-, hanswer⟩
  have htext := (takeLine_refused (P := noCard) hrefused []).symm.trans
    (hanswer [])
  rw [hseven] at htext
  exact absurd (request_injective rfl rfl (List.append_cancel_left htext))
    (by decide)

/-- Line 2 arrives with another M word, and line 2 is asked for. -/
theorem resend_names_second :
    Names noCard firstLine (garbled "N2 M105" "N2 M107") 2 := by
  have hrefused : checksumAccepted
      (parsed firstLine (garbled "N2 M105" "N2 M107")) = false := by
    decide +kernel
  have hiff := resend_names_iff host_reachable firstLine_run firstLine_numbered
    hrefused
  have hnext : following isAccepted defaultStart.parser.nextTarget.n
      defaultStart.parser.nextTarget.nExpected
      [(defaultStart, sent "N1 G21")] = 2 := by decide +kernel
  dsimp only at hiff
  rw [hnext] at hiff
  exact hiff.2 ⟨by decide +kernel, by decide +kernel⟩

end R2C2Firmware.Ports.Resend
