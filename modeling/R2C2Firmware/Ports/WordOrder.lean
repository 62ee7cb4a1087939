import R2C2Firmware.Ports.AxisWords
import R2C2Firmware.Ports.LineIndependence

/-!
# The order of the words

The words of a line are stored one after the other, each in a field of its own.
If no letter comes twice, and G and M not both, the number in a field is that of
its word, wherever the word stands.

There is one exception.  The number of a P word is a time in seconds behind a `G4`,
and in milliseconds before it.

## Main results

* `seen_words`, `value_word`, `value_absent` — what a line of words leaves.
* `dwell_word` — the number of a P word.
* `word_order_iff` — when the order of the words makes no difference.
* `g4_order` — `G4 P1` and `P1 G4`.
-/

set_option linter.unusedSectionVars false

namespace R2C2Firmware.Ports.WordOrder

open R2C2Firmware.Verified.Number
open R2C2Firmware.Verified.BusyWait
open R2C2Firmware.Ports.Config
open R2C2Firmware.Ports.MotionPlanner
open R2C2Firmware.Ports.Stepper
open R2C2Firmware.Ports.Sermsg
open R2C2Firmware.Ports.GcodeParse
open R2C2Firmware.Ports.Mendel
open R2C2Firmware.Ports.GcodeProcess
open R2C2Firmware.Ports.MainLoop
open R2C2Firmware.Ports.Checksum
open R2C2Firmware.Ports.StaleWords
open R2C2Firmware.Ports.LineIndependence
open R2C2Firmware.Ports.NumberWords

variable {R σ : Type} [Field R] [LinearOrder R] [FloorRing R] [HasDouble R]

/-! ## One word -/

/-- Whether a word leaves the field of another alone. -/
def Apart (w w' : Word) : Prop :=
  w' ≠ w ∧ (w = .g → w' ≠ .m) ∧ (w = .m → w' ≠ .g)

theorem valueOf_seeWord {w w' : Word} (h : Apart w w') (t : GcodeCommand R) :
    valueOf w (seeWord w' t) = valueOf w t := by
  obtain ⟨-, hg, hm⟩ := h
  cases w' with
  | g =>
      cases w with
      | m => exact absurd rfl (hm rfl)
      | g | x | y | z | e | f | s | p | n | checksum | unknown => rfl
  | m =>
      cases w with
      | g => exact absurd rfl (hg rfl)
      | m | x | y | z | e | f | s | p | n | checksum | unknown => rfl
  | x | y | z | e | f | s | p | n | checksum | unknown => cases w <;> rfl

theorem valueOf_store {w : Word} {e : NumberWord} (h : Apart w e.word)
    (t : GcodeCommand R) : valueOf w (e.store t) = valueOf w t := by
  rw [NumberWord.store, valueOf_storeWord_ne h.1.symm, valueOf_seeWord h]

theorem seen_store {w : Word} {e : NumberWord} (h : Apart w e.word)
    (t : GcodeCommand R) : seen w (e.store t) = seen w t := by
  rw [NumberWord.store, storeWord_seen]
  obtain ⟨hne, hg, hm⟩ := h
  generalize e.word = w' at hne hg hm
  cases w' with
  | g =>
      cases w with
      | m => exact absurd rfl (hm rfl)
      | g => exact absurd rfl hne
      | x | y | z | e | f | s | p | n | checksum | unknown => rfl
  | m =>
      cases w with
      | g => exact absurd rfl (hg rfl)
      | m => exact absurd rfl hne
      | x | y | z | e | f | s | p | n | checksum | unknown => rfl
  | x | y | z | e | f | s | p | n | checksum | unknown =>
      cases w <;> first | rfl | exact absurd rfl hne

theorem seen_store_self {e : NumberWord} (h : e.word ≠ .unknown)
    (t : GcodeCommand R) : seen e.word (e.store t) = true := by
  rw [NumberWord.store, storeWord_seen]
  generalize e.word = w at h
  cases w <;> first | rfl | exact absurd rfl h

/-- The settings, which no word touches, and the name of a file. -/
def settings (t : GcodeCommand R) : Bool × Bool × Int × Nat × List UInt8 :=
  (t.optionRelative, t.optionInches, t.nExpected, t.chpos, t.filename)

theorem settings_store (e : NumberWord) (t : GcodeCommand R) :
    settings (e.store t) = settings t := by
  unfold NumberWord.store
  generalize e.word = w
  cases w <;> rfl

/-! ## All words -/

/-- The words of one command: no letter comes twice, and G and M not both. -/
structure OneCommand (ws : List NumberWord) : Prop where
  distinct : ws.Pairwise fun e e' => e.word = e'.word → e.word = .unknown
  single : ∀ e ∈ ws, e.word = .g → ∀ e' ∈ ws, e'.word ≠ .m

instance (ws : List NumberWord) : Decidable (OneCommand ws) :=
  decidable_of_iff (_ ∧ _) ⟨fun h => ⟨h.1, h.2⟩, fun h => ⟨h.distinct, h.single⟩⟩

theorem OneCommand.perm {ws ws' : List NumberWord} (h : OneCommand ws)
    (hperm : ws'.Perm ws) : OneCommand ws' where
  distinct :=
    (hperm.pairwise_iff fun hxy heq => heq.trans (hxy heq.symm)).2 h.distinct
  single e he hg e' he' := h.single e (hperm.mem_iff.1 he) hg e' (hperm.mem_iff.1 he')

/-- No two words of a line have the same letter. -/
theorem OneCommand.unique {ws : List NumberWord} (h : OneCommand ws) {e e' : NumberWord}
    (he : e ∈ ws) (he' : e' ∈ ws) (hu : e.word ≠ .unknown)
    (hword : e.word = e'.word) : e = e' := by
  by_contra hne
  have hsymm : Std.Symm fun e e' : NumberWord =>
      e.word = e'.word → e.word = .unknown :=
    ⟨fun x y hxy heq => heq.trans (hxy heq.symm)⟩
  exact hu (h.distinct.forall he he' hne hword)

theorem keep_words {α : Type*} {f : GcodeCommand R → α} {ws : List NumberWord}
    (h : ∀ e ∈ ws, ∀ t, f (e.store t) = f t) (t : GcodeCommand R) :
    f (ws.foldl NumberWord.store t) = f t := by
  induction ws generalizing t with
  | nil => rfl
  | cons e ws ih =>
      rw [List.foldl_cons, ih (fun x hx => h x (List.mem_cons_of_mem _ hx)),
        h e List.mem_cons_self]

theorem settings_words (ws : List NumberWord) (t : GcodeCommand R) :
    settings (ws.foldl NumberWord.store t) = settings t :=
  keep_words (fun e _ => settings_store e) t

/-- The other words of a line leave the field of a word alone. -/
theorem OneCommand.apart {ws pre post : List NumberWord} {e : NumberWord}
    (h : OneCommand ws) (hsplit : ws = pre ++ e :: post) (hu : e.word ≠ .unknown) :
    ∀ e' ∈ pre ++ post, Apart e.word e'.word := by
  intro e' he'
  have hmem : e' ∈ ws := by
    rw [hsplit, List.mem_append, List.mem_cons]
    rcases List.mem_append.1 he' with h | h
    · exact .inl h
    · exact .inr (.inr h)
  have he : e ∈ ws := by
    rw [hsplit]
    exact List.mem_append_right _ List.mem_cons_self
  have hdistinct : ((pre ++ post).cons e).Pairwise fun e e' =>
      e.word = e'.word → e.word = .unknown := by
    refine (List.perm_middle.pairwise_iff fun hxy heq => heq.trans (hxy heq.symm)).1 ?_
    rw [← hsplit]
    exact h.distinct
  refine ⟨fun heq => hu ?_, fun hg => h.single e he hg e' hmem,
    fun hm hg => h.single e' hmem hg e he hm⟩
  exact List.rel_of_pairwise_cons hdistinct he' heq.symm

/-- What a word has stored is left alone by the words behind it. -/
theorem OneCommand.last {α : Type*} {f : GcodeCommand R → α}
    {ws pre post : List NumberWord} {e : NumberWord} (h : OneCommand ws)
    (hsplit : ws = pre ++ e :: post) (hu : e.word ≠ .unknown)
    (hf : ∀ e' : NumberWord, Apart e.word e'.word → ∀ t, f (e'.store t) = f t)
    (t : GcodeCommand R) :
    f (ws.foldl NumberWord.store t) =
      f (e.store (pre.foldl NumberWord.store t)) := by
  have hapart := h.apart hsplit hu
  rw [hsplit, List.foldl_append, List.foldl_cons]
  exact keep_words (fun e' he' => hf e' (hapart e' (List.mem_append_right _ he'))) _

/-- A word that is not in the line keeps the value it had, and its mark. -/
theorem value_absent {ws : List NumberWord} {w : Word}
    (h : ∀ e ∈ ws, Apart w e.word) (t : GcodeCommand R) :
    valueOf w (ws.foldl NumberWord.store t) = valueOf w t ∧
      seen w (ws.foldl NumberWord.store t) = seen w t :=
  ⟨keep_words (fun e he => valueOf_store (h e he)) t,
    keep_words (fun e he => seen_store (h e he)) t⟩

/-- The number of a word other than P. -/
theorem value_word {ws : List NumberWord} (h : OneCommand ws) {e : NumberWord}
    (he : e ∈ ws) (hu : e.word ≠ .unknown) (hp : e.word ≠ .p) (t : GcodeCommand R) :
    valueOf e.word (ws.foldl NumberWord.store t) =
      valueOf e.word (storeWord e.word (e.number.read R) t) := by
  obtain ⟨pre, post, hsplit⟩ := List.append_of_mem he
  rw [h.last hsplit hu (fun e' he' => valueOf_store he')]
  have hinches : (seeWord e.word (pre.foldl NumberWord.store t)).optionInches =
      t.optionInches := by
    have hsettings := congrArg (·.2.1) (settings_words pre t)
    rw [← show (pre.foldl NumberWord.store t).optionInches = t.optionInches from
      hsettings]
    cases e.word <;> rfl
  exact valueOf_storeWord_self hinches (fun hpe => absurd hpe hp) _

theorem seen_word {ws : List NumberWord} (h : OneCommand ws) {e : NumberWord}
    (he : e ∈ ws) (hu : e.word ≠ .unknown) (t : GcodeCommand R) :
    seen e.word (ws.foldl NumberWord.store t) = true := by
  obtain ⟨pre, post, hsplit⟩ := List.append_of_mem he
  rw [h.last hsplit hu (fun e' he' => seen_store he'), seen_store_self hu]

/-! ## The P word -/

/-- Whether a word stores a `G4`. -/
def Dwells (R : Type) [Field R] [LinearOrder R] [FloorRing R] [HasDouble R]
    (e : NumberWord) : Prop :=
  e.word = .g ∧ uint8 (truncate (e.number.read R)) = 4

instance (R : Type) [Field R] [LinearOrder R] [FloorRing R] [HasDouble R]
    (e : NumberWord) : Decidable (Dwells R e) := inferInstanceAs (Decidable (_ ∧ _))

/-- Without a G word, there is no G number. -/
theorem g_absent {ws : List NumberWord} (h : ∀ e ∈ ws, e.word ≠ .g)
    {t : GcodeCommand R} (ht : t.g = 0) : (ws.foldl NumberWord.store t).g = 0 := by
  induction ws generalizing t with
  | nil => exact ht
  | cons e ws ih =>
      refine ih (fun x hx => h x (List.mem_cons_of_mem _ hx)) ?_
      have hne := h e List.mem_cons_self
      unfold NumberWord.store
      generalize e.word = w at hne
      cases w with
      | g => exact absurd rfl hne
      | m => rfl
      | x | y | z | e | f | s | p | n | checksum | unknown => exact ht

/-- The G number is 4 behind a `G4`. -/
theorem g_eq_four {ws : List NumberWord} (h : OneCommand ws) {t : GcodeCommand R}
    (ht : t.g = 0) :
    (ws.foldl NumberWord.store t).g = 4 ↔ ∃ e ∈ ws, Dwells R e := by
  by_cases hg : ∃ e ∈ ws, e.word = .g
  · obtain ⟨e, he, hword⟩ := hg
    have hvalue := value_word (R := R) h he (by simp [hword]) (by simp [hword]) t
    rw [hword] at hvalue
    have hstored : (ws.foldl NumberWord.store t).g =
        uint8 (truncate (e.number.read R)) := Sum.inl.inj hvalue
    rw [hstored]
    constructor
    · exact fun hfour => ⟨e, he, hword, hfour⟩
    · rintro ⟨e', he', hword', hfour⟩
      have hvalue' := value_word (R := R) h he' (by simp [hword']) (by simp [hword']) t
      rw [hword'] at hvalue'
      rw [← hfour, ← hstored]
      exact Sum.inl.inj hvalue'
  · have hzero := g_absent (R := R) (fun e he hword => hg ⟨e, he, hword⟩) ht
    rw [hzero]
    refine iff_of_false (by decide) ?_
    rintro ⟨e, he, hword, -⟩
    exact hg ⟨e, he, hword⟩

theorem OneCommand.sublist {ws ws' : List NumberWord} (h : OneCommand ws)
    (hsub : ws'.Sublist ws) : OneCommand ws' where
  distinct := h.distinct.sublist hsub
  single e he hg e' he' := h.single e (hsub.mem he) hg e' (hsub.mem he')

/-- The number of a P word: a time in seconds, if the `G4` comes first. -/
theorem dwell_word {ws pre post : List NumberWord} {e : NumberWord}
    (h : OneCommand ws) (hsplit : ws = pre ++ e :: post) (hp : e.word = .p)
    {t : GcodeCommand R} (ht : t.g = 0) :
    ((∃ e' ∈ pre, Dwells R e') ∧
        (ws.foldl NumberWord.store t).p =
          uint16 (truncate (toDouble (e.number.read R * 1000)))) ∨
      ((¬∃ e' ∈ pre, Dwells R e') ∧
        (ws.foldl NumberWord.store t).p =
          uint16 (truncate (e.number.read R))) := by
  have hpre : OneCommand pre := h.sublist (by
    rw [hsplit]
    exact List.sublist_append_left _ _)
  have hlast : Sum.inl (ws.foldl NumberWord.store t).p =
      valueOf e.word (e.store (pre.foldl NumberWord.store t)) := by
    rw [← h.last hsplit (by simp [hp]) (fun e' he' => valueOf_store he') t, hp]
    rfl
  rw [NumberWord.store, hp] at hlast
  have hvalue : (ws.foldl NumberWord.store t).p =
      uint16 (truncate (if (pre.foldl NumberWord.store t).g = 4 then
        toDouble (e.number.read R * 1000) else e.number.read R)) := Sum.inl.inj hlast
  have hfour := g_eq_four (R := R) hpre ht
  by_cases hdwells : ∃ e' ∈ pre, Dwells R e'
  · rw [if_pos (hfour.2 hdwells)] at hvalue
    exact .inl ⟨hdwells, hvalue⟩
  · rw [if_neg fun hg => hdwells (hfour.1 hg)] at hvalue
    exact .inr ⟨hdwells, hvalue⟩

/-! ## Another order -/

theorem seen_absent {ws : List NumberWord} {w : Word} (h : ∀ e ∈ ws, e.word ≠ w)
    {t : GcodeCommand R} (ht : seen w t = false) :
    seen w (ws.foldl NumberWord.store t) = false := by
  induction ws generalizing t with
  | nil => exact ht
  | cons e ws ih =>
      refine ih (fun x hx => h x (List.mem_cons_of_mem _ hx)) ?_
      rw [Bool.eq_false_iff]
      intro hseen
      rw [NumberWord.store, storeWord_seen] at hseen
      have hbefore := seen_seeWord (h e List.mem_cons_self).symm hseen
      rw [ht] at hbefore
      exact Bool.false_ne_true hbefore

section Perm

variable {ws ws' : List NumberWord} {t : GcodeCommand R}

/-- The flags are those of the words of the line. -/
theorem seen_words (h : OneCommand ws) {w : Word} (hw : w ≠ .unknown)
    (ht : seen w t = false) :
    seen w (ws.foldl NumberWord.store t) = true ↔ ∃ e ∈ ws, e.word = w := by
  constructor
  · intro hseen
    by_contra hno
    rw [seen_absent (fun e he heq => hno ⟨e, he, heq⟩) ht] at hseen
    exact Bool.false_ne_true hseen
  · rintro ⟨e, he, rfl⟩
    exact seen_word h he hw t

theorem seen_perm (h : OneCommand ws) (hperm : ws'.Perm ws)
    (ht : ∀ w, seen w t = false) (w : Word) :
    seen w (ws.foldl NumberWord.store t) = seen w (ws'.foldl NumberWord.store t) := by
  by_cases hw : w = .unknown
  · rw [hw]
    rfl
  · rw [Bool.eq_iff_iff, seen_words h hw (ht w),
      seen_words (h.perm hperm) hw (ht w)]
    exact exists_congr fun e => and_congr_left fun _ => hperm.mem_iff.symm

/-- The number of a word that is there. -/
theorem value_perm (h : OneCommand ws) (hperm : ws'.Perm ws) {e : NumberWord}
    (he : e ∈ ws) (hu : e.word ≠ .unknown) (hp : e.word ≠ .p) :
    valueOf e.word (ws.foldl NumberWord.store t) =
      valueOf e.word (ws'.foldl NumberWord.store t) := by
  rw [value_word h he hu hp,
    value_word (h.perm hperm) (hperm.mem_iff.2 he) hu hp]

/-- The number of a word that may be there. -/
theorem value_perm' (h : OneCommand ws) (hperm : ws'.Perm ws) {w : Word}
    (hw : w ≠ .g ∧ w ≠ .m ∧ w ≠ .p ∧ w ≠ .unknown) :
    valueOf w (ws.foldl NumberWord.store t) =
      valueOf w (ws'.foldl NumberWord.store t) := by
  obtain ⟨hg, hm, hp, hu⟩ := hw
  by_cases hmem : ∃ e ∈ ws, e.word = w
  · obtain ⟨e, he, rfl⟩ := hmem
    exact value_perm h hperm he hu hp
  · have hapart : ∀ e ∈ ws, Apart w e.word := fun e he =>
      ⟨fun heq => hmem ⟨e, he, heq⟩, fun hw => absurd hw hg, fun hw => absurd hw hm⟩
    rw [(value_absent hapart t).1,
      (value_absent (fun e he => hapart e (hperm.mem_iff.1 he)) t).1]

/-- The words in another order are the same command, if P has the same number. -/
theorem sameCommand_perm (h : OneCommand ws) (hperm : ws'.Perm ws)
    (ht : ∀ w, seen w t = false)
    (hp : (ws.foldl NumberWord.store t).p = (ws'.foldl NumberWord.store t).p)
    (k k' : UInt8) :
    SameCommand { ws.foldl NumberWord.store t with checksumCalculated := k }
      { ws'.foldl NumberWord.store t with checksumCalculated := k' } := by
  have hsettings := (settings_words ws t).trans (settings_words ws' t).symm
  have hflags : ∀ w, seen w (ws.foldl NumberWord.store t) =
      seen w (ws'.foldl NumberWord.store t) := seen_perm h hperm ht
  have hwords : ∀ w, seen w (ws.foldl NumberWord.store t) = true →
      valueOf w (ws.foldl NumberWord.store t) =
        valueOf w (ws'.foldl NumberWord.store t) := by
    intro w hseen
    by_cases hu : w = .unknown
    · rw [hu]
      rfl
    · by_cases hpw : w = .p
      · rw [hpw]
        exact congrArg Sum.inl hp
      · obtain ⟨e, he, rfl⟩ := (seen_words h hu (ht w)).1 hseen
        exact value_perm h hperm he hu hpw
  have hchange : ∀ (T : GcodeCommand R) (k : UInt8) (w : Word),
      seen w { T with checksumCalculated := k } = seen w T ∧
        valueOf w { T with checksumCalculated := k } = valueOf w T := by
    intro T k w
    cases w <;> exact ⟨rfl, rfl⟩
  have hcoord : ∀ a, (ws.foldl NumberWord.store t).target.coord a =
      (ws'.foldl NumberWord.store t).target.coord a := by
    intro a
    cases a with
    | x => exact Sum.inr.inj (value_perm' h hperm (w := .x) (by decide))
    | y => exact Sum.inr.inj (value_perm' h hperm (w := .y) (by decide))
    | z => exact Sum.inr.inj (value_perm' h hperm (w := .z) (by decide))
    | e => exact Sum.inr.inj (value_perm' h hperm (w := .e) (by decide))
  refine
    { flags := fun w => ?_
      words := fun w hseen => ?_
      relative := congrArg (·.1) hsettings
      inches := congrArg (·.2.1) hsettings
      s := Sum.inl.inj (value_perm' h hperm (w := .s) (by decide))
      name := ?_
      axes := fun _ a => hcoord a
      dwell := fun _ => hp }
  · rw [(hchange _ k w).1, (hchange _ k' w).1, hflags w]
  · rw [(hchange _ k w).1] at hseen
    rw [(hchange _ k w).2, (hchange _ k' w).2, hwords w hseen]
  · have hfile : (ws.foldl NumberWord.store t).filename =
        (ws'.foldl NumberWord.store t).filename := congrArg (·.2.2.2.2) hsettings
    unfold filenameOf
    exact congrArg _ hfile

end Perm

/-! ## Lines -/

/-- The words of a line, with blanks in front of each, and the line end. -/
def lineOf (blanks : List Nat) (ws : List NumberWord) (c : UInt8) : List UInt8 :=
  wordsText (blanks.zip ws) ++ [c]

theorem length_wordsText {blanks : List Nat} {ws : List NumberWord}
    (h : blanks.length = ws.length) :
    (wordsText (blanks.zip ws)).length =
      blanks.sum + (ws.map (·.text.length)).sum := by
  induction blanks generalizing ws with
  | nil =>
      obtain rfl := List.length_eq_zero_iff.1 h.symm
      rfl
  | cons n blanks ih =>
      cases ws with
      | nil => exact absurd h (by simp)
      | cons e ws =>
          have hrest := ih (Nat.succ.inj h)
          unfold wordsText at hrest ⊢
          rw [List.zip_cons_cons, List.flatMap_cons, List.length_append,
            List.length_append, List.length_replicate, hrest, List.sum_cons,
            List.map_cons, List.sum_cons]
          dsimp only
          omega

theorem length_lineOf_perm {blanks : List Nat} {ws ws' : List NumberWord}
    (h : blanks.length = ws.length) (hperm : ws'.Perm ws) (c : UInt8) :
    (lineOf blanks ws' c).length = (lineOf blanks ws c).length := by
  have h' : blanks.length = ws'.length := h.trans hperm.length_eq.symm
  rw [lineOf, lineOf, List.length_append, List.length_append, length_wordsText h,
    length_wordsText h', (hperm.map (·.text.length)).sum_eq]

/-- Between two lines a word can start, if no file name is open. -/
theorem rested_atWord {p : Parser R} (h : Rested p)
    (hname : p.nextTarget.gettingString = false) :
    AtWord p ∧ committed p = p.nextTarget := by
  have hcommitted : committed p = p.nextTarget := by
    rw [← h.fixed]
    rfl
  have hplain : NumberWords.Plain p.nextTarget := by
    rw [← h.fixed]
    exact ⟨rfl, rfl, hname⟩
  refine ⟨⟨hplain, ?_, ?_⟩, hcommitted⟩
  · rw [hcommitted]
    exact hplain
  · rw [← h.fixed]
    rfl

theorem rested_unseen {p : Parser R} (h : Rested p) (w : Word) :
    seen w p.nextTarget = false := by
  rw [← h.fixed]
  cases w <;> rfl

theorem rested_g {p : Parser R} (h : Rested p) : p.nextTarget.g = 0 := by
  rw [← h.fixed]
  rfl

section Lines

variable [HasSqrt R] {P : Platform σ} {s : Session R σ}
  {blanks : List Nat} {ws ws' : List NumberWord} {c : UInt8}

theorem parsed_lineOf (h : Rested s.parser)
    (hname : s.parser.nextTarget.gettingString = false)
    (hnames : ∀ e ∈ ws, ¬e.Names R) (hblanks : blanks.length = ws.length)
    (hc : isLineEnd c = true) :
    ∃ k, parsed s (lineOf blanks ws c) =
      { ws.foldl NumberWord.store s.parser.nextTarget with
        checksumCalculated := k } := by
  obtain ⟨hat, hcommitted⟩ := rested_atWord h hname
  have hwords : (blanks.zip ws).map (·.2) = ws := List.map_snd_zip hblanks.ge
  have hl : ∀ x ∈ blanks.zip ws, ¬x.2.Names R := fun x hx =>
    hnames x.2 (List.of_mem_zip hx).2
  obtain ⟨k, hk⟩ := parseChars_words hl hat hc
  refine ⟨k, ?_⟩
  rw [hwords, hcommitted] at hk
  exact congrArg Parser.nextTarget hk

/-- What a line has done, but for the file being saved: whether it returned, the
modes it left, and the firmware with all it has sent and done. -/
structure SameEffect (r r' : Option (Parser R) × World (Firmware R σ) Irq) :
    Prop where
  options : r.1.map (fun p => (p.nextTarget.optionRelative, p.nextTarget.optionInches)) =
    r'.1.map fun p => (p.nextTarget.optionRelative, p.nextTarget.optionInches)
  firmware : { r.2.state with fs := r'.2.state.fs } = r'.2.state
  irqs : r.2.irqs = r'.2.irqs

theorem SameEffect.effects {r r' : Option (Parser R) × World (Firmware R σ) Irq}
    (h : SameEffect r r') : r.2.state.effects = r'.2.state.effects := by
  have hfw := congrArg Firmware.effects h.firmware
  exact hfw

theorem bind_pure_eq {α β : Type} (x : FwM R σ α) (f : α → β)
    (w : World (Firmware R σ) Irq) :
    (x >>= fun a => pure (f a)) w = ((x w).1.map f, (x w).2) := by
  rw [bind_apply]
  rcases x w with ⟨_ | a, w'⟩ <;> rfl

/-- What becomes of a line that is processed: its command runs, and the parser starts
afresh when it returns. -/
theorem takeLine_command {data : List UInt8} (h : Processes s data)
    (irqs : List Irq) :
    takeLine P s data irqs =
      ((processGcodeCommand P (parsed s data) ⟨s.fw, irqs⟩).1.map fun change =>
          endOfLine
            { parseChars s.parser data with
              nextTarget := expectNext (change.apply (parsed s data)) },
        (processGcodeCommand P (parsed s data) ⟨s.fw, irqs⟩).2) := by
  rw [takeLine_eq, if_pos h.1, bind_pure_eq, acceptLine, get_bind_apply,
    if_neg (by simp [h.2]), bind_pure_eq, Option.map_map]
  rfl

/-- What becomes of a line that is saved to the card: it is written, and the parser
starts afresh. -/
theorem takeLine_saved {data : List UInt8}
    (haccepted : checksumAccepted (parsed s data) = true)
    (hon : s.fw.sdWritingFile = true) (irqs : List Irq) :
    takeLine P s data irqs =
      ((writeLine P (parsed s data) data ⟨s.fw, irqs⟩).1.map fun _ =>
          endOfLine (parseChars s.parser data),
        (writeLine P (parsed s data) data ⟨s.fw, irqs⟩).2) := by
  rw [takeLine_eq, if_pos haccepted, bind_pure_eq, acceptLine, get_bind_apply,
    if_pos hon, bind_pure_eq, Option.map_map]
  rfl

theorem options_after {c d : GcodeCommand R}
    (hrelative : c.optionRelative = d.optionRelative)
    (hinches : c.optionInches = d.optionInches) (change : Change R) (p q : Parser R) :
    let left := fun p : Parser R =>
      (p.nextTarget.optionRelative, p.nextTarget.optionInches)
    left (endOfLine { p with nextTarget := expectNext (change.apply c) }) =
      left (endOfLine { q with nextTarget := expectNext (change.apply d) }) := by
  have hexpect : ∀ c : GcodeCommand R,
      (expectNext c).optionRelative = c.optionRelative ∧
        (expectNext c).optionInches = c.optionInches := by
    intro c
    unfold expectNext
    split <;> exact ⟨rfl, rfl⟩
  show ((expectNext (change.apply c)).optionRelative,
      (expectNext (change.apply c)).optionInches) =
    ((expectNext (change.apply d)).optionRelative,
      (expectNext (change.apply d)).optionInches)
  rw [(hexpect _).1, (hexpect _).2, (hexpect _).1, (hexpect _).2]
  cases change with
  | none | nExpected n | feedRate f => exact Prod.ext hrelative hinches
  | optionInches on => exact Prod.ext hrelative rfl
  | optionRelative on => exact Prod.ext rfl hinches

/-- Two lines that are processed as the same command have the same effect. -/
theorem SameCommand.effect {data data' : List UInt8} (h : Processes s data)
    (h' : Processes s data')
    (hsame : SameCommand (parsed s data) (parsed s data')) (irqs : List Irq) :
    SameEffect (takeLine P s data irqs) (takeLine P s data' irqs) := by
  rw [takeLine_command h, takeLine_command h', processGcodeCommand_congr hsame]
  generalize processGcodeCommand P (parsed s data') ⟨s.fw, irqs⟩ = r
  refine ⟨?_, rfl, rfl⟩
  rw [Option.map_map, Option.map_map]
  refine congrArg (fun f => r.1.map f) (funext fun change => ?_)
  exact options_after hsame.relative hsame.inches change _ _

/-- `f_write` reports the same for the same number of bytes. -/
def WritesByLength (P : Platform σ) : Prop :=
  ∀ (bytes bytes' : List UInt8) (fs : σ), bytes.length = bytes'.length →
    (P.fWrite bytes fs).1 = (P.fWrite bytes' fs).1

theorem length_storedLine (data : List UInt8) :
    (storedLine data).length = data.length := by
  unfold storedLine
  split
  · next hlast =>
    have hne : data ≠ [] := by
      rintro rfl
      exact absurd hlast (by simp)
    rw [List.length_append, List.length_dropLast, List.length_singleton]
    have hpos := List.length_pos_iff.2 hne
    omega
  · rfl

/-- Two lines of the same length with the same M word, when they are saved. -/
theorem saved_effect (hP : WritesByLength P) {data data' : List UInt8}
    (hlength : data.length = data'.length)
    (ha : checksumAccepted (parsed s data) = true)
    (ha' : checksumAccepted (parsed s data') = true)
    (hon : s.fw.sdWritingFile = true)
    (hflag : (parsed s data).seenM = (parsed s data').seenM)
    (hm : (parsed s data).seenM = true → (parsed s data).m = (parsed s data').m)
    (hrelative : (parsed s data).optionRelative = (parsed s data').optionRelative)
    (hinches : (parsed s data).optionInches = (parsed s data').optionInches)
    (irqs : List Irq) :
    SameEffect (takeLine P s data irqs) (takeLine P s data' irqs) := by
  have hoptions : ∀ x : Option Unit,
      (x.map fun _ => endOfLine (parseChars s.parser data)).map
          (fun p => (p.nextTarget.optionRelative, p.nextTarget.optionInches)) =
        (x.map fun _ => endOfLine (parseChars s.parser data')).map
          fun p => (p.nextTarget.optionRelative, p.nextTarget.optionInches) := by
    intro x
    rw [Option.map_map, Option.map_map]
    refine congrArg (fun f => x.map f) (funext fun _ => ?_)
    exact Prod.ext hrelative hinches
  rw [takeLine_saved ha hon, takeLine_saved ha' hon, writeLine_congr hflag hm data]
  unfold writeLine
  split
  · exact ⟨hoptions _, rfl, rfl⟩
  · have hwritten := hP (storedLine data) (storedLine data') s.fw.fs (by
      rw [length_storedLine, length_storedLine, hlength])
    have hrun : ∀ data : List UInt8,
        ((sdWriteToFile P (storedLine data) >>= fun written =>
            if written then serialWritestr "ok\r\n"
            else serialWritestr "error writing to file\r\n" : FwM R σ Unit)
          ⟨s.fw, irqs⟩) =
        (some (), ⟨{ s.fw with
            fs := (P.fWrite (storedLine data) s.fw.fs).2
            tx := s.fw.tx ++ str (if (P.fWrite (storedLine data) s.fw.fs).1 == 0 then
              "ok\r\n" else "error writing to file\r\n") }, irqs⟩) := by
      intro data
      show (if (P.fWrite (storedLine data) s.fw.fs).1 == 0 then
          serialWritestr "ok\r\n" else serialWritestr "error writing to file\r\n" :
          FwM R σ Unit)
        ⟨{ s.fw with fs := (P.fWrite (storedLine data) s.fw.fs).2 }, irqs⟩ = _
      split
      · rfl
      · rfl
    rw [hrun data, hrun data', hwritten]
    exact ⟨hoptions (some ()), rfl, rfl⟩

/-! ## The exception -/

/-- A `G4` with a time that means another one in milliseconds. -/
def Ambiguous (R : Type) [Field R] [LinearOrder R] [FloorRing R] [HasDouble R]
    (ws : List NumberWord) : Prop :=
  (∃ e ∈ ws, Dwells R e) ∧
    ∃ e ∈ ws, e.word = .p ∧
      uint16 (truncate (toDouble (e.number.read R * 1000))) ≠
        uint16 (truncate (e.number.read R))

theorem p_perm (h : OneCommand ws) (hperm : ws'.Perm ws) {t : GcodeCommand R}
    (ht : t.g = 0) (hclear : ¬Ambiguous R ws) :
    (ws.foldl NumberWord.store t).p = (ws'.foldl NumberWord.store t).p := by
  by_cases hp : ∃ e ∈ ws, e.word = .p
  · obtain ⟨e, he, hword⟩ := hp
    have hsame : (∃ e' ∈ ws, Dwells R e') →
        uint16 (truncate (toDouble (e.number.read R * 1000))) =
          uint16 (truncate (e.number.read R)) := by
      intro hdwells
      by_contra hne
      exact hclear ⟨hdwells, e, he, hword, hne⟩
    -- in either order, the number is the one without a factor
    have hvalue : ∀ us : List NumberWord, us.Perm ws →
        (us.foldl NumberWord.store t).p =
          uint16 (truncate (e.number.read R)) := by
      intro us hus
      obtain ⟨pre, post, hsplit⟩ := List.append_of_mem (hus.mem_iff.2 he)
      rcases dwell_word (R := R) (h.perm hus) hsplit hword ht with
        ⟨⟨e', he', hdwells⟩, hvalue⟩ | ⟨-, hvalue⟩
      · have hmem : e' ∈ us := by
          rw [hsplit]
          exact List.mem_append_left _ he'
        rw [hvalue, hsame ⟨e', hus.mem_iff.1 hmem, hdwells⟩]
      · exact hvalue
    rw [hvalue ws (.refl ws), hvalue ws' hperm]
  · have hapart : ∀ e ∈ ws, Apart .p e.word := fun e he =>
      ⟨fun heq => hp ⟨e, he, heq⟩, fun hw => absurd hw (by decide),
        fun hw => absurd hw (by decide)⟩
    have habsent := (value_absent hapart t).1
    have habsent' := (value_absent (fun e he => hapart e (hperm.mem_iff.1 he)) t).1
    exact Sum.inl.inj (habsent.trans habsent'.symm)

theorem commandOf_dwells (h : OneCommand ws) {t : GcodeCommand R} (ht : t.g = 0)
    (hdwells : ∃ e ∈ ws, Dwells R e) (k : UInt8) :
    commandOf { ws.foldl NumberWord.store t with checksumCalculated := k } =
      .g .g4 := by
  have hg := (g_eq_four (R := R) h ht).2 hdwells
  obtain ⟨e, he, hword, -⟩ := hdwells
  have hseen := seen_word (R := R) h he (by simp [hword]) t
  rw [hword] at hseen
  have hseen' : (ws.foldl NumberWord.store t).seenG = true := hseen
  unfold commandOf
  dsimp only
  rw [if_pos hseen', hg]
  rfl

/-- What a `G4` does, where the queue empties. -/
theorem dwell_effects {data : List UInt8} (hproc : Processes s data)
    (hg4 : commandOf (parsed s data) = .g .g4) {irqs : List Irq}
    {w : World (Firmware R σ) Irq}
    (hdrains : (synchQueue P : FwM R σ Unit) ⟨s.fw, irqs⟩ = (some (), w)) :
    (takeLine P s data irqs).2.state.effects =
      .delayMs (parsed s data).p :: w.state.effects := by
  have hrun : (runCommand P (parsed s data) : FwM R σ (Outcome R)) =
      g4 P (parsed s data) >>= fun _ => pure .plain := by
    rw [runCommand, hg4]
    rfl
  have hdwell : (g4 P (parsed s data) : FwM R σ Unit) ⟨s.fw, irqs⟩ =
      (some (), { w with state :=
        { w.state with
          effects := .delayMs (parsed s data).p :: w.state.effects } }) := by
    unfold g4
    rw [bind_apply, hdrains]
    rfl
  rw [takeLine_processes hproc, processGcodeCommand_plain hrun hdwell]

/-- A set of words without a checksum, in a session without an open file name. -/
structure Ordinary (s : Session R σ) (ws : List NumberWord) : Prop where
  rested : Rested s.parser
  closed : s.parser.nextTarget.gettingString = false
  one : OneCommand ws
  names : ∀ e ∈ ws, ¬e.Names R
  unchecked : ∀ e ∈ ws, e.word ≠ .checksum

theorem Ordinary.perm (h : Ordinary s ws) (hperm : ws'.Perm ws) : Ordinary s ws' where
  rested := h.rested
  closed := h.closed
  one := h.one.perm hperm
  names e he := h.names e (hperm.mem_iff.1 he)
  unchecked e he := h.unchecked e (hperm.mem_iff.1 he)

theorem Ordinary.accepted (h : Ordinary s ws) (hblanks : blanks.length = ws.length)
    (hc : isLineEnd c = true) :
    checksumAccepted (parsed s (lineOf blanks ws c)) = true := by
  obtain ⟨k, hk⟩ := parsed_lineOf h.rested h.closed h.names hblanks hc
  have hunseen : (ws.foldl NumberWord.store s.parser.nextTarget).seenChecksum = false :=
    seen_absent h.unchecked (rested_unseen h.rested .checksum)
  rw [hk, checksumAccepted]
  dsimp only
  rw [hunseen, Bool.not_false, Bool.or_true]

/-- The time of a `G4` is all that the order can change. -/
theorem Ordinary.effect (h : Ordinary s ws) (hP : WritesByLength P)
    (hblanks : blanks.length = ws.length) (hc : isLineEnd c = true)
    (hclear : Ambiguous R ws → s.fw.sdWritingFile = false → ¬Drains P s.fw)
    (hperm : ws'.Perm ws) (irqs : List Irq) :
    SameEffect (takeLine P s (lineOf blanks ws c) irqs)
      (takeLine P s (lineOf blanks ws' c) irqs) := by
  have h' := h.perm hperm
  have hblanks' : blanks.length = ws'.length := hblanks.trans hperm.length_eq.symm
  obtain ⟨k, hk⟩ := parsed_lineOf h.rested h.closed h.names hblanks hc
  obtain ⟨k', hk'⟩ := parsed_lineOf h'.rested h'.closed h'.names hblanks' hc
  have haccepted := h.accepted hblanks hc
  have haccepted' := h'.accepted hblanks' hc
  have hunseen := rested_unseen h.rested
  have hg := rested_g h.rested
  cases hwriting : s.fw.sdWritingFile with
  | true =>
      have hsettings := (settings_words ws s.parser.nextTarget).trans
        (settings_words ws' s.parser.nextTarget).symm
      have hflag := seen_perm h.one hperm hunseen .m
      refine saved_effect hP (length_lineOf_perm hblanks hperm c).symm haccepted
        haccepted' hwriting ?_ (fun hseen => ?_) ?_ ?_ irqs
      · rw [hk, hk']
        exact hflag
      · rw [hk] at hseen
        obtain ⟨e, he, hm⟩ := (seen_words h.one (by decide) (hunseen .m)).1 hseen
        have hvalue := value_perm (t := s.parser.nextTarget) h.one hperm he
          (by simp [hm]) (by simp [hm])
        rw [hm] at hvalue
        rw [hk, hk']
        exact Sum.inl.inj hvalue
      · rw [hk, hk']
        exact congrArg (·.1) hsettings
      · rw [hk, hk']
        exact congrArg (·.2.1) hsettings
  | false =>
      have hproc : Processes s (lineOf blanks ws c) := ⟨haccepted, hwriting⟩
      have hproc' : Processes s (lineOf blanks ws' c) := ⟨haccepted', hwriting⟩
      by_cases hamb : Ambiguous R ws
      · -- the `G4` waits for ever, in either order
        have hwaits : ((synchQueue P : FwM R σ Unit) ⟨s.fw, irqs⟩).1 = none := by
          rw [Option.eq_none_iff_forall_not_mem]
          exact fun _ hret => hclear hamb hwriting ⟨irqs, hret⟩
        have hdwells' : ∃ e ∈ ws', Dwells R e := by
          obtain ⟨⟨e, he, hdwells⟩, -⟩ := hamb
          exact ⟨e, hperm.mem_iff.2 he, hdwells⟩
        have hcommand := commandOf_dwells h.one hg hamb.1 k
        have hcommand' := commandOf_dwells h'.one hg hdwells' k'
        rw [← hk] at hcommand
        rw [← hk'] at hcommand'
        rw [takeLine_command hproc, takeLine_command hproc',
          g4_waits hcommand hwaits, g4_waits hcommand' hwaits]
        exact ⟨rfl, rfl, rfl⟩
      · have hsame := sameCommand_perm h.one hperm hunseen
          (p_perm h.one hperm hg hamb) k k'
        rw [← hk, ← hk'] at hsame
        exact SameCommand.effect hproc hproc' hsame irqs

/-- The time of a `G4` that comes before the P word, and of one that comes
behind. -/
theorem Ordinary.dwell {g p : NumberWord} {rest : List NumberWord}
    (h : Ordinary s ws) (hblanks : blanks.length = ws.length) (hc : isLineEnd c = true)
    (hwriting : s.fw.sdWritingFile = false) (hg : Dwells R g) (hp : p.word = .p)
    {irqs : List Irq} {w : World (Firmware R σ) Irq}
    (hdrains : (synchQueue P : FwM R σ Unit) ⟨s.fw, irqs⟩ = (some (), w)) :
    (ws = g :: p :: rest →
      (takeLine P s (lineOf blanks ws c) irqs).2.state.effects =
        .delayMs (uint16 (truncate (toDouble (p.number.read R * 1000)))) :: w.state.effects) ∧
    (ws = p :: g :: rest →
      (takeLine P s (lineOf blanks ws c) irqs).2.state.effects =
        .delayMs (uint16 (truncate (p.number.read R))) :: w.state.effects) := by
  obtain ⟨k, hk⟩ := parsed_lineOf h.rested h.closed h.names hblanks hc
  have hproc : Processes s (lineOf blanks ws c) := ⟨h.accepted hblanks hc, hwriting⟩
  have hzero := rested_g h.rested
  have heffects : g ∈ ws → (takeLine P s (lineOf blanks ws c) irqs).2.state.effects =
      .delayMs (ws.foldl NumberWord.store s.parser.nextTarget).p ::
        w.state.effects := by
    intro hmem
    have hcommand := commandOf_dwells h.one hzero ⟨g, hmem, hg⟩ k
    rw [← hk] at hcommand
    rw [dwell_effects hproc hcommand hdrains, hk]
  constructor
  · intro hws
    have hsplit : ws = [g] ++ p :: rest := hws
    rw [heffects (by simp [hws])]
    rcases dwell_word (R := R) h.one hsplit hp hzero with ⟨-, hvalue⟩ | ⟨hno, -⟩
    · rw [hvalue]
    · exact absurd ⟨g, by simp, hg⟩ hno
  · intro hws
    have hsplit : ws = [] ++ p :: (g :: rest) := hws
    rw [heffects (by simp [hws])]
    rcases dwell_word (R := R) h.one hsplit hp hzero with ⟨⟨e, he, -⟩, -⟩ | ⟨-, hvalue⟩
    · exact absurd he (by simp)
    · rw [hvalue]

/-- The order of the words of a line makes no difference, exactly if there is no
`G4` whose time is another one in milliseconds; or the line is saved, or the `G4`
waits for ever. -/
theorem word_order_iff (hs : Reachable P s)
    (hclosed : s.parser.nextTarget.gettingString = false) (hws : OneCommand ws)
    (hnames : ∀ e ∈ ws, ¬e.Names R) (hunchecked : ∀ e ∈ ws, e.word ≠ .checksum)
    (hP : WritesByLength P) (hblanks : blanks.length = ws.length)
    (hc : isLineEnd c = true) :
    (∀ ws', ws'.Perm ws → ∀ irqs,
        SameEffect (takeLine P s (lineOf blanks ws c) irqs)
          (takeLine P s (lineOf blanks ws' c) irqs)) ↔
      ¬(Ambiguous R ws ∧ s.fw.sdWritingFile = false ∧ Drains P s.fw) := by
  have h : Ordinary s ws :=
    ⟨reachable_rested hs, hclosed, hws, hnames, hunchecked⟩
  constructor
  · rintro hsame ⟨⟨⟨g, hgmem, hg⟩, p, hpmem, hp, hne⟩, hwriting, irqs, hret⟩
    obtain ⟨pre, post, hsplit⟩ := List.append_of_mem hgmem
    have hperm : (g :: (pre ++ post)).Perm ws := by
      rw [hsplit]
      exact List.perm_middle.symm
    have hpmem' : p ∈ pre ++ post := by
      refine (List.mem_cons.1 (hperm.mem_iff.2 hpmem)).resolve_left ?_
      rintro rfl
      exact absurd (hg.1.symm.trans hp) (by decide)
    obtain ⟨pre', post', hsplit'⟩ := List.append_of_mem hpmem'
    have hrest : (p :: (pre' ++ post')).Perm (pre ++ post) := by
      rw [hsplit']
      exact List.perm_middle.symm
    have hperm₁ : (g :: p :: (pre' ++ post')).Perm ws := (hrest.cons g).trans hperm
    have hperm₂ : (p :: g :: (pre' ++ post')).Perm ws :=
      (List.Perm.swap g p _).trans hperm₁
    rcases hdrains : (synchQueue P : FwM R σ Unit) ⟨s.fw, irqs⟩ with ⟨x, w⟩
    rw [hdrains] at hret
    dsimp only at hret
    subst hret
    have heffects : ∀ ws', ws'.Perm ws →
        (takeLine P s (lineOf blanks ws c) irqs).2.state.effects =
          (takeLine P s (lineOf blanks ws' c) irqs).2.state.effects := fun ws' hws' =>
      (hsame ws' hws' irqs).effects
    have hdwell₁ := ((h.perm hperm₁).dwell (hblanks.trans hperm₁.length_eq.symm) hc
      hwriting hg hp hdrains).1 rfl
    have hdwell₂ := ((h.perm hperm₂).dwell (hblanks.trans hperm₂.length_eq.symm) hc
      hwriting hg hp hdrains).2 rfl
    have heq := hdwell₁.symm.trans ((heffects _ hperm₁).symm.trans
      ((heffects _ hperm₂).trans hdwell₂))
    obtain ⟨htime, -⟩ := List.cons.inj heq
    exact hne (Effect.delayMs.inj htime)
  · intro hclear ws' hperm irqs
    exact h.effect hP hblanks hc
      (fun hamb hwriting hdrains => hclear ⟨hamb, hwriting, hdrains⟩) hperm irqs

end Lines

/-! ## Two lines -/

/-- A word with a number of one digit. -/
def digitWord (letter : UInt8) (w : Word) (h : wordOf (uppercase letter) = some w)
    (c : UInt8) (hc : IsDigit c) : NumberWord :=
  ⟨letter, w, h, AxisWords.oneDigit c hc⟩

/-- `G1`, `G4`, `X1` and `P1` -/
def g1Word : NumberWord := digitWord 71 .g rfl 49 ⟨by decide, by decide⟩

@[inherit_doc g1Word]
def g4Word : NumberWord := digitWord 71 .g rfl 52 ⟨by decide, by decide⟩

@[inherit_doc g1Word]
def x1Word : NumberWord := digitWord 88 .x rfl 49 ⟨by decide, by decide⟩

@[inherit_doc g1Word]
def p1Word : NumberWord := digitWord 80 .p rfl 49 ⟨by decide, by decide⟩

/-- `X1 G1` does what `G1 X1` does. -/
theorem word_order_g1 :
    SameEffect
      (takeLine noCard defaultStart (lineOf [0, 1] [g1Word, x1Word] 10) [])
      (takeLine noCard defaultStart (lineOf [0, 1] [x1Word, g1Word] 10) []) := by
  have hone : OneCommand [g1Word, x1Word] := by
    refine ⟨by simp [g1Word, x1Word, digitWord], fun e _ _ e' he' => ?_⟩
    rcases List.mem_pair.1 he' with rfl | rfl <;> decide
  have hnames : ∀ e ∈ [g1Word, x1Word], ¬e.Names ℚ := by
    rintro e he ⟨hm, -⟩
    rcases List.mem_pair.1 he with rfl | rfl <;> exact absurd hm (by decide)
  have hunchecked : ∀ e ∈ [g1Word, x1Word], e.word ≠ .checksum := by
    intro e he
    rcases List.mem_pair.1 he with rfl | rfl <;> decide
  have hclear : ¬Ambiguous ℚ [g1Word, x1Word] := by
    rintro ⟨⟨e, he, hg, hfour⟩, -⟩
    rcases List.mem_pair.1 he with rfl | rfl
    · exact absurd hfour (by decide +kernel)
    · exact absurd hg (by decide)
  exact (word_order_iff (reachable_init _ _) rfl hone hnames hunchecked
    (fun _ _ _ _ => rfl) rfl rfl).2 (fun h => hclear h.1) _ (.swap _ _ _) []

/-- `G4 P1` waits for a second, `P1 G4` for a millisecond. -/
theorem g4_order :
    Reachable noCard defaultStart ∧
      lineOf [0, 1] [g4Word, p1Word] 10 = str "G4 P1\n" ∧
      lineOf [0, 1] [p1Word, g4Word] 10 = str "P1 G4\n" ∧
      ¬SameEffect (takeLine noCard defaultStart (str "G4 P1\n") [])
        (takeLine noCard defaultStart (str "P1 G4\n") []) := by
  refine ⟨reachable_init _ _, by decide, by decide, fun hsame => ?_⟩
  have hfirst : (takeLine noCard defaultStart (str "G4 P1\n") []).2.state.effects =
      .delayMs 1000 :: defaultStart.fw.effects := by decide +kernel
  have hsecond : (takeLine noCard defaultStart (str "P1 G4\n") []).2.state.effects =
      .delayMs 1 :: defaultStart.fw.effects := by decide +kernel
  have heffects := hsame.effects
  rw [hfirst, hsecond] at heffects
  exact absurd heffects (by decide +kernel)

end R2C2Firmware.Ports.WordOrder
