import Mathlib.Data.List.TakeWhile
import R2C2Firmware.Ports.ReadConfig

/-!
# The tokenizer in place

A transcription of `get_token` with its statics.  `getToken` of `ReadConfig` says
which token a text starts with; here the text lies in memory, the position in it and
one saved character are kept from call to call, and a token is terminated where it
stands.

Pointers are places in memory.  A loop that would leave the memory, or an access
outside of it, gives `none`; so do more calls than allowed.

Between two calls the memory is the line with one zero in it, at the end of the
token, and the saved character is the one that was there.

## Main results

* `scan_token` — a call finds the token the text starts with.
* `tokenizer` — the calls for a line.
-/

namespace R2C2Firmware.Ports.Tokenizer

open R2C2Firmware.Ports.ReadConfig
open R2C2Firmware.Ports.Sermsg

/-! ## The function -/

/-- The statics of `get_token`, and the memory. -/
structure State where
  memory : List UInt8
  pNext : Option Nat
  saved : UInt8

/-- `while (*pNext && …) pNext++`, where these bytes are from `pNext` on. -/
def skipWhile (p : UInt8 → Bool) : List UInt8 → Nat → Option Nat
  | [], _ => none
  | c :: rest, next => if c ≠ 0 ∧ p c then skipWhile p rest (next + 1) else some next

/-- A byte is written. -/
def poke (memory : List UInt8) (i : Nat) (c : UInt8) : Option (List UInt8) :=
  if i < memory.length then some (memory.set i c) else none

/-- The start of the function: the position, and the character put back. -/
def restore (pLine : Option Nat) (s : State) : Option State :=
  match pLine, s.pNext with
  | some line, _ => some { s with pNext := some line }
  | none, some next =>
      (poke s.memory next s.saved).map fun memory => { s with memory }
  | none, none => some s

/-- The end of the token at a place. -/
def tokenEnd (memory : List UInt8) (pToken : Nat) : Option Nat :=
  memory[pToken]?.bind fun c =>
    if isalpha c then skipWhile isWord (memory.drop pToken) pToken
    else if isNumberStart c then
      (skipWhile isdigit (memory.drop (pToken + 1)) (pToken + 1)).bind fun next =>
        memory[next]?.bind fun d =>
          if d ≠ 0 ∧ d = 46 then skipWhile isdigit (memory.drop (next + 1)) (next + 1)
          else some next
    else some (pToken + 1)

/-- The rest of the function, from the position on. -/
def scan (s : State) : Option (Option Nat × State) :=
  match s.pNext with
  | none => some (none, s)
  | some next =>
      (skipWhile isBlank (s.memory.drop next) next).bind fun pToken =>
        s.memory[pToken]?.bind fun c =>
          if c = 0 then some (none, { s with pNext := some pToken })
          else
            (tokenEnd s.memory pToken).bind fun next =>
              s.memory[next]?.bind fun saved =>
                (poke s.memory next 0).map fun memory =>
                  (some pToken, { memory, pNext := some next, saved })

/-- `get_token` -/
def getToken (pLine : Option Nat) (s : State) : Option (Option Nat × State) :=
  (restore pLine s).bind scan

/-- Calls until one returns `NULL`, the first one with a line: each token with the
state its call leaves, and the state at the end. -/
def tokens : Nat → Option Nat → State →
    Option (List (Nat × State) × State)
  | 0, _, _ => none
  | calls + 1, pLine, s =>
      match getToken pLine s with
      | none => none
      | some (none, s) => some ([], s)
      | some (some pToken, s) =>
          (tokens calls none s).map fun (rest, final) => ((pToken, s) :: rest, final)

/-! ## What the calls do -/

/-- The tokens of a text, in order, with nothing but blanks between them. -/
inductive Lexemes : List UInt8 → List (List UInt8) → Prop where
  | done {t : List UInt8} (hblank : ∀ c ∈ t, isBlank c = true) : Lexemes t []
  | token {gap v rest : List UInt8} {vs : List (List UInt8)}
      (hgap : ∀ c ∈ gap, isBlank c = true) (hne : v ≠ []) (htoken : IsToken v rest)
      (h : Lexemes rest vs) : Lexemes (gap ++ (v ++ rest)) (v :: vs)

/-- The calls for the text at a place of the memory.  A call goes over blanks to a
token and over the token, which is not empty; it returns where the token starts, and
leaves the memory as it was but for a zero behind the token. -/
inductive Tokenized (memory : List UInt8) : Nat → List (Nat × State) → Prop where
  | done {i : Nat} (hblank : ∀ c ∈ cString (memory.drop i), isBlank c = true) :
      Tokenized memory i []
  | token {i pToken next : Nat} {gap v rest : List UInt8} {s : State}
      {calls : List (Nat × State)} (hgap : ∀ c ∈ gap, isBlank c = true)
      (hne : v ≠ []) (htoken : IsToken v rest)
      (htext : cString (memory.drop i) = gap ++ (v ++ rest))
      (hpToken : pToken = i + gap.length) (hnext : next = pToken + v.length)
      (hmemory : s.memory = memory.set next 0) (hpNext : s.pNext = some next)
      (hvalue : cString (s.memory.drop pToken) = v)
      (h : Tokenized memory next calls) : Tokenized memory i ((pToken, s) :: calls)

/-! ## One call -/

theorem cString_append {t : List UInt8} (ht : 0 ∉ t) (tail : List UInt8) :
    cString (t ++ 0 :: tail) = t := by
  have hall : ∀ c ∈ t, decide (c ≠ 0) = true := by
    intro c hc
    exact decide_eq_true fun h => ht (h ▸ hc)
  rw [cString, List.takeWhile_append_of_pos hall]
  simp

/-- The loop stops behind the characters it is for. -/
theorem skipWhile_append {p : UInt8 → Bool} {w t : List UInt8} {d : UInt8}
    (hw : ∀ c ∈ w, c ≠ 0 ∧ p c = true) (hd : d = 0 ∨ p d = false) (i : Nat) :
    skipWhile p (w ++ d :: t) i = some (i + w.length) := by
  induction w generalizing i with
  | nil =>
      rw [List.nil_append, skipWhile, if_neg]
      · rfl
      · rintro ⟨hne, hp⟩
        rcases hd with hd | hd
        · exact hne hd
        · exact absurd hp (by simp [hd])
  | cons c w ih =>
      obtain ⟨hc, hw⟩ := List.forall_mem_cons.1 hw
      rw [List.cons_append, skipWhile, if_pos hc, ih hw, List.length_cons]
      congr 1
      omega

/-- A text does not go on with such a character, nor does its terminator. -/
theorem head_of_stops {p : UInt8 → Bool} {rest : List UInt8} (h : Stops p rest)
    (tail : List UInt8) :
    ∃ d t, rest ++ 0 :: tail = d :: t ∧ (d = 0 ∨ p d = false) := by
  cases rest with
  | nil => exact ⟨0, tail, rfl, .inl rfl⟩
  | cons d rest => exact ⟨d, rest ++ 0 :: tail, rfl, .inr (h d rfl)⟩

theorem isToken_ne_nil {v rest : List UInt8} (h : IsToken v rest) : v ≠ [] := by
  cases h <;> simp

/-- A place behind some of the bytes at another. -/
theorem drop_add {memory a b : List UInt8} {i : Nat} (h : memory.drop i = a ++ b) :
    memory.drop (i + a.length) = b := by
  rw [← List.drop_drop, h, List.drop_left]

theorem getElem?_of_drop {memory b : List UInt8} {i : Nat} {c : UInt8}
    (h : memory.drop i = c :: b) : memory[i]? = some c := by
  have hget : (memory.drop i)[0]? = memory[i + 0]? := List.getElem?_drop
  rw [h] at hget
  exact hget.symm

theorem tokenEnd_token {memory v rest tail : List UInt8} {i : Nat}
    (hmemory : memory.drop i = v ++ (rest ++ 0 :: tail)) (htoken : IsToken v rest)
    (hzero : 0 ∉ v) : tokenEnd memory i = some (i + v.length) := by
  have hne : ∀ c ∈ v, c ≠ 0 := by
    rintro c hc rfl
    exact hzero hc
  cases htoken with
  | @word c w _ hc hw hrest =>
      obtain ⟨d, t, hstop, hd⟩ := head_of_stops hrest tail
      rw [hstop] at hmemory
      have hword : isWord c = true := by simp [isWord, hc]
      rw [tokenEnd, getElem?_of_drop hmemory, Option.bind_some, if_pos hc, hmemory]
      refine skipWhile_append (fun b hb => ⟨hne b hb, ?_⟩) hd i
      rcases List.mem_cons.1 hb with rfl | hb
      · exact hword
      · exact hw b hb
  | @integer c w _ hc hw hrest =>
      obtain ⟨-, hword⟩ := isBlank_of_isNumberStart hc
      obtain ⟨d, t, hstop, hd⟩ := head_of_stops hrest tail
      rw [hstop] at hmemory
      have hdigits : ∀ b ∈ w, b ≠ 0 ∧ isdigit b = true := fun b hb =>
        ⟨hne b (List.mem_cons_of_mem c hb), hw b hb⟩
      have hbehind : memory.drop (i + 1) = w ++ d :: t := drop_add (a := [c]) hmemory
      have hd' : d = 0 ∨ isdigit d = false :=
        hd.imp_right fun h => (Bool.or_eq_false_iff.1 h).1
      have hdot : ¬(d ≠ 0 ∧ d = 46) := by
        rintro ⟨hd0, rfl⟩
        exact absurd (hd.resolve_left hd0) (by decide)
      rw [tokenEnd, getElem?_of_drop hmemory, Option.bind_some,
        if_neg (by simp [hword]), if_pos hc, hbehind, skipWhile_append hdigits hd',
        Option.bind_some, getElem?_of_drop (drop_add hbehind), Option.bind_some,
        if_neg hdot, List.length_cons]
      congr 1
      omega
  | @decimal c w f _ hc hw hf hrest =>
      obtain ⟨-, hword⟩ := isBlank_of_isNumberStart hc
      obtain ⟨d, t, hstop, hd⟩ := head_of_stops hrest tail
      have hdigits : ∀ b ∈ w, b ≠ 0 ∧ isdigit b = true := fun b hb =>
        ⟨hne b (by simp [hb]), hw b hb⟩
      have hplaces : ∀ b ∈ f, b ≠ 0 ∧ isdigit b = true := fun b hb =>
        ⟨hne b (by simp [hb]), hf b hb⟩
      have hmemory' : memory.drop i = [c] ++ (w ++ 46 :: (f ++ d :: t)) := by
        rw [hmemory, hstop]
        simp
      have hbehind : memory.drop (i + 1) = w ++ 46 :: (f ++ d :: t) := drop_add hmemory'
      have hpoint : memory.drop (i + 1 + w.length) = [46] ++ (f ++ d :: t) :=
        drop_add hbehind
      rw [tokenEnd, getElem?_of_drop hmemory', Option.bind_some,
        if_neg (by simp [hword]), if_pos hc, hbehind,
        skipWhile_append hdigits (.inr (by decide)), Option.bind_some,
        getElem?_of_drop hpoint, Option.bind_some, if_pos (by decide),
        show memory.drop (i + 1 + w.length + 1) = f ++ d :: t from drop_add hpoint,
        skipWhile_append hplaces hd]
      simp only [List.length_append, List.length_cons]
      congr 1
      omega
  | @symbol c _ hc hnumber hblank =>
      rw [tokenEnd, getElem?_of_drop hmemory, Option.bind_some,
        if_neg (by simp [hc]), if_neg (by simp [hnumber])]
      rfl

theorem ne_zero_of_isBlank {b : List UInt8} (hb : ∀ c ∈ b, isBlank c = true) :
    ∀ c ∈ b, c ≠ 0 ∧ isBlank c = true := by
  intro c hc
  refine ⟨?_, hb c hc⟩
  rintro rfl
  exact absurd (hb 0 hc) (by decide)

/-- A token does not start with a blank. -/
theorem isBlank_of_isToken {c : UInt8} {v rest : List UInt8} (h : IsToken (c :: v) rest) :
    isBlank c = false := by
  cases h with
  | word hc _ _ => exact isBlank_of_isalpha hc
  | integer hc _ _ => exact (isBlank_of_isNumberStart hc).1
  | decimal hc _ _ _ => exact (isBlank_of_isNumberStart hc).1
  | symbol _ _ hblank => exact hblank

/-- A call at the end of the text. -/
theorem scan_blank {memory text tail : List UInt8} {i : Nat}
    (hmemory : memory.drop i = text ++ 0 :: tail)
    (hblank : ∀ c ∈ text, isBlank c = true) (saved : UInt8) :
    scan ⟨memory, some i, saved⟩ =
      some (none, ⟨memory, some (i + text.length), saved⟩) := by
  rw [scan]
  dsimp only
  rw [hmemory, skipWhile_append (ne_zero_of_isBlank hblank) (.inl rfl), Option.bind_some,
    getElem?_of_drop (drop_add hmemory), Option.bind_some, if_pos rfl]

/-- A call with a token ahead returns its place, ends it with a NUL and remembers the
byte that stood there. -/
theorem scan_token {memory gap v rest tail : List UInt8} {i : Nat}
    (hmemory : memory.drop i = gap ++ (v ++ (rest ++ 0 :: tail)))
    (hgap : ∀ c ∈ gap, isBlank c = true) (htoken : IsToken v rest) (hzero : 0 ∉ v)
    (saved : UInt8) :
    ∃ d, memory[i + gap.length + v.length]? = some d ∧
      scan ⟨memory, some i, saved⟩ =
        some (some (i + gap.length),
          ⟨memory.set (i + gap.length + v.length) 0, some (i + gap.length + v.length),
            d⟩) := by
  have hstart := drop_add hmemory
  obtain ⟨d, t, hd⟩ : ∃ d t, rest ++ 0 :: tail = d :: t :=
    List.exists_cons_of_ne_nil (by simp)
  have hlast : memory[i + gap.length + v.length]? = some d := by
    have hend := drop_add hstart
    rw [hd] at hend
    exact getElem?_of_drop hend
  have hbound : i + gap.length + v.length < memory.length :=
    (List.getElem?_eq_some_iff.1 hlast).1
  have htokenEnd := tokenEnd_token hstart htoken hzero
  cases v with
  | nil => exact absurd rfl (isToken_ne_nil htoken)
  | cons c v =>
      have hc : c ≠ 0 := by
        rintro rfl
        exact hzero List.mem_cons_self
      refine ⟨d, hlast, ?_⟩
      rw [scan]
      dsimp only
      rw [hmemory, List.cons_append,
        skipWhile_append (ne_zero_of_isBlank hgap) (.inr (isBlank_of_isToken htoken)),
        Option.bind_some, getElem?_of_drop hstart, Option.bind_some, if_neg hc,
        htokenEnd, Option.bind_some, hlast, Option.bind_some, poke, if_pos hbound,
        Option.map_some]

/-! ## The calls for a line -/

/-- The next call puts the character behind the token back. -/
theorem restore_token {memory : List UInt8} {next : Nat} {d : UInt8}
    (hd : memory[next]? = some d) :
    restore none ⟨memory.set next 0, some next, d⟩ = some ⟨memory, some next, d⟩ := by
  obtain ⟨hnext, hget⟩ := List.getElem?_eq_some_iff.1 hd
  show (poke (memory.set next 0) next d).map (fun memory => (⟨memory, some next, d⟩ : State)) = _
  rw [poke, List.length_set, if_pos hnext, List.set_set, ← hget, List.set_getElem_self,
    Option.map_some]

/-- The memory of a token, up to the zero. -/
theorem cString_token {memory v t : List UInt8} {i : Nat}
    (hmemory : memory.drop i = v ++ t) (ht : t ≠ []) (hzero : 0 ∉ v) :
    cString ((memory.set (i + v.length) 0).drop i) = v := by
  obtain ⟨d, t, rfl⟩ := List.exists_cons_of_ne_nil ht
  rw [List.drop_set, if_neg (by omega), hmemory, Nat.add_sub_cancel_left,
    List.set_append_right _ _ le_rfl, Nat.sub_self, List.set_cons_zero,
    cString_append hzero]

theorem isBlank_of_getToken {text : List UInt8} (h : ReadConfig.getToken text = none) :
    ∀ c ∈ text, isBlank c = true := by
  refine List.dropWhile_eq_nil_iff.1 ?_
  cases hdrop : text.dropWhile isBlank with
  | nil => rfl
  | cons c t =>
      rw [ReadConfig.getToken, hdrop] at h
      dsimp only at h
      split_ifs at h
      split at h <;> cases h

/-- The calls from a position on, when the next one finds the memory restored. -/
theorem tokens_text {memory text tail : List UInt8} {i : Nat}
    (hmemory : memory.drop i = text ++ 0 :: tail) (hzero : 0 ∉ text)
    {pLine : Option Nat} {s : State} {saved : UInt8}
    (hrestore : restore pLine s = some ⟨memory, some i, saved⟩) :
    ∃ calls final,
      (∀ n, text.length < n → tokens n pLine s = some (calls, final)) ∧
      Tokenized memory i calls ∧ final.memory = memory := by
  induction hk : text.length using Nat.strong_induction_on
    generalizing text i pLine s saved with
  | h k ih =>
      subst hk
      have htext : cString (memory.drop i) = text := by
        rw [hmemory, cString_append hzero]
      cases hnext : ReadConfig.getToken text with
      | none =>
          have hblank := isBlank_of_getToken hnext
          refine ⟨[], ⟨memory, some (i + text.length), saved⟩, fun n hn => ?_,
            .done (by rwa [htext]), rfl⟩
          obtain ⟨n, rfl⟩ : ∃ m, n = m + 1 := ⟨n - 1, by omega⟩
          rw [tokens, getToken, hrestore, Option.bind_some, scan_blank hmemory hblank]
      | some found =>
          obtain ⟨v, rest⟩ := found
          obtain ⟨gap, hgap, rfl, htoken⟩ := getToken_eq_some_iff.1 hnext
          have hne := isToken_ne_nil htoken
          rw [List.append_assoc, List.append_assoc] at hmemory
          have hstart := drop_add hmemory
          have hv : 0 ∉ v := fun h => hzero (by simp [h])
          have hrest : 0 ∉ rest := fun h => hzero (by simp [h])
          obtain ⟨d, hd, hscan⟩ := scan_token hmemory hgap htoken hv saved
          have hshorter : rest.length < (gap ++ (v ++ rest)).length := by
            have hpos := List.length_pos_iff.2 hne
            simp only [List.length_append]
            omega
          obtain ⟨calls, final, hcalls, htokenized, hfinal⟩ :=
            ih rest.length hshorter (drop_add hstart) hrest (restore_token hd) rfl
          refine
            ⟨(i + gap.length, ⟨memory.set (i + gap.length + v.length) 0,
                some (i + gap.length + v.length), d⟩) :: calls,
              final, fun n hn => ?_,
              .token hgap hne htoken htext rfl rfl rfl rfl
                (cString_token hstart (by simp) hv) htokenized,
              hfinal⟩
          obtain ⟨n, rfl⟩ : ∃ m, n = m + 1 := ⟨n - 1, by omega⟩
          rw [tokens, getToken, hrestore, Option.bind_some, hscan]
          dsimp only
          rw [hcalls n (by omega), Option.map_some]

theorem cString_drop_add {memory a b : List UInt8} {i : Nat}
    (h : cString (memory.drop i) = a ++ b) : cString (memory.drop (i + a.length)) = b := by
  have hsplit := List.takeWhile_append_dropWhile (p := (· ≠ 0)) (l := memory.drop i)
  have hb : ∀ c ∈ b, decide (c ≠ 0) = true := by
    intro c hc
    have hmem : c ∈ cString (memory.drop i) := by simp [h, hc]
    exact mem_takeWhile c hmem
  rw [cString] at h
  rw [h, List.append_assoc] at hsplit
  rw [drop_add hsplit.symm]
  exact (takeWhile_stops hb (stops_dropWhile _ _)).1

theorem Tokenized.lexemes {memory : List UInt8} {i : Nat} {calls : List (Nat × State)}
    (h : Tokenized memory i calls) :
    Lexemes (cString (memory.drop i))
      (calls.map fun call => cString (call.2.memory.drop call.1)) := by
  induction h with
  | done hblank => exact .done hblank
  | @token i pToken next gap v rest s calls hgap hne htoken htext hpToken hnext _ _
      hvalue _ ih =>
      have hrest : cString (memory.drop next) = rest := by
        rw [hnext, hpToken]
        exact cString_drop_add (cString_drop_add htext)
      rw [hrest] at ih
      rw [htext, List.map_cons, hvalue]
      exact .token hgap hne htoken ih

/-- The calls for a line: whatever was in the statics, they stay in the memory, find
the tokens of the line in order, and leave the line as it was. -/
theorem tokenizer {memory : List UInt8} {pLine : Nat} (hline : 0 ∈ memory.drop pLine)
    (pNext : Option Nat) (saved : UInt8) :
    ∃ calls final,
      (∀ n, (cString (memory.drop pLine)).length < n →
        tokens n (some pLine) ⟨memory, pNext, saved⟩ = some (calls, final)) ∧
      Tokenized memory pLine calls ∧
      Lexemes (cString (memory.drop pLine))
        (calls.map fun call => cString (call.2.memory.drop call.1)) ∧
      final.memory = memory := by
  obtain ⟨text, tail, hmemory, hzero⟩ := List.eq_append_cons_of_mem hline
  obtain ⟨calls, final, hcalls, htokenized, hfinal⟩ :=
    tokens_text hmemory hzero
      (show restore (some pLine) ⟨memory, pNext, saved⟩ = some ⟨memory, some pLine, saved⟩
        from rfl)
  refine ⟨calls, final, ?_, htokenized, htokenized.lexemes, hfinal⟩
  rwa [hmemory, cString_append hzero]

/-- A line with blanks at both ends. -/
theorem tokenizer_assignment :
    ∃ calls final,
      tokens 20 (some 0) ⟨str " steps = -1.5\n" ++ [0], none, 0⟩ = some (calls, final) ∧
      Lexemes (str " steps = -1.5\n")
        (calls.map fun call => cString (call.2.memory.drop call.1)) ∧
      final.memory = str " steps = -1.5\n" ++ [0] := by
  have hline : (0 : UInt8) ∈ (str " steps = -1.5\n" ++ [0]).drop 0 := by decide +kernel
  obtain ⟨calls, final, hcalls, -, hlexemes, hfinal⟩ := tokenizer hline none 0
  have htext : cString ((str " steps = -1.5\n" ++ [0]).drop 0) = str " steps = -1.5\n" := by
    decide +kernel
  rw [htext] at hcalls hlexemes
  exact ⟨calls, final, hcalls 20 (by decide +kernel), hlexemes, hfinal⟩

end R2C2Firmware.Ports.Tokenizer
