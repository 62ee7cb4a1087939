import R2C2Firmware.Ports.ReadConfig
import R2C2Firmware.Ports.Mendel

/-!
# The path buffer of a directory listing

A transcription of `sd_list_dir_sub` on the buffer of `sd_list_dir`.  `sdListDirSub`
of `Mendel` has a path for every directory; here there is one buffer of 120 bytes, to
which a name is appended on the way into a directory and which is cut again on the way
back.

A directory is found by the path in the buffer.  A store behind the end of the buffer
gives `none`, and so does a recursion deeper than allowed.

Nothing checks the length of the path.  `Fits` says which trees are listed without a
store behind the end: those in which no directory that is entered has a path of more
than 119 characters.

## Main results

* `loop_fits`, `loop_overflows` — the loop over the entries of a directory.
* `mem_lines_iff`, `lines_nodup` — what is printed.
* `flatten_lines` — the same as without a buffer.
* `listing_within_buffer` — the trees that are listed as they should be.
-/

namespace R2C2Firmware.Ports.DirectoryListing

open R2C2Firmware.Ports.ReadConfig
open R2C2Firmware.Ports.Sermsg
open R2C2Firmware.Ports.Mendel

/-! ## The functions -/

/-- What `f_opendir` and `f_readdir` yield for a path: the entries, each with the
`AM_DIR` bit, and whether the end was reached without an error. -/
structure Listing where
  entries : List (FatName × Bool)
  ok : Bool

/-- `strlen` -/
def strlen (buf : List UInt8) : Option Nat :=
  if 0 ∈ buf then some (cString buf).length else none

/-- `strcat` -/
def strcat (buf s : List UInt8) : Option (List UInt8) :=
  (strlen buf).bind fun n =>
    if n + s.length < buf.length then
      some (buf.take n ++ (s ++ 0 :: buf.drop (n + s.length + 1)))
    else none

/-- The name starts with a dot. -/
def Dotted (name : FatName) : Prop := name.bytes.head? = some 46

instance (name : FatName) : Decidable (Dotted name) :=
  inferInstanceAs (Decidable (_ = _))

/-- What a call leaves: the lines printed, whether the result is `FR_OK`, and the
buffer. -/
abbrev Listed := List (List UInt8) × Bool × List UInt8

/-- The loop over the entries of a directory, whose path ends at `i`. -/
def readdirLoop (sub : List UInt8 → Option Listed) (i : Nat) (ok : Bool) :
    List (FatName × Bool) → List UInt8 → Option Listed
  | [], path => some ([], ok, path)
  | (fn, isDir) :: rest, path =>
      if Dotted fn then readdirLoop sub i ok rest path
      else if isDir then
        (strcat path (str "/")).bind fun longer =>
          (strcat longer fn.bytes).bind fun longer =>
            (sub longer).bind fun (lines, res, longer) =>
              if res then
                (readdirLoop sub i ok rest (longer.set i 0)).map fun (lines', r) =>
                  ((cString path ++ str "/" ++ fn.bytes ++ str "/\r\n") :: (lines ++ lines'), r)
              else
                some ((cString path ++ str "/" ++ fn.bytes ++ str "/\r\n") :: lines,
                  false, longer)
      else
        (readdirLoop sub i ok rest path).map fun (lines, r) =>
          ((cString path ++ str "/" ++ fn.bytes ++ str "\r\n") :: lines, r)

/-- `sd_list_dir_sub`, at most so many calls deep. -/
def sdListDirSub (opendir : List UInt8 → Listing) : Nat → List UInt8 → Option Listed
  | 0, _ => none
  | depth + 1, path =>
      (strlen path).bind fun i =>
        readdirLoop (sdListDirSub opendir depth) i (opendir (cString path)).ok
          (opendir (cString path)).entries path

/-- `sd_list_dir`, with a buffer that has not been set. -/
def sdListDir (opendir : List UInt8 → Listing) (depth : Nat) (path : List UInt8) :
    Option Listed :=
  sdListDirSub opendir depth (path.set 0 0)

/-! ## The tree -/

/-- The entries of a directory. -/
def listingOf : DirList → Listing
  | .done ok => ⟨[], ok⟩
  | .file name rest => ⟨(name, false) :: (listingOf rest).entries, (listingOf rest).ok⟩
  | .dir name _ rest => ⟨(name, true) :: (listingOf rest).entries, (listingOf rest).ok⟩

/-- The path of an entry. -/
def inside (path : List UInt8) (name : FatName) : List UInt8 := path ++ str "/" ++ name.bytes

/-- The directories of a tree are found by their paths. -/
def Found (opendir : List UInt8 → Listing) : List UInt8 → DirList → Prop
  | _, .done _ => True
  | path, .file _ rest => Found opendir path rest
  | path, .dir name sub rest =>
      (¬Dotted name → opendir (inside path name) = listingOf sub ∧
        Found opendir (inside path name) sub) ∧ Found opendir path rest

/-- Every directory can be read to its end. -/
def readable : DirList → Bool
  | .done ok => ok
  | .file _ rest => readable rest
  | .dir name sub rest =>
      if Dotted name then readable rest else readable sub && readable rest

/-- How deep directories are nested. -/
def nesting : DirList → Nat
  | .done _ => 0
  | .file _ rest => nesting rest
  | .dir name sub rest =>
      if Dotted name then nesting rest else max (nesting sub + 1) (nesting rest)

/-- The paths of the directories that are entered have at most 119 characters, for a
path of so many at the start.  Behind a directory that cannot be read none is. -/
def Fits (n : Nat) : DirList → Prop
  | .done _ => True
  | .file _ rest => Fits n rest
  | .dir name sub rest =>
      if Dotted name then Fits n rest
      else
        n + 1 + name.bytes.length < 120 ∧ Fits (n + 1 + name.bytes.length) sub ∧
          (readable sub = true → Fits n rest)

/-- The lines printed for the entries of a directory. -/
def lines (path : List UInt8) : DirList → List (List UInt8)
  | .done _ => []
  | .file name rest =>
      if Dotted name then lines path rest
      else (inside path name ++ str "\r\n") :: lines path rest
  | .dir name sub rest =>
      if Dotted name then lines path rest
      else
        (inside path name ++ str "/\r\n") ::
          (lines (inside path name) sub ++ if readable sub then lines path rest else [])

/-! ## The buffer -/

/-- The string in the buffer. -/
structure Holds (buf path : List UInt8) : Prop where
  size : buf.length = 120
  noNul : (0 : UInt8) ∉ path
  text : ∃ tail, buf = path ++ 0 :: tail

variable {buf path : List UInt8}

theorem Holds.cString (h : Holds buf path) : cString buf = path := by
  obtain ⟨tail, rfl⟩ := h.text
  have hall : ∀ c ∈ path, decide (c ≠ 0) = true := by
    intro c hc
    exact decide_eq_true fun h0 => h.noNul (h0 ▸ hc)
  rw [ReadConfig.cString, List.takeWhile_append_of_pos hall]
  simp

theorem Holds.strlen (h : Holds buf path) : strlen buf = some path.length := by
  have hcString := h.cString
  obtain ⟨tail, htail⟩ := h.text
  have hmem : (0 : UInt8) ∈ buf := by simp [htail]
  rw [DirectoryListing.strlen, if_pos hmem, hcString]

/-- A name is appended. -/
theorem Holds.strcat (h : Holds buf path) {s : List UInt8} (hs : (0 : UInt8) ∉ s) :
    (path.length + s.length < 120 →
      ∃ longer, strcat buf s = some longer ∧ Holds longer (path ++ s)) ∧
      (¬path.length + s.length < 120 → strcat buf s = none) := by
  have hsize := h.size
  obtain ⟨tail, htail⟩ := h.text
  rw [DirectoryListing.strcat, h.strlen, Option.bind_some, hsize]
  refine ⟨fun hfit => ?_, fun hfit => if_neg hfit⟩
  rw [if_pos hfit]
  refine ⟨_, rfl, ?_, ?_, buf.drop (path.length + s.length + 1), ?_⟩
  · simp only [List.length_append, List.length_take, List.length_cons, List.length_drop]
    omega
  · rw [List.mem_append]
    exact fun hmem => hmem.elim h.noNul hs
  · rw [htail, List.take_left, List.append_assoc]

/-- The buffer is cut where the path was extended. -/
theorem Holds.cut {s : List UInt8} (h : Holds buf (path ++ s)) (hs : s ≠ []) :
    Holds (buf.set path.length 0) path := by
  obtain ⟨c, s, rfl⟩ := List.exists_cons_of_ne_nil hs
  obtain ⟨tail, htail⟩ := h.text
  refine ⟨by rw [List.length_set, h.size], fun hmem => h.noNul (by simp [hmem]), ?_⟩
  refine ⟨s ++ 0 :: tail, ?_⟩
  rw [htail, List.append_assoc, List.set_append_right _ _ le_rfl, Nat.sub_self]
  rfl

theorem noNul_name (name : FatName) : (0 : UInt8) ∉ name.bytes := fun hmem =>
  absurd (name.printable 0 hmem) (by decide)

/-- The two calls of `strcat` for a directory. -/
theorem Holds.enter (h : Holds buf path) (name : FatName) :
    (path.length + 1 + name.bytes.length < 120 →
      ∃ slash longer, DirectoryListing.strcat buf (str "/") = some slash ∧
        DirectoryListing.strcat slash name.bytes = some longer ∧
        Holds longer (inside path name)) ∧
      (¬path.length + 1 + name.bytes.length < 120 →
        (DirectoryListing.strcat buf (str "/")).bind
          (fun slash => DirectoryListing.strcat slash name.bytes) = none) := by
  have hlength : (path ++ str "/").length = path.length + 1 := List.length_append
  obtain ⟨hfits, hover⟩ := h.strcat (s := str "/") (by decide)
  constructor
  · intro hfit
    obtain ⟨slash, hslash, hholds⟩ := hfits (show path.length + 1 < 120 by omega)
    obtain ⟨longer, hlonger, hholds'⟩ :=
      (hholds.strcat (noNul_name name)).1 (by rw [hlength]; exact hfit)
    exact ⟨slash, longer, hslash, hlonger, hholds'⟩
  · intro hfit
    by_cases hone : path.length + 1 < 120
    · obtain ⟨slash, hslash, hholds⟩ := hfits hone
      rw [hslash, Option.bind_some]
      exact (hholds.strcat (noNul_name name)).2 (by rw [hlength]; exact hfit)
    · rw [hover hone, Option.bind_none]

theorem length_inside (path : List UInt8) (name : FatName) :
    (inside path name).length = path.length + 1 + name.bytes.length := by
  rw [inside, List.length_append, List.length_append]
  rfl

theorem Holds.leave {name : FatName} (h : Holds buf (inside path name)) :
    Holds (buf.set path.length 0) path := by
  rw [inside, List.append_assoc] at h
  exact h.cut (by simp [str])

/-! ## The loop -/

variable {opendir : List UInt8 → Listing}

/-- A tree that fits is listed, and the path is as it was if the listing succeeds. -/
theorem loop_fits (d : DirList) :
    ∀ {path buf : List UInt8}, Holds buf path → Found opendir path d →
      Fits path.length d →
        ∃ buf', (∀ depth, nesting d ≤ depth →
          readdirLoop (sdListDirSub opendir depth) path.length (listingOf d).ok
            (listingOf d).entries buf = some (lines path d, readable d, buf')) ∧
          (readable d = true → Holds buf' path) := by
  induction d with
  | done ok =>
      intro path buf hbuf _ _
      exact ⟨buf, fun _ _ => rfl, fun _ => hbuf⟩
  | file name rest ih =>
      intro path buf hbuf hfound hfits
      obtain ⟨buf', hloop, hkept⟩ := ih hbuf hfound hfits
      refine ⟨buf', fun depth hdepth => ?_, hkept⟩
      rw [listingOf, readdirLoop, lines]
      by_cases hdot : Dotted name
      · rw [if_pos hdot, if_pos hdot]
        exact hloop depth hdepth
      · rw [if_neg hdot, if_neg hdot, if_neg (by decide), hloop depth hdepth,
          Option.map_some, hbuf.cString]
        rfl
  | dir name sub rest ihsub ihrest =>
      intro path buf hbuf hfound hfits
      rw [Fits] at hfits
      by_cases hdot : Dotted name
      · rw [if_pos hdot] at hfits
        obtain ⟨buf', hloop, hkept⟩ := ihrest hbuf hfound.2 hfits
        rw [readable, if_pos hdot]
        refine ⟨buf', fun depth hdepth => ?_, hkept⟩
        rw [nesting, if_pos hdot] at hdepth
        rw [listingOf, readdirLoop, lines, if_pos hdot, if_pos hdot]
        exact hloop depth hdepth
      · rw [if_neg hdot] at hfits
        obtain ⟨hshort, hsub, hrest⟩ := hfits
        obtain ⟨hopen, hfoundsub⟩ := hfound.1 hdot
        obtain ⟨slash, longer, hslash, hlonger, hholds⟩ := (hbuf.enter name).1 hshort
        obtain ⟨buf', hloop, hkept⟩ :=
          ihsub hholds hfoundsub (by rwa [length_inside path name])
        have hcall : ∀ depth, nesting sub ≤ depth → sdListDirSub opendir (depth + 1) longer =
            some (lines (inside path name) sub, readable sub, buf') := by
          intro depth hdepth
          rw [sdListDirSub, hholds.strlen, Option.bind_some, hholds.cString, hopen]
          exact hloop depth hdepth
        rw [readable, if_neg hdot]
        cases hreadable : readable sub with
        | false =>
            refine ⟨buf', fun depth hdepth => ?_, by simp⟩
            rw [nesting, if_neg hdot] at hdepth
            obtain ⟨depth, rfl⟩ : ∃ k, depth = k + 1 := ⟨depth - 1, by omega⟩
            rw [listingOf, readdirLoop, lines, if_neg hdot, if_neg hdot, if_pos rfl, hslash,
              Option.bind_some, hlonger, Option.bind_some, hcall depth (by omega),
              Option.bind_some, hbuf.cString]
            simp [hreadable, inside]
        | true =>
            obtain ⟨buf'', hloop', hkept'⟩ :=
              ihrest (hkept hreadable).leave hfound.2 (hrest hreadable)
            refine ⟨buf'', fun depth hdepth => ?_, by simpa using hkept'⟩
            rw [nesting, if_neg hdot] at hdepth
            obtain ⟨depth, rfl⟩ : ∃ k, depth = k + 1 := ⟨depth - 1, by omega⟩
            rw [listingOf, readdirLoop, lines, if_neg hdot, if_neg hdot, if_pos rfl, hslash,
              Option.bind_some, hlonger, Option.bind_some, hcall depth (by omega),
              Option.bind_some, hbuf.cString]
            dsimp only
            rw [if_pos hreadable, hloop' (depth + 1) (by omega), Option.map_some]
            simp [hreadable, inside]

/-- A call for a directory whose paths fit prints its lines, given enough depth; if all
of it could be read, the path is in the buffer as before. -/
theorem call_fits {d : DirList} (hbuf : Holds buf path)
    (hopen : opendir path = listingOf d) (hfound : Found opendir path d)
    (hfits : Fits path.length d) :
    ∃ buf', (∀ depth, nesting d ≤ depth → sdListDirSub opendir (depth + 1) buf =
        some (lines path d, readable d, buf')) ∧
      (readable d = true → Holds buf' path) := by
  obtain ⟨buf', hloop, hkept⟩ := loop_fits d hbuf hfound hfits
  refine ⟨buf', fun depth hdepth => ?_, hkept⟩
  rw [sdListDirSub, hbuf.strlen, Option.bind_some, hbuf.cString, hopen]
  exact hloop depth hdepth

/-- A tree that does not fit is not: something is stored behind the end of the buffer. -/
theorem loop_overflows (d : DirList) :
    ∀ {path buf : List UInt8}, Holds buf path → Found opendir path d →
      ¬Fits path.length d → ∀ depth, nesting d ≤ depth →
        readdirLoop (sdListDirSub opendir depth) path.length (listingOf d).ok
          (listingOf d).entries buf = none := by
  induction d with
  | done ok =>
      intro path buf _ _ hfits
      exact absurd trivial hfits
  | file name rest ih =>
      intro path buf hbuf hfound hfits depth hdepth
      have hloop := ih hbuf hfound hfits depth hdepth
      rw [listingOf, readdirLoop]
      by_cases hdot : Dotted name
      · rw [if_pos hdot]
        exact hloop
      · rw [if_neg hdot, if_neg (by decide), hloop, Option.map_none]
  | dir name sub rest ihsub ihrest =>
      intro path buf hbuf hfound hfits depth hdepth
      rw [Fits] at hfits
      rw [nesting] at hdepth
      rw [listingOf, readdirLoop]
      by_cases hdot : Dotted name
      · rw [if_pos hdot] at hfits hdepth
        rw [if_pos hdot]
        exact ihrest hbuf hfound.2 hfits depth hdepth
      · rw [if_neg hdot] at hfits hdepth
        rw [if_neg hdot, if_pos rfl]
        by_cases hshort : path.length + 1 + name.bytes.length < 120
        · obtain ⟨hopen, hfoundsub⟩ := hfound.1 hdot
          obtain ⟨slash, longer, hslash, hlonger, hholds⟩ := (hbuf.enter name).1 hshort
          have hlength := length_inside path name
          obtain ⟨depth, rfl⟩ : ∃ k, depth = k + 1 := ⟨depth - 1, by omega⟩
          rw [hslash, Option.bind_some, hlonger, Option.bind_some]
          by_cases hsub : Fits (path.length + 1 + name.bytes.length) sub
          · -- the directory itself fits: it can be read, and what is behind it does not fit
            obtain ⟨buf', hcall, hkept⟩ :=
              call_fits hholds hopen hfoundsub (by rwa [hlength])
            obtain ⟨hreadable, hrest⟩ : readable sub = true ∧ ¬Fits path.length rest := by
              by_contra hno
              exact hfits ⟨hshort, hsub, fun h => by_contra fun h' => hno ⟨h, h'⟩⟩
            rw [hcall depth (by omega), Option.bind_some]
            dsimp only
            rw [if_pos hreadable,
              ihrest (hkept hreadable).leave hfound.2 hrest (depth + 1) (by omega),
              Option.map_none]
          · have hcall : sdListDirSub opendir (depth + 1) longer = none := by
              rw [sdListDirSub, hholds.strlen, Option.bind_some, hholds.cString, hopen]
              exact ihsub hholds hfoundsub (by rwa [hlength]) depth (by omega)
            rw [hcall, Option.bind_none]
        · have hover := (hbuf.enter name).2 hshort
          cases hslash : strcat buf (str "/") with
          | none => rfl
          | some slash =>
              rw [hslash, Option.bind_some] at hover
              rw [Option.bind_some, hover, Option.bind_none]

/-! ## What is printed -/

/-- A line for a file or a directory of the tree at a path, whose name does not start
with a dot. -/
inductive IsEntry : List UInt8 → DirList → List UInt8 → Prop where
  | file {path : List UInt8} {name : FatName} {rest : DirList} (hdot : ¬Dotted name) :
      IsEntry path (.file name rest) (inside path name ++ str "\r\n")
  | dir {path : List UInt8} {name : FatName} {sub rest : DirList} (hdot : ¬Dotted name) :
      IsEntry path (.dir name sub rest) (inside path name ++ str "/\r\n")
  | sub {path line : List UInt8} {name : FatName} {sub rest : DirList}
      (hdot : ¬Dotted name) (h : IsEntry (inside path name) sub line) :
      IsEntry path (.dir name sub rest) line
  | behindFile {path line : List UInt8} {name : FatName} {rest : DirList}
      (h : IsEntry path rest line) : IsEntry path (.file name rest) line
  | behindDir {path line : List UInt8} {name : FatName} {sub rest : DirList}
      (h : IsEntry path rest line) : IsEntry path (.dir name sub rest) line

theorem isEntry_of_mem_lines {d : DirList} :
    ∀ {path line : List UInt8}, line ∈ lines path d → IsEntry path d line := by
  induction d with
  | done ok =>
      intro path line h
      exact absurd h List.not_mem_nil
  | file name rest ih =>
      intro path line h
      rw [lines] at h
      by_cases hdot : Dotted name
      · rw [if_pos hdot] at h
        exact .behindFile (ih h)
      · rw [if_neg hdot] at h
        rcases List.mem_cons.1 h with rfl | h
        · exact .file hdot
        · exact .behindFile (ih h)
  | dir name sub rest ihsub ihrest =>
      intro path line h
      rw [lines] at h
      by_cases hdot : Dotted name
      · rw [if_pos hdot] at h
        exact .behindDir (ihrest h)
      · rw [if_neg hdot] at h
        rcases List.mem_cons.1 h with rfl | h
        · exact .dir hdot
        · rcases List.mem_append.1 h with h | h
          · exact .sub hdot (ihsub h)
          · split at h
            · exact .behindDir (ihrest h)
            · exact absurd h List.not_mem_nil

/-- When every directory can be read, the lines are those of the entries. -/
theorem mem_lines_iff {d : DirList} {path line : List UInt8} (hd : readable d = true) :
    line ∈ lines path d ↔ IsEntry path d line := by
  refine ⟨isEntry_of_mem_lines, fun h => ?_⟩
  induction h with
  | file hdot => simp [lines, hdot]
  | dir hdot => simp [lines, hdot]
  | @sub path line name sub rest hdot h ih =>
      rw [readable, if_neg hdot, Bool.and_eq_true] at hd
      simp [lines, hdot, ih hd.1]
  | @behindFile path line name rest h ih =>
      have hmem := ih hd
      rw [lines]
      split <;> simp [hmem]
  | @behindDir path line name sub rest h ih =>
      rw [readable] at hd
      rw [lines]
      by_cases hdot : Dotted name
      · rw [if_pos hdot] at hd ⊢
        exact ih hd
      · rw [if_neg hdot, Bool.and_eq_true] at hd
        simp [hdot, hd.1, ih hd.2]

/-- A name as in a directory: not empty, at most twelve characters, no slash. -/
structure IsName (name : FatName) : Prop where
  ne_nil : name.bytes ≠ []
  short : name.bytes.length ≤ 12
  noSlash : (47 : UInt8) ∉ name.bytes

/-- The names of the entries of a directory. -/
def names : DirList → List (List UInt8)
  | .done _ => []
  | .file name rest => name.bytes :: names rest
  | .dir name _ rest => name.bytes :: names rest

/-- The names of a directory are such names, and different from each other. -/
def Named : DirList → Prop
  | .done _ => True
  | .file name rest => IsName name ∧ name.bytes ∉ names rest ∧ Named rest
  | .dir name sub rest => IsName name ∧ name.bytes ∉ names rest ∧ Named sub ∧ Named rest

/-- A character that ends a name in a line. -/
def endsName (c : UInt8) : Bool := c == 47 || c == 13

/-- The name that stands behind a path. -/
def nameBehind (path line : List UInt8) : List UInt8 :=
  (line.drop (path.length + 1)).takeWhile fun c => !endsName c

theorem nameBehind_inside (path : List UInt8) {name : FatName} (hname : IsName name)
    {c : UInt8} (hc : endsName c = true) (t : List UInt8) :
    nameBehind path (inside path name ++ c :: t) = name.bytes := by
  have hall : ∀ b ∈ name.bytes, (!endsName b) = true := by
    intro b hb
    have hslash : b ≠ 47 := by
      rintro rfl
      exact hname.noSlash hb
    have hcr : b ≠ 13 := by
      rintro rfl
      exact absurd (name.printable 13 hb) (by decide)
    simp [endsName, hslash, hcr]
  have hdrop : (inside path name ++ c :: t).drop (path.length + 1) = name.bytes ++ c :: t := by
    have hlength : (path ++ str "/").length = path.length + 1 := List.length_append
    rw [inside, List.append_assoc, ← hlength, List.drop_left]
  rw [nameBehind, hdrop, List.takeWhile_append_of_pos hall]
  simp [hc]

/-- Every line names an entry of the directory it is printed for, right behind the
path. -/
theorem nameBehind_mem {d : DirList} {path line : List UInt8} (h : IsEntry path d line) :
    Named d → nameBehind path line ∈ names d ∧ ∃ t, line = path ++ 47 :: t := by
  induction h with
  | @file path name rest hdot =>
      rintro ⟨hname, -, -⟩
      refine ⟨?_, name.bytes ++ str "\r\n", by simp [inside, str]⟩
      rw [show str "\r\n" = 13 :: [10] from rfl, nameBehind_inside path hname rfl]
      exact List.mem_cons_self
  | @dir path name sub rest hdot =>
      rintro ⟨hname, -, -⟩
      refine ⟨?_, name.bytes ++ str "/\r\n", by simp [inside, str]⟩
      rw [show str "/\r\n" = 47 :: [13, 10] from rfl, nameBehind_inside path hname rfl]
      exact List.mem_cons_self
  | @sub path line name sub rest hdot h ih =>
      rintro ⟨hname, -, hsub, -⟩
      obtain ⟨-, t, rfl⟩ := ih hsub
      rw [nameBehind_inside path hname rfl]
      exact ⟨List.mem_cons_self, name.bytes ++ 47 :: t, by simp [inside, str]⟩
  | behindFile h ih =>
      rintro ⟨-, -, hrest⟩
      exact ⟨List.mem_cons_of_mem _ (ih hrest).1, (ih hrest).2⟩
  | behindDir h ih =>
      rintro ⟨-, -, -, hrest⟩
      exact ⟨List.mem_cons_of_mem _ (ih hrest).1, (ih hrest).2⟩

theorem nil_notMem_names {d : DirList} (hd : Named d) : [] ∉ names d := by
  induction d with
  | done ok => exact List.not_mem_nil
  | file name rest ih =>
      rw [names, List.mem_cons, not_or]
      exact ⟨hd.1.ne_nil.symm, ih hd.2.2⟩
  | dir name sub rest _ ih =>
      rw [names, List.mem_cons, not_or]
      exact ⟨hd.1.ne_nil.symm, ih hd.2.2.2⟩

/-- No line is printed twice. -/
theorem lines_nodup {d : DirList} : Named d → ∀ path, (lines path d).Nodup := by
  induction d with
  | done ok => exact fun _ _ => List.nodup_nil
  | file name rest ih =>
      rintro ⟨hname, hnew, hrest⟩ path
      rw [lines]
      split
      · exact ih hrest path
      · refine List.nodup_cons.2 ⟨fun hmem => hnew ?_, ih hrest path⟩
        have hbehind := (nameBehind_mem (isEntry_of_mem_lines hmem) hrest).1
        rwa [show str "\r\n" = 13 :: [10] from rfl, nameBehind_inside path hname rfl]
          at hbehind
  | dir name sub rest ihsub ihrest =>
      rintro ⟨hname, hnew, hsub, hrest⟩ path
      have hother : ∀ {t : List UInt8}, inside path name ++ 47 :: t ∉ lines path rest := by
        intro t hmem
        have hbehind := (nameBehind_mem (isEntry_of_mem_lines hmem) hrest).1
        rw [nameBehind_inside path hname rfl] at hbehind
        exact hnew hbehind
      have hother' : ∀ {line : List UInt8},
          line ∈ (if readable sub then lines path rest else []) → line ∈ lines path rest := by
        intro line hmem
        split at hmem
        · exact hmem
        · exact absurd hmem List.not_mem_nil
      have hrestNodup : (if readable sub then lines path rest else []).Nodup := by
        split
        · exact ihrest hrest path
        · exact List.nodup_nil
      rw [lines]
      split
      · exact ihrest hrest path
      · refine List.nodup_cons.2 ⟨fun hmem => ?_, List.nodup_append.2
          ⟨ihsub hsub _, hrestNodup, ?_⟩⟩
        · rcases List.mem_append.1 hmem with hmem | hmem
          · have hbehind := (nameBehind_mem (isEntry_of_mem_lines hmem) hsub).1
            have hnil : nameBehind (inside path name) (inside path name ++ str "/\r\n") = [] := by
              have hlength : (inside path name ++ str "/").length =
                  (inside path name).length + 1 := List.length_append
              rw [nameBehind, ← hlength, show str "/\r\n" = str "/" ++ [13, 10] from rfl,
                ← List.append_assoc, List.drop_left]
              rfl
            rw [hnil] at hbehind
            exact nil_notMem_names hsub hbehind
          · exact hother (hother' hmem)
        · rintro line hmem _ hmem' rfl
          obtain ⟨-, t, rfl⟩ := nameBehind_mem (isEntry_of_mem_lines hmem) hsub
          exact hother (hother' hmem')

/-- The lines are the text printed by the model that has no buffer. -/
theorem flatten_lines (path : List UInt8) (d : DirList) :
    (lines path d).flatten = (Mendel.sdListDirSub path d).1 ∧
      readable d = (Mendel.sdListDirSub path d).2 := by
  induction d generalizing path with
  | done ok => exact ⟨rfl, rfl⟩
  | file name rest ih =>
      obtain ⟨htext, hok⟩ := ih path
      rw [lines, Mendel.sdListDirSub, readable]
      by_cases hdot : Dotted name
      · rw [if_pos hdot, if_pos (show name.bytes.head? = some 46 from hdot)]
        exact ⟨htext, hok⟩
      · rw [if_neg hdot, if_neg (show ¬name.bytes.head? = some 46 from hdot),
          List.flatten_cons, htext]
        exact ⟨rfl, hok⟩
  | dir name sub rest ihsub ihrest =>
      obtain ⟨htext, hok⟩ := ihsub (inside path name)
      obtain ⟨htext', hok'⟩ := ihrest path
      rw [lines, Mendel.sdListDirSub, readable]
      by_cases hdot : Dotted name
      · rw [if_pos hdot, if_pos hdot, if_pos (show name.bytes.head? = some 46 from hdot)]
        exact ⟨htext', hok'⟩
      · rw [if_neg hdot, if_neg hdot, if_neg (show ¬name.bytes.head? = some 46 from hdot),
          List.flatten_cons, List.flatten_append, htext, hok, hok']
        rw [inside]
        generalize Mendel.sdListDirSub (path ++ str "/" ++ name.bytes) sub = found
        obtain ⟨text, ok⟩ := found
        cases ok with
        | false => simp
        | true => simp [htext']

/-! ## All of it -/

/-- A call has printed every entry once and has left the path as it was, or has met a
directory that cannot be read. -/
structure ListedWell (path : List UInt8) (d : DirList) (r : Listed) : Prop where
  kept : r.2.1 = true → cString r.2.2 = path
  printed : r.2.1 = true → ∀ line, line ∈ r.1 ↔ IsEntry path d line
  once : r.1.Nodup
  succeeds : r.2.1 = readable d

/-- Nothing is stored behind the end of the buffer only if the tree fits. -/
theorem fits_of_returns {d : DirList} (hbuf : Holds buf path)
    (hopen : opendir path = listingOf d) (hfound : Found opendir path d) {r : Listed}
    {enough : Nat}
    (hreturns : ∀ depth, enough ≤ depth → sdListDirSub opendir depth buf = some r) :
    Fits path.length d := by
  by_contra hfits
  have hreturn := hreturns (max enough (nesting d) + 1) (by omega)
  rw [sdListDirSub, hbuf.strlen, Option.bind_some, hbuf.cString, hopen,
    loop_overflows d hbuf hfound hfits _ (le_max_right _ _)] at hreturn
  cases hreturn

/-- A tree is listed as it should be, within the 120 bytes of the buffer, exactly when
it fits. -/
theorem listing_within_buffer {d : DirList} (hd : Named d) (hbuf : Holds buf path)
    (hopen : opendir path = listingOf d) (hfound : Found opendir path d) :
    (∃ r enough, (∀ depth, enough ≤ depth → sdListDirSub opendir depth buf = some r) ∧
      ListedWell path d r) ↔ Fits path.length d := by
  constructor
  · rintro ⟨r, enough, hreturns, -⟩
    exact fits_of_returns hbuf hopen hfound hreturns
  · intro hfits
    obtain ⟨buf', hcall, hkept⟩ := call_fits hbuf hopen hfound hfits
    refine ⟨(lines path d, readable d, buf'), nesting d + 1, fun depth hdepth => ?_,
      fun h => (hkept h).cString, fun h _ => mem_lines_iff h, lines_nodup hd path, rfl⟩
    obtain ⟨depth, rfl⟩ : ∃ k, depth = k + 1 := ⟨depth - 1, by omega⟩
    exact hcall depth (by omega)

/-- Nine directories deep, every tree fits. -/
theorem fits_of_nesting {d : DirList} {n : Nat} (hd : Named d)
    (hnesting : n + 13 * nesting d < 120) : Fits n d := by
  induction d generalizing n with
  | done ok => trivial
  | file name rest ih => exact ih hd.2.2 hnesting
  | dir name sub rest ihsub ihrest =>
      obtain ⟨hname, -, hsub, hrest⟩ := hd
      rw [nesting] at hnesting
      rw [Fits]
      split at hnesting
      · next hdot =>
          rw [if_pos hdot]
          exact ihrest hrest hnesting
      · next hdot =>
          have hshort := hname.short
          rw [if_neg hdot]
          exact ⟨by omega, ihsub hsub (by omega), fun _ => ihrest hrest (by omega)⟩

/-! ## Two cards -/

/-- A directory with one file, and the entries for the directory itself and the one
above it. -/
def jobs : DirList :=
  .dir ⟨str "JOBS", by decide +kernel⟩
    (.dir ⟨str ".", by decide +kernel⟩ (.done true)
      (.dir ⟨str "..", by decide +kernel⟩ (.done true)
        (.file ⟨str "CUBE.G", by decide +kernel⟩ (.done true))))
    (.done true)

/-- The directories of that card. -/
def jobsDirs (path : List UInt8) : Listing :=
  if path = [] then listingOf jobs
  else if path = str "/JOBS" then
    listingOf
      (.dir ⟨str ".", by decide +kernel⟩ (.done true)
        (.dir ⟨str "..", by decide +kernel⟩ (.done true)
          (.file ⟨str "CUBE.G", by decide +kernel⟩ (.done true))))
  else ⟨[], false⟩

/-- A buffer on the stack, with whatever was there. -/
def stack : List UInt8 := List.replicate 120 165

theorem holds_stack : Holds (stack.set 0 0) [] :=
  ⟨by decide, by decide, stack.drop 1, by decide⟩

theorem listing_of_jobs :
    ∃ r enough, (∀ depth, enough ≤ depth → sdListDir jobsDirs depth stack = some r) ∧
      ListedWell [] jobs r := by
  have hnamed : Named jobs :=
    ⟨⟨by decide, by decide, by decide⟩, by decide,
      ⟨⟨by decide, by decide, by decide⟩, by decide, trivial,
        ⟨by decide, by decide, by decide⟩, by decide, trivial,
        ⟨by decide, by decide, by decide⟩, by decide, trivial⟩, trivial⟩
  have hfound : Found jobsDirs [] jobs :=
    ⟨fun _ => ⟨rfl, fun h => absurd rfl h, fun h => absurd rfl h, trivial⟩, trivial⟩
  exact (listing_within_buffer hnamed holds_stack rfl hfound).2
    (fits_of_nesting hnamed (by decide))

/-- Directories with names of twelve characters, so many inside each other. -/
def nested : Nat → DirList
  | 0 => .done true
  | n + 1 => .dir ⟨str "AAAAAAAA.AAA", by decide +kernel⟩ (nested n) (.done true)

/-- The directories of a card that has ten of them inside each other. -/
def nestedDirs (path : List UInt8) : Listing := listingOf (nested (10 - path.length / 13))

theorem found_nested {n : Nat} (hn : n ≤ 10) {path : List UInt8}
    (hpath : path.length = 13 * (10 - n)) : Found nestedDirs path (nested n) := by
  induction n generalizing path with
  | zero => trivial
  | succ n ih =>
      have hlength : (inside path ⟨str "AAAAAAAA.AAA", by decide +kernel⟩).length =
          13 * (10 - n) := by
        rw [length_inside, hpath]
        show 13 * (10 - (n + 1)) + 1 + 12 = _
        omega
      refine ⟨fun _ => ⟨?_, ih (by omega) hlength⟩, trivial⟩
      rw [nestedDirs, hlength]
      congr 2
      omega

theorem named_nested (n : Nat) : Named (nested n) := by
  induction n with
  | zero => trivial
  | succ n ih =>
      exact ⟨⟨by decide, by decide, by decide⟩, by decide, ih, trivial⟩

theorem fits_nested {n m : Nat} (h : Fits m (nested (n + 1))) : m + 13 * (n + 1) < 120 := by
  induction n generalizing m with
  | zero => exact (show m + 1 + 12 < 120 from h.1)
  | succ n ih =>
      have hlater := ih (show Fits (m + 1 + 12) (nested (n + 1)) from h.2.1)
      omega

/-- Ten directories with names of twelve characters are too deep. -/
theorem deep_path_overflows :
    Named (nested 10) ∧ nestedDirs [] = listingOf (nested 10) ∧
      Found nestedDirs [] (nested 10) ∧
      ¬∃ r enough, (∀ depth, enough ≤ depth → sdListDir nestedDirs depth stack = some r) ∧
        ListedWell [] (nested 10) r := by
  have hfound : Found nestedDirs [] (nested 10) := found_nested le_rfl rfl
  refine ⟨named_nested 10, rfl, hfound, ?_⟩
  rintro ⟨r, enough, hreturns, -⟩
  have hfits := fits_nested (fits_of_returns holds_stack rfl hfound hreturns)
  exact absurd hfits (by decide)

end R2C2Firmware.Ports.DirectoryListing
