import Mathlib.Data.Nat.Count
import SrirachOS.User.Cat
import SrirachOS.User.Grep

/-!
# grep in the Directory

`main` of `grep` reads the names of the directory and searches every file whose name does not begin with
a dot. The directory stays open, a file is closed, and an rtc is closed but keeps its descriptor.

- `GrepAt`: the descriptors between two entries,
- `GrepAt.file`, `GrepAt.rtc`: what one entry leaves,
- `grepEntries_ends`, `grep_ends`: hence all the files are searched, in the order of the directory.
-/

namespace SrirachOS

open Foundation Kernel

namespace User

/-! ## The code -/

/-- `while (0 != (cnt = ece391_read (fd, buf, SBUFSIZE-1)))`, with the number of turns left. Each call of
`do_one_file` finds something else on its stack. -/
def grepEntries (img : Image) (search : Nat → UInt8) (fd : Int) (fileTurns : Nat)
    (junk : Nat → Nat → UInt8) : Nat → (Nat → UInt8) → UserM Int
  | 0, _ => failure
  | turns + 1, buf => do
    let (cnt, buf) ← ece391Read img fd buf 0 32
    if cnt = 0 then pure 0
    else if cnt = -1 then
      say (ascii "directory entry read failed\n")
      pure 3
    else if buf 0 = 46 then grepEntries img search fd fileTurns junk turns buf
    else
      let buf := Function.update buf cnt.toNat 0
      if (← doOneFile img fileTurns search buf (junk turns)) ≠ 0 then pure 3
      else grepEntries img search fd fileTurns junk turns buf

/-- `main` of `ece391grep.c`. -/
def grep (img : Image) (turns : Nat) (junk : Nat → Nat → UInt8) (buf search : Nat → UInt8) :
    UserM Int := do
  let (ret, search) ← ece391Getargs search 1024
  if ret ≠ 0 then
    say (ascii "could not read argument\n")
    pure 3
  else
    let fd ← ece391Open img (ascii ".")
    if fd = -1 then
      say (ascii "directory open failed\n")
      pure 2
    else grepEntries img search fd turns junk turns buf

/-! ## The images -/

/-- The name of the entry does not begin with a dot: the entry is searched. -/
def Visible (img : Image) (k : Nat) : Prop := (img.entryName k).head? ≠ some 46

instance (img : Image) (k : Nat) : Decidable (Visible img k) := inferInstanceAs (Decidable (_ ≠ _))

/-- The rtcs among the first entries. -/
def rtcs (img : Image) (k : Nat) : Nat :=
  k.count fun j => Visible img j ∧ img.filetype j = 0

/-- An image whose entries `grep` can open one after the other. -/
structure Searchable (img : Image) : Prop where
  wellFormed : img.WellFormed
  root : RootFirst img
  listing : img.Listing
  ascii : ∀ k : Nat, k < img.dirCount → Ascii (img.entryName k)
  types : ∀ k : Nat, k < img.dirCount → Visible img k → img.filetype k = 0 ∨ img.filetype k = 2
  /-- no two files share an inode, and none has that of the directory -/
  inodes : ∀ j k : Nat, j < k → k < img.dirCount → img.filetype k = 2 →
    j = 0 ∨ img.filetype j = 2 → img.inodeNum j ≠ img.inodeNum k
  rtcs_le : rtcs img img.dirCount.toNat ≤ 4

/-! ## The descriptors -/

/-- Between two entries: the directory at a position, behind it the rtcs of the first `k` entries, and
no other descriptor in use. -/
structure GrepAt (img : Image) (s : FsState) (pos k : Nat) : Prop where
  entered : s.entered = s
  std : ∀ fd : Int, 0 ≤ fd → fd < 2 → s.fdt s.mainProcess fd = ⟨.terminal, -1, 0, 1⟩
  dir : s.fdt s.mainProcess 2 = ⟨.dir, img.inodeNum 0, pos, 1⟩
  used : ∀ fd : Int, 3 ≤ fd → fd < 3 + rtcs img k → (s.fdt s.mainProcess fd).flags ≠ 0
  free : ∀ fd : Int, 3 + rtcs img k ≤ fd → fd < 8 → (s.fdt s.mainProcess fd).flags = 0
  /-- the inode numbers that are left are those of files that have been searched -/
  stale : ∀ fd : Int, 3 ≤ fd → fd < 8 → (s.fdt s.mainProcess fd).inodeNum = -1 ∨
    ∃ j < k, img.filetype j = 2 ∧ (s.fdt s.mainProcess fd).inodeNum = img.inodeNum j

theorem rtcs_succ (img : Image) (k : Nat) :
    rtcs img (k + 1) = rtcs img k + if Visible img k ∧ img.filetype k = 0 then 1 else 0 :=
  Nat.count_succ ..

theorem rtcs_le {img : Image} (hs : Searchable img) {k : Nat} (hk : k ≤ img.dirCount.toNat) :
    rtcs img k ≤ 4 :=
  (Nat.count_monotone _ hk).trans hs.rtcs_le

/-- The search for a free descriptor ends at the first one. -/
theorem firstFree_eq {s : FsState} {fd : Int} (h2 : 2 ≤ fd) (h8 : fd < 8)
    (hused : ∀ i : Int, 2 ≤ i → i < fd → (s.fdt s.mainProcess i).flags ≠ 0)
    (hfree : (s.fdt s.mainProcess fd).flags = 0) : s.freeFd = some fd := by
  cases hfirst : s.freeFd with
  | none => exact absurd hfree (firstFree_none.mp hfirst fd h2 (by omega))
  | some i =>
    have hrange := firstFree_range hfirst
    rcases lt_trichotomy i fd with hlt | rfl | hgt
    · exact absurd (firstFree_free hfirst) (hused i hrange.1 hlt)
    · rfl
    · exact absurd hfree (firstFree_lowest hfirst h2 hgt)

namespace GrepAt

variable {img : Image} {s : FsState} {pos k : Nat}

theorem stdOpen (h : GrepAt img s pos k) : StdOpen s s.mainProcess := by
  constructor
  · simp [h.std 0 (by omega) (by omega)]
  · simp [h.std 1 (by omega) (by omega)]

theorem freeFd (h : GrepAt img s pos k) (hrtcs : rtcs img k ≤ 4) :
    s.freeFd = some (3 + rtcs img k : Int) := by
  refine firstFree_eq (by omega) (by omega) (fun i h2 hi => ?_) (h.free _ (le_refl _) (by omega))
  by_cases hdir : i = 2
  · rw [hdir, h.dir]
    exact one_ne_zero
  · exact h.used i (by omega) hi

/-- The file that comes next is not in use. -/
theorem unused (h : GrepAt img s pos k) (hs : Searchable img) (hk : k < img.dirCount)
    (htype : img.filetype k = 2) (hk0 : k ≠ 0) : ¬ InUse s s.mainProcess (img.inodeNum k) := by
  have hcount := hs.listing.count
  have hinode := (hs.wellFormed k (by omega) htype).inode_nonneg
  rintro ⟨i, hi, hused, heq⟩
  rcases Nat.lt_trichotomy i 2 with hstd | rfl | hbehind
  · rw [h.std i (by omega) (by omega)] at heq
    simp only at heq
    omega
  · rw [Int.cast_ofNat_Int, h.dir] at heq
    exact hs.inodes 0 k (by omega) hk htype (.inl rfl) heq
  · rcases h.stale i (by omega) (by omega) with hnone | ⟨j, hj, hfile, hstale⟩
    · omega
    · exact hs.inodes j k hj hk htype (.inr hfile) (hstale.symm.trans heq)

/-- The next name is read. -/
theorem read (h : GrepAt img s pos k) (next : Nat) : GrepAt img (s.seek 2 next) next k where
  entered := rfl
  std fd h0 h2 := by
    rw [seek_mainProcess, seek_fdt_other _ _ _ (by omega)]
    exact h.std fd h0 h2
  dir := by
    rw [seek_mainProcess, seek_fdt_self, h.dir]
  used fd h3 hfd := by
    rw [seek_mainProcess, seek_fdt_other _ _ _ (by omega)]
    exact h.used fd h3 hfd
  free fd hfd h8 := by
    rw [seek_mainProcess, seek_fdt_other _ _ _ (by omega)]
    exact h.free fd hfd h8
  stale fd h3 h8 := by
    rw [seek_mainProcess, seek_fdt_other _ _ _ (by omega)]
    exact h.stale fd h3 h8

/-- A name that is passed over. -/
theorem skip (h : GrepAt img s pos k) (hhidden : ¬ Visible img k) : GrepAt img s pos (k + 1) := by
  have hsame : rtcs img (k + 1) = rtcs img k := by simp [rtcs_succ, hhidden]
  exact ⟨h.entered, h.std, h.dir, by rw [hsame]; exact h.used, by rw [hsame]; exact h.free,
    fun fd h3 h8 => (h.stale fd h3 h8).imp_right fun ⟨j, hj, hstale⟩ => ⟨j, by omega, hstale⟩⟩

/-- **A state that differs in the first free descriptor only**: it is free again, or an rtc has it. -/
theorem step (h : GrepAt img s pos k) {s' : FsState} (hentered : s'.entered = s')
    (hmain : s'.mainProcess = s.mainProcess)
    (hother : ∀ i : Int, i ≠ 3 + rtcs img k → s'.fdt s.mainProcess i = s.fdt s.mainProcess i)
    (hrtcs : rtcs img k ≤ 4)
    (hflags : (s'.fdt s.mainProcess (3 + rtcs img k)).flags ≠ 0 ↔ Visible img k ∧ img.filetype k = 0)
    (hinode : (s'.fdt s.mainProcess (3 + rtcs img k)).inodeNum =
        (s.fdt s.mainProcess (3 + rtcs img k)).inodeNum ∨
      img.filetype k = 2 ∧ (s'.fdt s.mainProcess (3 + rtcs img k)).inodeNum = img.inodeNum k) :
    GrepAt img s' pos (k + 1) := by
  have hsucc := rtcs_succ img k
  constructor
  · exact hentered
  · intro fd h0 h2
    rw [hmain, hother fd (by omega)]
    exact h.std fd h0 h2
  · rw [hmain, hother 2 (by omega)]
    exact h.dir
  · intro fd h3 hfd
    rw [hmain]
    by_cases hfirst : fd = 3 + rtcs img k
    · rw [hfirst, hflags]
      by_contra hno
      rw [if_neg hno] at hsucc
      omega
    · rw [hother fd hfirst]
      refine h.used fd h3 ?_
      split at hsucc <;> omega
  · intro fd hfd h8
    rw [hmain]
    by_cases hfirst : fd = 3 + rtcs img k
    · have hno : ¬ (Visible img k ∧ img.filetype k = 0) := fun hyes => by
        rw [if_pos hyes] at hsucc
        omega
      rw [hfirst]
      exact not_not.mp (mt hflags.mp hno)
    · rw [hother fd hfirst]
      exact h.free fd (by omega) h8
  · intro fd h3 h8
    rw [hmain]
    by_cases hfirst : fd = 3 + rtcs img k
    · rw [hfirst]
      rcases hinode with hsame | ⟨hfile, hnew⟩
      · rw [hsame]
        exact (h.stale _ (by omega) (by omega)).imp_right fun ⟨j, hj, hstale⟩ => ⟨j, by omega, hstale⟩
      · exact .inr ⟨k, by omega, hfile, hnew⟩
    · rw [hother fd hfirst]
      exact (h.stale fd h3 h8).imp_right fun ⟨j, hj, hstale⟩ => ⟨j, by omega, hstale⟩

end GrepAt

/-! ## One entry -/

/-- What is printed for an entry: a file that is a text in short lines is searched, and nothing is said
about another file; there is no output for what is no file. -/
def Answer (img : Image) (pattern : List UInt8) (k : Nat) (out : List UInt8) : Prop :=
  if Visible img k ∧ img.filetype k = 2 then
    0 ∉ img.contents (img.inodeNum k) → ShortLines (img.contents (img.inodeNum k)) →
      out = grepText pattern (img.entryName k) (img.contents (img.inodeNum k))
  else out = []

section

variable {img : Image} {k pos : Nat} {s fname : Nat → UInt8} {pattern : List UInt8} {x : Sys}

/-- **A file** is closed again. -/
theorem GrepAt.file (hat : GrepAt img x.fs pos k) (hs : Searchable img) (hk : k < img.dirCount)
    (hvisible : Visible img k) (h : Searching s fname pattern (img.entryName k))
    (htype : img.filetype k = 2) {turns : Nat} (hturns : 1023 * 4096 < turns) {data : Nat → UInt8}
    (hguard : data 1024 ≠ 10) :
    ∃ x' out, (doOneFile img turns s fname data).run x = some (0, x') ∧ x.Printed x' out ∧
      GrepAt img x'.fs pos (k + 1) ∧ Answer img pattern k out := by
  have hcount := hs.listing.count
  have hrtcs := rtcs_le hs (k := k) (by omega)
  have hres := resolved_entryName hs.listing hk (hs.ascii k hk)
  have hne := hs.listing.nonempty k hk
  have hinode := hs.wellFormed k (by omega) htype
  have hk0 : k ≠ 0 := by
    rintro rfl
    exact hvisible (by rw [Int.natCast_zero, hs.root.name]; rfl)
  have hstd : x.Stdout := by rw [Sys.Stdout, hat.std 1 (by omega) (by omega)]
  have hunused := hat.unused hs hk htype hk0
  have hfree := hat.freeFd hrtcs
  have hlength : (img.contents (img.inodeNum k)).length < turns := by
    rw [length_contents img _ hinode.length_nonneg]
    have := hinode.length_le
    omega
  obtain ⟨x', out, hrun, hprinted, hfs, hout⟩ := doOneFile_answers h hs.wellFormed hres hne htype
    hunused hstd hat.stdOpen hfree hlength data
  refine ⟨x', out, hrun, hprinted, ?_, ?_⟩
  · have htext : CStr.text (img.entryName k) = img.entryName k :=
      CStr.text_of_nonzero (entryName_nonzero img k)
    have hfile := (open_file hres (by rwa [htext]) hat.stdOpen hfree htype hunused).2
    have hmain : (x.fs.took img (some (img.entryName k)) (3 + rtcs img k)).mainProcess =
      x.fs.mainProcess := took_mainProcess
    have hself := closed_fdt_self (x.fs.took img (some (img.entryName k)) (3 + rtcs img k))
      (3 + rtcs img k)
    have hopened : ((x.fs.took img (some (img.entryName k)) (3 + rtcs img k)).fdt
      (x.fs.took img (some (img.entryName k)) (3 + rtcs img k)).mainProcess (3 + rtcs img k)).inodeNum =
        img.inodeNum k := hfile.openAt.inode_eq
    rw [hmain] at hself hopened
    rw [hfs]
    refine hat.step rfl hmain (fun i hi => ?_) hrtcs ?_ (.inr ⟨htype, ?_⟩)
    · rw [closed_fdt_other _ _ fun hloc => hi hloc.2, took_fdt_other _ _ _ fun hloc => hi hloc.2]
    · rw [hself, htype]
      simp
    · rw [hself]
      exact hopened
  · rw [Answer, if_pos ⟨hvisible, htype⟩]
    exact fun hzero hshort => hout hzero hshort hguard

/-- An array in which nothing has been read. -/
theorem grepLines_empty (fname data : Nat → UInt8) (n : Nat) (x : Sys) :
    (grepLines s n fname 0 0 1025 data 0).run x = some ((Function.update data 0 0, 0), x) := by
  have hend : lineEndFrom data (0 - 0) 0 = 0 := rfl
  rw [grepLines, hend]
  dsimp only
  rw [if_neg (by simp), Nat.sub_zero, searchLine, run_bind_of (show (pure () : UserM Unit).run x = _ from rfl),
    if_pos (by omega)]
  rfl

/-- **An rtc** delivers nothing, and keeps its descriptor. -/
theorem GrepAt.rtc (hat : GrepAt img x.fs pos k) (hs : Searchable img) (hk : k < img.dirCount)
    (hvisible : Visible img k) (h : Searching s fname pattern (img.entryName k))
    (htype : img.filetype k = 0) {turns : Nat} (hturns : 0 < turns) (data : Nat → UInt8) :
    ∃ x', (doOneFile img turns s fname data).run x = some (0, x') ∧ x.Printed x' [] ∧
      GrepAt img x'.fs pos (k + 1) := by
  obtain ⟨turns, rfl⟩ : ∃ n, turns = n + 1 := ⟨turns - 1, by omega⟩
  have hrtcs := rtcs_le hs (k := k) (by omega)
  have hres := resolved_entryName hs.listing hk (hs.ascii k hk)
  have hfree := hat.freeFd hrtcs
  have hname : CStr.text (img.entryName k) ≠ [] := by
    rw [CStr.text_of_nonzero (entryName_nonzero img k)]
    exact hs.listing.nonempty k hk
  obtain ⟨hopen, hrtc⟩ := open_rtc hres hname hat.stdOpen hfree htype
  obtain ⟨x₁, hx₁⟩ : ∃ x₁ : Sys, x₁ =
      { x with fs := x.fs.took img (some (img.entryName k)) (3 + rtcs img k) } := ⟨_, rfl⟩
  have hfs : x₁.fs = x.fs.took img (some (img.entryName k)) (3 + rtcs img k) := by rw [hx₁]
  have hcall : (ece391Open img (img.entryName k)).run x = some (3 + (rtcs img k : Int), x₁) := by
    rw [ece391Open_run, hopen, hx₁]
  have hentered : { x₁ with fs := x₁.fs.entered } = x₁ := by
    rw [show x₁.fs.entered = x₁.fs by rw [hfs, took_entered]]
  rw [← hfs] at hrtc
  have hread := ece391Read_record (recordRead_rtc img hrtc 1024) data 0
  have hclose := ece391Close_rtc hrtc
  rw [hentered] at hread hclose
  refine ⟨x₁, ?_, Sys.printed_nil (by rw [hx₁]), ?_⟩
  · have hsize : (1024 - ((0 : Nat) : Int)) = 1024 := by omega
    rw [doOneFile, cstring_eq h.holdsName h.name_le, run_bind_of hcall, if_neg (by omega), grepReads,
      hsize, run_bind_of hread]
    dsimp only [rtcRead]
    rw [if_neg (by decide), Int.toNat_zero, run_bind_of (grepLines_empty ..), if_pos rfl,
      run_bind_of hclose, if_neg (by decide)]
    rfl
  · have htable : openTable img (some (img.entryName k)) = none := by
      rw [openTable_some, getFiletype_of_resolved hres hname, htype]
      rfl
    have hself := took_fdt_self x.fs img (some (img.entryName k)) (3 + rtcs img k)
    rw [occupy, htable] at hself
    rw [hfs]
    refine hat.step took_entered took_mainProcess (fun i hi => ?_) hrtcs ?_ (.inl ?_)
    · exact took_fdt_other _ _ _ fun hloc => hi hloc.2
    · rw [hself]
      simp [hvisible, htype]
    · rw [hself]

end

/-! ## The loop -/

/-- The name is stored as a string. -/
theorem stringAt_name (img : Image) (k : Int) (buf : Nat → UInt8) :
    StringAt (Function.update (wrote buf 0 (img.entryName k)) (img.entryName k).length 0) 0
      (img.entryName k) := by
  have h := stringAt_update (holdsAt_wrote buf 0 (img.entryName k))
    fun hzero => entryName_nonzero img k 0 hzero rfl
  rwa [Nat.zero_add] at h

/-- The first character of a name that has been read. -/
theorem hidden_iff {img : Image} {k : Nat} (hname : img.entryName k ≠ []) (buf : Nat → UInt8) :
    wrote buf 0 (img.entryName k) 0 = 46 ↔ ¬ Visible img k := by
  obtain ⟨c, rest, hcons⟩ := List.exists_cons_of_ne_nil hname
  simp [Visible, hcons, wrote]

/-- The pattern that is searched for: not empty, and with a first character that is no negative
`char`. -/
structure SearchedFor (search : Nat → UInt8) (pattern : List UInt8) : Prop where
  holds : StringAt search 0 pattern
  ne : pattern ≠ []
  first_lt : (search 0).toNat < 128
  length_le : pattern.length ≤ 1024

section

variable {img : Image} {search : Nat → UInt8} {pattern : List UInt8} {fileTurns : Nat}
  {junk : Nat → Nat → UInt8}

/-- **One turn**: the next entry is answered. -/
theorem grepEntries_next (hs : Searchable img) (hsearch : SearchedFor search pattern)
    (hfile : 1023 * 4096 < fileTurns) (hjunk : ∀ i, junk i 1024 ≠ 10) {k : Nat} {x : Sys}
    (hat : GrepAt img x.fs k k) (hk : k < img.dirCount) (turns : Nat) (buf : Nat → UInt8) :
    ∃ x₁ buf' out, (grepEntries img search 2 fileTurns junk (turns + 1) buf).run x =
      (grepEntries img search 2 fileTurns junk turns buf').run x₁ ∧ x.Printed x₁ out ∧
        GrepAt img x₁.fs (k + 1) (k + 1) ∧ Answer img pattern k out := by
  have hdir : DirectoryAt 2 x.fs k := directoryAt_of_fdt (by omega) (by omega) one_ne_zero hat.dir
  obtain ⟨hread, -⟩ := recordRead_directory img hdir 32
  rw [dirRecord_entry img k hk, nextPos, if_pos hk] at hread
  have hne := hs.listing.nonempty k hk
  have hpos := List.length_pos_iff.mpr hne
  have hnext := hat.read (k + 1)
  rw [grepEntries, run_bind_of (ece391Read_record hread buf 0)]
  dsimp only
  rw [if_neg (by omega), if_neg (by omega)]
  by_cases hvisible : Visible img k
  · have hstored := stringAt_name img k buf
    rw [if_neg fun h => (hidden_iff hne buf).mp h hvisible, Int.toNat_natCast]
    generalize Function.update (wrote buf 0 (img.entryName k)) (img.entryName k).length 0 = fname
      at hstored ⊢
    have hsearching : Searching search fname pattern (img.entryName k) :=
      ⟨hsearch.holds, hsearch.ne, hsearch.first_lt, hsearch.length_le, hstored, by
        have := entryName_length_le img k
        omega⟩
    rcases hs.types k hk hvisible with hrtc | htype
    · obtain ⟨x₁, hrun, hprinted, hat₁⟩ := hnext.rtc (x := { x with fs := x.fs.seek 2 (k + 1 : Nat) })
        hs hk hvisible hsearching hrtc (show 0 < fileTurns by omega) (junk turns)
      refine ⟨x₁, fname, [], ?_, ⟨hprinted.output, hprinted.display⟩, hat₁, ?_⟩
      · rw [run_bind_of hrun, if_neg (by decide)]
      · rw [Answer, if_neg (by rw [hrtc]; simp)]
    · obtain ⟨x₁, out, hrun, hprinted, hat₁, hanswer⟩ := hnext.file (x := { x with fs := x.fs.seek 2 (k + 1 : Nat) })
        hs hk hvisible hsearching htype hfile (hjunk turns)
      refine ⟨x₁, fname, out, ?_, ⟨hprinted.output, hprinted.display⟩, hat₁, hanswer⟩
      rw [run_bind_of hrun, if_neg (by decide)]
  · rw [if_pos ((hidden_iff hne buf).mpr hvisible)]
    refine ⟨_, _, [], rfl, Sys.printed_nil rfl, hnext.skip hvisible, ?_⟩
    rw [Answer, if_neg fun h => hvisible h.1]

/-- **The loop over the directory**: every entry is answered, in order. -/
theorem grepEntries_ends (hs : Searchable img) (hsearch : SearchedFor search pattern)
    (hfile : 1023 * 4096 < fileTurns) (hjunk : ∀ i, junk i 1024 ≠ 10) {turns k : Nat} {x : Sys}
    (hat : GrepAt img x.fs k k) (hturns : img.dirCount.toNat - k < turns) (buf : Nat → UInt8) :
    ∃ outs, List.Forall₂ (Answer img pattern) (List.range' k (img.dirCount.toNat - k)) outs ∧
      Ends (grepEntries img search 2 fileTurns junk turns buf) x 0 outs.flatten := by
  induction turns generalizing k x buf with
  | zero => omega
  | succ turns ih =>
    by_cases hk : (k : Int) < img.dirCount
    · obtain ⟨n, hn⟩ : ∃ n, img.dirCount.toNat - k = n + 1 := ⟨img.dirCount.toNat - k - 1, by omega⟩
      have hn' : img.dirCount.toNat - (k + 1) = n := by omega
      obtain ⟨x₁, buf', out, hrun, hprinted, hat₁, hanswer⟩ :=
        grepEntries_next hs hsearch hfile hjunk hat hk turns buf
      obtain ⟨outs, hall, x', hrest, hprinted'⟩ := ih hat₁ (by omega) buf'
      rw [hn, List.range'_succ, ← hn']
      exact ⟨out :: outs, hall.cons hanswer, x', hrun.trans hrest, hprinted.trans hprinted'⟩
    · have hdir : DirectoryAt 2 x.fs k :=
        directoryAt_of_fdt (by omega) (by omega) one_ne_zero hat.dir
      obtain ⟨hread, -⟩ := recordRead_directory img hdir 32
      rw [dirRecord, if_neg hk] at hread
      have hnone : img.dirCount.toNat - k = 0 := by omega
      rw [hnone]
      exact ⟨[], .nil, Ends.silent (ece391Read_record hread buf 0) rfl (ends_pure _ 0)⟩

end

/-- **`grep`**: on every image whose entries can be opened one after the other, and for every pattern
that is not empty and begins with an ASCII character, the program ends, and has searched all the files, in
the order of the directory; provided that no call of `do_one_file` finds a newline on its stack behind the
bytes that it reads. -/
theorem grep_ends {img : Image} (hs : Searchable img) {s : Sys} {pattern : List UInt8}
    (hstarted : Started s pattern) (hpattern : pattern ≠ [])
    (hfirst : ∀ c ∈ pattern.head?, c.toNat < 128) {junk : Nat → Nat → UInt8}
    (hjunk : ∀ i, junk i 1024 ≠ 10) (buf search : Nat → UInt8) :
    ∃ n, ∀ turns ≥ n, ∃ outs,
      List.Forall₂ (Answer img pattern) (List.range img.dirCount.toNat) outs ∧
        Ends (grep img turns junk buf search) s 0 outs.flatten := by
  obtain ⟨search', hargs, hstring⟩ := ece391Getargs_some hstarted hpattern search
    (show (1024 : Int) ≠ 0 by decide)
  have hlt := hstarted.length_lt
  have hfresh := hstarted.fresh
  obtain ⟨hrun, hfdt⟩ := open_directory hs.root.resolved (by decide) hfresh.stdOpen hfresh.freeFd
    hs.root.filetype rfl (hfresh.filePos (by omega) (by omega))
  have hopen := ece391Open_run img (ascii ".") s
  rw [hrun] at hopen
  have hother : ∀ fd : Int, fd ≠ 2 → (s.fs.took img (some (ascii ".")) 2).fdt
      (s.fs.took img (some (ascii ".")) 2).mainProcess fd = s.fs.fdt s.fs.mainProcess fd := by
    intro fd hfd
    rw [took_mainProcess, took_fdt_other _ _ _ fun hloc => hfd hloc.2]
  have hnone : rtcs img 0 = 0 := Nat.count_zero _
  have hat : GrepAt img (s.fs.took img (some (ascii ".")) 2) 0 0 := by
    refine ⟨took_entered, fun fd h0 h2 => ?_, ?_, fun fd h3 hfd => ?_, fun fd hfd h8 => ?_,
      fun fd h3 h8 => ?_⟩
    · rw [hother fd (by omega)]
      exact hfresh.std fd h0 h2
    · rw [took_mainProcess, hfdt]
      rfl
    · omega
    · obtain ⟨table, hfree⟩ := hfresh.free fd (by omega) h8
      rw [hother fd (by omega), hfree]
    · obtain ⟨table, hfree⟩ := hfresh.free fd (by omega) h8
      exact .inl (by rw [hother fd (by omega), hfree])
  refine ⟨max (img.dirCount.toNat + 1) (1023 * 4096 + 1), fun turns hturns => ?_⟩
  have hfirst' : (search' 0).toNat < 128 := by
    have hpos := List.length_pos_iff.mpr hpattern
    have hhead := hstring.holds 0 hpos
    rw [Nat.zero_add] at hhead
    rw [hhead]
    exact hfirst _ (List.head?_eq_getElem? ▸ List.getElem?_eq_getElem hpos)
  obtain ⟨outs, hall, hends⟩ := grepEntries_ends hs ⟨hstring, hpattern, hfirst', by omega⟩
    (show 1023 * 4096 < turns by omega) hjunk (x := { s with fs := s.fs.took img (some (ascii ".")) 2 }) hat
    (show img.dirCount.toNat - 0 < turns by omega) buf
  rw [Nat.sub_zero, ← List.range_eq_range'] at hall
  exact ⟨outs, hall, Ends.silent hargs rfl (Ends.silent hopen rfl hends)⟩

theorem sampleImage_searchable : Searchable sampleImage := by
  have hcount : sampleImage.dirCount = 4 := by decide +kernel
  have hfour : ∀ P : Nat → Prop, (∀ k < 4, P k) → ∀ k : Nat, k < sampleImage.dirCount → P k :=
    fun P h k hk => h k (by omega)
  refine ⟨sampleImage_wellFormed, sampleImage_rootFirst, by decide +kernel, ?_, ?_, ?_, ?_⟩
  · exact hfour _ (by decide +kernel)
  · exact hfour _ (by decide +kernel)
  · intro j k hjk hk
    revert j
    exact hfour (fun k => ∀ j < k, sampleImage.filetype k = 2 →
      j = 0 ∨ sampleImage.filetype j = 2 → sampleImage.inodeNum j ≠ sampleImage.inodeNum k)
      (by decide +kernel) k hk
  · rw [hcount]
    decide +kernel

/-- Of the three files only `a` has the pattern in it. -/
theorem grep_ends_sample :
    ∃ n, ∀ turns ≥ n, ∃ outs, List.Forall₂ (Answer sampleImage (ascii "y")) (List.range 4) outs ∧
      Ends (grep sampleImage turns (fun _ _ => 0) (fun _ => 0) fun _ => 0) (sampleSys (ascii "y")) 0
        outs.flatten := by
  have hrange : List.range 4 = List.range sampleImage.dirCount.toNat := by decide +kernel
  rw [hrange]
  have hfirst : ∀ c ∈ (ascii "y").head?, c.toNat < 128 := by
    intro c hc
    obtain rfl : 121 = c := Option.some.inj hc
    decide
  exact grep_ends sampleImage_searchable (sampleSys_started (by decide) (by decide)) (by decide)
    hfirst (fun _ => by decide) _ _

end User

end SrirachOS
