import SrirachOS.User.Sys

/-!
# cat and ls

Both programs read a descriptor until a read returns 0, and write what they get. They are run to their
end: with enough turns for its loop, each prints exactly what the descriptor delivers.

- `catLoop_ends`, `lsLoop_ends`: the loops, over the records of a descriptor,
- `cat_ends`: for every argument, what `cat` prints and the status it returns,
- `ls_ends`: the names of the directory, one to a line.
-/

namespace SrirachOS

open Foundation Kernel

namespace User

/-! ## The programs -/

/-- `while (0 != (cnt = ece391_read (fd, buf, 1024)))` of `cat`, with the number of turns left. -/
def catLoop (img : Image) (fd : Int) : Nat → (Nat → UInt8) → UserM Int
  | 0, _ => failure
  | turns + 1, buf => do
    let (cnt, buf) ← ece391Read img fd buf 0 1024
    if cnt = 0 then pure 0
    else if cnt = -1 then
      say (ascii "file read failed\n")
      pure 3
    else if (← ece391Write 1 buf 0 cnt) = -1 then pure 3
    else catLoop img fd turns buf

/-- `main` of `ece391cat.c`. -/
def cat (img : Image) (turns : Nat) (buf : Nat → UInt8) : UserM Int := do
  let (ret, buf) ← ece391Getargs buf 1024
  if ret ≠ 0 then
    say (ascii "could not read arguments\n")
    pure 3
  else
    let fd ← ece391Open img (cstring buf 1024)
    if fd = -1 then
      say (ascii "file not found\n")
      pure 2
    else catLoop img fd turns buf

/-- `while (0 != (cnt = ece391_read (fd, buf, SBUFSIZE-1)))` of `ls`, with the number of turns left. -/
def lsLoop (img : Image) (fd : Int) : Nat → (Nat → UInt8) → UserM Int
  | 0, _ => failure
  | turns + 1, buf => do
    let (cnt, buf) ← ece391Read img fd buf 0 32
    if cnt = 0 then pure 0
    else if cnt = -1 then
      say (ascii "directory entry read failed\n")
      pure 3
    else
      let buf := Function.update buf cnt.toNat 10
      if (← ece391Write 1 buf 0 (cnt + 1)) = -1 then pure 3 else lsLoop img fd turns buf

/-- `main` of `ece391ls.c`. -/
def ls (img : Image) (turns : Nat) (buf : Nat → UInt8) : UserM Int := do
  let fd ← ece391Open img (ascii ".")
  if fd = -1 then
    say (ascii "directory open failed\n")
    pure 2
  else lsLoop img fd turns buf

/-! ## The loops -/

/-- **The loop of `cat`** prints the records. -/
theorem catLoop_ends {img : Image} {fd : Int} {records : List (List UInt8)} {s : Sys}
    (hdel : Delivers img fd 1024 records s.fs) (hstd : s.Stdout)
    (hsizes : ∀ r ∈ records, r.length ≤ 1024) {turns : Nat} (hturns : records.length < turns)
    (buf : Nat → UInt8) : Ends (catLoop img fd turns buf) s 0 records.flatten := by
  induction records generalizing s turns buf with
  | nil =>
    obtain ⟨turns, rfl⟩ : ∃ n, turns = n + 1 := ⟨turns - 1, by omega⟩
    obtain ⟨junk, p, hread⟩ := delivers_nil.mp hdel
    exact Ends.silent (ece391Read_record hread buf 0) rfl (ends_pure _ 0)
  | cons record records ih =>
    obtain ⟨turns, rfl⟩ : ∃ n, turns = n + 1 := ⟨turns - 1, by omega⟩
    obtain ⟨hne, p, hread, hrest⟩ := delivers_cons.mp hdel
    have hlen := hsizes record List.mem_cons_self
    have hpos : 0 < record.length := List.length_pos_iff.mpr hne
    refine Ends.silent (ece391Read_record hread buf 0) rfl ?_
    dsimp only
    rw [if_neg (by omega), if_neg (by omega)]
    -- the record is in the buffer
    have hwrite := ece391Write_puts (s := { s with fs := s.fs.seek fd p })
      (by simpa [Sys.Stdout] using hstd) (holdsAt_wrote buf 0 record) (by omega)
    refine Ends.bind hwrite (Sys.printed_puts _ record) ?_
    rw [if_neg (by omega)]
    exact ih hrest (by simpa [Sys.Stdout, FsState.entered] using hstd)
      (fun r hr => hsizes r (List.mem_cons_of_mem _ hr)) (by simpa using hturns) _

/-- **The loop of `ls`** prints the records with a newline behind each. -/
theorem lsLoop_ends {img : Image} {fd : Int} {records : List (List UInt8)} {s : Sys}
    (hdel : Delivers img fd 32 records s.fs) (hstd : s.Stdout)
    (hsizes : ∀ r ∈ records, r.length ≤ 32) {turns : Nat} (hturns : records.length < turns)
    (buf : Nat → UInt8) : Ends (lsLoop img fd turns buf) s 0 (records.flatMap (· ++ [10])) := by
  induction records generalizing s turns buf with
  | nil =>
    obtain ⟨turns, rfl⟩ : ∃ n, turns = n + 1 := ⟨turns - 1, by omega⟩
    obtain ⟨junk, p, hread⟩ := delivers_nil.mp hdel
    exact Ends.silent (ece391Read_record hread buf 0) rfl (ends_pure _ 0)
  | cons record records ih =>
    obtain ⟨turns, rfl⟩ : ∃ n, turns = n + 1 := ⟨turns - 1, by omega⟩
    obtain ⟨hne, p, hread, hrest⟩ := delivers_cons.mp hdel
    have hlen := hsizes record List.mem_cons_self
    have hpos : 0 < record.length := List.length_pos_iff.mpr hne
    refine Ends.silent (ece391Read_record hread buf 0) rfl ?_
    dsimp only
    rw [if_neg (by omega), if_neg (by omega), Int.toNat_natCast]
    -- the newline stands behind the record
    have hline : HoldsAt (Function.update (wrote buf 0 record) record.length 10) 0 (record ++ [10]) :=
      holdsAt_append.mpr ⟨(holdsAt_wrote buf 0 record).congr fun i _ hi =>
        Function.update_of_ne (by omega) .., holdsAt_cons.mpr ⟨by simp, holdsAt_nil⟩⟩
    have hwrite := ece391Write_puts (s := { s with fs := s.fs.seek fd p })
      (by simpa [Sys.Stdout] using hstd) hline (by simp; omega)
    rw [List.length_append, List.length_singleton, Int.natCast_add, Int.natCast_one] at hwrite
    refine Ends.bind hwrite (Sys.printed_puts _ (record ++ [10])) ?_
    rw [if_neg (by omega)]
    exact ih hrest (by simpa [Sys.Stdout, FsState.entered] using hstd)
      (fun r hr => hsizes r (List.mem_cons_of_mem _ hr)) (by simpa using hturns) _

/-! ## What an open delivers -/

/-- What a program reads of a name that it opens first of all. -/
def readable (img : Image) (name : CStr) : Option (List UInt8) :=
  match resolved img name with
  | none => none
  | some k =>
    if img.filetype k = 0 then some []
    else if img.filetype k = 1 then
      if k = 0 then some (img.listed 0).flatten else none
    else if img.filetype k = 2 then some (img.contents (img.inodeNum k))
    else none

/-- A name that cannot be read is refused. -/
theorem systemOpen_unreadable {img : Image} {s : FsState} (hfresh : Fresh s) {name : CStr}
    (hname : name.text ≠ []) (h : readable img name = none) :
    (systemOpen img (some name)).run accessSem s = (-1, s.failed img (some name)) := by
  refine open_refused hfresh.stdOpen ?_
  have hrefused := refused_some img name s
  unfold readable at h
  cases hres : resolved img name with
  | none =>
    rw [getFiletype_resolved, if_neg hname, hres] at hrefused
    exact hrefused
  | some k =>
    rw [getFiletype_of_resolved hres hname] at hrefused
    rw [hres] at h
    dsimp only at h
    generalize img.filetype k = filetype at h hrefused
    split at hrefused
    · cases h
    · rw [hrefused, ← Bool.not_eq_false, nameDiffers_first hres]
      rintro rfl
      cases h
    · cases h
    · exact hrefused

/-- **A name that can be read** is opened at descriptor 2, which delivers the text. -/
theorem systemOpen_readable {img : Image} (hwf : img.WellFormed) {s : FsState} (hfresh : Fresh s)
    {name : CStr} (hname : name.text ≠ []) {text : List UInt8} (h : readable img name = some text) :
    (systemOpen img (some name)).run accessSem s = (2, s.took img (some name) 2) ∧
      ∃ records, records.flatten = text ∧ (∀ r ∈ records, r.length ≤ 1024) ∧
        Delivers img 2 1024 records (s.took img (some name) 2) := by
  have hfree := hfresh.freeFd
  unfold readable at h
  cases hres : resolved img name with
  | none =>
    rw [hres] at h
    cases h
  | some k =>
    rw [hres] at h
    dsimp only at h
    split_ifs at h with hrtc hdir hfirst hfile
    · obtain ⟨hopen, hat⟩ := open_rtc hres hname hfresh.stdOpen hfree hrtc
      exact ⟨hopen, [], Option.some.inj h, by simp, rtcAt_delivers img hat 1024⟩
    · obtain ⟨hopen, hfdt⟩ := open_directory hres hname hfresh.stdOpen hfree hdir hfirst
        (hfresh.filePos (by omega) (by omega))
      have hdel := directoryAt_delivers img (directoryAt_took hfdt) (n := 1024) (by decide) (by decide)
      rw [Int.cast_ofNat_Int] at hdel
      refine ⟨hopen, _, Option.some.inj h, fun r hr => ?_, hdel⟩
      obtain ⟨k, rfl⟩ := exists_of_mem_listed hr
      exact (entryName_length_le img k).trans (by decide)
    · have hk := (resolved_eq_some_iff.mp hres).1
      have hinode := hwf k hk hfile
      obtain ⟨hopen, hat⟩ := open_file hres hname hfresh.stdOpen hfree hfile
        (hfresh.unused hinode.inode_nonneg)
      obtain ⟨records, hflat, hsizes, hdel⟩ := fileAt_delivers hinode hat (n := 1024) (by decide)
      rw [Int.cast_ofNat_Int] at hdel
      rw [List.drop_zero] at hflat
      exact ⟨hopen, records, hflat.trans (Option.some.inj h), hsizes, hdel⟩

/-! ## The programs to their end -/

/-- What `cat` returns and prints. -/
def catResult (img : Image) (arg : List UInt8) : Int × List UInt8 :=
  if arg = [] then (3, ascii "could not read arguments\n")
  else
    match readable img arg with
    | none => (2, ascii "file not found\n")
    | some text => (0, text)

/-- **`cat`**: on every well-formed image and for every argument, the program ends, and prints exactly
the contents of the file, the names of the directory or nothing for the rtc, or one of its two
messages. -/
theorem cat_ends {img : Image} (hwf : img.WellFormed) {s : Sys} {arg : List UInt8}
    (hs : Started s arg) (buf : Nat → UInt8) :
    ∃ n, ∀ turns ≥ n, Ends (cat img turns buf) s (catResult img arg).1 (catResult img arg).2 := by
  have hstd := hs.stdout
  by_cases harg : arg = []
  · refine ⟨0, fun turns _ => ?_⟩
    have hargs := ece391Getargs_eq hs buf (show (1024 : Int) ≠ 0 by decide)
    rw [if_pos harg] at hargs
    rw [catResult, if_pos harg]
    exact Ends.silent hargs rfl (ends_say hstd (by decide) (by decide) 3)
  obtain ⟨buf', hargs, hstring⟩ := ece391Getargs_some hs harg buf (show (1024 : Int) ≠ 0 by decide)
  have hname : CStr.text arg ≠ [] := by
    rwa [CStr.text_of_nonzero fun b hb => ne_of_mem_of_not_mem hb hs.nonzero]
  have hlt := hs.length_lt
  have hcstring : cstring buf' 1024 = arg := cstring_eq hstring (by omega)
  have hopen : (ece391Open img (cstring buf' 1024)).run s = _ :=
    (congrArg (fun name => (ece391Open img name).run s) hcstring).trans (ece391Open_run img arg s)
  rw [catResult, if_neg harg]
  cases hread : readable img arg with
  | none =>
    rw [systemOpen_unreadable hs.fresh hname hread] at hopen
    have hstd' : Sys.Stdout { s with fs := s.fs.failed img (some arg) } := by
      rw [Sys.Stdout, failed_fdt _ _ _ _ (by decide), failed_mainProcess]
      exact hstd
    exact ⟨0, fun turns _ => Ends.silent hargs rfl (Ends.silent hopen rfl
      (ends_say hstd' (by decide) (by decide) 2))⟩
  | some text =>
    obtain ⟨hrun, records, rfl, hsizes, hdel⟩ := systemOpen_readable hwf hs.fresh hname hread
    rw [hrun] at hopen
    have hstd' : Sys.Stdout { s with fs := s.fs.took img (some arg) 2 } := took_stdout (by decide) hstd
    exact ⟨records.length + 1, fun turns hturns => Ends.silent hargs rfl (Ends.silent hopen rfl
      (catLoop_ends hdel hstd' hsizes hturns buf'))⟩

/-- The file `a` holds `xyz`. -/
theorem cat_ends_sample :
    ∃ n, ∀ turns ≥ n,
      Ends (cat sampleImage turns fun _ => 0) (sampleSys (ascii "a")) 0 (ascii "xyz") := by
  have h := cat_ends sampleImage_wellFormed (sampleSys_started (show 0 ∉ ascii "a" by decide)
    (by decide)) fun _ => 0
  have hres : catResult sampleImage (ascii "a") = (0, ascii "xyz") := by decide +kernel
  rwa [hres] at h

/-- The first entry of the image is the directory. -/
structure RootFirst (img : Image) : Prop where
  name : img.entryName 0 = ascii "."
  filetype : img.filetype 0 = 1

theorem RootFirst.resolved {img : Image} (h : RootFirst img) :
    SrirachOS.resolved img (ascii ".") = some 0 := by
  have hascii : Ascii [46] := List.forall_mem_singleton.mpr (by decide)
  exact resolved_eq_some_iff.mpr ⟨by decide, h.name.symm, hascii, by simp⟩

/-- **`ls`**: the names of the directory up to the first empty one, one to a line. -/
theorem ls_ends {img : Image} (hroot : RootFirst img) {s : Sys} {arg : List UInt8}
    (hs : Started s arg) (buf : Nat → UInt8) :
    ∃ n, ∀ turns ≥ n, Ends (ls img turns buf) s 0 ((img.listed 0).flatMap (· ++ [10])) := by
  obtain ⟨hrun, hfdt⟩ := open_directory hroot.resolved (by decide) hs.fresh.stdOpen hs.fresh.freeFd
    hroot.filetype rfl (hs.fresh.filePos (by omega) (by omega))
  have hdel := directoryAt_delivers img (directoryAt_took hfdt) (n := 32) (by decide) (by decide)
  rw [Int.cast_ofNat_Int] at hdel
  have hopen := ece391Open_run img (ascii ".") s
  rw [hrun] at hopen
  have hstd : Sys.Stdout { s with fs := s.fs.took img (some (ascii ".")) 2 } := took_stdout (by decide) hs.stdout
  refine ⟨(img.listed 0).length + 1, fun turns hturns => Ends.silent hopen rfl ?_⟩
  refine lsLoop_ends hdel hstd (fun r hr => ?_) hturns buf
  obtain ⟨k, rfl⟩ := exists_of_mem_listed hr
  exact entryName_length_le img k

theorem sampleImage_rootFirst : RootFirst sampleImage :=
  ⟨by decide +kernel, by decide +kernel⟩

theorem ls_ends_sample :
    ∃ n, ∀ turns ≥ n,
      Ends (ls sampleImage turns fun _ => 0) (sampleSys []) 0 (ascii ".\na\nb\nshell\n") := by
  have h := ls_ends sampleImage_rootFirst
    (sampleSys_started (show 0 ∉ ([] : CStr) by decide) (by decide)) fun _ => 0
  have hnames : (sampleImage.listed 0).flatMap (· ++ [10]) = ascii ".\na\nb\nshell\n" := by
    decide +kernel
  rwa [hnames] at h

end User

end SrirachOS
