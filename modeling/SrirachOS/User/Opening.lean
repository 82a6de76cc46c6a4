import SrirachOS.User.Records

/-!
# What an Open Gets

The name that a program opens is resolved to an entry of the directory, and the type of the entry decides
what is open afterwards.

- `nameDiffers_iff`: the comparison of `dir_open` is that of whole names,
- `open_file`, `open_directory`, `open_rtc`, `open_refused`: the four outcomes while a descriptor is free,
- `Fresh`: the descriptors of a process that has just been created.
-/

namespace SrirachOS

open Foundation FsProg

/-! ## Names -/

theorem nameDiffers_from (img : Image) (fname : CStr) (index : Int) (turns k : Nat) :
    nameDiffers img index fname turns k = false ↔
      (CStr.text (fname.drop k)).take turns = nameFrom img index k turns := by
  induction turns generalizing k with
  | zero => simp [nameDiffers, nameFrom]
  | succ turns ih =>
    rw [nameDiffers, text_drop, nameFrom_succ]
    by_cases hsame : img.filename index (k : Nat) = fname.char k
    · by_cases hzero : fname.char k = 0 <;> simp [hsame, hzero, ih]
    · by_cases hzero : fname.char k = 0
      · simp [hzero]
      · by_cases hempty : img.filename index (k : Nat) = 0
        · simp [hzero, hempty, Ne.symm hzero]
        · simp [hsame, hzero, hempty, Ne.symm hsame]

/-- Names that are not too long for an entry are compared as a whole. -/
theorem nameDiffers_iff {img : Image} {fname : CStr} (hlen : fname.text.length ≤ 32) (index : Int) :
    nameDiffers img index fname 32 0 = false ↔ fname.text = img.entryName index := by
  have hname : nameFrom img index 0 32 = img.entryName index := by
    rw [nameFrom, Image.entryName, List.range_eq_range']
  rw [nameDiffers_from, List.drop_zero, List.take_of_length_le hlen, hname]

/-- A name that is found is that of its entry. -/
theorem resolved_text {img : Image} {name : CStr} {k : Nat} (h : resolved img name = some k) :
    name.text = img.entryName k :=
  (resolved_eq_some_iff.mp h).2.1

/-- Only the first entry is opened as a directory, and a name that is found is that of the first entry
exactly when it is resolved to it. -/
theorem nameDiffers_first {img : Image} {name : CStr} {k : Nat} (h : resolved img name = some k) :
    nameDiffers img 0 name 32 0 = false ↔ k = 0 := by
  have htext := resolved_text h
  obtain ⟨-, -, -, hfirst⟩ := resolved_eq_some_iff.mp h
  rw [nameDiffers_iff (htext ▸ entryName_length_le img k)]
  constructor
  · intro hzero
    by_contra hk
    exact hfirst 0 (Nat.pos_of_ne_zero hk) hzero
  · rintro rfl
    exact htext

/-! ## What is open afterwards -/

section

variable {img : Image} {name : CStr} {s : FsState} {fd : Int} {k : Nat}

@[simp] theorem took_mainProcess : (s.took img (some name) fd).mainProcess = s.mainProcess :=
  holding_mainProcess ..

@[simp] theorem took_entered : (s.took img (some name) fd).entered = s.took img (some name) fd :=
  entered_eq_self.mpr ((holding_currPcb ..).trans took_mainProcess.symm)

/-- Whatever is opened, the standard output stays what it is. -/
theorem took_stdout (hfd : fd ≠ 1) (hstd : (s.fdt s.mainProcess 1).fOps = .terminal) :
    ((s.took img (some name) fd).fdt (s.took img (some name) fd).mainProcess 1).fOps = .terminal := by
  rw [took_mainProcess, took_fdt_other s img (some name) fun h => hfd h.2.symm]
  exact hstd

theorem failed_mainProcess (filename : Option CStr) :
    (s.failed img filename).mainProcess = s.mainProcess := by
  unfold FsState.failed
  split
  · rfl
  · exact holding_mainProcess ..

/-- The type of a name that is found is that of its entry. -/
theorem getFiletype_of_resolved (hres : resolved img name = some k) (hname : name.text ≠ []) :
    getFiletype img (some name) = img.filetype k := by
  rw [getFiletype_resolved, if_neg hname, hres, Option.map_some, Option.getD_some]

/-- **A file**, if its inode is not in use: it is open at its beginning. -/
theorem open_file (hres : resolved img name = some k) (hname : name.text ≠ [])
    (hstd : StdOpen s s.mainProcess) (hfree : s.freeFd = some fd) (htype : img.filetype k = 2)
    (hunused : ¬ InUse s s.mainProcess (img.inodeNum k)) :
    (systemOpen img (some name)).run accessSem s = (fd, s.took img (some name) fd) ∧
      FileAt img (img.inodeNum k) fd (s.took img (some name) fd) 0 := by
  have hfiletype := (getFiletype_of_resolved hres hname).trans htype
  have hentry : readDentryByName img (some name) = some (img.dentry k) := by
    rw [readDentryByName_resolved, hres]
    rfl
  have hrefused : refused img (some name) s = false := by
    rw [refused_some, hfiletype, hentry]
    exact decide_eq_false hunused
  have htable : openTable img (some name) = some .file := by
    rw [openTable_some, hfiletype]
    rfl
  have hinode : openInode img (some name) = img.inodeNum k := by
    have hfound : openEntry img (some name) = some (img.dentry k) := by
      rw [openEntry_some, hfiletype]
      exact hentry
    rw [openInode, hfound, Option.map_some, Option.getD_some]
    rfl
  have hopen : (s.took img (some name) fd).fdt s.mainProcess fd =
      ⟨.file, img.inodeNum k, 0, 1⟩ := by
    rw [took_fdt_self, occupy, htable, hinode]
    rfl
  have hrange := firstFree_range hfree
  refine ⟨by rw [systemOpen_exact img _ hstd, hrefused, hfree]; rfl, ?_⟩
  exact fileAt_of_fdt (by omega) (by omega) one_ne_zero (by rw [took_mainProcess, hopen])

/-- **The directory**, which is the first entry: the position is what the descriptor had. -/
theorem open_directory (hres : resolved img name = some k) (hname : name.text ≠ [])
    (hstd : StdOpen s s.mainProcess) (hfree : s.freeFd = some fd) (htype : img.filetype k = 1)
    (hfirst : k = 0) {pos : Nat} (hpos : (s.fdt s.mainProcess fd).filePos = pos) :
    (systemOpen img (some name)).run accessSem s = (fd, s.took img (some name) fd) ∧
      (s.took img (some name) fd).fdt s.mainProcess fd = ⟨.dir, img.inodeNum k, pos, 1⟩ := by
  have hfiletype := (getFiletype_of_resolved hres hname).trans htype
  have hsame := (nameDiffers_first hres).mpr hfirst
  have hrefused : refused img (some name) s = false := by
    rw [refused_some, hfiletype]
    exact hsame
  have hinode : openInode img (some name) = img.inodeNum k := by
    have hfound : openEntry img (some name) = some (img.dentry k) := by
      rw [openEntry_some, hfiletype]
      change dirEntry img name = _
      rw [dirEntry, hsame, if_neg Bool.false_ne_true, readDentryByName_resolved, hres]
      rfl
    rw [openInode, hfound, Option.map_some, Option.getD_some]
    rfl
  have htable : openTable img (some name) = some .dir := by
    rw [openTable_some, hfiletype]
    rfl
  refine ⟨by rw [systemOpen_exact img _ hstd, hrefused, hfree]; rfl, ?_⟩
  rw [took_fdt_self, occupy, htable, ← hpos, ← hinode]
  rfl

/-- **The rtc** can always be opened. -/
theorem open_rtc (hres : resolved img name = some k) (hname : name.text ≠ [])
    (hstd : StdOpen s s.mainProcess) (hfree : s.freeFd = some fd) (htype : img.filetype k = 0) :
    (systemOpen img (some name)).run accessSem s = (fd, s.took img (some name) fd) ∧
      RtcAt fd (s.took img (some name) fd) := by
  have hfiletype := (getFiletype_of_resolved hres hname).trans htype
  have hrefused : refused img (some name) s = false := by
    rw [refused_some, hfiletype]
    rfl
  have htable : openTable img (some name) = none := by
    rw [openTable_some, hfiletype]
    rfl
  have hrange := firstFree_range hfree
  refine ⟨by rw [systemOpen_exact img _ hstd, hrefused, hfree]; rfl, ?_, by omega, by omega⟩
  rw [took_mainProcess, took_fdt_self, occupy_fOps, htable]
  rfl

/-- **Nothing** is opened by an open that is refused. -/
theorem open_refused (hstd : StdOpen s s.mainProcess) (hrefused : refused img (some name) s = true) :
    (systemOpen img (some name)).run accessSem s = (-1, s.failed img (some name)) := by
  rw [systemOpen_exact img _ hstd, hrefused]
  rfl

end

/-- The directory that the first open gets. -/
theorem directoryAt_took {img : Image} {name : CStr} {s : FsState} {inode : Int} {pos : Nat}
    (h : (s.took img (some name) 2).fdt s.mainProcess 2 = ⟨.dir, inode, pos, 1⟩) :
    DirectoryAt 2 (s.took img (some name) 2) pos :=
  directoryAt_of_fdt (by omega) (by omega) one_ne_zero (by rw [took_mainProcess, h])

/-! ## A process that begins -/

/-- The descriptors of a process that has just been created, whatever tables its free ones had. -/
structure Fresh (s : FsState) : Prop where
  std : ∀ fd : Int, 0 ≤ fd → fd < 2 → s.fdt s.mainProcess fd = ⟨.terminal, -1, 0, 1⟩
  free : ∀ fd : Int, 2 ≤ fd → fd < 8 → ∃ table, s.fdt s.mainProcess fd = ⟨table, -1, 0, 0⟩

theorem createFds_fresh (p : Int) (s : FsState) : Fresh { createFds p s with mainProcess := p } where
  std _ h0 h2 := createFds_std s p h0 h2
  free _ h2 h8 := ⟨_, createFds_free s p h2 h8⟩

namespace Fresh

variable {s : FsState}

theorem stdOpen (h : Fresh s) : StdOpen s s.mainProcess := by
  constructor
  · simp [h.std 0 (by omega) (by omega)]
  · simp [h.std 1 (by omega) (by omega)]

theorem filePos (h : Fresh s) {fd : Int} (h2 : 2 ≤ fd) (h8 : fd < 8) :
    (s.fdt s.mainProcess fd).filePos = (0 : Nat) := by
  obtain ⟨table, hfree⟩ := h.free fd h2 h8
  rw [hfree]
  rfl

/-- The first open of a process gets descriptor 2. -/
theorem freeFd (h : Fresh s) : s.freeFd = some 2 := by
  obtain ⟨table, htwo⟩ := h.free 2 (by omega) (by omega)
  have hflags : (s.entered.fdt s.entered.currPcb 2).flags = 0 := congrArg Fdt.flags htwo
  rw [FsState.freeFd, firstFree, if_pos hflags]

/-- No inode is in use. -/
theorem unused (h : Fresh s) {inode : Int} (hinode : 0 ≤ inode) : ¬ InUse s s.mainProcess inode := by
  rintro ⟨i, hi, hused, heq⟩
  by_cases hstd : i < 2
  · rw [h.std i (by omega) (by omega)] at heq
    simp only at heq
    omega
  · obtain ⟨table, hfree⟩ := h.free i (by omega) (by omega)
    rw [hfree] at hused
    exact hused rfl

end Fresh

end SrirachOS
