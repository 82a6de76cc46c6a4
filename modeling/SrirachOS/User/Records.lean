import SrirachOS.Calls.ReadBuffer
import SrirachOS.FileSys.Enumeration

/-!
# Reading to the End

A user program reads a descriptor until a read returns 0. What it gets is a sequence of records: pieces
of a file, names of a directory, nothing of the rtc.

- `recordRead_file`, `recordRead_directory`, `recordRead_rtc`: one read, with the state it leaves,
- `Delivers`: the records up to the first read that returns 0,
- `fileAt_delivers`: those of a file are its contents from the position on,
- `directoryAt_delivers`: those of the directory are the names up to the first empty one.
-/

namespace SrirachOS

open Foundation FsProg

/-! ## Positions -/

/-- What a call leaves that moves the position of a descriptor of its caller. -/
def FsState.seek (s : FsState) (fd pos : Int) : FsState :=
  s.entered.modifyFd s.mainProcess fd fun d => { d with filePos := pos }

section

variable (s : FsState) (fd pos : Int)

@[simp] theorem seek_mainProcess : (s.seek fd pos).mainProcess = s.mainProcess := rfl

@[simp] theorem seek_entered : (s.seek fd pos).entered = s.seek fd pos := rfl

@[simp] theorem entered_entered : s.entered.entered = s.entered := rfl

@[simp] theorem seek_fdt_self :
    (s.seek fd pos).fdt s.mainProcess fd = { s.fdt s.mainProcess fd with filePos := pos } := by
  simp [FsState.seek, FsState.entered]

/-- No operation table changes. -/
@[simp] theorem seek_fOps (p i : Int) : ((s.seek fd pos).fdt p i).fOps = (s.fdt p i).fOps := by
  unfold FsState.seek FsState.modifyFd
  dsimp only
  split <;> rfl

theorem seek_fdt_other {p i : Int} (h : ¬ (p = s.mainProcess ∧ i = fd)) :
    (s.seek fd pos).fdt p i = s.fdt p i :=
  modifyFd_of_ne s.entered h

@[simp] theorem seek_seek (pos' : Int) : (s.seek fd pos).seek fd pos' = s.seek fd pos' := by
  simp [FsState.seek, FsState.entered, FsState.modifyFd]
  grind

end

/-- Only the position of the descriptor may change. -/
theorem seek_self {s : FsState} {fd pos : Int} (h : (s.fdt s.mainProcess fd).filePos = pos) :
    s.seek fd pos = s.entered := by
  refine fsState_ext rfl rfl rfl ?_
  funext p i
  by_cases hloc : p = s.mainProcess ∧ i = fd
  · obtain ⟨rfl, rfl⟩ := hloc
    rw [seek_fdt_self, ← h]
    rfl
  · exact seek_fdt_other s fd pos hloc

/-- A state in which at most that position has changed is given by the position. -/
theorem eq_seek {s s' : FsState} {fd pos : Int} (hmoved : s' = s.entered ∨ ∃ p, s' = s.seek fd p)
    (hpos : (s'.fdt s'.currPcb fd).filePos = pos) : s' = s.seek fd pos := by
  rcases hmoved with rfl | ⟨p, rfl⟩
  · exact (seek_self hpos).symm
  · have hfdt : ((s.seek fd p).fdt s.mainProcess fd).filePos = pos := hpos
    rw [seek_fdt_self] at hfdt
    rw [← hfdt]

/-- What closing a file leaves. -/
def FsState.closed (s : FsState) (fd : Int) : FsState :=
  s.entered.modifyFd s.mainProcess fd fun d => { d with filePos := 0, flags := 0 }

@[simp] theorem closed_fdt_self (s : FsState) (fd : Int) :
    (s.closed fd).fdt s.mainProcess fd = { s.fdt s.mainProcess fd with filePos := 0, flags := 0 } := by
  simp [FsState.closed, FsState.entered]

theorem closed_fdt_other (s : FsState) (fd : Int) {p i : Int} (h : ¬ (p = s.mainProcess ∧ i = fd)) :
    (s.closed fd).fdt p i = s.fdt p i :=
  modifyFd_of_ne s.entered h

/-- Where the file was read is forgotten. -/
@[simp] theorem closed_seek (s : FsState) (fd pos : Int) : (s.seek fd pos).closed fd = s.closed fd := by
  simp only [FsState.closed, seek_entered, seek_mainProcess]
  exact modifyFd_modifyFd ..

/-! ## Open descriptors -/

/-- Descriptor `fd` of the running process is a file, open on `inode` and at a position of it. -/
structure FileAt (img : Image) (inode fd : Int) (s : FsState) (pos : Nat) : Prop where
  table : (s.fdt s.mainProcess fd).fOps = .file
  openAt : OpenAt img inode fd s.entered pos

/-- Descriptor `fd` of the running process is the directory, at a position. -/
structure DirectoryAt (fd : Int) (s : FsState) (pos : Nat) : Prop where
  table : (s.fdt s.mainProcess fd).fOps = .dir
  dirAt : DirAt fd s.entered pos

/-- Descriptor `fd` of the running process is an rtc. -/
structure RtcAt (fd : Int) (s : FsState) : Prop where
  table : (s.fdt s.mainProcess fd).fOps = .rtc
  fd_nonneg : 0 ≤ fd
  fd_lt : fd < 8

/-! A descriptor is open when it is occupied. -/

theorem fileAt_of_fdt {img : Image} {inode fd flags : Int} {s : FsState} (h0 : 0 ≤ fd) (h8 : fd < 8)
    (hused : flags ≠ 0) (h : s.fdt s.mainProcess fd = ⟨.file, inode, 0, flags⟩) :
    FileAt img inode fd s 0 := by
  have hentered : s.entered.fdt s.entered.currPcb fd = ⟨.file, inode, 0, flags⟩ := h
  exact ⟨by rw [h], h0, h8, by rw [hentered]; exact hused, by rw [hentered], by rw [hentered]; rfl,
    Nat.zero_le _⟩

theorem directoryAt_of_fdt {inode fd flags : Int} {s : FsState} {pos : Nat} (h0 : 0 ≤ fd) (h8 : fd < 8)
    (hused : flags ≠ 0) (h : s.fdt s.mainProcess fd = ⟨.dir, inode, pos, flags⟩) :
    DirectoryAt fd s pos := by
  have hentered : s.entered.fdt s.entered.currPcb fd = ⟨.dir, inode, pos, flags⟩ := h
  exact ⟨by rw [h], h0, h8, by rw [hentered]; exact hused, by rw [hentered]⟩

/-- `system_read` of a descriptor that is no terminal, with a buffer. -/
def recordRead (img : Image) (fd nbytes : Int) (s : FsState) : Option (ReadResult × FsState) :=
  let result := (systemRead img fd false nbytes).run accessSem s
  match result.1 with
  | .returned res => some (res, result.2)
  | .device .rtc => some (rtcRead, result.2)
  | _ => none

/-- **A file**: the next bytes, as many as there are. -/
theorem recordRead_file {img : Image} {inode fd : Int} (hwf : img.WellFormedFile inode) {s : FsState}
    {pos : Nat} (h : FileAt img inode fd s pos) {n : Nat} :
    let record := ((img.contents inode).drop pos).take n
    recordRead img fd n s = some (⟨record.length, record⟩, s.seek fd (pos + record.length : Nat)) ∧
      FileAt img inode fd (s.seek fd (pos + record.length : Nat)) (pos + record.length) := by
  intro record
  obtain ⟨s', hrun, hpcb, hopen⟩ := fileRead_run hwf h.openAt (Int.natCast_nonneg n)
  have hlength := length_contents img inode hwf.length_nonneg
  have hL := hwf.length_nonneg
  have hrecord : record.length = min n ((img.inodeLength inode).toNat - pos) := by
    simp [record, hlength]
  rw [Int.toNat_natCast, ← hrecord] at hopen
  have hret : min (n : Int) (img.inodeLength inode - pos) = record.length := by
    have := h.openAt.pos_le
    omega
  rw [hret, Int.toNat_natCast] at hrun
  -- the read has moved the position of this descriptor and nothing else
  have hseek : s' = s.seek fd (pos + record.length : Nat) := by
    have heffect := fileRead_effect img h.openAt.fd_nonneg h.openAt.fd_lt n s.entered
    rw [hrun] at heffect
    exact eq_seek (heffect.imp_right fun hmoved => ⟨_, hmoved.2.2.2⟩) hopen.pos_eq
  refine ⟨?_, ?_, ?_⟩
  · rw [recordRead, systemRead_dispatch img h.openAt.fd_nonneg h.openAt.fd_lt, h.table]
    dsimp only
    rw [hrun, hseek]
  · simpa using h.table
  · rw [seek_entered, ← hseek]
    exact hopen

/-- **The directory**: the next name, and nothing behind the last entry. -/
theorem recordRead_directory (img : Image) {fd : Int} {s : FsState} {pos : Nat}
    (h : DirectoryAt fd s pos) (nbytes : Int) :
    recordRead img fd nbytes s = some (dirRecord img pos nbytes, s.seek fd (nextPos img pos)) ∧
      DirectoryAt fd (s.seek fd (nextPos img pos)) (nextPos img pos) := by
  obtain ⟨s', hrun, hpcb, hopen⟩ := dirRead_run img h.dirAt nbytes
  have hseek : s' = s.seek fd (nextPos img pos) := by
    have heffect := dirRead_effect img fd nbytes s.entered
    rw [hrun] at heffect
    exact eq_seek (heffect.imp_right fun hmoved => ⟨_, hmoved.2.2⟩) hopen.pos_eq
  refine ⟨?_, ?_, ?_⟩
  · rw [recordRead, systemRead_dispatch img h.dirAt.fd_nonneg h.dirAt.fd_lt, h.table]
    dsimp only
    rw [hrun, hseek]
  · simpa using h.table
  · rw [seek_entered, ← hseek]
    exact hopen

/-- **The rtc**: nothing. -/
theorem recordRead_rtc (img : Image) {fd : Int} {s : FsState} (h : RtcAt fd s) (nbytes : Int) :
    recordRead img fd nbytes s = some (rtcRead, s.entered) := by
  rw [recordRead, systemRead_dispatch img h.fd_nonneg h.fd_lt, h.table]

/-! ## Records -/

/-- Reads of `nbytes` bytes deliver these records one after the other, and then one returns 0. -/
def Delivers (img : Image) (fd nbytes : Int) : List (List UInt8) → FsState → Prop
  | [], s => ∃ junk p, recordRead img fd nbytes s = some (⟨0, junk⟩, s.seek fd p)
  | record :: records, s => record ≠ [] ∧ ∃ p,
    recordRead img fd nbytes s = some (⟨record.length, record⟩, s.seek fd p) ∧
      Delivers img fd nbytes records (s.seek fd p)

section

variable {img : Image} {fd nbytes : Int} {record : List UInt8} {records : List (List UInt8)}
  {s : FsState}

theorem delivers_nil :
    Delivers img fd nbytes [] s ↔
      ∃ junk p, recordRead img fd nbytes s = some (⟨0, junk⟩, s.seek fd p) :=
  Iff.rfl

theorem delivers_cons :
    Delivers img fd nbytes (record :: records) s ↔ record ≠ [] ∧ ∃ p,
      recordRead img fd nbytes s = some (⟨record.length, record⟩, s.seek fd p) ∧
        Delivers img fd nbytes records (s.seek fd p) :=
  Iff.rfl

end

/-- **The records of a file** are its contents, cut into pieces. -/
theorem fileAt_delivers {img : Image} {inode fd : Int} (hwf : img.WellFormedFile inode) {s : FsState}
    {pos : Nat} (h : FileAt img inode fd s pos) {n : Nat} (hn : 0 < n) :
    ∃ records, records.flatten = (img.contents inode).drop pos ∧ (∀ r ∈ records, r.length ≤ n) ∧
      Delivers img fd n records s := by
  -- by what is left of the file
  induction hleft : (img.contents inode).length - pos using Nat.strong_induction_on
    generalizing s pos with
  | _ left ih =>
    obtain ⟨hread, hnext⟩ := recordRead_file hwf h (n := n)
    generalize hrest : (img.contents inode).drop pos = rest at hread hnext ⊢
    have hlength : rest.length = (img.contents inode).length - pos := by rw [← hrest, List.length_drop]
    by_cases hend : rest = []
    · subst hend
      rw [List.take_nil, List.length_nil] at hread
      exact ⟨[], rfl, by simp, delivers_nil.mpr ⟨[], _, hread⟩⟩
    · have hpos : 0 < rest.length := List.length_pos_iff.mpr hend
      have hrecord : (rest.take n).length = min n rest.length := List.length_take
      obtain ⟨records, hflat, hsizes, hdel⟩ := ih _ (by omega) hnext rfl
      rw [← List.drop_drop, hrest] at hflat
      refine ⟨rest.take n :: records, ?_, ?_, delivers_cons.mpr ⟨?_, _, hread, hdel⟩⟩
      · rw [List.flatten_cons, hflat]
        exact List.prefix_iff_eq_append.mp (List.take_prefix n rest)
      · simpa using hsizes
      · exact List.ne_nil_of_length_pos (by omega)

/-- The names of the directory from an entry on, up to the first that is empty. -/
def Image.listed (img : Image) (pos : Nat) : List (List UInt8) :=
  ((List.range' pos (img.dirCount.toNat - pos)).map fun k : Nat => img.entryName k).takeWhile (· ≠ [])

theorem listed_end {img : Image} {pos : Nat} (h : img.dirCount ≤ pos) : img.listed pos = [] := by
  have hnone : img.dirCount.toNat - pos = 0 := by omega
  simp [Image.listed, hnone]

theorem listed_next {img : Image} {pos : Nat} (h : pos < img.dirCount) :
    img.listed pos = if img.entryName pos = [] then [] else img.entryName pos :: img.listed (pos + 1) := by
  obtain ⟨k, hk⟩ : ∃ k, img.dirCount.toNat - pos = k + 1 := ⟨img.dirCount.toNat - pos - 1, by omega⟩
  have hk' : img.dirCount.toNat - (pos + 1) = k := by omega
  rw [Image.listed, hk, List.range'_succ, List.map_cons, List.takeWhile_cons, Image.listed, hk']
  by_cases hname : img.entryName pos = [] <;> simp [hname]

/-- Every name that is listed is that of an entry. -/
theorem exists_of_mem_listed {img : Image} {pos : Nat} {name : List UInt8} (h : name ∈ img.listed pos) :
    ∃ k, name = img.entryName k := by
  obtain ⟨k, -, rfl⟩ := List.mem_map.mp ((List.takeWhile_sublist _).subset h)
  exact ⟨k, rfl⟩

/-- A request for at least 32 bytes gets the whole name. -/
theorem dirRecord_whole (img : Image) {pos : Int} (hpos : pos < img.dirCount) {n : Nat} (hn : 32 ≤ n)
    (hmax : (n : Int) < 4294967296) :
    dirRecord img pos n = ⟨(img.entryName pos).length, img.entryName pos⟩ := by
  have hname := (entryName_length_le img pos).trans hn
  rw [dirRecord_take img hpos (Int.natCast_nonneg n) hmax, min_eq_left (Int.ofNat_le.mpr hname),
    Int.toNat_natCast, List.take_of_length_le hname]

/-- **The records of the directory** are the names, if what is asked for is enough for a name. -/
theorem directoryAt_delivers (img : Image) {fd : Int} {s : FsState} {pos : Nat}
    (h : DirectoryAt fd s pos) {n : Nat} (hn : 32 ≤ n) (hmax : (n : Int) < 4294967296) :
    Delivers img fd n (img.listed pos) s := by
  induction hleft : img.dirCount.toNat - pos generalizing s pos with
  | zero =>
    obtain ⟨hread, -⟩ := recordRead_directory img h n
    have hend : ¬ (pos : Int) < img.dirCount := by omega
    rw [dirRecord, if_neg hend] at hread
    rw [listed_end (by omega)]
    exact delivers_nil.mpr ⟨_, _, hread⟩
  | succ left ih =>
    obtain ⟨hread, hnext⟩ := recordRead_directory img h n
    have hlt : (pos : Int) < img.dirCount := by omega
    rw [dirRecord_whole img hlt hn hmax] at hread
    rw [nextPos, if_pos hlt] at hread hnext
    rw [listed_next hlt]
    by_cases hempty : img.entryName pos = []
    · rw [if_pos hempty]
      rw [hempty] at hread
      exact delivers_nil.mpr ⟨_, _, hread⟩
    · rw [if_neg hempty]
      exact delivers_cons.mpr ⟨hempty, _, hread, ih hnext (by omega)⟩

/-- The rtc has no records. -/
theorem rtcAt_delivers (img : Image) {fd : Int} {s : FsState} (h : RtcAt fd s) (n : Nat) :
    Delivers img fd n [] s := by
  refine delivers_nil.mpr ⟨[], (s.fdt s.mainProcess fd).filePos, ?_⟩
  rw [recordRead_rtc img h, seek_self rfl]
  rfl

end SrirachOS
