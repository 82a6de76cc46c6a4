import SrirachOS.FileSys.Names
import SrirachOS.Kernel.Arguments

/-!
# Which Programs Are Started

Execute looks at the file that a command names through three calls of `read_data`, whose results it
ignores: four bytes for the magic number, four for the entry point, and the rest for the load. What a
call does not deliver is whatever the buffer held before.

- `IsProgram`: what a directory entry has to be for its file to be executed,
- `headerBytes_eq`, `loadedBytes_long`: what the three reads deliver, for every inode,
- `only_programs_iff`: so execute starts nothing but programs exactly for these entries,
- `refused_execute_iff`: what an execute that starts nothing leaves behind.
-/

namespace SrirachOS

open Foundation

namespace Kernel

/-! ## Programs in an image -/

/-- The first of the 63 entries that has this name. -/
structure NamesEntry (img : Image) (word : CStr) (index : Nat) : Prop where
  lt : index < 63
  name : word = img.entryName index
  first : ∀ j : Nat, j < index → word ≠ img.entryName j

/-- `n` bytes of a file from `offset` on. -/
def fileBytes (img : Image) (inode : Int) (offset n : Nat) : List UInt8 :=
  (List.range n).map fun k => img.fileByte inode (offset + k)

theorem length_fileBytes (img : Image) (inode : Int) (offset n : Nat) :
    (fileBytes img inode offset n).length = n := by
  simp [fileBytes]

/-- The entry is that of a program with this entry point: a regular file with the whole header, the
magic number at its beginning, and not longer than what is left of the page behind the load
address. -/
structure IsProgram (img : Image) (index : Nat) (entry : Int) : Prop where
  regular : img.filetype index = 2
  header : 28 ≤ img.inodeLength (u32 (img.inodeNum index))
  magic : fileBytes img (u32 (img.inodeNum index)) 0 4 = [0x7f, 0x45, 0x4c, 0x46]
  entry : entry = entryPointOf (fileBytes img (u32 (img.inodeNum index)) 24 4)
  fits : img.inodeLength (u32 (img.inodeNum index)) ≤ programRoom

/-- `read_data` accepts the inode and its first `n` blocks. -/
def Reads (img : Image) (inode : Int) (n : Nat) : Prop :=
  inode ≤ u32 img.inodeCount ∧ ∀ i : Nat, i < n → ¬ BadBlock img inode i

instance (img : Image) (inode : Int) (n : Nat) : Decidable (Reads img inode n) :=
  inferInstanceAs (Decidable (_ ∧ _))

/-- What the buffers held before happens to be what they should be filled with. -/
def JunkAgrees (img : Image) (inode : Int) (junk : Nat → UInt8) : Prop :=
  (List.range 4).map junk = fileBytes img inode 0 4 ∧
    ((List.range 4).map fun k => junk (4 + k)) = fileBytes img inode 24 4

instance (img : Image) (inode : Int) (junk : Nat → UInt8) : Decidable (JunkAgrees img inode junk) :=
  inferInstanceAs (Decidable (_ ∧ _))

/-- What execute leaves unchecked holds of the entry anyhow: it is a regular file with the whole
header, its first block is read or does not matter, and if it is too long, then the read of it goes
on up to the end of the page. -/
structure Checked (img : Image) (index : Nat) (junk : Nat → UInt8) : Prop where
  regular : img.filetype index = 2
  header : 28 ≤ img.inodeLength (u32 (img.inodeNum index))
  reads : Reads img (u32 (img.inodeNum index)) 1 ∨ JunkAgrees img (u32 (img.inodeNum index)) junk
  loads : img.inodeLength (u32 (img.inodeNum index)) ≤ programRoom ∨
    Reads img (u32 (img.inodeNum index)) (programRoom / 4096 + 1)

/-! ## The reads -/

/-- What a read stores, for any inode: everything in front of the first block that is refused. -/
theorem readData_buf (img : Image) {inode : Int} (hinode : inode ≤ u32 img.inodeCount)
    {offset length d : Nat} (hclamp : clampLength (img.inodeLength inode) offset length = d)
    (hd : 0 < d) (hoffset : i32 (offset : Int) = offset) :
    let blocks := (blocksNeeded d offset).toNat
    (readData img inode offset length).buf =
      (progress img inode offset d ((firstBad img inode blocks 0).getD blocks)).buf := by
  intro blocks
  have hstart : (⟨d, 0, offset, []⟩ : ReadState) = progress img inode offset d 0 := by
    simp [progress]
  unfold readData
  rw [if_neg (by omega), hclamp, hoffset]
  dsimp only
  rw [hstart, blockLoop_ends img inode hd]
  cases firstBad img inode blocks 0 with
  | some j => rfl
  | none => exact congrArg (fun n => (progress img inode offset d n).buf) (Nat.zero_add _)

/-- The two short reads lie within the first block of a file that has the whole header. -/
theorem headerBytes_eq (img : Image) {inode : Int} (hlen : 28 ≤ img.inodeLength inode)
    {offset : Nat} (hoffset : offset ≤ 24) :
    (readData img inode offset (4 : Nat)).buf =
      if Reads img inode 1 then fileBytes img inode offset 4 else [] := by
  have hmax : img.inodeLength inode < 2147483648 := img.word_lt _
  by_cases hinode : inode ≤ u32 img.inodeCount
  · have hclamp : clampLength (img.inodeLength inode) offset (4 : Nat) = (4 : Nat) := by
      unfold clampLength
      rw [u32_of_fits (by omega) (by omega), u32_of_fits (by omega) (by omega), if_neg (by omega)]
      exact i32_of_fits (by omega) (by omega)
    have hblocks : (blocksNeeded (4 : Nat) offset).toNat = 1 := by
      have hfits : u32 (((4 : Nat) : Int) + offset) = 4 + offset :=
        u32_of_fits (by omega) (by omega)
      unfold blocksNeeded
      rw [hfits]
      split <;> omega
    rw [readData_buf img hinode hclamp (by omega) (i32_of_fits (by omega) (by omega)), hblocks]
    by_cases hbad : BadBlock img inode (0 : Nat)
    · have hreads : ¬ Reads img inode 1 := fun h => h.2 0 (by omega) hbad
      rw [if_neg hreads, firstBad, if_pos hbad]
      simp [progress]
    · have hreads : Reads img inode 1 := ⟨hinode, fun i hi => by
        have hi0 : i = 0 := by omega
        rw [hi0]
        exact hbad⟩
      have hmin : min 4 (4096 * 1 - offset) = 4 := by omega
      rw [if_pos hreads, firstBad, if_neg hbad, firstBad]
      simp only [Option.getD_none, progress, hmin, fileBytes]
  · have hreads : ¬ Reads img inode 1 := fun h => hinode h.1
    rw [if_neg hreads, readData, if_pos (by omega)]

/-- How the read of a whole file ends. It asks for 8 MB. -/
theorem readData_load (img : Image) {inode : Int} (hinode : inode ≤ u32 img.inodeCount) :
    let size := min (u32 (img.inodeLength inode)).toNat 0x800000
    readData img inode 0 0x800000 =
      match firstBad img inode ((size + 4095) / 4096) 0 with
      | some j => ⟨-1, fileBytes img inode 0 (min size (4096 * j))⟩
      | none => ⟨size, fileBytes img inode 0 size⟩ := by
  intro size
  have hsize : size = min (u32 (img.inodeLength inode)).toNat 0x800000 := rfl
  clear_value size
  have hmin : -2147483648 ≤ img.inodeLength inode := img.word_ge _
  have hmax : img.inodeLength inode < 2147483648 := img.word_lt _
  -- a negative length is a large one
  have hclamp : clampLength (img.inodeLength inode) 0 0x800000 = size := by
    have hasked : u32 (0 + 0x800000) = 0x800000 := u32_of_fits (by decide) (by decide)
    unfold clampLength
    rw [hasked]
    split
    · rw [i32_of_fits (by omega) (by omega)]
      unfold u32 at *
      omega
    · rw [i32_of_fits (by decide) (by decide)]
      omega
  have hblocks : (blocksNeeded size 0).toNat = (size + 4095) / 4096 := by
    have hfits : u32 ((size : Int) + 0) = size := by
      rw [Int.add_zero]
      exact u32_of_fits (by omega) (by omega)
    unfold blocksNeeded
    rw [hfits]
    split <;> omega
  have hzero : i32 0 = 0 := i32_of_fits (by omega) (by omega)
  unfold readData
  rw [if_neg (by omega), hclamp, hzero]
  dsimp only
  rw [hblocks]
  by_cases hempty : size = 0
  · rw [hempty]
    rfl
  · have hstart : (⟨size, 0, 0, []⟩ : ReadState) = progress img inode 0 size 0 := by
      simp [progress]
    rw [hstart, blockLoop_ends img inode (by omega)]
    cases firstBad img inode ((size + 4095) / 4096) 0 with
    | some j => rfl
    | none =>
      -- the blocks cover the file
      have hall : min size (4096 * (0 + (size + 4095) / 4096) - 0) = size := by omega
      simp only [progress, hall, fileBytes]

/-- A file that is too long is read over the end of the page, unless the read is cut off before. -/
theorem loadedBytes_long (img : Image) {inode : Int} (hlen : programRoom < img.inodeLength inode)
    (hreads : Reads img inode (programRoom / 4096 + 1)) :
    programRoom < (readData img inode 0 0x800000).buf.length := by
  have hmax : img.inodeLength inode < 2147483648 := img.word_lt _
  have hroom : programRoom = 952 * 4096 := rfl
  have hlength : u32 (img.inodeLength inode) = img.inodeLength inode :=
    u32_of_fits (by omega) (by omega)
  rw [readData_load img hreads.1, hlength]
  cases hbad : firstBad img inode
      ((min (img.inodeLength inode).toNat 0x800000 + 4095) / 4096) 0 with
  | some j =>
    -- the blocks in front of the first that is refused are more than fit
    obtain ⟨-, -, hj⟩ := firstBad_eq_some hbad
    have hbehind : programRoom / 4096 + 1 ≤ j := by
      by_contra hlt
      exact hreads.2 j (by omega) hj
    simp only [length_fileBytes]
    omega
  | none =>
    simp only [length_fileBytes]
    omega

/-! ## What execute makes of them -/

/-- An execute that creates a process has found the magic number and a program that fits. -/
theorem systemExecute_program {img : Image} {command : CStr} {junk : Nat → UInt8} {caller : Caller}
    {k k' : Kernel} (h : systemExecute img command junk caller k = .entered k') :
    ∃ prog, findProgram img (parseCommand command).1 junk = some prog ∧
      prog.bytes.length ≤ programRoom ∧ k'.entryPoint = prog.entry := by
  unfold systemExecute at h
  split at h
  swap
  · cases h
  unfold executeFile at h
  split at h
  · cases h
  · rename_i prog hprog
    split at h
    · cases h
    · split at h
      · cases h
      · rename_i hlen
        refine ⟨prog, hprog, by omega, ?_⟩
        injection h with hk'
        rw [← hk']
        rfl

/-- A word is a name without zeros. -/
theorem parseCommand_word (command : CStr) :
    (parseCommand command).1.text = (parseCommand command).1 := by
  refine CStr.text_of_nonzero fun b hb => ?_
  have htext : b ∈ commandText command :=
    (List.dropWhile_sublist _).mem ((List.takeWhile_sublist _).mem hb)
  simpa using List.mem_takeWhile_imp htext

/-- A word names at most one entry. -/
theorem NamesEntry.unique {img : Image} {word : CStr} {i j : Nat} (hi : NamesEntry img word i)
    (hj : NamesEntry img word j) : i = j := by
  have hij : ¬ i < j := fun hlt => hj.first i hlt hi.name
  have hji : ¬ j < i := fun hlt => hi.first j hlt hj.name
  omega

/-- The buffer behind a read that may have delivered nothing. -/
theorem fillBuffer_read (p : Prop) [Decidable p] {bytes : List UInt8} (hlen : bytes.length = 4)
    (junk : Nat → UInt8) :
    fillBuffer (if p then bytes else []) junk = if p then bytes else (List.range 4).map junk := by
  split
  · obtain ⟨a, b, c, d, rfl⟩ : ∃ a b c d, bytes = [a, b, c, d] := by
      match bytes, hlen with
      | [a, b, c, d], _ => exact ⟨a, b, c, d, rfl⟩
    rfl
  · rfl

theorem entryPointOf_inj {xs ys : List UInt8} (hx : xs.length = 4) (hy : ys.length = 4)
    (h : entryPointOf xs = entryPointOf ys) : xs = ys := by
  match xs, hx, ys, hy with
  | [a, b, c, d], _, [a', b', c', d'], _ =>
    simp only [entryPointOf, List.getD_cons_zero, List.getD_cons_succ] at h
    have := a.toNat_lt; have := b.toNat_lt; have := c.toNat_lt; have := d.toNat_lt
    have := a'.toNat_lt; have := b'.toNat_lt; have := c'.toNat_lt; have := d'.toNat_lt
    have ha : a = a' := UInt8.toNat_inj.mp (by omega)
    have hb : b = b' := UInt8.toNat_inj.mp (by omega)
    have hc : c = c' := UInt8.toNat_inj.mp (by omega)
    have hd : d = d' := UInt8.toNat_inj.mp (by omega)
    rw [ha, hb, hc, hd]

/-- **One entry**: when its file passes the checks of execute, it is a program exactly when what the
checks leave out holds anyhow. -/
theorem isProgram_iff {img : Image} {index : Nat} {junk : Nat → UInt8} {entry : Int}
    (hmagic : fillBuffer (readData img (u32 (img.inodeNum index)) 0 4).buf junk =
      [0x7f, 0x45, 0x4c, 0x46])
    (hentry : entry = entryPointOf
      (fillBuffer (readData img (u32 (img.inodeNum index)) 24 4).buf fun k => junk (4 + k)))
    (hload : (readData img (u32 (img.inodeNum index)) 0 0x800000).buf.length ≤ programRoom) :
    IsProgram img index entry ↔ Checked img index junk := by
  generalize hinode : u32 (img.inodeNum index) = inode at hmagic hentry hload
  -- what the two short reads leave in their buffers
  have hbuffers (hlen : 28 ≤ img.inodeLength inode) :
      (if Reads img inode 1 then fileBytes img inode 0 4 else (List.range 4).map junk) =
        [0x7f, 0x45, 0x4c, 0x46] ∧
      entry = entryPointOf (if Reads img inode 1 then fileBytes img inode 24 4
        else (List.range 4).map fun k => junk (4 + k)) := by
    have hbuf := headerBytes_eq img hlen (Nat.zero_le 24)
    have hsave := headerBytes_eq img hlen (le_refl 24)
    simp only [Int.cast_ofNat_Int] at hbuf hsave
    rw [hbuf, fillBuffer_read _ (length_fileBytes ..)] at hmagic
    rw [hsave, fillBuffer_read _ (length_fileBytes ..)] at hentry
    exact ⟨hmagic, hentry⟩
  constructor
  · rintro ⟨hregular, hheader, hfile, hpoint, hfits⟩
    rw [hinode] at hheader hfile hpoint hfits
    obtain ⟨hbuf, hsave⟩ := hbuffers hheader
    refine ⟨hregular, hinode ▸ hheader, ?_, hinode ▸ Or.inl hfits⟩
    rw [hinode]
    by_cases hreads : Reads img inode 1
    · exact Or.inl hreads
    · -- nothing has been read, so that the buffers decide
      rw [if_neg hreads] at hbuf hsave
      have hpoints : entryPointOf ((List.range 4).map fun k => junk (4 + k)) =
          entryPointOf (fileBytes img inode 24 4) := hsave.symm.trans hpoint
      exact Or.inr ⟨hbuf.trans hfile.symm,
        entryPointOf_inj (by simp) (length_fileBytes ..) hpoints⟩
  · rintro ⟨hregular, hheader, hread, hloads⟩
    rw [hinode] at hheader hread hloads
    obtain ⟨hbuf, hsave⟩ := hbuffers hheader
    -- a longer file that can be read would not have passed the check of what is loaded
    have hfits : img.inodeLength inode ≤ programRoom := by
      rcases hloads with hfits | hreads
      · exact hfits
      · by_contra hlong
        have hover := loadedBytes_long img (by omega) hreads
        omega
    have hfile : fileBytes img inode 0 4 = [0x7f, 0x45, 0x4c, 0x46] ∧
        entry = entryPointOf (fileBytes img inode 24 4) := by
      by_cases hreads : Reads img inode 1
      · rw [if_pos hreads] at hbuf hsave
        exact ⟨hbuf, hsave⟩
      · obtain ⟨hfst, hsnd⟩ := hread.resolve_left hreads
        rw [if_neg hreads] at hbuf hsave
        exact ⟨hfst.symm.trans hbuf, by rw [hsave, hsnd]⟩
    rw [← hinode] at hheader hfile hfits
    exact ⟨hregular, hheader, hfile.1, hfile.2, hfits⟩

/-- What execute has found of a program, and where. -/
theorem findProgram_eq_some {img : Image} {word : CStr} {junk : Nat → UInt8} {prog : Program}
    (hword : word.text = word) (h : findProgram img word junk = some prog) :
    ∃ index, NamesEntry img word index ∧
      fillBuffer (readData img (u32 (img.inodeNum index)) 0 4).buf junk = [0x7f, 0x45, 0x4c, 0x46] ∧
      prog.bytes = (readData img (u32 (img.inodeNum index)) 0 0x800000).buf ∧
      prog.entry = entryPointOf
        (fillBuffer (readData img (u32 (img.inodeNum index)) 24 4).buf fun k => junk (4 + k)) := by
  have hdentry := readDentryByName_resolved img word
  unfold findProgram at h
  split at h
  · cases h
  · next test htest =>
    rw [htest] at hdentry
    obtain ⟨index, hres, htestEq⟩ := Option.map_eq_some_iff.mp hdentry.symm
    obtain ⟨hlt, hname, -, hfirst⟩ := resolved_eq_some_iff.mp hres
    rw [hword] at hname hfirst
    have hinode : test.inodeNum = img.inodeNum index := by rw [← htestEq]; rfl
    rw [hinode] at h
    dsimp only at h
    split at h
    · cases h
    · next hmagic =>
      obtain ⟨bytes, entry⟩ := prog
      simp only [Option.some.injEq, Program.mk.injEq] at h
      exact ⟨index, ⟨hlt, hname, hfirst⟩, not_not.mp hmagic, h.1.symm, h.2.symm⟩

/-- Buffers that hold a magic number. -/
def magicJunk : Nat → UInt8 := fun k => [0x7f, 0x45, 0x4c, 0x46].getD k 0

/-- What a refused execute has to be like: it returns -1, and the tables, the mapping and what
`getargs` answers are as before. -/
structure Refusal (ret : Int) (k k' : Kernel) : Prop where
  ret : ret = -1
  processNum : k'.processNum = k.processNum
  pcb : k'.pcb = k.pcb
  currTask : k'.currTask = k.currTask
  mainProcess : k'.mainProcess = k.mainProcess
  paging : k'.paging = k.paging
  getargs : ∀ (bufNull : Bool) (nbytes : Int),
    k'.systemGetargs bufNull nbytes = k.systemGetargs bufNull nbytes

/-- No process has been started: execute has returned, or it has run over what it needs to. -/
def ExecResult.Refused : ExecResult → Prop
  | .returned _ _ | .overran _ => True
  | .entered _ | .faulted _ => False

/-- The outcome is a refusal as it has to be. -/
def ExecResult.Harmless (k : Kernel) : ExecResult → Prop
  | .returned ret k' => Refusal ret k k'
  | .entered _ | .faulted _ | .overran _ => False

/-- An unknown name, or no program. -/
theorem executeFile_unknown {img : Image} {word : CStr} {junk : Nat → UInt8}
    (hprog : findProgram img word junk = none) (caller : Caller) (k : Kernel) :
    executeFile img word junk caller k = .returned (-1) k := by
  unfold executeFile
  rw [hprog]

/-- No slot. -/
theorem executeFile_full {img : Image} {word : CStr} {junk : Nat → UInt8} {k : Kernel}
    (hprog : findProgram img word junk ≠ none) (hslot : k.findSlot 6 0 = none) (caller : Caller) :
    executeFile img word junk caller k = .returned 0 k := by
  obtain ⟨prog, hprog⟩ := Option.ne_none_iff_exists'.mp hprog
  unfold executeFile
  rw [hprog]
  dsimp only
  rw [hslot]

/-- The three ways of a refusal: only the first two return -1. -/
theorem executeFile_returned {img : Image} {word : CStr} {junk : Nat → UInt8} {caller : Caller}
    {k k' : Kernel} {ret : Int} (h : executeFile img word junk caller k = .returned ret k') :
    k' = k ∧ (ret = -1 ↔ findProgram img word junk = none) := by
  by_cases hprog : findProgram img word junk = none
  · rw [executeFile_unknown hprog caller k] at h
    injection h with hret hk
    exact ⟨hk.symm, iff_of_true hret.symm hprog⟩
  · cases hslot : k.findSlot 6 0 with
    | none =>
      rw [executeFile_full hprog hslot caller] at h
      injection h with hret hk
      exact ⟨hk.symm, iff_of_false (by omega) hprog⟩
    | some i =>
      -- with a program and a slot execute does not return
      obtain ⟨prog, hprog⟩ := Option.ne_none_iff_exists'.mp hprog
      unfold executeFile at h
      rw [hprog] at h
      dsimp only at h
      rw [hslot] at h
      dsimp only at h
      split at h <;> cases h

/-- Of a refused execute the rewritten argument text is left, and what may lie behind it. -/
theorem systemExecute_returned {img : Image} {command : CStr} {junk : Nat → UInt8} {caller : Caller}
    {k k' : Kernel} {ret : Int} (h : systemExecute img command junk caller k = .returned ret k') :
    k' = k.storeArgs (parseCommand command).2 ∧
      (ret = -1 ↔ findProgram img (parseCommand command).1 junk = none) := by
  unfold systemExecute at h
  split at h
  · exact executeFile_returned h
  · cases h

/-- An argument text that does not fit fills the buffer, and `getargs` answers at least as much. -/
theorem length_argText_storeArgs {args : CStr} (hlong : 128 ≤ args.length) (k : Kernel) :
    128 ≤ (k.storeArgs args).argText.length := by
  have hfull : (k.storeArgs args).argBuf.length = 128 := by
    rw [storeArgs, if_neg (by omega)]
    exact List.length_take_of_le hlong
  rw [argText, if_neg (by omega), List.length_append, hfull]
  omega

/-- **A refused execute**: in every state with a terminated text in `arg_buf` and for every command, an
execute that starts no process is a refusal as it has to be exactly when the command fits into the
arrays of the parser, its word is unknown or not the name of a program, and its argument text is the one
that `getargs` answers already. -/
theorem refused_execute_iff (img : Image) (command : CStr) (junk : Nat → UInt8) (caller : Caller)
    (k : Kernel) (hbuf : k.argBuf.length < 128)
    (hrefused : (systemExecute img command junk caller k).Refused) :
    (systemExecute img command junk caller k).Harmless k ↔
      CommandFits command ∧ findProgram img (parseCommand command).1 junk = none ∧
        (parseCommand command).2 = k.argBuf := by
  have htext := argText_of_lt hbuf
  cases hresult : systemExecute img command junk caller k with
  | entered k' => rw [hresult] at hrefused; exact hrefused.elim
  | faulted k' => rw [hresult] at hrefused; exact hrefused.elim
  | overran k' =>
    -- a command that fits does not overrun
    refine iff_of_false not_false ?_
    rintro ⟨hfits, hprog, -⟩
    rw [systemExecute_of_fits hfits, executeFile_unknown hprog] at hresult
    cases hresult
  | returned ret k' =>
    obtain ⟨rfl, hret⟩ := systemExecute_returned hresult
    have hword : (parseCommand command).1.length < 128 := by
      by_contra hlong
      rw [systemExecute, if_neg fun hfollowed => hlong hfollowed.1] at hresult
      cases hresult
    constructor
    · intro h
      -- one byte is enough to tell an empty text from another
      have hreply := h.getargs false 1
      rw [systemGetargs_eq (by decide), systemGetargs_eq (by decide), argsReply_inj, htext] at hreply
      have hargs : (parseCommand command).2.length < 128 := by
        by_contra hlong
        have := length_argText_storeArgs (Nat.not_lt.mp hlong) k
        rw [hreply] at this
        omega
      rw [storeArgs, if_pos hargs] at hreply
      exact ⟨⟨hword, hargs⟩, hret.mp h.ret, (if_pos hargs).symm.trans hreply⟩
    · rintro ⟨hfits, hprog, hargs⟩
      have hsame : k.storeArgs (parseCommand command).2 = k := by
        rw [storeArgs, if_pos hfits.2, hargs]
      rw [hsame]
      exact ⟨hret.mpr hprog, rfl, rfl, rfl, rfl, rfl, fun _ _ => rfl⟩

/-- An unknown name without an argument, for a shell that has none. -/
theorem refused_execute_iff_sample :
    (systemExecute sampleImage [120] noJunk .syscall
      (boot sampleImage sampleTable noJunk (sampleKernel fun _ => 0))).Harmless
      (boot sampleImage sampleTable noJunk (sampleKernel fun _ => 0)) := by
  have hunknown : findProgram sampleImage (parseCommand [120]).1 noJunk = none :=
    Option.isNone_iff_eq_none.mp (by decide +kernel)
  have hbuf := @argBuf_length_fromBoot sampleImage sampleTable noJunk (sampleKernel fun _ => 0) [] nofun
  refine (refused_execute_iff sampleImage [120] noJunk .syscall _ hbuf ?_).mpr
    ⟨by decide, hunknown, by decide +kernel⟩
  rw [systemExecute_of_fits (by decide), executeFile_unknown hunknown]
  trivial

/-- `x y`, which names nothing, gives the shell an argument; and the fifth process on the first
terminal is refused with 0. -/
theorem refusals_noticed :
    (let k := boot sampleImage sampleTable noJunk (sampleKernel fun _ => 0)
      ∃ k', systemExecute sampleImage [120, 32, 121] noJunk .syscall k = .returned (-1) k' ∧
        k.systemGetargs false 128 = none ∧ k'.systemGetargs false 128 = some [121]) ∧
    let k := run (step sampleImage sampleTable) (boot sampleImage sampleTable noJunk
      (sampleKernel fun _ => 0)) [.execute shell noJunk, .execute shell noJunk, .execute shell noJunk]
    ∃ k', systemExecute sampleImage shell noJunk .syscall k = .returned 0 k' := by
  constructor
  · have hunknown : findProgram sampleImage (parseCommand [120, 32, 121]).1 noJunk = none :=
      Option.isNone_iff_eq_none.mp (by decide +kernel)
    intro k
    refine ⟨{ k with argBuf := [121] }, ?_, by decide +kernel, by decide +kernel⟩
    rw [systemExecute_of_fits (by decide), executeFile_unknown hunknown]
    rfl
  · intro k
    refine ⟨{ k with argBuf := (parseCommand shell).2 }, ?_⟩
    rw [systemExecute_of_fits commandFits_shell]
    refine executeFile_full ?_ (by decide +kernel) _
    obtain ⟨prog, hprog, -⟩ := shellStarts_sampleImage noJunk
    rw [hprog]
    exact Option.some_ne_none prog

end Kernel

end SrirachOS
