import SrirachOS.Foundation.Resumption
import SrirachOS.FileSys.Lookup
import SrirachOS.FileSys.ReadData

/-!
# The File Layer

The open, read and close functions of `filesys.c` and the system calls of `syscall.c` above
them, as programs over atomic accesses to the kernel's memory: the descriptor tables, and the
globals `curr_pcb` and `cur_dentry` through which the file layer works. The image itself is
never written, so reading it is no access.

`accessSem` gives each access its meaning; `Prog.run accessSem` runs a call alone.

A process is named by its slot: `curr_pcb` and `main_process` hold slots, and
`&process->fdt[fd]` is the location `(slot, fd)`. An index outside 0..7 is the memory next
to the table.
-/

namespace SrirachOS

open Foundation

/-! ## State and accesses -/

/-- The operation tables that `f_ops` can point to. -/
inductive FOps where
  /-- never set: the pointer is what the memory held -/
  | unset
  | file
  | dir
  | rtc
  | terminal
  deriving DecidableEq

/-- `fdt_t`. -/
structure Fdt where
  fOps : FOps
  inodeNum : Int
  filePos : Int
  flags : Int
  deriving DecidableEq

/-- The memory that the file layer works on. -/
structure FsState where
  /-- `main_process` -/
  mainProcess : Int
  /-- `curr_pcb` -/
  currPcb : Int
  /-- `cur_dentry` -/
  curDentry : Dentry
  /-- `fdt` of each process -/
  fdt : Int → Int → Fdt

/-- One access. -/
inductive Access where
  | getMainProcess
  | setCurrPcb (pcb : Int)
  | getCurrPcb
  | getFd (pcb fd : Int)
  | setFOps (pcb fd : Int) (fOps : FOps)
  | setInodeNum (pcb fd value : Int)
  | setFilePos (pcb fd value : Int)
  | setFlags (pcb fd value : Int)
  | setDentryName (i : Nat) (value : UInt8)
  | setDentryFiletype (value : Int)
  | setDentryInodeNum (value : Int)
  | getDentryFiletype
  | getDentryInodeNum
  deriving DecidableEq

/-- What an access answers. -/
@[reducible] def Access.Answer : Access → Type
  | getMainProcess | getCurrPcb | getDentryFiletype | getDentryInodeNum => Int
  | getFd .. => Fdt
  | _ => Unit

/-- A program of the file layer. -/
abbrev FsProg := Prog Access Access.Answer

/-- `process->fdt[fd]`, changed by `f`. -/
def FsState.modifyFd (s : FsState) (pcb fd : Int) (f : Fdt → Fdt) : FsState :=
  { s with fdt := fun p i => if p = pcb ∧ i = fd then f (s.fdt p i) else s.fdt p i }

/-- The meaning of each access. -/
def accessSem : (a : Access) → FsState → a.Answer × FsState
  | .getMainProcess, s => (s.mainProcess, s)
  | .setCurrPcb pcb, s => ((), { s with currPcb := pcb })
  | .getCurrPcb, s => (s.currPcb, s)
  | .getFd pcb fd, s => (s.fdt pcb fd, s)
  | .setFOps pcb fd fOps, s => ((), s.modifyFd pcb fd fun d => { d with fOps })
  | .setInodeNum pcb fd v, s => ((), s.modifyFd pcb fd fun d => { d with inodeNum := v })
  | .setFilePos pcb fd v, s => ((), s.modifyFd pcb fd fun d => { d with filePos := v })
  | .setFlags pcb fd v, s => ((), s.modifyFd pcb fd fun d => { d with flags := v })
  | .setDentryName i v, s =>
    ((), { s with curDentry := { s.curDentry with
      filename := Function.update s.curDentry.filename i v } })
  | .setDentryFiletype v, s => ((), { s with curDentry := { s.curDentry with filetype := v } })
  | .setDentryInodeNum v, s => ((), { s with curDentry := { s.curDentry with inodeNum := v } })
  | .getDentryFiletype, s => (s.curDentry.filetype, s)
  | .getDentryInodeNum, s => (s.curDentry.inodeNum, s)

/-! ## Single accesses as programs -/

namespace FsProg

abbrev mainProcess : FsProg Int := .op .getMainProcess .ret

abbrev currPcb : FsProg Int := .op .getCurrPcb .ret

abbrev setCurrPcb (pcb : Int) : FsProg Unit := .op (.setCurrPcb pcb) .ret

/-- `pcb->fdt[fd]`. -/
abbrev fdOf (pcb fd : Int) : FsProg Fdt := .op (.getFd pcb fd) .ret

abbrev setFOps (pcb fd : Int) (fOps : FOps) : FsProg Unit := .op (.setFOps pcb fd fOps) .ret

abbrev setInodeNum (pcb fd value : Int) : FsProg Unit := .op (.setInodeNum pcb fd value) .ret

abbrev setFilePos (pcb fd value : Int) : FsProg Unit := .op (.setFilePos pcb fd value) .ret

abbrev setFlags (pcb fd value : Int) : FsProg Unit := .op (.setFlags pcb fd value) .ret

abbrev setDentryName (i : Nat) (value : UInt8) : FsProg Unit := .op (.setDentryName i value) .ret

abbrev setDentryFiletype (value : Int) : FsProg Unit := .op (.setDentryFiletype value) .ret

abbrev setDentryInodeNum (value : Int) : FsProg Unit := .op (.setDentryInodeNum value) .ret

/-- `cur_dentry.filetype`. -/
abbrev dentryFiletype : FsProg Int := .op .getDentryFiletype .ret

/-- `cur_dentry.inode_num`. -/
abbrev dentryInodeNum : FsProg Int := .op .getDentryInodeNum .ret

/-! The step that a program takes when an access comes first. -/

variable {α : Type} (s : FsState)

@[simp] theorem run_mainProcess (f : Int → FsProg α) :
    (mainProcess >>= f).run accessSem s = (f s.mainProcess).run accessSem s := rfl

@[simp] theorem run_currPcb (f : Int → FsProg α) :
    (currPcb >>= f).run accessSem s = (f s.currPcb).run accessSem s := rfl

@[simp] theorem run_setCurrPcb (pcb : Int) (f : Unit → FsProg α) :
    (setCurrPcb pcb >>= f).run accessSem s =
      (f ()).run accessSem { s with currPcb := pcb } := rfl

@[simp] theorem run_fdOf (pcb fd : Int) (f : Fdt → FsProg α) :
    (fdOf pcb fd >>= f).run accessSem s = (f (s.fdt pcb fd)).run accessSem s := rfl

@[simp] theorem run_setFOps (pcb fd : Int) (fOps : FOps) (f : Unit → FsProg α) :
    (setFOps pcb fd fOps >>= f).run accessSem s =
      (f ()).run accessSem (s.modifyFd pcb fd fun d => { d with fOps }) := rfl

@[simp] theorem run_setInodeNum (pcb fd v : Int) (f : Unit → FsProg α) :
    (setInodeNum pcb fd v >>= f).run accessSem s =
      (f ()).run accessSem (s.modifyFd pcb fd fun d => { d with inodeNum := v }) := rfl

@[simp] theorem run_setFilePos (pcb fd v : Int) (f : Unit → FsProg α) :
    (setFilePos pcb fd v >>= f).run accessSem s =
      (f ()).run accessSem (s.modifyFd pcb fd fun d => { d with filePos := v }) := rfl

@[simp] theorem run_setFlags (pcb fd v : Int) (f : Unit → FsProg α) :
    (setFlags pcb fd v >>= f).run accessSem s =
      (f ()).run accessSem (s.modifyFd pcb fd fun d => { d with flags := v }) := rfl

@[simp] theorem run_setDentryFiletype (v : Int) (f : Unit → FsProg α) :
    (setDentryFiletype v >>= f).run accessSem s =
      (f ()).run accessSem { s with curDentry := { s.curDentry with filetype := v } } := rfl

@[simp] theorem run_dentryFiletype (f : Int → FsProg α) :
    (dentryFiletype >>= f).run accessSem s = (f s.curDentry.filetype).run accessSem s := rfl

@[simp] theorem run_dentryInodeNum (f : Int → FsProg α) :
    (dentryInodeNum >>= f).run accessSem s = (f s.curDentry.inodeNum).run accessSem s := rfl

end FsProg

open FsProg

/-! ## filesys.c -/

/-- `set_filesys_pcb(pcb)`. -/
def setFilesysPcb (pcb : Int) : FsProg Unit := setCurrPcb pcb

/-- `curr_pcb->fdt[fd]`. -/
def currFd (fd : Int) : FsProg Fdt := do
  let pcb ← currPcb
  fdOf pcb fd

/-- `bitmap_open(index)`. -/
def bitmapOpen (index : Int) : FsProg Bool := do
  let d ← currFd index
  pure (d.flags = 0)

/-- `fill_bitmap(index)` and `free_bitmap(index)`: they store 1 and 0. -/
def storeBitmap (value index : Int) : FsProg Unit :=
  if index ≥ 8 ∨ index < 0 then pure ()
  else do
    let pcb ← currPcb
    setFlags pcb index value

def fillBitmap : Int → FsProg Unit := storeBitmap 1

def freeBitmap : Int → FsProg Unit := storeBitmap 0

/-- `for(i=0;i<FILE_TYPE_OFFSET;i++)` of `read_dentry_by_index` on `cur_dentry`, with the
number of turns left. -/
def storeName (d : Dentry) : Nat → Nat → FsProg Unit
  | 0, _ => pure ()
  | turns + 1, i => do
    setDentryName i (d.filename i)
    storeName d turns (i + 1)

/-- What `read_dentry_by_index(index, &cur_dentry)` stores. -/
def storeCurDentry (d : Dentry) : FsProg Unit := do
  storeName d 32 0
  setDentryFiletype d.filetype
  setDentryInodeNum d.inodeNum

/-- `while(index < MAX_FILES)` of `file_open`: whether the loop finds the file open, with the
number of turns left. -/
def alreadyOpen : Nat → Int → FsProg Bool
  | 0, _ => pure false
  | turns + 1, index => do
    if ← bitmapOpen index then alreadyOpen turns (index + 1)
    else
      let d ← currFd index
      let inode ← dentryInodeNum
      if d.inodeNum = inode then pure true else alreadyOpen turns (index + 1)

/-- `for(index=0;index<MAX_FILES;index++)`: take the first free descriptor for `cur_dentry`,
with the number of turns left. Only `file_open` zeroes the position. -/
def claimFd (zeroPos : Bool) : Nat → Int → FsProg Int
  | 0, _ => pure (-1)
  | turns + 1, index => do
    if ← bitmapOpen index then
      fillBitmap index
      let pcb ← currPcb
      let inode ← dentryInodeNum
      setInodeNum pcb index inode
      if zeroPos then
        let pcb ← currPcb
        setFilePos pcb index 0
        pure index
      else pure index
    else claimFd zeroPos turns (index + 1)

/-- `file_open(fname)`. -/
def fileOpen (img : Image) (fname : Option CStr) : FsProg Int :=
  match readDentryByName img fname with
  | none => pure (-1)
  | some d => do
    storeCurDentry d
    let filetype ← dentryFiletype
    if filetype = 1 then pure (-1)
    else if ← alreadyOpen 8 0 then pure (-1)
    else claimFd true 8 0

/-- `file_close(fd)`. -/
def fileClose (fd : Int) : FsProg Int := do
  if fd ≥ 8 ∨ fd < 0 then pure (-1)
  else if ← bitmapOpen fd then pure (-1)
  else
    let pcb ← currPcb
    setFilePos pcb fd 0
    freeBitmap fd
    pure 0

/-- `size`: `nbytes`, clamped at the length of the file. -/
@[irreducible] def readSize (length nbytes : Int) : Int := if nbytes ≥ length then length else nbytes

/-- `file_read(fd, buf, nbytes)`. The position is loaded before anything is checked. -/
def fileRead (img : Image) (fd nbytes : Int) : FsProg ReadResult := do
  let offset := (← currFd fd).filePos
  if nbytes < 0 then pure ⟨-1, []⟩
  else if fd ≥ 8 ∨ fd < 0 then pure ⟨-1, []⟩
  else if ← bitmapOpen fd then pure ⟨-1, []⟩
  else
    let inode := (← currFd fd).inodeNum
    let size := readSize (img.inodeLength inode) nbytes
    let inode := (← currFd fd).inodeNum
    let res := readData img (u32 inode) (u32 offset) (u32 size)
    if res.ret = -1 then pure ⟨-1, res.buf⟩
    else
      let pcb ← currPcb
      let d ← fdOf pcb fd
      setFilePos pcb fd (i32 (d.filePos + res.ret))
      pure res

/-- `strncmp(s1, s2, n) != 0` on the name of an entry and a C string, with the number of turns
left. -/
def nameDiffers (img : Image) (index : Int) (s2 : CStr) : Nat → Nat → Bool
  | 0, _ => false
  | turns + 1, i =>
    if img.filename index i ≠ s2.char i ∨ img.filename index i = 0 then
      img.filename index i ≠ s2.char i
    else nameDiffers img index s2 turns (i + 1)

/-- `dir_open(fname)`; only the first entry can be opened. -/
def dirOpen (img : Image) (fname : CStr) : FsProg Int :=
  if nameDiffers img 0 fname 32 0 then pure (-1)
  else
    match readDentryByName img (some fname) with
    | none => pure (-1)
    | some d => do
      storeCurDentry d
      let filetype ← dentryFiletype
      if filetype ≠ 1 then pure (-1) else claimFd false 8 0

/-- `dir_close(fd)`. -/
def dirClose (fd : Int) : FsProg Int := do
  if fd ≥ 8 ∨ fd < 0 then pure (-1)
  else if ← bitmapOpen fd then pure (-1)
  else
    freeBitmap fd
    pure 0

/-- `fname_len` of an entry, cut at `MAX_FILE_LEN`: the characters before the first zero, with
the number of turns left. -/
def nameLen (img : Image) (index : Int) : Nat → Nat → Nat
  | 0, _ => 0
  | turns + 1, i => if img.filename index i = 0 then 0 else nameLen img index turns (i + 1) + 1

/-- `dir_read(fd, buf, nbytes)`. The name is copied even when the call returns 0. -/
def dirRead (img : Image) (fd nbytes : Int) : FsProg ReadResult := do
  let offset := (← currFd fd).filePos
  if fd ≥ 8 ∨ fd < 0 then pure ⟨-1, []⟩
  else if ← bitmapOpen fd then pure ⟨-1, []⟩
  else
    let len : Int := nameLen img offset 32 0
    let len := if len > u32 nbytes then u32 nbytes else len
    let name := (List.range len.toNat).map fun k => img.filename offset (k : Nat)
    let d ← currFd fd
    if d.filePos < img.dirCount then
      let pcb ← currPcb
      let d ← fdOf pcb fd
      setFilePos pcb fd (i32 (d.filePos + 1))
      pure ⟨len, name⟩
    else pure ⟨0, name⟩

/-! ## syscall.c -/

/-- How a call through an operation table ends. -/
inductive Outcome where
  /-- it returned, with these bytes stored at the caller's buffer -/
  | returned (res : ReadResult)
  /-- it entered the driver of a device -/
  | device (table : FOps)
  /-- it jumped through a pointer that was never set -/
  | wild
  deriving DecidableEq

/-- `system_read(fd, buf, nbytes)`. -/
def systemRead (img : Image) (fd : Int) (bufNull : Bool) (nbytes : Int) : FsProg Outcome :=
  if bufNull ∨ fd < 0 ∨ fd > 7 then pure (.returned ⟨-1, []⟩)
  else do
    let pcb ← mainProcess
    setFilesysPcb pcb
    match (← fdOf pcb fd).fOps with
    | .file => return .returned (← fileRead img fd nbytes)
    | .dir => return .returned (← dirRead img fd nbytes)
    | .unset => pure .wild
    | table => pure (.device table)

/-- `system_close(fd)`; `rtc_close` returns 0 and `terminal_close` -1. -/
def systemClose (fd : Int) : FsProg Outcome :=
  if fd < 0 ∨ fd > 7 then pure (.returned ⟨-1, []⟩)
  else do
    let pcb ← mainProcess
    setFilesysPcb pcb
    match (← fdOf pcb fd).fOps with
    | .file => return .returned ⟨← fileClose fd, []⟩
    | .dir => return .returned ⟨← dirClose fd, []⟩
    | .rtc => pure (.returned ⟨0, []⟩)
    | .terminal => pure (.returned ⟨-1, []⟩)
    | .unset => pure .wild

/-- `fill_open_fd(pcb)`, with the number of turns left. -/
def fillOpenFd (pcb : Int) : Nat → Int → FsProg Int
  | 0, _ => pure (-1)
  | turns + 1, fd => do
    let d ← fdOf pcb fd
    if d.flags = 0 then
      setFlags pcb fd 1
      pure fd
    else fillOpenFd pcb turns (fd + 1)

/-- `system_open(filename)`. For a directory or a file the operation table is stored even when
`fd` is -1. -/
def systemOpen (img : Image) (filename : Option CStr) : FsProg Int := do
  let pcb ← mainProcess
  setFilesysPcb pcb
  match getFiletype img filename, filename with
  | 0, _ =>
    let fd ← fillOpenFd pcb 6 2
    if fd = -1 then pure (-1)
    else
      setFOps pcb fd .rtc
      pure fd
  | 1, some name =>
    let fd ← dirOpen img name
    setFOps pcb fd .dir
    pure fd
  | 2, _ =>
    let fd ← fileOpen img filename
    setFOps pcb fd .file
    pure fd
  | _, _ => pure (-1)

end SrirachOS
