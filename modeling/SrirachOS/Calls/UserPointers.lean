import SrirachOS.Calls.ReadBuffer

/-!
# Pointers from the User

A system call runs with the kernel's rights, and what it does through a pointer of its caller it
does to whatever lies there.

- `fileRecord_ends`: how a read of a file ends, and how much it has stored when it fails on a block
  number,
- `TurnedAway`: the calls that return -1 for a reason of their own,
- `pointers_guarded_iff`: no call checks where its pointer leads, so a range that is not inside the
  caller's page is rejected exactly when the call is turned away anyway.
-/

namespace SrirachOS

open Foundation FsProg

/-! ## How a read of a file ends -/

/-- The bytes that a read has still to deliver. -/
def requested (img : Image) (inode pos nbytes : Int) : Nat :=
  (min nbytes (img.inodeLength inode - pos)).toNat

/-- The blocks that it looks at, from the first of the file on. -/
def requestBlocks (img : Image) (inode pos nbytes : Int) : Nat :=
  (blocksNeeded (min nbytes (img.inodeLength inode - pos)) pos).toNat

/-- The read of a file at a position that reads lead to. -/
theorem readData_posOk {img : Image} {inode pos nbytes : Int} (hn : 0 ≤ nbytes)
    (hpos : PosOk img inode pos) :
    readData img (u32 inode) (u32 pos) (u32 (readSize (img.inodeLength inode) nbytes)) =
      if u32 inode > u32 img.inodeCount then ⟨-1, []⟩
      else blockLoop img (u32 inode) (requestBlocks img inode pos nbytes) 0
        ⟨min nbytes (img.inodeLength inode - pos), 0, pos, []⟩ := by
  have hrange : -2147483648 ≤ img.inodeLength inode ∧ img.inodeLength inode < 2147483648 :=
    ⟨img.word_ge _, img.word_lt _⟩
  -- at such a position the clamp is right, and nothing wraps
  have hclamp := clampLength_exact hrange hn hpos
  have hposfits := hpos.range
  have hu : u32 pos = pos := u32_of_fits (by omega) (by omega)
  have hi : i32 pos = pos := i32_of_fits (by omega) (by omega)
  unfold readData requestBlocks
  by_cases hinode : u32 inode > u32 img.inodeCount
  · rw [if_pos hinode, if_pos hinode]
  · rw [if_neg hinode, if_neg hinode, inodeLength_u32, hclamp, hu, hi]

/-- **How a read of a file ends**, at a position that reads lead to: it fails on an inode number
beyond the count or on the first bad block, with what lies in front of that block stored. -/
theorem fileRecord_ends {img : Image} {inode pos nbytes : Int} (hn : 0 ≤ nbytes)
    (hpos : PosOk img inode pos) :
    if u32 inode > u32 img.inodeCount then fileRecord img inode pos nbytes = ⟨-1, []⟩
    else match firstBad img (u32 inode) (requestBlocks img inode pos nbytes) 0 with
      | some j => fileRecord img inode pos nbytes =
          ⟨-1, (List.range (min (requested img inode pos nbytes) (4096 * j - pos.toNat))).map
            fun i => img.fileByte (u32 inode) (pos.toNat + i)⟩
      | none => (fileRecord img inode pos nbytes).ret ≠ -1 := by
  have hpos0 := hpos.range.1
  obtain ⟨res, hres⟩ : ∃ res, res = fileRecord img inode pos nbytes := ⟨_, rfl⟩
  rw [← hres]
  rw [fileRecord, readData_posOk hn hpos] at hres
  by_cases hinode : u32 inode > u32 img.inodeCount
  · rw [if_pos hinode] at hres ⊢
    exact hres
  rw [if_neg hinode] at hres ⊢
  generalize requestBlocks img inode pos nbytes = turns at hres ⊢
  -- with nothing left to copy the blocks are only checked
  by_cases hleft : min nbytes (img.inodeLength inode - pos) ≤ 0
  · have hzero : requested img inode pos nbytes = 0 := by
      unfold requested
      omega
    rw [blockLoop_idle img (u32 inode) turns 0 hleft] at hres
    cases hbad : firstBad img (u32 inode) turns 0 with
    | some j =>
      rw [hbad] at hres
      have hempty : res = ⟨-1, []⟩ := hres.trans (if_pos rfl)
      rw [hempty, hzero]
      simp
    | none =>
      rw [hbad] at hres
      have hzero' : res = ⟨0, []⟩ := hres.trans (if_neg (show (0 : Int) ≠ -1 by decide))
      rw [hzero']
      exact fun h => absurd h (by decide)
  · obtain ⟨offset, hoffset⟩ : ∃ offset : Nat, pos = offset := ⟨pos.toNat, by omega⟩
    obtain ⟨d, hd⟩ : ∃ d : Nat, min nbytes (img.inodeLength inode - pos) = d :=
      ⟨requested img inode pos nbytes, by unfold requested; omega⟩
    have hreq : requested img inode pos nbytes = d := by
      unfold requested
      omega
    have hstart : (⟨d, 0, offset, []⟩ : ReadState) = progress img (u32 inode) offset d 0 := by
      simp [progress]
    rw [hd, hoffset, hstart, blockLoop_ends img (u32 inode) (by omega) turns 0] at hres
    cases hbad : firstBad img (u32 inode) turns 0 with
    | some j =>
      rw [hbad] at hres
      have hcut : res = ⟨-1, (progress img (u32 inode) offset d j).buf⟩ := hres.trans (if_pos rfl)
      rw [hcut, hreq, hoffset]
      rfl
    | none =>
      rw [hbad] at hres
      have hnonneg : (progress img (u32 inode) offset d (0 + turns)).dataRead ≠ -1 := by
        simp only [progress]
        omega
      rw [hres]
      dsimp only
      rw [if_neg hnonneg]
      exact hnonneg

/-! ## The address space of a caller -/

/-- The caller's page, `[128MB, 132MB)`. -/
def InPage (a : Int) : Prop := 0x8000000 ≤ a ∧ a < 0x8400000

/-- The byte at each address that the kernel can access while the caller's page is mapped; an access
elsewhere is a page fault. Pointers are `uint32_t` values. -/
structure UserSpace where
  mem : Int → Option UInt8
  mapped : ∀ a, InPage a → (mem a).isSome

/-- The `count` bytes from `start` on. Addresses wrap. -/
structure Span where
  start : Int
  count : Nat

namespace Span

def InPage (r : Span) : Prop := ∀ i < r.count, SrirachOS.InPage (u32 (r.start + (i : Nat)))

def Mapped (u : UserSpace) (r : Span) : Prop := ∀ i < r.count, (u.mem (u32 (r.start + (i : Nat)))).isSome

instance (u : UserSpace) (r : Span) : Decidable (r.Mapped u) :=
  inferInstanceAs (Decidable (∀ i < r.count, _))

/-- No bytes. -/
def nothing : Span := ⟨0, 0⟩

theorem nothing_inPage : nothing.InPage := fun _ h => absurd h (Nat.not_lt_zero _)

theorem InPage.mapped {r : Span} (h : r.InPage) (u : UserSpace) : r.Mapped u :=
  fun i hi => u.mapped _ (h i hi)

end Span

/-- The string at an address, read up to its terminator, with the number of turns left; `none` when a
byte of it is not mapped, or the whole address space has none that ends it. -/
def readString (mem : Int → Option UInt8) : Nat → Int → Option CStr
  | 0, _ => none
  | turns + 1, a =>
    match mem (u32 a) with
    | none => none
    | some c => if c = 0 then some [] else (readString mem turns (a + 1)).map (c :: ·)

/-- The string at a user's pointer. -/
def UserSpace.string (u : UserSpace) (ptr : Int) : Option CStr := readString u.mem 4294967296 ptr

/-- `*((int*)buf)`. -/
def UserSpace.word (u : UserSpace) (ptr : Int) : Option Int :=
  match u.mem (u32 ptr), u.mem (u32 (ptr + 1)), u.mem (u32 (ptr + 2)), u.mem (u32 (ptr + 3)) with
  | some b0, some b1, some b2, some b3 =>
    some (i32 (b0.toNat + 256 * b1.toNat + 65536 * b2.toNat + 16777216 * b3.toNat))
  | _, _, _, _ => none

/-! ## The calls -/

/-- A system call that is given a pointer. -/
inductive PtrCall where
  | read (fd ptr nbytes : Int)
  | write (fd ptr nbytes : Int)
  | openFile (ptr : Int)
  | execute (ptr : Int)
  | getargs (ptr nbytes : Int)
  | vidmap (ptr : Int)

/-- What the calls work on: the descriptors, the processes, the caller's address space, the line that a
read of the terminal waits for, and what a buffer on the kernel's stack held. -/
structure CallState where
  fs : FsState
  kernel : Kernel
  space : UserSpace
  line : List UInt8
  junk : Nat → UInt8

/-- How a call ends. -/
inductive CallEnd where
  /-- it returned, with the bytes `stored` written and the bytes `shown` given away: printed, or
  kept for `getargs` to hand out -/
  | returned (ret : Int) (stored shown : Span)
  /-- it ran past a buffer of the kernel -/
  | overrun
  /-- it did not return: a page fault, a jump through a pointer that was never set, or a program
  that it entered -/
  | gone

/-- A call that stores through the pointer and then returns. -/
def storing (u : UserSpace) (ret : Int) (r : Span) : CallEnd :=
  if r.Mapped u then .returned ret r .nothing else .gone

/-- `system_read(fd, buf, nbytes)`. -/
def readEnd (img : Image) (x : CallState) (fd ptr nbytes : Int) : CallEnd :=
  match readOutcome img x.line fd (decide (ptr = 0)) nbytes x.fs with
  | some res => storing x.space res.ret ⟨ptr, res.buf.length⟩
  | none => .gone

/-- `terminal_write(fd, buf, nbytes)`: `my_puts` prints until its index, counted up from 0, is
`nbytes`. -/
def terminalWrite (u : UserSpace) (fd ptr nbytes : Int) : CallEnd :=
  if fd ≠ 1 then .returned (-1) .nothing .nothing
  else if Span.Mapped u ⟨ptr, (u32 nbytes).toNat⟩ then
    .returned nbytes .nothing ⟨ptr, (u32 nbytes).toNat⟩
  else .gone

/-- The rate for a frequency, `none` for one that the driver does not know. -/
def rtcRate (freq : Int) : Option UInt8 :=
  if freq = 1024 ∨ freq = 2048 ∨ freq = 4096 ∨ freq = 8192 then some 0x6
  else if freq = 512 then some 0x7
  else if freq = 256 then some 0x8
  else if freq = 128 then some 0x9
  else if freq = 64 then some 0xA
  else if freq = 32 then some 0xB
  else if freq = 16 then some 0xC
  else if freq = 8 then some 0xD
  else if freq = 4 then some 0xE
  else if freq = 2 then some 0xF
  else none

/-- `rtc_write(fd, buf, nbytes)`. -/
def rtcWrite (u : UserSpace) (ptr nbytes : Int) : CallEnd :=
  if nbytes ≠ 4 then .returned (-1) .nothing .nothing
  else
    match u.word ptr with
    | none => .gone
    | some freq =>
      match rtcRate freq with
      | none => .returned (-1) .nothing .nothing
      | some _ => .returned 0 .nothing .nothing

/-- `system_write(fd, buf, nbytes)`. -/
def writeEnd (x : CallState) (fd ptr nbytes : Int) : CallEnd :=
  match ((systemWrite fd (decide (ptr = 0))).run accessSem x.fs).1 with
  | .returned res => .returned res.ret .nothing .nothing
  | .device .terminal => terminalWrite x.space fd ptr nbytes
  | .device .rtc => rtcWrite x.space ptr nbytes
  | _ => .gone

/-- `system_open(filename)`: `strlen` reads the whole name before anything is compared. -/
def openEnd (img : Image) (x : CallState) (ptr : Int) : CallEnd :=
  if ptr = 0 then .returned ((systemOpen img none).run accessSem x.fs).1 .nothing .nothing
  else
    match x.space.string ptr with
    | none => .gone
    | some name => .returned ((systemOpen img (some name)).run accessSem x.fs).1 .nothing .nothing

/-- Where the argument text of a command stands: at its end. -/
def argSpan (ptr : Int) (command : CStr) : Span :=
  ⟨ptr + (command.length - (Kernel.parseCommand command).2.length : Nat),
    (Kernel.parseCommand command).2.length⟩

/-- The word of a command does not fit into `parsed_command`, or its argument text into `arg_buf`. -/
def Overruns (command : CStr) : Prop :=
  128 ≤ (Kernel.parseCommand command).1.length ∨ 128 ≤ (Kernel.parseCommand command).2.length

instance (command : CStr) : Decidable (Overruns command) := inferInstanceAs (Decidable (_ ∨ _))

theorem commandFits_of_not_overruns {command : CStr} (h : ¬ Overruns command) :
    Kernel.CommandFits command :=
  ⟨Nat.lt_of_not_le fun hle => h (.inl hle), Nat.lt_of_not_le fun hle => h (.inr hle)⟩

/-- `system_execute(command)`: the argument text goes to `arg_buf` before anything is looked up. -/
def executeEnd (img : Image) (x : CallState) (ptr : Int) : CallEnd :=
  match x.space.string ptr with
  | none => .gone
  | some command =>
    if Overruns command then .overrun
    else
      match Kernel.systemExecute img command x.junk .syscall x.kernel with
      | .returned ret _ => .returned ret .nothing (argSpan ptr command)
      | .entered _ => .gone
      | .faulted _ => .gone
      | .overran _ => .gone

/-- `system_getargs(buf, nbytes)`. -/
def getargsEnd (x : CallState) (ptr nbytes : Int) : CallEnd :=
  match x.kernel.systemGetargs (decide (ptr = 0)) nbytes with
  | none => .returned (-1) .nothing .nothing
  | some text => storing x.space 0 ⟨ptr, text.length + 1⟩

/-- `system_vidmap(screen_start)`. -/
def vidmapEnd (x : CallState) (ptr : Int) : CallEnd :=
  if ptr = 0 ∨ ptr = 0x400000 then .returned (-1) .nothing .nothing
  else storing x.space 0 ⟨ptr, 4⟩

def callEnd (img : Image) (x : CallState) : PtrCall → CallEnd
  | .read fd ptr nbytes => readEnd img x fd ptr nbytes
  | .write fd ptr nbytes => writeEnd x fd ptr nbytes
  | .openFile ptr => openEnd img x ptr
  | .execute ptr => executeEnd img x ptr
  | .getargs ptr nbytes => getargsEnd x ptr nbytes
  | .vidmap ptr => vidmapEnd x ptr

/-! ## What a call has to do -/

/-- `nbytes` bytes at a pointer lie in the caller's page. -/
def RangeInside (ptr nbytes : Int) : Prop :=
  0x8000000 ≤ ptr ∧ 0 ≤ nbytes ∧ ptr + nbytes ≤ 0x8400000

/-- The range of a call: the buffer with its size, the pointer that `vidmap` sets, or a string with its
terminator. -/
def Inside (u : UserSpace) : PtrCall → Prop
  | .read _ ptr nbytes | .write _ ptr nbytes | .getargs ptr nbytes => RangeInside ptr nbytes
  | .vidmap ptr => RangeInside ptr 4
  | .openFile ptr | .execute ptr =>
    ∃ text, u.string ptr = some text ∧ RangeInside ptr (text.length + 1)

/-- The call returns -1, having written and given away nothing but bytes of the caller's page. -/
def CallEnd.Rejected : CallEnd → Prop
  | .returned ret stored shown => ret = -1 ∧ stored.InPage ∧ shown.InPage
  | .overrun | .gone => False

/-- A range that is not inside the caller's page is rejected. -/
def Guarded (img : Image) (x : CallState) (call : PtrCall) : Prop :=
  ¬ Inside x.space call → (callEnd img x call).Rejected

/-! ## What turns a call away -/

/-- A read of a file fails on its inode number or on a block number, before it leaves the page. -/
def FileFails (img : Image) (d : Fdt) (ptr nbytes : Int) : Prop :=
  u32 d.inodeNum > u32 img.inodeCount ∨
    ∃ j, firstBad img (u32 d.inodeNum) (requestBlocks img d.inodeNum d.filePos nbytes) 0 = some j ∧
      Span.InPage ⟨ptr, min (requested img d.inodeNum d.filePos nbytes) (4096 * j - d.filePos.toNat)⟩

/-- The read function of an open descriptor fails. -/
def ReadFails (img : Image) (fd : Int) (d : Fdt) (ptr nbytes : Int) : Prop :=
  match d.fOps with
  | .terminal => fd ≠ 0
  | .file => d.flags = 0 ∨ nbytes < 0 ∨ FileFails img d ptr nbytes
  | .dir => d.flags = 0
  | .rtc | .unset => False

/-- Its write function fails. -/
def WriteFails (u : UserSpace) (fd : Int) (d : Fdt) (ptr nbytes : Int) : Prop :=
  match d.fOps with
  | .terminal => fd ≠ 1
  | .file | .dir => True
  | .rtc => nbytes ≠ 4 ∨ ∃ freq, u.word ptr = some freq ∧ rtcRate freq = none
  | .unset => False

/-- The call fails for a reason other than where its pointer leads. -/
def TurnedAway (img : Image) (x : CallState) : PtrCall → Prop
  | .read fd ptr nbytes =>
    ptr = 0 ∨ fd < 0 ∨ fd > 7 ∨ ReadFails img fd (x.fs.fdt x.fs.mainProcess fd) ptr nbytes
  | .write fd ptr nbytes =>
    ptr = 0 ∨ fd < 0 ∨ fd > 7 ∨ WriteFails x.space fd (x.fs.fdt x.fs.mainProcess fd) ptr nbytes
  | .openFile ptr =>
    ptr = 0 ∨ ∃ name, x.space.string ptr = some name ∧
      (refused img (some name) x.fs = true ∨ x.fs.freeFd = none)
  | .execute ptr =>
    ∃ command, x.space.string ptr = some command ∧ ¬ Overruns command ∧
      Kernel.findProgram img (Kernel.parseCommand command).1 x.junk = none ∧
      (argSpan ptr command).InPage
  | .getargs ptr nbytes => ptr = 0 ∨ nbytes = 0 ∨ x.kernel.argBuf = []
  | .vidmap ptr => ptr = 0 ∨ ptr = 0x400000

/-! ## Each call -/

/-- A call that has written and given away nothing is rejected when it fails. -/
theorem returned_rejected_iff (ret : Int) :
    (CallEnd.returned ret .nothing .nothing).Rejected ↔ ret = -1 :=
  ⟨fun h => h.1, fun h => ⟨h, Span.nothing_inPage, Span.nothing_inPage⟩⟩

theorem failed_rejected : (CallEnd.returned (-1) .nothing .nothing).Rejected :=
  (returned_rejected_iff (-1)).mpr rfl

/-- A call that stores is rejected when it fails and has stored within the page. -/
theorem storing_rejected_iff (u : UserSpace) (ret : Int) (r : Span) :
    (storing u ret r).Rejected ↔ ret = -1 ∧ r.InPage := by
  unfold storing
  by_cases hmapped : r.Mapped u
  · rw [if_pos hmapped]
    exact ⟨fun h => ⟨h.1, h.2.1⟩, fun h => ⟨h.1, h.2, Span.nothing_inPage⟩⟩
  · rw [if_neg hmapped]
    exact ⟨fun h => h.elim, fun h => hmapped (h.2.mapped u)⟩

theorem storing_zero_accepted (u : UserSpace) (r : Span) : ¬ (storing u 0 r).Rejected := by
  rw [storing_rejected_iff]
  exact fun h => absurd h.1 (by decide)

theorem inPage_empty (a : Int) : Span.InPage ⟨a, 0⟩ := fun _ h => absurd h (Nat.not_lt_zero _)

/-- A read that stores nothing is rejected when it fails. -/
theorem storing_none_rejected_iff (u : UserSpace) (ret ptr : Int) :
    (storing u ret ⟨ptr, ([] : List UInt8).length⟩).Rejected ↔ ret = -1 := by
  rw [storing_rejected_iff]
  exact ⟨fun h => h.1, fun h => ⟨h, inPage_empty ptr⟩⟩

theorem fileFails_iff {img : Image} {d : Fdt} {ptr nbytes : Int} (u : UserSpace) (hn : 0 ≤ nbytes)
    (hpos : PosOk img d.inodeNum d.filePos) :
    (storing u (fileRecord img d.inodeNum d.filePos nbytes).ret
        ⟨ptr, (fileRecord img d.inodeNum d.filePos nbytes).buf.length⟩).Rejected ↔
      FileFails img d ptr nbytes := by
  have hends := fileRecord_ends hn hpos
  rw [storing_rejected_iff]
  unfold FileFails
  by_cases hinode : u32 d.inodeNum > u32 img.inodeCount
  · rw [if_pos hinode] at hends
    rw [hends]
    exact ⟨fun _ => .inl hinode, fun _ => ⟨rfl, inPage_empty ptr⟩⟩
  · rw [if_neg hinode] at hends
    cases hbad : firstBad img (u32 d.inodeNum) (requestBlocks img d.inodeNum d.filePos nbytes) 0 with
    | none =>
      rw [hbad] at hends
      constructor
      · intro h
        exact absurd h.1 hends
      · rintro (h | ⟨j, hj, -⟩)
        · exact absurd h hinode
        · cases hj
    | some j =>
      rw [hbad] at hends
      -- the blocks in front of the refused one have been stored
      rw [hends, List.length_map, List.length_range]
      constructor
      · intro h
        exact .inr ⟨j, rfl, h.2⟩
      · rintro (h | ⟨j', hj', hin⟩)
        · exact absurd h hinode
        · cases hj'
          exact ⟨rfl, hin⟩

theorem read_rejected_iff {img : Image} {c : FsState × (Int → Option FdLog)} (hc : LogsAgree c)
    (hpositions : PositionsOk img c) (hcreated : c.2 c.1.mainProcess ≠ none) {x : CallState}
    (hx : x.fs = c.1) (fd ptr nbytes : Int) :
    (callEnd img x (.read fd ptr nbytes)).Rejected ↔ TurnedAway img x (.read fd ptr nbytes) := by
  obtain ⟨log, hlog⟩ := Option.ne_none_iff_exists'.mp hcreated
  have hfds := hc _ log hlog
  -- a read that fails at once stores nothing
  have hfailed := (storing_none_rejected_iff x.space (-1) ptr).mpr rfl
  unfold callEnd TurnedAway
  dsimp only
  unfold readEnd readOutcome
  rw [hx]
  by_cases hargs : ptr = 0 ∨ fd < 0 ∨ fd > 7
  · rw [systemRead_refused img (by simpa using hargs)]
    refine iff_of_true hfailed ?_
    tauto
  push Not at hargs
  obtain ⟨hptr, h0, h7⟩ := hargs
  have h8 : fd < 8 := by omega
  rw [decide_eq_false hptr, systemRead_dispatch img h0 h8, or_iff_right hptr,
    or_iff_right (show ¬ fd < 0 by omega), or_iff_right (show ¬ fd > 7 by omega)]
  unfold ReadFails
  cases htable : (c.1.fdt c.1.mainProcess fd).fOps with
  | file =>
    dsimp only
    by_cases hclosed : (c.1.fdt c.1.mainProcess fd).flags = 0
    · have hread : (fileRead img fd nbytes).run accessSem c.1.entered = _ :=
        fileRead_closed img nbytes hclosed
      rw [hread]
      exact iff_of_true hfailed (.inl hclosed)
    by_cases hneg : nbytes < 0
    · have hread : (fileRead img fd nbytes).run accessSem c.1.entered = (⟨-1, []⟩, c.1.entered) := by
        rw [fileRead, run_currFd, if_pos hneg]
        rfl
      rw [hread]
      exact iff_of_true hfailed (.inr (.inl hneg))
    · have hread : ((fileRead img fd nbytes).run accessSem c.1.entered).1 = _ :=
        fileRead_open img h0 h8 (by omega) hclosed
      have h2 : 2 ≤ fd := hfds.two_le h0 (by rw [htable]; decide)
      -- the position is one that reads have led to
      have hpos := hpositions _ hcreated fd h2 h8 hclosed htable
      rw [hread]
      rw [or_iff_right hclosed, or_iff_right hneg]
      exact fileFails_iff x.space (by omega) hpos
  | dir =>
    dsimp only
    by_cases hclosed : (c.1.fdt c.1.mainProcess fd).flags = 0
    · have hread : (dirRead img fd nbytes).run accessSem c.1.entered = _ :=
        dirRead_closed img nbytes hclosed
      rw [hread]
      exact iff_of_true hfailed hclosed
    · have hread : ((dirRead img fd nbytes).run accessSem c.1.entered).1 = _ :=
        dirRead_open img h0 h8 nbytes hclosed
      rw [hread]
      refine iff_of_false ?_ hclosed
      rw [storing_rejected_iff]
      rintro ⟨hret, -⟩
      -- an open directory answers with a length, or 0 at its end
      have hu := u32_nonneg nbytes
      unfold dirRecord at hret
      dsimp only at hret
      split at hret
      · omega
      · omega
  | rtc => exact iff_of_false (storing_zero_accepted _ _) id
  | terminal =>
    dsimp only
    unfold terminalRead
    by_cases hstdin : fd ≠ 0
    · rw [if_pos hstdin]
      exact iff_of_true hfailed hstdin
    · rw [if_neg hstdin]
      refine iff_of_false ?_ hstdin
      rw [storing_rejected_iff]
      rintro ⟨hret, -⟩
      -- a line has a length
      have hret' : ((myStrlen x.line : Nat) : Int) = -1 := hret
      omega
  | unset => exact iff_of_false id id

/-- All addresses but one are not within one page. -/
theorem not_inPage_wrapped (ptr : Int) : ¬ Span.InPage ⟨ptr, (u32 (-1)).toNat⟩ := by
  have hcount : (u32 (-1)).toNat = 4294967295 := by
    unfold u32
    rfl
  rw [hcount]
  intro h
  by_cases hzero : (u32 (-ptr)).toNat < 4294967295
  · -- address 0 is among them
    have hin := h (u32 (-ptr)).toNat hzero
    have haddr : u32 (ptr + ((u32 (-ptr)).toNat : Nat)) = 0 := by
      unfold u32
      omega
    rw [haddr] at hin
    exact absurd hin.1 (by decide)
  · have hin := h 0 (show 0 < 4294967295 by decide)
    have haddr : u32 (ptr + ((0 : Nat) : Int)) = 1 := by
      have := u32_nonneg (-ptr)
      unfold u32 at *
      omega
    rw [haddr] at hin
    exact absurd hin.1 (by decide)

theorem terminalWrite_rejected_iff (u : UserSpace) (fd ptr nbytes : Int) :
    (terminalWrite u fd ptr nbytes).Rejected ↔ fd ≠ 1 := by
  unfold terminalWrite
  by_cases hstdout : fd ≠ 1
  · rw [if_pos hstdout]
    exact iff_of_true failed_rejected hstdout
  · rw [if_neg hstdout]
    refine iff_of_false ?_ hstdout
    split
    · -- only a count of -1 is returned as -1, and then nearly everything has been printed
      rintro ⟨hret, -, hshown⟩
      rw [hret] at hshown
      exact not_inPage_wrapped ptr hshown
    · exact id

theorem rtcWrite_rejected_iff (u : UserSpace) (ptr nbytes : Int) :
    (rtcWrite u ptr nbytes).Rejected ↔
      nbytes ≠ 4 ∨ ∃ freq, u.word ptr = some freq ∧ rtcRate freq = none := by
  unfold rtcWrite
  by_cases hbytes : nbytes ≠ 4
  · rw [if_pos hbytes]
    exact iff_of_true failed_rejected (.inl hbytes)
  rw [if_neg hbytes, or_iff_right hbytes]
  cases hword : u.word ptr with
  | none => exact iff_of_false id fun ⟨freq, h, _⟩ => by cases h
  | some freq =>
    dsimp only
    cases hrate : rtcRate freq with
    | none =>
      exact iff_of_true failed_rejected ⟨freq, rfl, hrate⟩
    | some rate =>
      refine iff_of_false (fun h => absurd h.1 (by decide)) ?_
      simp [hrate]

theorem write_rejected_iff (img : Image) (x : CallState) (fd ptr nbytes : Int) :
    (callEnd img x (.write fd ptr nbytes)).Rejected ↔ TurnedAway img x (.write fd ptr nbytes) := by
  unfold callEnd TurnedAway
  dsimp only
  unfold writeEnd
  by_cases hargs : ptr = 0 ∨ fd < 0 ∨ fd > 7
  · rw [systemWrite_refused (by simpa using hargs)]
    refine iff_of_true failed_rejected ?_
    tauto
  push Not at hargs
  obtain ⟨hptr, h0, h7⟩ := hargs
  rw [decide_eq_false hptr, systemWrite_dispatch h0 (by omega), or_iff_right hptr,
    or_iff_right (show ¬ fd < 0 by omega), or_iff_right (show ¬ fd > 7 by omega)]
  unfold WriteFails
  cases (x.fs.fdt x.fs.mainProcess fd).fOps with
  | file => exact iff_of_true failed_rejected trivial
  | dir => exact iff_of_true failed_rejected trivial
  | rtc => exact rtcWrite_rejected_iff x.space ptr nbytes
  | terminal => exact terminalWrite_rejected_iff x.space fd ptr nbytes
  | unset => exact iff_of_false id id

/-- What an open returns. -/
theorem systemOpen_fails_iff (img : Image) (filename : Option CStr) {s : FsState}
    (hstd : StdOpen s s.mainProcess) :
    ((systemOpen img filename).run accessSem s).1 = -1 ↔
      refused img filename s = true ∨ s.freeFd = none := by
  rw [systemOpen_exact img filename hstd]
  cases hrefused : refused img filename s with
  | true => exact iff_of_true rfl (.inl rfl)
  | false =>
    rw [if_neg Bool.false_ne_true]
    cases hfree : s.freeFd with
    | none => exact iff_of_true rfl (.inr rfl)
    | some fd =>
      have hrange := firstFree_range hfree
      refine iff_of_false ?_ (by simp)
      dsimp only
      omega

theorem open_rejected_iff (img : Image) {x : CallState} (hstd : StdOpen x.fs x.fs.mainProcess)
    (ptr : Int) :
    (callEnd img x (.openFile ptr)).Rejected ↔ TurnedAway img x (.openFile ptr) := by
  unfold callEnd TurnedAway
  dsimp only
  unfold openEnd
  by_cases hnull : ptr = 0
  · rw [if_pos hnull, returned_rejected_iff]
    exact iff_of_true ((systemOpen_fails_iff img none hstd).mpr (.inl rfl)) (.inl hnull)
  rw [if_neg hnull, or_iff_right hnull]
  cases x.space.string ptr with
  | none => exact iff_of_false id fun ⟨name, h, _⟩ => by cases h
  | some name =>
    simp only [Option.some.injEq, exists_eq_left', returned_rejected_iff]
    exact systemOpen_fails_iff img (some name) hstd

theorem execute_rejected_iff (img : Image) (x : CallState) (ptr : Int) :
    (callEnd img x (.execute ptr)).Rejected ↔ TurnedAway img x (.execute ptr) := by
  unfold callEnd TurnedAway
  dsimp only
  unfold executeEnd
  cases x.space.string ptr with
  | none => exact iff_of_false id fun ⟨command, h, _⟩ => by cases h
  | some command =>
    simp only [Option.some.injEq, exists_eq_left']
    by_cases hover : Overruns command
    · rw [if_pos hover]
      exact iff_of_false id fun h => h.1 hover
    rw [if_neg hover, Kernel.systemExecute_of_fits (commandFits_of_not_overruns hover)]
    unfold Kernel.executeFile
    cases hprog : Kernel.findProgram img (Kernel.parseCommand command).1 x.junk with
    | none =>
      exact ⟨fun h => ⟨hover, rfl, h.2.2⟩, fun h => ⟨rfl, Span.nothing_inPage, h.2.2⟩⟩
    | some prog =>
      -- with a program, execute returns 0 for want of a slot or does not return
      refine iff_of_false ?_ fun h => by cases h.2.1
      dsimp only
      split
      · rename_i ret k hend
        have hret : ret = 0 := by
          split at hend
          · cases hend
            rfl
          · split at hend <;> cases hend
        exact fun h => absurd (hret ▸ h.1) (by decide)
      all_goals exact id

theorem getargs_rejected_iff (img : Image) (x : CallState) (ptr nbytes : Int) :
    (callEnd img x (.getargs ptr nbytes)).Rejected ↔ TurnedAway img x (.getargs ptr nbytes) := by
  unfold callEnd TurnedAway
  dsimp only
  unfold getargsEnd Kernel.systemGetargs
  by_cases hargs : decide (ptr = 0) = true ∨ nbytes = 0
  · rw [if_pos hargs]
    refine iff_of_true failed_rejected ?_
    rw [decide_eq_true_eq] at hargs
    tauto
  rw [if_neg hargs]
  rw [decide_eq_true_eq, not_or] at hargs
  rw [or_iff_right hargs.1, or_iff_right hargs.2]
  rw [← Kernel.argText_eq_nil_iff]
  by_cases hempty : x.kernel.argText.length = 0
  · rw [if_pos hempty]
    exact iff_of_true failed_rejected (List.length_eq_zero_iff.mp hempty)
  · rw [if_neg hempty]
    exact iff_of_false (storing_zero_accepted _ _) fun h => hempty (List.length_eq_zero_iff.mpr h)

theorem vidmap_rejected_iff (img : Image) (x : CallState) (ptr : Int) :
    (callEnd img x (.vidmap ptr)).Rejected ↔ TurnedAway img x (.vidmap ptr) := by
  unfold callEnd TurnedAway
  dsimp only
  unfold vidmapEnd
  by_cases hptr : ptr = 0 ∨ ptr = 0x400000
  · rw [if_pos hptr]
    exact iff_of_true failed_rejected hptr
  · rw [if_neg hptr]
    exact iff_of_false (storing_zero_accepted _ _) hptr

/-! ## All calls -/

/-- **Pointers from the user**: in every state that a run leads to, a call keeps out of the kernel
exactly when its range is inside the caller's page or the call is turned away anyway. -/
theorem pointers_guarded_iff (img : Image) (s : FsState) (es : List FsEvent) (x : CallState)
    (hx : x.fs = (run (fdStep img) (s, noLogs) es).1)
    (hcreated : (run (fdStep img) (s, noLogs) es).2 x.fs.mainProcess ≠ none) (call : PtrCall) :
    Guarded img x call ↔ Inside x.space call ∨ TurnedAway img x call := by
  have hc := logsAgree_run img s es
  have hpositions := posOk_run img s es
  have hcreated' := hcreated
  rw [hx] at hcreated'
  have hstd : StdOpen x.fs x.fs.mainProcess := by
    obtain ⟨log, hlog⟩ := Option.ne_none_iff_exists'.mp hcreated'
    rw [hx]
    exact (hc _ log hlog).stdOpen
  have hrejected : (callEnd img x call).Rejected ↔ TurnedAway img x call := by
    cases call with
    | read fd ptr nbytes => exact read_rejected_iff hc hpositions hcreated' hx fd ptr nbytes
    | write fd ptr nbytes => exact write_rejected_iff img x fd ptr nbytes
    | openFile ptr => exact open_rejected_iff img hstd ptr
    | execute ptr => exact execute_rejected_iff img x ptr
    | getargs ptr nbytes => exact getargs_rejected_iff img x ptr nbytes
    | vidmap ptr => exact vidmap_rejected_iff img x ptr
  unfold Guarded
  rw [hrejected]
  exact ⟨fun h => or_iff_not_imp_left.mpr h, fun h => or_iff_not_imp_left.mp h⟩

/-- The kernel's page and the caller's page are mapped, and hold zeros. -/
def sampleSpace : UserSpace where
  mem a := if 0x400000 ≤ a ∧ a < 0x800000 ∨ 0x8000000 ≤ a ∧ a < 0x8400000 then some 0 else none
  mapped a ha := by
    rw [if_pos (.inr ha)]
    rfl

/-- The first process, running. -/
def sampleCallState : CallState :=
  ⟨(run (fdStep sampleImage) (sampleFs, noLogs) [.create 0]).1, Kernel.sampleKernel fun _ => 0, sampleSpace,
    [97, 10], Kernel.noJunk⟩

theorem pointers_guarded_sample :
    Guarded sampleImage sampleCallState (.vidmap 0x400000) :=
  (pointers_guarded_iff sampleImage sampleFs [.create 0] sampleCallState rfl (by decide +kernel)
    (.vidmap 0x400000)).mpr (.inr (.inr rfl))

/-- `vidmap` stores the address of the screen into the kernel, and returns 0. -/
theorem vidmap_stores_in_kernel :
    ¬ Inside sampleSpace (.vidmap 0x400004) ∧
      callEnd sampleImage sampleCallState (.vidmap 0x400004) =
        .returned 0 ⟨0x400004, 4⟩ .nothing ∧
      ¬ Guarded sampleImage sampleCallState (.vidmap 0x400004) := by
  have hinside : ¬ Inside sampleSpace (.vidmap 0x400004) := fun h => absurd h.1 (by decide)
  have hend : callEnd sampleImage sampleCallState (.vidmap 0x400004) =
      .returned 0 ⟨0x400004, 4⟩ .nothing := by
    change vidmapEnd sampleCallState 0x400004 = _
    rw [vidmapEnd, if_neg (by decide), storing, if_pos (by decide +kernel)]
  refine ⟨hinside, hend, fun h => ?_⟩
  have hrejected := h hinside
  rw [hend] at hrejected
  exact absurd hrejected.1 (by decide)

end SrirachOS
