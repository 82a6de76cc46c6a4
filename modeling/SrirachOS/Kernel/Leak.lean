import SrirachOS.Kernel.Invariant

/-!
# A Program That Does Not Fit

Execute copies a program without looking at its size. When the copy runs out of the program page,
the fault handler halts the caller, and the slot that execute has marked stays marked: the next
process of the terminal takes it for its parent, and hands the running process over to whatever
number the memory of that slot's PCB holds.

- `execute_leaks`, `SlotLeaked.execute`: the first two links of this chain of events,
- `leaked_slot`: the whole chain, from any state in which a root shell runs on the displayed
  terminal and the shared slots 3 and 4 are free,
- `bigImage`: an image with such a program, all of whose blocks are in range.
-/

namespace SrirachOS

open Foundation

namespace Kernel

/-! ## The chain of events -/

/-- Slot 3 belongs to the displayed terminal, and what else the tables say has not changed. -/
structure SlotLeaked (k k' : Kernel) : Prop where
  processNum : k'.processNum = Function.update k.processNum 3 k.activeTerminal
  currTask : k'.currTask = k.currTask
  activeTerminal : k'.activeTerminal = k.activeTerminal
  mainProcess : k'.mainProcess = k.mainProcess
  pid : ∀ p, (k'.pcb p).pid = (k.pcb p).pid
  hung : k'.hung = false

/-- **The faulting execute** marks slot 3, and its caller is halted and started again. -/
theorem execute_leaks {img : Image} (hshell : ShellStarts img) (tab : TableAddr) {k : Kernel}
    (h : k.Inv) (hroot : k.mainProcess = k.activeTerminal) (hfree : k.processNum 3 = -1)
    {big : CStr} {junk : Nat → UInt8} (hcommand : CommandFits big) {prog : Program}
    (hprog : findProgram img (parseCommand big).1 junk = some prog)
    (hlen : programRoom < prog.bytes.length) :
    SlotLeaked k (step img tab k (.execute big junk)) := by
  obtain ⟨ha0, ha3⟩ := h.1.active
  obtain ⟨hpid, hparent, hself, hcurr, -, -⟩ := h.releaseSlot_root (by omega) 255
  have hslot : k.enterKernel.findSlot 6 0 = some 3 := by
    refine findSlot_shared ?_ (le_refl 3) (by decide) ?_ fun j hj3 hj => absurd hj3 (by omega)
    · rw [enterKernel_processNum, enterKernel_activeTerminal, ← hroot, hself]
      omega
    · rw [enterKernel_processNum, hfree]
  obtain ⟨mem, hfault⟩ := systemExecute_faulted hcommand hprog hlen .syscall hslot
  obtain ⟨k₁, hk₁⟩ : ∃ k₁ : Kernel, k₁ = { (k.enterKernel.markSlot 3).mapSlot 3 with
    mem, argBuf := (parseCommand big).2 } := ⟨_, rfl⟩
  have hnum : k₁.processNum = Function.update k.processNum 3 k.activeTerminal := by
    rw [hk₁, ← enterKernel_processNum k, ← enterKernel_activeTerminal k]
    rfl
  have htask : k₁.currTask = k.currTask := hk₁ ▸ enterKernel_currTask k
  have hactive : k₁.activeTerminal = k.activeTerminal := hk₁ ▸ enterKernel_activeTerminal k
  have hmain : k₁.mainProcess = k.mainProcess := hk₁ ▸ enterKernel_mainProcess k
  have hpcb : k₁.pcb = k.pcb := hk₁ ▸ enterKernel_pcb k
  have hhung : k₁.hung = k.hung := hk₁ ▸ enterKernel_hung k
  -- the fault handler halts the caller, which is a root shell and is started again
  have hr := systemHalt_root hshell 255 junk (k := k₁) (by omega) (by omega)
    (by rw [hmain, hactive, hroot]) (by rw [hmain, hpcb, hpid]) (by rw [hmain, hpcb, hparent])
    (by rw [hmain, hnum, Function.update_of_ne (by omega), hself]) (by rw [hmain, htask, hcurr])
  have hstep : step img tab k (.execute big junk) = k₁.systemHalt img 255 junk := by
    rw [step_of_not_hung h.1.hung]
    dsimp only
    rw [hfault, ← hk₁]
    rfl
  rw [hstep]
  exact
    { processNum := hr.processNum.trans hnum
      currTask := hr.currTask.trans htask
      activeTerminal := hr.activeTerminal.trans hactive
      mainProcess := hr.mainProcess.trans hmain
      pid := fun p => (hr.pid p).trans (by rw [hpcb])
      hung := (hr.hung.trans hhung).trans h.1.hung }

/-- **The next program** takes slot 4, and the leaked slot for its parent. -/
theorem SlotLeaked.execute {img : Image} (hshell : ShellStarts img) (tab : TableAddr)
    {k k' : Kernel} (h : SlotLeaked k k') (ha0 : 0 ≤ k.activeTerminal) (ha3 : k.activeTerminal < 3)
    (hown : k.processNum k.activeTerminal = k.activeTerminal) (hfree : k.processNum 4 = -1)
    (junk : Nat → UInt8) :
    Created .syscall 4 k'.enterKernel (step img tab k' (.execute shell junk)) ∧
      ((step img tab k' (.execute shell junk)).pcb 4).parentPcb = 3 := by
  have hslot : k'.enterKernel.findSlot 6 0 = some 4 := by
    refine findSlot_shared ?_ (by decide) (by decide) ?_ fun j hj3 hj => ?_
    · rw [enterKernel_processNum, enterKernel_activeTerminal, h.activeTerminal, h.processNum,
        Function.update_of_ne (by omega), hown]
      omega
    · rw [enterKernel_processNum, h.processNum, Function.update_of_ne (by decide), hfree]
    · obtain rfl : j = 3 := by omega
      rw [enterKernel_processNum, h.processNum, Function.update_self]
      omega
  obtain ⟨prog, hprog, hlen⟩ := hshell junk
  obtain ⟨k₃, hk₃, hc⟩ := systemExecute_entered commandFits_shell hprog hlen .syscall hslot
  have hstep : step img tab k' (.execute shell junk) = k₃ := by
    rw [step_of_not_hung h.hung]
    dsimp only
    rw [hk₃]
    rfl
  -- the scan for a parent comes to the leaked slot first
  have hown3 : (k'.enterKernel.markSlot 4).processNum 3 =
      (k'.enterKernel.markSlot 4).activeTerminal := by
    change Function.update k'.enterKernel.processNum 4 k'.enterKernel.activeTerminal 3 =
      k'.enterKernel.activeTerminal
    rw [Function.update_of_ne (by decide), enterKernel_processNum, enterKernel_activeTerminal,
      h.processNum, Function.update_self, h.activeTerminal]
  rw [hstep]
  refine ⟨hc, ?_⟩
  rw [hc.parentPcb, parentPid, if_neg (by decide), findParentProcess, if_neg (by decide)]
  change (if _ then _ else _) = _
  exact if_pos hown3

/-- **A leaked slot**: after an execute of a program that does not fit, the next program that is
started and halts leaves the running process at the number in the PCB of slot 3. -/
theorem leaked_slot {img : Image} (hshell : ShellStarts img) (tab : TableAddr) {k : Kernel}
    (h : k.Inv) (hroot : k.mainProcess = k.activeTerminal) (hfree3 : k.processNum 3 = -1)
    (hfree4 : k.processNum 4 = -1) {big : CStr} {junk : Nat → UInt8}
    (hcommand : CommandFits big) {prog : Program}
    (hprog : findProgram img (parseCommand big).1 junk = some prog)
    (hlen : programRoom < prog.bytes.length) (status : UInt8) :
    let s := run (step img tab) k [.execute big junk, .execute shell junk, .halt status junk]
    s.mainProcess = (k.pcb 3).pid ∧ s.activeTerminal = k.activeTerminal ∧
      s.processNum = Function.update k.processNum 3 k.activeTerminal ∧
      (∀ t, 0 ≤ t → t < 3 →
        s.currTask t = if t = k.activeTerminal then (k.pcb 3).pid else k.currTask t) ∧
      (∀ p, p ≠ 4 → (s.pcb p).pid = (k.pcb p).pid) ∧ s.hung = false ∧
      Along (step img tab) RunnerShown k
        [.execute big junk, .execute shell junk, .halt status junk] := by
  obtain ⟨ha0, ha3⟩ := h.1.active
  obtain ⟨-, -, hself, -⟩ := h.releaseSlot_root (by omega) status
  have hown : k.processNum k.activeTerminal = k.activeTerminal := by rwa [hroot] at hself
  have hleak := execute_leaks hshell tab h hroot hfree3 hcommand hprog hlen
  obtain ⟨hc, hparent⟩ := hleak.execute hshell tab ha0 ha3 hown hfree4 junk
  intro s
  have hs : s = step img tab (step img tab (step img tab k (.execute big junk)) (.execute shell junk))
      (.halt status junk) := rfl
  rw [along_cons, along_cons, along_cons, hs]
  generalize step img tab k (.execute big junk) = k₂ at hleak hc hparent ⊢
  generalize step img tab k₂ (.execute shell junk) = k₃ at hc hparent ⊢
  have hactive : k₃.activeTerminal = k.activeTerminal := by
    rw [hc.activeTerminal, enterKernel_activeTerminal, hleak.activeTerminal]
  have hhung : k₃.hung = false := by rw [hc.hung, enterKernel_hung, hleak.hung]
  have hmain : k₃.enterKernel.mainProcess = 4 := by rw [enterKernel_mainProcess, hc.mainProcess]
  have hpid : ∀ p, p ≠ 4 → (k₃.enterKernel.pcb p).pid = (k.pcb p).pid := fun p hp => by
    rw [enterKernel_pcb, hc.pcb_of_ne p hp, enterKernel_pcb, hleak.pid]
  -- the halt asks the PCB of slot 3
  have hnext : (k₃.enterKernel.pcb (k₃.enterKernel.pcb k₃.enterKernel.mainProcess).parentPcb).pid =
      (k.pcb 3).pid := by
    rw [← hpid 3 (by decide), hmain, enterKernel_pcb, hparent]
  have hh := systemHalt_shared img status junk (by omega) (by rw [hmain, enterKernel_pcb, hc.pid])
    hnext (by rw [hmain, enterKernel_pcb, hc.frame])
  rw [step_of_not_hung hhung]
  dsimp only
  refine ⟨hh.mainProcess, ?_, ?_, fun t ht0 ht3 => ?_, fun p hp => ?_, ?_, ?_⟩
  · rw [hh.activeTerminal, enterKernel_activeTerminal, hactive]
  · rw [hh.processNum, hmain, enterKernel_processNum, hc.processNum, enterKernel_processNum,
      hleak.processNum, Function.update_idem]
    exact Function.update_eq_self_iff.mpr (by rw [Function.update_of_ne (by decide), hfree4])
  · have htask : k₃.enterKernel.currTask t = if t = k.activeTerminal then 4 else k.currTask t := by
      rw [enterKernel_currTask, hc.currTask, enterKernel_activeTerminal, hleak.activeTerminal,
        Function.update_apply, enterKernel_currTask, hleak.currTask]
    rw [hh.currTask, hmain, htask]
    by_cases hta : t = k.activeTerminal
    · rw [if_pos hta, if_pos ⟨ht0, ht3, rfl⟩, if_pos hta]
    · rw [if_neg hta, if_neg ?_, if_neg hta]
      rintro ⟨-, -, h4⟩
      have hlive := (h.1.curr t ht0 ht3 (by omega)).2.2
      rw [h4, hfree4] at hlive
      omega
  · rw [(hh.pcb p).1, hpid p hp]
  · rw [hh.hung, enterKernel_hung, hhung]
  · -- the callers belong to the displayed terminal
    have hshown₂ : k₂.processNum k₂.mainProcess = k₂.activeTerminal := by
      rw [hleak.processNum, hleak.mainProcess, hleak.activeTerminal, hroot,
        Function.update_of_ne (by omega), hown]
    have hshown₃ : k₃.processNum k₃.mainProcess = k₃.activeTerminal := by
      rw [hc.processNum, hc.mainProcess, Function.update_self, hc.activeTerminal]
    exact ⟨by rw [← hroot] at hown; exact hown.trans hroot, hshown₂, hshown₃, trivial⟩

/-! ## An image with a program that does not fit -/

/-- The directory, a program `shell` of 28 bytes and a program `big` that is one byte longer than
the room behind the load address: the bytes that are not zero. -/
def bigBytes : List (Nat × UInt8) :=
  [(0, 3), (4, 3), (8, 1),
    (64, 46), (96, 1),
    (128, 115), (129, 104), (130, 101), (131, 108), (132, 108), (160, 2), (164, 1),
    (192, 98), (193, 105), (194, 103), (224, 2), (228, 2),
    (8192, 28), (12288, 0x01), (12289, 0x80), (12290, 0x3B),
    (16384, 0x7f), (16385, 0x45), (16386, 0x4c), (16387, 0x46), (16409, 0x80), (16410, 0x04),
    (16411, 0x08)]

/-- All blocks of `big` are data block 0. -/
def bigImage : Image := fun a =>
  if 12292 ≤ a ∧ a < 16384 then 0 else (bigBytes.lookup a).getD 0

/-- The command that runs it. -/
def bigCommand : CStr := [98, 105, 103]

theorem bigImage_dataBlockNum {i : Nat} (hi : i < 1023) : bigImage.dataBlockNum 2 i = 0 := by
  have hbyte : ∀ a : Int, 12292 ≤ a → a < 16384 → bigImage.byte a = 0 := fun a h1 h2 => by
    unfold Image.byte bigImage
    rw [u32_of_fits (by omega) (by omega), if_pos (by omega)]
  have haddr : Image.inodeAddr 2 + 4 + 4 * (i : Int) = 12292 + 4 * i := by
    unfold Image.inodeAddr; omega
  unfold Image.dataBlockNum Image.word
  rw [haddr, hbyte _ (by omega) (by omega), hbyte _ (by omega) (by omega),
    hbyte _ (by omega) (by omega), hbyte _ (by omega) (by omega)]
  decide +kernel

theorem bigImage_wellFormedFile : bigImage.WellFormedFile 2 := by
  have hblocks : Image.numBlocks (bigImage.inodeLength 2) = 953 := by decide +kernel
  have hzero : ∀ i : Nat, i < Image.numBlocks (bigImage.inodeLength 2) →
      bigImage.dataBlockNum 2 i = 0 := fun i hi => bigImage_dataBlockNum (by omega)
  have hcount : bigImage.dataCount = 1 := by decide +kernel
  exact
    { inode_nonneg := by decide
      inode_lt := by decide +kernel
      length_nonneg := by decide +kernel
      length_le := by decide +kernel
      block_nonneg := fun i hi => by rw [hzero i hi]
      block_lt := fun i hi => by rw [hzero i hi, hcount]; decide
      block_le := fun i hi => by rw [hzero i hi]; decide }

theorem shellStarts_bigImage : ShellStarts bigImage :=
  shellStarts_of_inode (i := 1) (by decide +kernel) (by decide +kernel) (by decide +kernel)

theorem findProgram_bigImage (junk : Nat → UInt8) :
    ∃ prog, findProgram bigImage (parseCommand bigCommand).1 junk = some prog ∧
      programRoom < prog.bytes.length := by
  have hname : (readDentryByName bigImage (some (parseCommand bigCommand).1)).map (·.inodeNum) =
      some 2 := by decide +kernel
  obtain ⟨test, htest, hinode⟩ := Option.map_eq_some_iff.mp hname
  have hmagic : (readData bigImage (u32 2) 0 4).buf = [0x7f, 0x45, 0x4c, 0x46] := by
    decide +kernel
  have hinode' : u32 2 = 2 := u32_of_fits (by decide) (by decide)
  have hlength : bigImage.inodeLength 2 = 0x3B8001 := by decide +kernel
  have hspec := readData_spec bigImage 2 bigImage_wellFormedFile
    (by rw [hlength]; decide) (show 0 + 0x800000 < 4294967296 by decide) (by decide)
  rw [Int.natCast_zero, Int.cast_ofNat_Int] at hspec
  have hbytes : programRoom < (readData bigImage 2 0 0x800000).buf.length := by
    rw [hspec, List.length_take, List.drop_zero,
      length_contents bigImage 2 (by rw [hlength]; decide), hlength]
    decide
  rw [← hinode] at hmagic
  obtain ⟨prog, hprog, hloaded⟩ := findProgram_of_magic htest hmagic junk
  refine ⟨prog, hprog, ?_⟩
  rw [hloaded, hinode, hinode']
  exact hbytes

end Kernel

end SrirachOS
