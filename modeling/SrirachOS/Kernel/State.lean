import SrirachOS.FileSys.Lookup
import SrirachOS.FileSys.ReadData
import SrirachOS.Kernel.Paging

/-!
# Kernel State

The variables of `syscall.c` and `scheduler.c` that execute, halt, the terminal switch and the
scheduler share: the process slots, the displayed terminal, the running process, the PCBs, the
task state segment and the mapping.

A PCB is named by its slot, as `return_pcb_parent` computes its address from it. A pair of saved
`ebp` and `esp` is named by the kernel stack it points into and by what runs when it is loaded
again.
-/

namespace SrirachOS

open Foundation

/-! ## Saved contexts -/

/-- Who called `system_execute`, and goes on when it returns. -/
inductive Caller where
  /-- the wrapper of the execute system call -/
  | syscall
  /-- `switch_terminal`, in the keyboard interrupt -/
  | switchTerminal
  /-- `system_halt`, with its `curr_pcb` and `parent_pcb` -/
  | halt (curr parent : Int)
  /-- `entry` of `kernel.c` -/
  | boot
  deriving DecidableEq

/-- A program file: the bytes that execute loads and the entry point in its header. -/
structure Program where
  bytes : List UInt8
  entry : Int
  deriving DecidableEq

/-- What is left to do of `system_execute`, up to its `cli`. -/
inductive Phase where
  /-- parse the command and check the file; `junk` is what the stack buffers held -/
  | parse (command : CStr) (junk : Nat → UInt8)
  /-- is slot `i` free? -/
  | search (prog : Program) (i : Int)
  /-- slot `i` was free: may the displayed terminal take it? -/
  | test (prog : Program) (i : Int)
  /-- store the owner of slot `i` -/
  | mark (prog : Program) (i : Int)
  /-- map the frame of slot `i` -/
  | map (prog : Program) (i : Int)
  /-- copy byte `n` of the program -/
  | load (prog : Program) (i : Int) (n : Nat)
  /-- everything from `cli` on -/
  | enter (prog : Program) (i : Int)

/-- What runs when a context is resumed. -/
inductive Kont where
  /-- the program, in user mode -/
  | user
  /-- the loop at the end of `entry` -/
  | idle
  /-- the rest of `system_execute`, and what goes on when it returns -/
  | exec (caller : Caller) (phase : Phase) (below : Kont)

instance (kont : Kont) : Decidable (kont = .user) :=
  match kont with
  | .user => isTrue rfl
  | .idle => isFalse nofun
  | .exec .. => isFalse nofun

/-- `pit_ebp` and `pit_esp` of a PCB, or the processor's own registers. -/
structure Context where
  stack : Int
  kont : Kont

/-- `ebp` and `esp` of a PCB: the frame of the `system_execute` that started the process. -/
structure Frame where
  stack : Int
  caller : Caller
  /-- what goes on when that `system_execute` returns -/
  below : Kont

/-! ## State -/

/-- `pcb_t`, less the file descriptors. -/
structure Pcb where
  pidByte : UInt8
  /-- the slot of the PCB that `parent_pcb` points to -/
  parentPcb : Int
  statusRetval : Int
  /-- `ebp`, `esp` -/
  frame : Frame
  /-- `pit_ebp`, `pit_esp` -/
  pit : Context

/-- `pcb->pid`. -/
def Pcb.pid (pcb : Pcb) : Int := (pcb.pidByte.toNat : Nat)

theorem Pcb.pid_nonneg (pcb : Pcb) : 0 ≤ pcb.pid := Int.natCast_nonneg _

/-- `(uint8_t) i`. -/
def pidByteOf (i : Int) : UInt8 := UInt8.ofNat i.toNat

/-- A slot number fits the byte that a PCB keeps it in. -/
theorem toNat_pidByteOf {i : Int} (h0 : 0 ≤ i) (h6 : i < 6) : ((pidByteOf i).toNat : Int) = i := by
  unfold pidByteOf
  rw [UInt8.toNat_ofNat_of_lt' (by simp only [UInt8.size]; omega)]
  omega

structure Kernel where
  /-- `process_num`: the terminal that owns a slot, or -1 -/
  processNum : Int → Int
  activeTerminal : Int
  mainProcess : Int
  /-- `terminals[t].curr_task` -/
  currTask : Int → Int
  /-- the word in front of `terminals` that index -1 takes for a video address -/
  beforeTerminals : Nat
  pcb : Int → Pcb
  /-- `tss.esp0` -/
  tssEsp0 : Int
  paging : Paging
  /-- physical memory -/
  mem : Nat → UInt8
  /-- `arg_buf` up to its terminator: 128 characters if it has none -/
  argBuf : CStr
  /-- the bytes between `active_terminal`, which lies behind `arg_buf`, and `main_process`, up to the
  first zero -/
  padding : CStr
  /-- the entry point of the last `iret` to a new program -/
  entryPoint : Int
  /-- the processor -/
  cpu : Context
  /-- the kernel loops with interrupts off, or has overwritten what it needs to go on -/
  hung : Bool

namespace Kernel

/-- `return_pcb_parent(p)->...`, changed by `f`. -/
def modifyPcb (p : Int) (f : Pcb → Pcb) (k : Kernel) : Kernel :=
  { k with pcb := Function.update k.pcb p (f (k.pcb p)) }

@[simp] theorem modifyPcb_same (p : Int) (f : Pcb → Pcb) (k : Kernel) :
    (k.modifyPcb p f).pcb p = f (k.pcb p) := Function.update_self ..

@[simp] theorem modifyPcb_of_ne {p q : Int} (h : q ≠ p) (f : Pcb → Pcb) (k : Kernel) :
    (k.modifyPcb p f).pcb q = k.pcb q := Function.update_of_ne h ..

/-- `UNIT_8_MB - UNIT_8_KB * slot - 4`. -/
def esp0 (slot : Int) : Int := 0x800000 - 0x8000 * slot - 4

/-- The slot whose kernel stack an `esp0` is the top of. -/
def stackOf (esp0 : Int) : Int := (0x800000 - 4 - esp0) / 0x8000

@[simp] theorem stackOf_esp0 (slot : Int) : stackOf (esp0 slot) = slot := by
  unfold stackOf esp0; omega

/-- Entering the kernel from user mode switches to the stack in the TSS; inside the kernel an
interrupt stays on the stack it finds. -/
def enterKernel (k : Kernel) : Kernel :=
  match k.cpu.kont with
  | .user => { k with cpu := ⟨stackOf k.tssEsp0, .user⟩ }
  | _ => k

/-! ## Initial state -/

/-- The kernel's variables when `entry` calls `system_execute`: `init_terminals` and
`setup_paging` have run, everything else is as in `k`. The boot stack is the stack of slot 0. -/
def init (tab : TableAddr) (k : Kernel) : Kernel :=
  { k with
    processNum := fun _ => -1
    activeTerminal := 0
    mainProcess := 0
    currTask := fun _ => -1
    tssEsp0 := 0x800000
    paging := setupPaging tab k.paging
    cpu := ⟨0, .idle⟩
    hung := false }

/-! ## A small machine -/

def sampleTable : TableAddr := ⟨0x400, by decide, by decide⟩

/-- Stack buffers that hold zeros. -/
def noJunk : Nat → UInt8 := fun _ => 0

/-- Memory before the kernel starts: the stale PCB of slot `p` holds `stalePid p`, everything else
is zero. -/
def sampleKernel (stalePid : Int → UInt8) : Kernel where
  processNum := fun _ => -1
  activeTerminal := 0
  mainProcess := 0
  currTask := fun _ => 0
  beforeTerminals := 0
  pcb := fun p => ⟨stalePid p, 0, 0, ⟨0, .boot, .idle⟩, ⟨0, .user⟩⟩
  tssEsp0 := 0
  paging := ⟨fun _ => 0, fun _ => 0⟩
  mem := fun _ => 0
  argBuf := []
  padding := []
  entryPoint := 0
  cpu := ⟨0, .idle⟩
  hung := false

end Kernel

end SrirachOS
