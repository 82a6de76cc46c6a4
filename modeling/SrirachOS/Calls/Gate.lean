import Mathlib.Tactic.IntervalCases
import SrirachOS.Foundation.Stack

/-!
# The System Call Gate

`int 0x80` enters `syscall_wrapper` with the interrupt frame on the kernel stack. The wrapper saves
the registers, compares `eax` with its bounds and jumps through `syscall_table`; each
handler calls its C function, takes the arguments off and restores the registers.

- `run_restore`: the restoring instructions undo the saving ones, `popl %esp` included,
- `run_handler`: a handler calls its own C function once, with `ebx`, `ecx` and `edx`,
- `gate_ok_iff`: the bound is 10 and the table has entries up to 8, so the gate keeps its contract
  exactly for the numbers other than 9 and 10.
-/

namespace SrirachOS

open Foundation

/-! ## The processor -/

inductive Reg | eax | ecx | edx | ebx | esp | ebp | esi | edi
  deriving DecidableEq, Repr

/-- The registers and the memory; `cmpl` leaves its outcome in `below` and `equal`. -/
structure Cpu where
  gpr : Reg → Word
  mem : Memory
  below : Bool
  equal : Bool

def Cpu.set (c : Cpu) (r : Reg) (v : Word) : Cpu :=
  { c with gpr := fun r' => if r' = r then v else c.gpr r' }

def Cpu.compare (c : Cpu) (v n : Word) : Cpu :=
  { c with below := decide (v < n), equal := decide (v = n) }

def Cpu.push (c : Cpu) (v : Word) : Cpu :=
  { c.set .esp (c.gpr .esp - 4) with mem := c.mem.store (c.gpr .esp - 4) v }

@[simp] theorem Cpu.set_gpr (c : Cpu) (r r' : Reg) (v : Word) :
    (c.set r v).gpr r' = if r' = r then v else c.gpr r' := rfl
@[simp] theorem Cpu.set_mem (c : Cpu) (r : Reg) (v : Word) : (c.set r v).mem = c.mem := rfl
@[simp] theorem Cpu.push_gpr (c : Cpu) (r : Reg) (v : Word) :
    (c.push v).gpr r = if r = .esp then c.gpr .esp - 4 else c.gpr r := rfl
@[simp] theorem Cpu.push_mem (c : Cpu) (v : Word) :
    (c.push v).mem = c.mem.store (c.gpr .esp - 4) v := rfl

/-- The handlers in `syscall_table`, in its order. -/
inductive Handler | halt | execute | read | write | «open» | close | getargs | vidmap
  deriving DecidableEq, Repr

inductive Label
  | badcode
  | handler (h : Handler)
  deriving DecidableEq, Repr

inductive Instr
  | pushl (r : Reg)
  | popl (r : Reg)
  | cld
  | sti
  | cmpl (n : Word) (r : Reg)
  | ja (l : Label)
  | jb (l : Label)
  | jmpTable
  | addl (n : Word) (r : Reg)
  | movl (n : Word) (r : Reg)
  | movb (src dst : Reg)
  | xorl (r : Reg)
  | call (h : Handler)
  | iret
  deriving DecidableEq, Repr

/-- Where a jump through the table leads: to a label, or to whatever address the long holds. -/
inductive Target
  | label (l : Label)
  | wild (addr : Word)
  deriving DecidableEq, Repr

/-- The C functions `system_halt`, ..., `system_vidmap`, each taking the state in which it is
entered to the one in which it has returned, and the addresses behind the calls of them. -/
structure Callees where
  system : Handler → Cpu → Cpu
  returnTo : Handler → Word

/-! ## The code -/

/-- `.long badcode, halt, execute, read, write, open, close, getargs, vidmap` -/
def syscallTable : List Label :=
  [.badcode, .handler .halt, .handler .execute, .handler .read, .handler .write, .handler .open,
    .handler .close, .handler .getargs, .handler .vidmap]

/-- The bytes behind the table: `popl` of edi, esi, ebp, esp, ebx, edx and ecx, then
`addl $4, %esp` and `iret`. -/
def afterTable : List (BitVec 8) := [0x5f, 0x5e, 0x5d, 0x5c, 0x5b, 0x5a, 0x59, 0x83, 0xc4, 0x04, 0xcf]

/-- The long at `syscall_table(,%eax,4)`. -/
def tableLong (n : Nat) : Target :=
  match syscallTable[n]? with
  | some l => .label l
  | none =>
    let byte i := afterTable.getD (4 * (n - syscallTable.length) + i) 0
    .wild (byte 3 ++ byte 2 ++ byte 1 ++ byte 0)

def saveRegisters : List Instr :=
  [.pushl .eax, .pushl .ecx, .pushl .edx, .pushl .ebx, .pushl .esp, .pushl .ebp, .pushl .esi,
    .pushl .edi]

def restoreRegisters : List Instr :=
  [.popl .edi, .popl .esi, .popl .ebp, .popl .esp, .popl .ebx, .popl .edx, .popl .ecx,
    .addl 4 .esp]

def dispatch : List Instr :=
  [.cld, .cmpl 10 .eax, .ja .badcode, .cmpl 1 .eax, .jb .badcode, .pushl .edx, .pushl .ecx,
    .pushl .ebx, .sti, .jmpTable]

def wrapperCode : List Instr := saveRegisters ++ dispatch

/-- The code at a label. `halt` first clears all of `ebx` but its low byte. -/
def codeAt : Label → List Instr
  | .badcode => restoreRegisters ++ [.movl (-1) .eax, .iret]
  | .handler .halt =>
    [.movb .ebx .ecx, .xorl .ebx, .movb .ecx .ebx, .call .halt, .addl 12 .esp] ++
      restoreRegisters ++ [.iret]
  | .handler h => [.call h, .addl 12 .esp] ++ restoreRegisters ++ [.iret]

/-! ## Running it -/

/-- A call of a C function, with the state in which it is entered. -/
abbrev CallMade := Handler × Cpu

/-- How a stretch of code is left. -/
inductive Exit
  | iret (calls : List CallMade) (c : Cpu)
  | jump (t : Target) (calls : List CallMade) (c : Cpu)
  | off (calls : List CallMade) (c : Cpu)

/-- The instructions in order, up to the first that leaves them. -/
def runCode (k : Callees) : List Instr → List CallMade → Cpu → Exit
  | [], calls, c => .off calls c
  | .pushl r :: code, calls, c => runCode k code calls (c.push (c.gpr r))
  | .popl r :: code, calls, c =>
    runCode k code calls ((c.set .esp (c.gpr .esp + 4)).set r (c.mem.load (c.gpr .esp)))
  | .cld :: code, calls, c => runCode k code calls c
  | .sti :: code, calls, c => runCode k code calls c
  | .cmpl n r :: code, calls, c =>
    runCode k code calls (c.compare (c.gpr r) n)
  | .ja l :: code, calls, c =>
    if !c.below && !c.equal then .jump (.label l) calls c else runCode k code calls c
  | .jb l :: code, calls, c => if c.below then .jump (.label l) calls c else runCode k code calls c
  | .jmpTable :: _, calls, c => .jump (tableLong (c.gpr .eax).toNat) calls c
  | .addl n r :: code, calls, c => runCode k code calls (c.set r (c.gpr r + n))
  | .movl n r :: code, calls, c => runCode k code calls (c.set r n)
  | .movb src dst :: code, calls, c =>
    runCode k code calls
      (c.set dst ((c.gpr dst).extractLsb' 8 24 ++ (c.gpr src).extractLsb' 0 8))
  | .xorl r :: code, calls, c => runCode k code calls (c.set r (c.gpr r ^^^ c.gpr r))
  | .call h :: code, calls, c =>
    let entered := c.push (k.returnTo h)
    runCode k code (calls ++ [(h, entered)]) (k.system h entered)
  | .iret :: _, calls, c => .iret calls c

/-- From `int 0x80`: the code behind a label leads to no other label. -/
def syscallWrapper (k : Callees) (c : Cpu) : Exit :=
  match runCode k wrapperCode [] c with
  | .jump (.label l) calls c' => runCode k (codeAt l) calls c'
  | left => left

/-! ## What the gate is for -/

/-- The number the user library gives a call. -/
def Handler.number : Handler → Nat
  | .halt => 1
  | .execute => 2
  | .read => 3
  | .write => 4
  | .open => 5
  | .close => 6
  | .getargs => 7
  | .vidmap => 8

/-- The label a number should lead to. -/
def labelOf (eax : Word) : Label :=
  match [Handler.halt, .execute, .read, .write, .open, .close, .getargs, .vidmap].find?
      fun h => h.number = eax.toNat with
  | some h => .handler h
  | none => .badcode

/-- A C function returns with its return address popped, keeps the registers that are its caller's
and stores nothing in its caller's frame above its own three arguments: the saved registers
and the five words of the interrupt frame. -/
structure Conventional (f : Cpu → Cpu) : Prop where
  returns : ∀ c, (f c).gpr .esp = c.gpr .esp + 4
  saved : ∀ c, ∀ r ∈ [Reg.ebx, .esi, .edi, .ebp], (f c).gpr r = c.gpr r
  frame : ∀ c, Kept c.mem (f c).mem (c.gpr .esp + 16) 52

/-- The state after `iret`'s stack pointer is reached: the interrupt frame of the caller, its
registers, and in `eax` the result of the one call made, or -1 when none was. -/
structure Returned (k : Callees) (c : Cpu) (calls : List CallMade) (out : Cpu) : Prop where
  stack : out.gpr .esp = c.gpr .esp
  frame : Kept c.mem out.mem (c.gpr .esp) 20
  registers : ∀ r ∈ [Reg.ebx, .ecx, .edx, .esi, .edi, .ebp], out.gpr r = c.gpr r
  result : match labelOf (c.gpr .eax) with
    | .badcode => calls = [] ∧ out.gpr .eax = -1
    | .handler h => ∃ entered, calls = [(h, entered)] ∧
        Holds entered.mem (entered.gpr .esp + 4) [c.gpr .ebx, c.gpr .ecx, c.gpr .edx] ∧
        out.gpr .eax = (k.system h entered).gpr .eax

/-- Control goes to the handler with the number in `eax`, or to `badcode`, and comes back. -/
def GateOk (k : Callees) (c : Cpu) : Prop :=
  (∃ c', runCode k wrapperCode [] c = .jump (.label (labelOf (c.gpr .eax))) [] c') ∧
    ∃ calls out, syscallWrapper k c = .iret calls out ∧ Returned k c calls out

/-! ## The stack between `int 0x80` and `iret` -/

/-- `ws` is what has been pushed since the interrupt, and the interrupt frame is kept. -/
structure Stacked (c₀ c : Cpu) (ws : List Word) : Prop where
  pointer : c.gpr .esp + BitVec.ofNat 32 (4 * ws.length) = c₀.gpr .esp
  words : Holds c.mem (c.gpr .esp) ws
  frame : Kept c₀.mem c.mem (c₀.gpr .esp) 20

namespace Stacked

variable {c₀ c : Cpu} {w : Word} {ws : List Word}

theorem refl (c : Cpu) : Stacked c c [] := ⟨by simp, trivial, .refl _ _ _⟩

theorem push (h : Stacked c₀ c ws) (v : Word) (hlen : ws.length < 100) :
    Stacked c₀ (c.push v) (v :: ws) := by
  obtain ⟨hpointer, hwords, hframe⟩ := h
  refine ⟨?_, ?_, hframe.trans ?_⟩
  · simp only [Cpu.push_gpr, if_true, List.length_cons]
    rw [← hpointer]
    bv_omega
  · simpa using hwords.push v (by omega)
  · -- the frame lies above everything pushed so far
    have habove := (Kept.store c.mem (c.gpr .esp) v (n := 420) (by omega)).above (4 * ws.length)
    rw [hpointer] at habove
    exact habove.mono (by omega)

/-- A comparison only moves the flags. -/
theorem compare (h : Stacked c₀ c ws) (v n : Word) : Stacked c₀ (c.compare v n) ws :=
  ⟨h.pointer, h.words, h.frame⟩

end Stacked

/-- The saved registers, the last pushed first. -/
def savedRegisters (c : Cpu) : List Word :=
  [c.gpr .edi, c.gpr .esi, c.gpr .ebp, c.gpr .esp - 16, c.gpr .ebx, c.gpr .edx, c.gpr .ecx,
    c.gpr .eax]

theorem run_save (k : Callees) (code : List Instr) (calls : List CallMade) (c : Cpu) :
    ∃ c', runCode k (saveRegisters ++ code) calls c = runCode k code calls c' ∧
      Stacked c c' (savedRegisters c) ∧ ∀ r ≠ Reg.esp, c'.gpr r = c.gpr r := by
  refine ⟨_, rfl, ?_, ?_⟩
  · have hpushed := ((((((((Stacked.refl c).push (c.gpr .eax) (by decide)).push (c.gpr .ecx)
      (by simp)).push (c.gpr .edx) (by simp)).push (c.gpr .ebx) (by simp)).push
      (c.gpr .esp - 4 - 4 - 4 - 4) (by simp)).push (c.gpr .ebp) (by simp)).push (c.gpr .esi)
      (by simp)).push (c.gpr .edi) (by simp)
    have hesp : c.gpr .esp - 16 = c.gpr .esp - 4 - 4 - 4 - 4 := by bv_omega
    rw [savedRegisters, hesp]
    exact hpushed
  · intro r hr
    simp [hr]

/-- The registers a caller finds as it left them. -/
def Restored (c₀ c : Cpu) : Prop :=
  c.gpr .esp = c₀.gpr .esp ∧
    ∀ r ∈ [Reg.ebx, .ecx, .edx, .esi, .edi, .ebp], c.gpr r = c₀.gpr r

theorem run_restore (k : Callees) (code : List Instr) (calls : List CallMade) {c₀ c : Cpu}
    (h : Stacked c₀ c (savedRegisters c₀)) :
    ∃ c', runCode k (restoreRegisters ++ code) calls c = runCode k code calls c' ∧
      Restored c₀ c' ∧ c'.mem = c.mem ∧ c'.gpr .eax = c.gpr .eax := by
  obtain ⟨hpointer, ⟨hedi, hesi, hebp, hesp, hebx, hedx, hecx, heax, -⟩, -⟩ := h
  -- `popl %esp` sets the pointer back to where it already stands
  have hback : c₀.gpr .esp - 16 = c.gpr .esp + 4 + 4 + 4 + 4 := by
    simp only [savedRegisters, List.length_cons, List.length_nil] at hpointer
    bv_omega
  rw [hback] at hesp
  have htop : c.gpr .esp + 4 + 4 + 4 + 4 + 4 + 4 + 4 + 4 = c₀.gpr .esp := by
    bv_omega
  refine ⟨_, rfl, ⟨?_, ?_⟩, rfl, by simp⟩
  · simp only [Cpu.set_gpr, Cpu.set_mem, reduceCtorEq, if_true, if_false, hesp, htop]
  · simp only [Cpu.set_gpr, Cpu.set_mem, reduceCtorEq, if_true, if_false, hedi, hesi, hebp, hesp,
      hebx, hedx, hecx, List.forall_mem_cons, List.not_mem_nil, false_implies, implies_true,
      and_self]

/-! ## The wrapper's own code -/

/-- The arguments pushed, in the state in which both comparisons have passed. -/
def Cpu.withArguments (c : Cpu) : Cpu :=
  (((c.compare (c.gpr .eax) 1).push (c.gpr .edx)).push (c.gpr .ecx)).push (c.gpr .ebx)

/-- The bounds are compared without a sign, and what passes them indexes the table. -/
theorem run_dispatch (k : Callees) (calls : List CallMade) (c : Cpu) :
    runCode k dispatch calls c =
      if 10 < c.gpr .eax then .jump (.label .badcode) calls (c.compare (c.gpr .eax) 10)
      else if c.gpr .eax < 1 then .jump (.label .badcode) calls (c.compare (c.gpr .eax) 1)
      else .jump (tableLong (c.gpr .eax).toNat) calls c.withArguments := by
  have habove : (!(c.compare (c.gpr .eax) 10).below && !(c.compare (c.gpr .eax) 10).equal) =
      decide (10 < c.gpr .eax) := by
    rw [Bool.eq_iff_iff]
    simp only [Cpu.compare, Bool.and_eq_true, Bool.not_eq_true', decide_eq_false_iff_not,
      decide_eq_true_eq]
    bv_omega
  have hbelow : ((c.compare (c.gpr .eax) 10).compare (c.gpr .eax) 1).below =
      decide (c.gpr .eax < 1) := rfl
  rw [dispatch, runCode, runCode, runCode, habove]
  by_cases hlarge : 10 < c.gpr .eax
  · simp only [hlarge, decide_true, if_true]
  · simp only [hlarge, decide_false, Bool.false_eq_true, if_false]
    rw [runCode, runCode]
    change (if ((c.compare (c.gpr .eax) 10).compare (c.gpr .eax) 1).below then _ else _) = _
    rw [hbelow]
    by_cases hsmall : c.gpr .eax < 1
    · simp only [hsmall, decide_true, if_true]
      rfl
    · simp only [hsmall, decide_false, Bool.false_eq_true, if_false]
      rfl

/-! ## The code behind the labels -/

theorem run_badcode (k : Callees) {c₀ c : Cpu} (h : Stacked c₀ c (savedRegisters c₀)) :
    ∃ out, runCode k (codeAt .badcode) [] c = .iret [] out ∧ Restored c₀ out ∧
      Kept c₀.mem out.mem (c₀.gpr .esp) 20 ∧ out.gpr .eax = -1 := by
  obtain ⟨c', hrun, ⟨hesp, hregs⟩, hmem, -⟩ := run_restore k [.movl (-1) .eax, .iret] [] h
  rw [codeAt, hrun]
  refine ⟨_, rfl, ⟨by simpa using hesp, ?_⟩, ?_, by simp⟩
  · intro r hr
    have hr' : r ≠ .eax := by
      rintro rfl
      simp at hr
    rw [Cpu.set_gpr, if_neg hr']
    exact hregs r hr
  · rw [Cpu.set_mem, hmem]
    exact h.frame

/-- The part of `halt` before its call touches neither the stack nor its pointer. -/
theorem codeAt_handler (k : Callees) (h : Handler) (calls : List CallMade) (c : Cpu) :
    ∃ c', runCode k (codeAt (.handler h)) calls c =
        runCode k ([.call h, .addl 12 .esp] ++ restoreRegisters ++ [.iret]) calls c' ∧
      c'.gpr .esp = c.gpr .esp ∧ c'.mem = c.mem := by
  cases h
  case halt => exact ⟨_, rfl, by simp, rfl⟩
  all_goals exact ⟨c, rfl, rfl, rfl⟩

/-- A conventional callee leaves what lies above its arguments, and returns to its caller. -/
theorem Stacked.call {c₀ c : Cpu} {f : Cpu → Cpu} {a b d : Word} (hf : Conventional f)
    (h : Stacked c₀ c ([a, b, d] ++ savedRegisters c₀)) (ret : Word) :
    Stacked c₀ ((f (c.push ret)).set .esp ((f (c.push ret)).gpr .esp + 12))
      (savedRegisters c₀) := by
  obtain ⟨hpointer, hwords, hframe⟩ := h.push ret (by simp [savedRegisters])
  have hkept := hf.frame (c.push ret)
  have hreturns := hf.returns (c.push ret)
  generalize c.push ret = entered at *
  have hsp : entered.gpr .esp + 4 + 12 = entered.gpr .esp + 16 := by bv_omega
  have htop : entered.gpr .esp + 16 + BitVec.ofNat 32 32 = c₀.gpr .esp := by
    simp only [savedRegisters, List.cons_append, List.nil_append, List.length_cons,
      List.length_nil] at hpointer
    bv_omega
  refine ⟨?_, ?_, hframe.trans ?_⟩
  · rw [Cpu.set_gpr, if_pos rfl, hreturns, hsp]
    exact htop
  · rw [Cpu.set_gpr, if_pos rfl, hreturns, hsp]
    exact Holds.of_kept (hwords.drop 4) (hkept.mono (by simp [savedRegisters]))
  · have habove := hkept.above 32
    rw [htop] at habove
    exact habove

/-- A handler calls its own C function, once, with the three registers as arguments. -/
theorem run_handler (k : Callees) (h : Handler) (hf : Conventional (k.system h)) {c₀ c : Cpu}
    (hst : Stacked c₀ c ([c₀.gpr .ebx, c₀.gpr .ecx, c₀.gpr .edx] ++ savedRegisters c₀)) :
    ∃ out entered, runCode k (codeAt (.handler h)) [] c = .iret [(h, entered)] out ∧
      Restored c₀ out ∧ Kept c₀.mem out.mem (c₀.gpr .esp) 20 ∧
      Holds entered.mem (entered.gpr .esp + 4) [c₀.gpr .ebx, c₀.gpr .ecx, c₀.gpr .edx] ∧
      out.gpr .eax = (k.system h entered).gpr .eax := by
  obtain ⟨before, hbefore, hesp, hmem⟩ := codeAt_handler k h [] c
  have hargs : Stacked c₀ before ([c₀.gpr .ebx, c₀.gpr .ecx, c₀.gpr .edx] ++ savedRegisters c₀) := by
    obtain ⟨hpointer, hwords, hframe⟩ := hst
    exact ⟨by rwa [hesp], by rwa [hesp, hmem], by rwa [hmem]⟩
  have hback := hargs.call hf (k.returnTo h)
  obtain ⟨out, hrun, hrestored, houtmem, heax⟩ :=
    run_restore k [.iret] [(h, before.push (k.returnTo h))] hback
  refine ⟨out, before.push (k.returnTo h), ?_, hrestored, ?_, ?_, ?_⟩
  · rw [hbefore]
    exact hrun
  · rw [houtmem]
    exact hback.frame
  · have hpushed := (hargs.push (k.returnTo h) (by simp [savedRegisters])).words.pop
    obtain ⟨hebx, hecx, hedx, -⟩ := hpushed
    exact ⟨hebx, hecx, hedx, trivial⟩
  · rw [heax, Cpu.set_gpr, if_neg (by decide)]

/-! ## The table against the numbers -/

/-- Up to its last entry the table has each number's handler, `badcode` for 0. -/
theorem tableLong_eq (eax : Word) (h : eax.toNat < 9) :
    tableLong eax.toNat = .label (labelOf eax) := by
  unfold labelOf
  generalize eax.toNat = n at h
  interval_cases n <;> rfl

theorem labelOf_handler (eax : Word) (h : 1 ≤ eax.toNat) (h' : eax.toNat < 9) :
    ∃ handler, labelOf eax = .handler handler := by
  unfold labelOf
  generalize eax.toNat = n at h h'
  interval_cases n <;> exact ⟨_, rfl⟩

/-- Past it there are the opcodes of the instructions that follow. -/
theorem tableLong_past (n : Nat) (h : n = 9 ∨ n = 10) (l : Label) : tableLong n ≠ .label l := by
  rcases h with rfl | rfl <;> exact nofun

theorem labelOf_bad (eax : Word) (h : eax.toNat = 0 ∨ 8 < eax.toNat) : labelOf eax = .badcode := by
  unfold labelOf
  have hnone : ∀ m ∈ [1, 2, 3, 4, 5, 6, 7, 8], ¬m = eax.toNat := by
    intro m hm
    simp only [List.mem_cons, List.not_mem_nil, or_false] at hm
    omega
  simp only [List.forall_mem_cons] at hnone
  obtain ⟨h1, h2, h3, h4, h5, h6, h7, h8, -⟩ := hnone
  simp only [Handler.number, List.find?_cons, h1, h2, h3, h4, h5, h6, h7, h8, decide_false,
    List.find?_nil]

/-! ## The contract -/

/-- A number without a handler that is caught by the comparisons. -/
theorem gate_badcode (k : Callees) {c c' : Cpu} (hst : Stacked c c' (savedRegisters c))
    (hlabel : labelOf (c.gpr .eax) = .badcode)
    (hrun : runCode k wrapperCode [] c = .jump (.label .badcode) [] c') : GateOk k c := by
  obtain ⟨out, hout, ⟨hback, hregs⟩, hframe, heax⟩ := run_badcode k hst
  refine ⟨⟨c', by rw [hlabel, hrun]⟩, [], out, ?_, hback, hframe, hregs, ?_⟩
  · rw [syscallWrapper, hrun]
    exact hout
  · rw [hlabel]
    exact ⟨rfl, heax⟩

/-- A number for which the table has a long. -/
theorem gate_handler (k : Callees) {c c' : Cpu} (hf : ∀ h, Conventional (k.system h))
    (hst : Stacked c c' ([c.gpr .ebx, c.gpr .ecx, c.gpr .edx] ++ savedRegisters c)) {h : Handler}
    (hlabel : labelOf (c.gpr .eax) = .handler h)
    (hrun : runCode k wrapperCode [] c = .jump (.label (.handler h)) [] c') : GateOk k c := by
  obtain ⟨out, entered, hout, ⟨hback, hregs⟩, hframe, hargs, heax⟩ := run_handler k h (hf h) hst
  refine ⟨⟨c', by rw [hlabel, hrun]⟩, [(h, entered)], out, ?_, hback, hframe, hregs, ?_⟩
  · rw [syscallWrapper, hrun]
    exact hout
  · rw [hlabel]
    exact ⟨entered, rfl, hargs, heax⟩

/-- **The gate keeps its contract for every number but 9 and 10**, which pass the comparison with
`NUM_SYSCALLS` and have no long in the table. -/
theorem gate_ok_iff (k : Callees) (hf : ∀ h, Conventional (k.system h)) (c : Cpu) :
    GateOk k c ↔ c.gpr .eax ≠ 9 ∧ c.gpr .eax ≠ 10 := by
  obtain ⟨saved, hsave, hstacked, hkept⟩ := run_save k dispatch [] c
  have heax : saved.gpr .eax = c.gpr .eax := hkept .eax (by decide)
  have hwrapper : runCode k wrapperCode [] c = runCode k dispatch [] saved := hsave
  rw [run_dispatch, heax] at hwrapper
  by_cases hlarge : 10 < c.gpr .eax
  · rw [if_pos hlarge] at hwrapper
    have hlabel := labelOf_bad (c.gpr .eax) (.inr (by bv_omega))
    refine iff_of_true ?_ ⟨by bv_omega, by bv_omega⟩
    exact gate_badcode k (hstacked.compare _ _) hlabel hwrapper
  rw [if_neg hlarge] at hwrapper
  by_cases hsmall : c.gpr .eax < 1
  · rw [if_pos hsmall] at hwrapper
    have hlabel := labelOf_bad (c.gpr .eax) (.inl (by bv_omega))
    refine iff_of_true ?_ ⟨by bv_omega, by bv_omega⟩
    exact gate_badcode k (hstacked.compare _ _) hlabel hwrapper
  rw [if_neg hsmall] at hwrapper
  by_cases htable : (c.gpr .eax).toNat < 9
  · rw [tableLong_eq _ htable] at hwrapper
    obtain ⟨h, hlabel⟩ := labelOf_handler (c.gpr .eax) (by bv_omega) htable
    rw [hlabel] at hwrapper
    have hargs : Stacked c saved.withArguments
        ([c.gpr .ebx, c.gpr .ecx, c.gpr .edx] ++ savedRegisters c) := by
      rw [Cpu.withArguments, hkept .edx (by decide), hkept .ecx (by decide), hkept .ebx (by decide)]
      apply Stacked.push _ _ (by simp [savedRegisters])
      apply Stacked.push _ _ (by simp [savedRegisters])
      apply Stacked.push _ _ (by simp [savedRegisters])
      exact hstacked.compare _ _
    refine iff_of_true ?_ ⟨by bv_omega, by bv_omega⟩
    exact gate_handler k hf hargs hlabel hwrapper
  · -- the jump goes to the address that two of the opcodes behind the table spell
    have hpast : (c.gpr .eax).toNat = 9 ∨ (c.gpr .eax).toNat = 10 := by bv_omega
    refine iff_of_false ?_ (by bv_omega)
    rintro ⟨⟨c', hrun⟩, -⟩
    rw [hwrapper, Exit.jump.injEq] at hrun
    exact tableLong_past _ hpast _ hrun.1

/-- A C function that overwrites its first argument and returns 7. -/
def plainCallee (c : Cpu) : Cpu :=
  { (c.set .esp (c.gpr .esp + 4)).set .eax 7 with mem := c.mem.store (c.gpr .esp + 4) 0 }

theorem plainCallee_conventional : Conventional plainCallee := by
  refine ⟨fun c => by simp [plainCallee], ?_, ?_⟩
  · intro c r hr
    simp only [List.mem_cons, List.not_mem_nil, or_false] at hr
    rcases hr with rfl | rfl | rfl | rfl <;> simp [plainCallee]
  · intro c i hi
    apply Memory.store_other
    intro j hj
    bv_omega

def plainCallees : Callees := ⟨fun _ => plainCallee, fun _ => 0x401000⟩

/-- A process in `int 0x80` with this number in `eax`. -/
def interrupted (eax : Word) : Cpu where
  gpr r :=
    match r with
    | .eax => eax
    | .esp => 0x7fffec
    | .ebp => 0x83fffc0
    | _ => 1
  mem _ := 0
  below := false
  equal := false

theorem gate_ok_iff_sample :
    GateOk plainCallees (interrupted 3) ↔ (3 : Word) ≠ 9 ∧ (3 : Word) ≠ 10 :=
  gate_ok_iff plainCallees (fun _ => plainCallee_conventional) (interrupted 3)

/-- `set_handler`, number 9 in the user library, is jumped to at `0x5c5d5e5f`. -/
theorem gate_jumps_wild :
    (∀ h, Conventional (plainCallees.system h)) ∧
      (∃ c', syscallWrapper plainCallees (interrupted 9) = .jump (.wild 0x5c5d5e5f) [] c') ∧
      ¬ GateOk plainCallees (interrupted 9) := by
  have hwild : ∃ c', syscallWrapper plainCallees (interrupted 9) =
      .jump (.wild 0x5c5d5e5f) [] c' := ⟨_, rfl⟩
  refine ⟨fun _ => plainCallee_conventional, hwild, ?_⟩
  rintro ⟨-, calls, out, hiret, -⟩
  obtain ⟨c', hjump⟩ := hwild
  rw [hjump] at hiret
  cases hiret

end SrirachOS
