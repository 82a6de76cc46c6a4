import SrirachOS.Calls.Gate

/-!
# The Calls of the User Library

A user program calls the kernel through the wrappers of `ece391syscall.S`: one saves `ebx`, takes its
arguments off the user stack into registers, and interrupts. The processor changes to the kernel stack and
leaves the interrupt frame there; `iret` goes back to the user stack.

- `syscallWrapper_entered`: what the gate stores before its call lies on the kernel stack, and behind the
  call it stores nothing,
- `libraryCall_returns`: a call of the library is one call of the kernel function of its name, and returns
  like a C function; all that the two wrappers and the interrupt store are the saved `ebx` and 68 bytes of
  the kernel stack.
-/

namespace SrirachOS

open Foundation

/-! ## ece391syscall.S -/

/-- What the interrupt pushes of a process besides its stack pointer and the address to return to. -/
structure UserSegments where
  ss : Word
  eflags : Word
  cs : Word

/-- `INT $0x80` in user mode, with the stack pointer of the TSS and the address behind the instruction. -/
def Cpu.enterKernel (esp0 eip : Word) (u : UserSegments) (c : Cpu) : Cpu :=
  (((((c.set .esp esp0).push u.ss).push (c.gpr .esp)).push u.eflags).push u.cs).push eip

/-- `iret` to user mode: the address to go on at, and the stack pointer that was pushed. -/
def Cpu.leaveKernel (c : Cpu) : Word × Cpu :=
  (c.mem.load (c.gpr .esp), c.set .esp (c.mem.load (c.gpr .esp + 12)))

/-- `PUSHL %EBX`, the number, and the arguments in their registers. -/
def Cpu.prepareCall (number : Word) (c : Cpu) : Cpu :=
  let c := c.push (c.gpr .ebx)
  let c := c.set .eax number
  let c := c.set .ebx (c.mem.load (c.gpr .esp + 8))
  let c := c.set .ecx (c.mem.load (c.gpr .esp + 12))
  c.set .edx (c.mem.load (c.gpr .esp + 16))

/-- `DO_CALL(name, number)`, from the call of `name` on: the kernel functions that have been called, and
where `RET` goes. A call that does not come back behind the interrupt has no result. -/
def doCall (k : Callees) (esp0 eip : Word) (u : UserSegments) (number : Word) (c : Cpu) :
    Option (List CallMade × Word × Cpu) :=
  match syscallWrapper k ((c.prepareCall number).enterKernel esp0 eip u) with
  | .iret calls out =>
    let (back, c) := out.leaveKernel
    if back = eip then
      let c := (c.set .esp (c.gpr .esp + 4)).set .ebx (c.mem.load (c.gpr .esp))
      some (calls, c.mem.load (c.gpr .esp), c.set .esp (c.gpr .esp + 4))
    else none
  | .jump _ _ _ => none
  | .off _ _ => none

/-! ## What the gate stores -/

/-- The bytes of two blocks are different ones. -/
def BlocksApart (a : Word) (n : Nat) (b : Word) (m : Nat) : Prop :=
  ∀ i < n, ∀ j < m, a + BitVec.ofNat 32 i ≠ b + BitVec.ofNat 32 j

/-- `m` words have been pushed, and a block elsewhere has been kept. -/
structure Sunk (a : Word) (n : Nat) (c₀ c : Cpu) (m : Nat) : Prop where
  pointer : c.gpr .esp + BitVec.ofNat 32 (4 * m) = c₀.gpr .esp
  kept : Kept c₀.mem c.mem a n

variable {a top : Word} {n m : Nat} {c₀ c : Cpu}

theorem Sunk.refl (c : Cpu) : Sunk a n c c 0 := ⟨by simp, .refl _ _ _⟩

theorem Sunk.push (h : Sunk a n c₀ c m) (v : Word) {k : Nat}
    (hapart : BlocksApart a n (c₀.gpr .esp - BitVec.ofNat 32 (4 * m + 4 + k)) (4 * m + 4 + k)) :
    Sunk a n c₀ (c.push v) (m + 1) where
  pointer := by
    rw [Cpu.push_gpr, if_pos rfl, ← h.pointer, Nat.mul_add, BitVec.ofNat_add]
    generalize BitVec.ofNat 32 (4 * m) = pushed
    bv_omega
  kept := by
    refine h.kept.trans fun i hi => ?_
    rw [Cpu.push_mem]
    apply Memory.store_other
    intro j hj heq
    apply hapart i hi (k + j) (by omega)
    rw [heq, ← h.pointer]
    simp only [BitVec.ofNat_add]
    grind

/-- The registers that are saved. -/
theorem run_save_sunk (k : Callees) (code : List Instr) (calls : List CallMade) (c : Cpu) :
    ∃ saved, runCode k (saveRegisters ++ code) calls c = runCode k code calls saved ∧
      (∀ r ≠ Reg.esp, saved.gpr r = c.gpr r) ∧
      ∀ a n, BlocksApart a n (c.gpr .esp - 48) 48 → Sunk a n c saved 8 := by
  refine ⟨_, rfl, fun r hr => by simp [hr], ?_⟩
  intro a n hapart
  exact ((((((((Sunk.refl c).push _ (k := 44) hapart).push _ (k := 40) hapart).push _ (k := 36) hapart).push
    _ (k := 32) hapart).push _ (k := 28) hapart).push _ (k := 24) hapart).push _ (k := 20) hapart).push
    _ (k := 16) hapart

theorem Sunk.compare (h : Sunk a n c₀ c m) (v w : Word) : Sunk a n c₀ (c.compare v w) m :=
  ⟨h.pointer, h.kept⟩

/-- An instruction that may store. -/
def Instr.stores : Instr → Bool
  | .pushl _ => true
  | .call _ => true
  | _ => false

/-- Code without one leaves the memory, and makes no call. -/
theorem runCode_quiet (k : Callees) {code : List Instr} (hcode : ∀ i ∈ code, i.stores = false)
    {calls calls' : List CallMade} {out : Cpu} (hrun : runCode k code calls c = .iret calls' out) :
    calls' = calls ∧ out.mem = c.mem := by
  induction code generalizing c with
  | nil => cases hrun
  | cons i code ih =>
    obtain ⟨hi, hrest⟩ := List.forall_mem_cons.mp hcode
    cases i with
    | pushl r => cases hi
    | call h => cases hi
    | iret =>
      obtain ⟨rfl, rfl⟩ := Exit.iret.inj hrun
      exact ⟨rfl, rfl⟩
    | jmpTable => cases hrun
    | ja l =>
      rw [runCode] at hrun
      split_ifs at hrun
      exact ih hrest hrun
    | jb l =>
      rw [runCode] at hrun
      split_ifs at hrun
      exact ih hrest hrun
    | popl r => exact ih (c := (c.set .esp _).set r _) hrest hrun
    | cld => exact ih hrest hrun
    | sti => exact ih hrest hrun
    | cmpl w r => exact ih (c := c.compare _ w) hrest hrun
    | addl w r => exact ih (c := c.set r _) hrest hrun
    | movl w r => exact ih (c := c.set r w) hrest hrun
    | movb src dst => exact ih (c := c.set dst _) hrest hrun
    | xorl r => exact ih (c := c.set r _) hrest hrun

/-- The label of a handler's number. -/
theorem labelOf_number {eax : Word} {h : Handler} (hnumber : eax.toNat = h.number) :
    labelOf eax = .handler h := by
  unfold labelOf
  rw [hnumber]
  cases h <;> rfl

theorem Handler.number_bounds (h : Handler) : 1 ≤ h.number ∧ h.number < 9 := by
  cases h <;> decide

/-- Where the wrapper's own code leads for the number of a handler. -/
theorem run_dispatch_number (k : Callees) {saved : Cpu} {h : Handler}
    (hnumber : (saved.gpr .eax).toNat = h.number) :
    runCode k dispatch [] saved = .jump (.label (.handler h)) [] saved.withArguments := by
  obtain ⟨hlow, hhigh⟩ := h.number_bounds
  rw [run_dispatch, if_neg (by bv_omega), if_neg (by bv_omega), tableLong_eq _ (by omega),
    labelOf_number hnumber]

/-- **The gate for the number of a handler.** -/
theorem gate_number (k : Callees) (hf : ∀ h, Conventional (k.system h)) {h : Handler}
    (hnumber : (c.gpr .eax).toNat = h.number) : GateOk k c := by
  obtain ⟨saved, hsave, hstacked, hkept⟩ := run_save k dispatch [] c
  have hargs : Stacked c saved.withArguments
      ([c.gpr .ebx, c.gpr .ecx, c.gpr .edx] ++ savedRegisters c) := by
    rw [Cpu.withArguments, hkept .edx (by decide), hkept .ecx (by decide), hkept .ebx (by decide)]
    apply Stacked.push _ _ (by simp [savedRegisters])
    apply Stacked.push _ _ (by simp [savedRegisters])
    apply Stacked.push _ _ (by simp [savedRegisters])
    exact hstacked.compare _ _
  refine gate_handler k hf hargs (labelOf_number hnumber) ?_
  exact hsave.trans (run_dispatch_number k (by rw [hkept .eax (by decide), hnumber]))

/-- **What the gate stores** before its call lies in the 48 bytes below the interrupt frame, and what the
kernel function leaves is what `iret` finds. -/
theorem syscallWrapper_entered (k : Callees) {h : Handler} (hnumber : (c.gpr .eax).toNat = h.number)
    {calls : List CallMade} {out : Cpu} (hrun : syscallWrapper k c = .iret calls out) :
    ∃ entered, calls = [(h, entered)] ∧ entered.gpr .esp = c.gpr .esp - 48 ∧
      out.mem = (k.system h entered).mem ∧
      ∀ a n, BlocksApart a n (c.gpr .esp - 48) 48 → Kept c.mem entered.mem a n := by
  obtain ⟨saved, hsave, hregs, hsunk⟩ := run_save_sunk k dispatch [] c
  have hwrapper : runCode k wrapperCode [] c = .jump (.label (.handler h)) [] saved.withArguments :=
    hsave.trans (run_dispatch_number k (by rw [hregs .eax (by decide), hnumber]))
  obtain ⟨before, hbefore, hesp, hmem⟩ := codeAt_handler k h [] saved.withArguments
  have hcalled : ∀ a n, BlocksApart a n (c.gpr .esp - 48) 48 →
      Sunk a n c (before.push (k.returnTo h)) 12 := by
    intro a n hapart
    have hargs : Sunk a n c saved.withArguments 11 :=
      ((((hsunk a n hapart).compare _ _).push _ (k := 12) hapart).push _ (k := 8) hapart).push _ (k := 4)
        hapart
    exact Sunk.push ⟨by rw [hesp]; exact hargs.pointer, by rw [hmem]; exact hargs.kept⟩ _ (k := 0) hapart
  have hpointer := (hcalled 0 0 nofun).pointer
  rw [syscallWrapper, hwrapper] at hrun
  have hcode : ∀ i ∈ [.addl 12 .esp] ++ restoreRegisters ++ [.iret], i.stores = false := by decide
  obtain ⟨hcalls, hquiet⟩ := runCode_quiet k hcode (hbefore.symm.trans hrun)
  refine ⟨before.push (k.returnTo h), hcalls, ?_, hquiet, fun a n hapart => (hcalled a n hapart).kept⟩
  rw [← hpointer]
  bv_omega

/-! ## A call of the library -/

/-- The registers of a call that has been prepared, and the two words on the user stack. -/
structure Prepared (number : Word) (c c' : Cpu) : Prop where
  esp : c'.gpr .esp = c.gpr .esp - 4
  eax : c'.gpr .eax = number
  args : [c'.gpr .ebx, c'.gpr .ecx, c'.gpr .edx] =
    [c.mem.load (c.gpr .esp + 4), c.mem.load (c.gpr .esp + 8), c.mem.load (c.gpr .esp + 12)]
  others : ∀ r ∈ [Reg.esi, .edi, .ebp], c'.gpr r = c.gpr r
  savedEbx : c'.mem.load (c.gpr .esp - 4) = c.gpr .ebx
  kept : ∀ a n, BlocksApart a n (c.gpr .esp - 4) 4 → Kept c.mem c'.mem a n
  returnAddress : c'.mem.load (c.gpr .esp) = c.mem.load (c.gpr .esp)

theorem prepareCall_prepared (number : Word) (c : Cpu) : Prepared number c (c.prepareCall number) := by
  have hkept : Kept c.mem (c.push (c.gpr .ebx)).mem (c.gpr .esp) 16 := Kept.store _ _ _ (by decide)
  have harg : ∀ d : Nat, d + 4 ≤ 16 → ∀ disp : Word, disp = BitVec.ofNat 32 (d + 4) →
      (c.push (c.gpr .ebx)).mem.load (c.gpr .esp - 4 + disp) =
        c.mem.load (c.gpr .esp + BitVec.ofNat 32 d) := by
    rintro d hd disp rfl
    have haddr : c.gpr .esp - 4 + BitVec.ofNat 32 (d + 4) = c.gpr .esp + BitVec.ofNat 32 d := by
      rw [BitVec.ofNat_add]
      grind
    rw [haddr]
    exact (hkept.above d).load (by omega)
  refine ⟨by simp [Cpu.prepareCall], by simp [Cpu.prepareCall], ?_, ?_, ?_, ?_, ?_⟩
  · simpa [Cpu.prepareCall] using ⟨harg 4 (by decide) 8 rfl, harg 8 (by decide) 12 rfl, harg 12 (by decide) 16 rfl⟩
  · simp [Cpu.prepareCall]
  · exact Memory.load_store ..
  · exact fun a n hapart i hi => Memory.store_other _ _ fun j hj => hapart i hi j hj
  · exact hkept.load (by decide)

/-- The interrupt frame. -/
theorem enterKernel_holds (esp0 eip : Word) (u : UserSegments) (c : Cpu) :
    (c.enterKernel esp0 eip u).gpr .esp = esp0 - 20 ∧
      Holds (c.enterKernel esp0 eip u).mem (esp0 - 20) [eip, u.cs, u.eflags, c.gpr .esp, u.ss] := by
  have hempty : Holds c.mem esp0 [] := trivial
  have hframe := ((((hempty.push u.ss (by simp)).push (c.gpr .esp) (by simp)).push u.eflags
    (by simp)).push u.cs (by simp)).push eip (by simp)
  have htop : esp0 - 20 = esp0 - 4 - 4 - 4 - 4 - 4 := by bv_omega
  rw [htop]
  exact ⟨by simp [Cpu.enterKernel], by simpa [Cpu.enterKernel] using hframe⟩

theorem enterKernel_other (esp0 eip : Word) (u : UserSegments) (c : Cpu) {r : Reg} (hr : r ≠ .esp) :
    (c.enterKernel esp0 eip u).gpr r = c.gpr r := by
  simp [Cpu.enterKernel, hr]

theorem enterKernel_kept {esp0 : Word} (eip : Word) (u : UserSegments) (c : Cpu)
    (hapart : BlocksApart a n (esp0 - 68) 68) : Kept c.mem (c.enterKernel esp0 eip u).mem a n := by
  have hsunk : Sunk a n (c.set .esp esp0) (c.enterKernel esp0 eip u) 5 :=
    (((((Sunk.refl (c.set .esp esp0)).push _ (k := 64) hapart).push _ (k := 60) hapart).push _ (k := 56)
      hapart).push _ (k := 52) hapart).push _ (k := 48) hapart
  exact hsunk.kept

/-- **From user mode** the interrupt frame and the words of the gate lie in 68 bytes of the kernel stack. -/
theorem enterKernel_entered (k : Callees) {h : Handler} {esp0 eip : Word} {u : UserSegments}
    (hnumber : (c.gpr .eax).toNat = h.number) {calls : List CallMade} {out : Cpu}
    (hrun : syscallWrapper k (c.enterKernel esp0 eip u) = .iret calls out) :
    ∃ entered, calls = [(h, entered)] ∧ entered.gpr .esp = esp0 - 68 ∧
      out.mem = (k.system h entered).mem ∧
      ∀ a n, BlocksApart a n (esp0 - 68) 68 → Kept c.mem entered.mem a n := by
  have hlow : (c.enterKernel esp0 eip u).gpr .esp - 48 = esp0 - 68 := by
    rw [(enterKernel_holds esp0 eip u c).1]
    bv_omega
  obtain ⟨entered, hcalls, hentered, hmem, hgate⟩ :=
    syscallWrapper_entered k (by rw [enterKernel_other _ _ _ _ (by decide), hnumber]) hrun
  rw [hlow] at hentered hgate
  refine ⟨entered, hcalls, hentered, hmem, fun a n hapart => ?_⟩
  exact (enterKernel_kept eip u c hapart).trans (hgate a n fun i hi j hj => hapart i hi j (by omega))

/-- `iret` goes back to where the interrupt came from, as long as its frame is kept. -/
theorem leaveKernel_eq {esp0 eip : Word} {u : UserSegments} {out : Cpu}
    (hstack : out.gpr .esp = (c.enterKernel esp0 eip u).gpr .esp)
    (hframe : Kept (c.enterKernel esp0 eip u).mem out.mem ((c.enterKernel esp0 eip u).gpr .esp) 20) :
    out.leaveKernel = (eip, out.set .esp (c.gpr .esp)) := by
  obtain ⟨hesp, hholds⟩ := enterKernel_holds esp0 eip u c
  obtain ⟨heip, -, -, husp, -⟩ := hholds.of_kept (by rw [← hesp]; exact hframe)
  have hslot : esp0 - 20 + 12 = esp0 - 20 + 4 + 4 + 4 := by bv_omega
  rw [Cpu.leaveKernel, hstack, hesp, heip, hslot, husp]

/-- **A call of the library** calls the kernel function of its name once, with the three arguments that
stand on the user stack, and returns like a C function: to its caller, with the result, and with the
registers that are the caller's. What is stored on the way to the kernel function is the saved `ebx` on the
user stack, and the interrupt frame and the words of the gate in 68 bytes of the kernel stack; on the way
back nothing is stored. -/
theorem libraryCall_returns (k : Callees) (hf : ∀ h, Conventional (k.system h)) (u : UserSegments)
    (eip : Word) {esp0 : Word} (h : Handler) (hapart : BlocksApart (c.gpr .esp - 4) 8 (esp0 - 68) 68)
    (hkeeps : ∀ c', c'.gpr .esp = esp0 - 68 → Kept c'.mem (k.system h c').mem (c.gpr .esp - 4) 8) :
    ∃ entered out,
      doCall k esp0 eip u (BitVec.ofNat 32 h.number) c =
        some ([(h, entered)], c.mem.load (c.gpr .esp), out) ∧
      Holds entered.mem (entered.gpr .esp + 4)
        [c.mem.load (c.gpr .esp + 4), c.mem.load (c.gpr .esp + 8), c.mem.load (c.gpr .esp + 12)] ∧
      out.gpr .eax = (k.system h entered).gpr .eax ∧ out.gpr .esp = c.gpr .esp + 4 ∧
      (∀ r ∈ [Reg.ebx, .esi, .edi, .ebp], out.gpr r = c.gpr r) ∧
      (∀ a n, BlocksApart a n (c.gpr .esp - 4) 4 → BlocksApart a n (esp0 - 68) 68 →
        Kept c.mem entered.mem a n) ∧
      out.mem = (k.system h entered).mem := by
  have hprepared := prepareCall_prepared (BitVec.ofNat 32 h.number) c
  rw [doCall]
  generalize c.prepareCall (BitVec.ofNat 32 h.number) = c₁ at hprepared ⊢
  have hother := fun {r : Reg} (hr : r ≠ .esp) => enterKernel_other esp0 eip u c₁ hr
  have hnumber : (c₁.gpr .eax).toNat = h.number := by
    rw [hprepared.eax]
    have := h.number_bounds
    bv_omega
  have hnumber' : ((c₁.enterKernel esp0 eip u).gpr .eax).toNat = h.number := by
    rw [hother (by decide), hnumber]
  -- the gate returns, and what it has stored is known
  obtain ⟨-, calls, out, hrun, hreturned⟩ := gate_number k hf hnumber'
  obtain ⟨entered, rfl, hentered, hleft, hfar⟩ := enterKernel_entered k hnumber hrun
  have hback := leaveKernel_eq hreturned.stack hreturned.frame
  rw [hprepared.esp] at hback
  -- the two words on the user stack
  have hkept : Kept c₁.mem out.mem (c.gpr .esp - 4) 8 := by
    rw [hleft]
    exact (hfar _ _ hapart).trans (hkeeps entered hentered)
  have hebx : out.mem.load (c.gpr .esp - 4) = c.gpr .ebx :=
    (hkept.load (by decide)).trans hprepared.savedEbx
  have hreturn : out.mem.load (c.gpr .esp) = c.mem.load (c.gpr .esp) := by
    have habove := (hkept.above 4).load (by decide)
    have haddr : c.gpr .esp - 4 + BitVec.ofNat 32 4 = c.gpr .esp := by bv_omega
    rw [haddr] at habove
    exact habove.trans hprepared.returnAddress
  have hresult := hreturned.result
  rw [labelOf_number hnumber'] at hresult
  obtain ⟨_, hcalls, hargs, heax⟩ := hresult
  obtain rfl : entered = _ := congrArg Prod.snd (List.singleton_inj.mp hcalls)
  rw [hother (by decide), hother (by decide), hother (by decide), hprepared.args] at hargs
  have hpop : c.gpr .esp - 4 + 4 = c.gpr .esp := by bv_omega
  rw [hrun]
  simp only [hback, if_true, Cpu.set_gpr, Cpu.set_mem, hpop, hebx, hreturn, reduceCtorEq, if_false]
  refine ⟨entered, _, rfl, hargs, ?_, ?_, ?_, ?_, ?_⟩
  · simpa using heax
  · simp
  · have hcallee : ∀ r ∈ [Reg.esi, .edi, .ebp], out.gpr r = c.gpr r := fun r hr => by
      have hsaved : r ∈ [Reg.ebx, .ecx, .edx, .esi, .edi, .ebp] ∧ r ≠ .esp := by
        cases r <;> simp_all
      rw [hreturned.registers r hsaved.1, hother hsaved.2, hprepared.others r hr]
    intro r hr
    obtain rfl | hr' := List.mem_cons.mp hr
    · simp
    · have hne : r ≠ .esp ∧ r ≠ .ebx := by cases r <;> simp_all
      simpa [hne.1, hne.2] using hcallee r hr'
  · exact fun a n hebxApart hfree => (hprepared.kept a n hebxApart).trans (hfar a n hfree)
  · simpa using hleft

/-- `ece391_read` of a process with a stack at the top of its page. -/
theorem libraryCall_returns_sample :
    let c : Cpu := { interrupted 0 with gpr := fun r => if r = .esp then 0x83fffc0 else 1 }
    ∃ entered out,
      doCall plainCallees 0x800000 0x8048100 ⟨0x2b, 0x202, 0x23⟩ (BitVec.ofNat 32 Handler.read.number) c =
        some ([(.read, entered)], c.mem.load (c.gpr .esp), out) ∧
      Holds entered.mem (entered.gpr .esp + 4)
        [c.mem.load (c.gpr .esp + 4), c.mem.load (c.gpr .esp + 8), c.mem.load (c.gpr .esp + 12)] ∧
      out.gpr .eax = (plainCallees.system .read entered).gpr .eax ∧ out.gpr .esp = c.gpr .esp + 4 ∧
      (∀ r ∈ [Reg.ebx, .esi, .edi, .ebp], out.gpr r = c.gpr r) ∧
      (∀ a n, BlocksApart a n (c.gpr .esp - 4) 4 → BlocksApart a n (0x800000 - 68) 68 →
        Kept c.mem entered.mem a n) ∧
      out.mem = (plainCallees.system .read entered).mem := by
  intro c
  have hesp : c.gpr .esp = 0x83fffc0 := rfl
  refine libraryCall_returns plainCallees (fun _ => plainCallee_conventional) ⟨0x2b, 0x202, 0x23⟩ 0x8048100
    .read ?_ ?_
  · rw [hesp]
    intro i hi j hj
    bv_omega
  · intro c' hc' i hi
    rw [hesp]
    apply Memory.store_other
    intro j hj
    rw [hc']
    bv_omega

end SrirachOS
