import Mathlib.Logic.Relation
import Mathlib.Logic.Function.Iterate
import SrirachOS.Foundation.Blocks

/-!
# The String Instructions of a 32-bit Processor

A program is a list of instructions, in the operand order of the assembler: the destination is the last.
There is one flat segment; a string instruction needs `es` to be that of `ds`.

- `Finishes`: a program that runs to its end, with a postcondition; `Finishes.of_step` and `Finishes.mono`
  are the rules, and `Finishes.unique` says that there is only one end,
- `stos_iterate`, `movs_iterate_up`, `movs_iterate_down`: the repeated instructions.
-/

namespace Foundation.Machine

open Blocks

abbrev Dword := BitVec 32

inductive Register
  | eax | ecx | edx | esi | edi
  deriving DecidableEq, Repr

structure Processor where
  pc : Nat
  eax : Dword
  ecx : Dword
  edx : Dword
  esi : Dword
  edi : Dword
  ds : BitVec 16
  es : BitVec 16
  zf : Bool
  cf : Bool
  df : Bool
  mem : Dword → UInt8

inductive Instruction
  | testImm (i : Dword) (r : Register)
  | test (r r' : Register)
  | cmp (r r' : Register)
  | jz (l : Nat)
  | jae (l : Nat)
  | jmp (l : Nat)
  | storeByte
  | loadByte
  | mov (r r' : Register)
  | addImm (i : Dword) (r : Register)
  | subImm (i : Dword) (r : Register)
  | andImm (i : Dword) (r : Register)
  | shrImm (k : Nat) (r : Register)
  | lea (i : Dword) (r r' r'' : Register)
  | movDsDx
  | movDxEs
  | cld
  | std
  | repStos (k : Nat)
  | repMovs (k : Nat)
  deriving DecidableEq, Repr

namespace Processor

def get (c : Processor) : Register → Dword
  | .eax => c.eax
  | .ecx => c.ecx
  | .edx => c.edx
  | .esi => c.esi
  | .edi => c.edi

def set (c : Processor) (v : Dword) : Register → Processor
  | .eax => { c with eax := v }
  | .ecx => { c with ecx := v }
  | .edx => { c with edx := v }
  | .esi => { c with esi := v }
  | .edi => { c with edi := v }

def next (c : Processor) : Processor := { c with pc := c.pc + 1 }

/-- The flags of a result. -/
def flags (c : Processor) (result : Dword) (carry : Bool) : Processor :=
  { c with zf := decide (result = 0), cf := carry }

/-- How far a string instruction on `k` bytes moves its pointers. -/
def stride (c : Processor) (k : Nat) : Dword := if c.df then -.ofNat 32 k else .ofNat 32 k

end Processor

/-- Byte `i` of a word. -/
def byteOf (v : Dword) (i : Nat) : UInt8 := .ofBitVec ((v >>> (8 * i)).setWidth 8)

/-- The `k` low bytes of a word go to `d`, the lowest first. -/
def store (k : Nat) (v d : Dword) (mem : Dword → UInt8) : Dword → UInt8 := fun x =>
  if (x - d).toNat < k then byteOf v (x - d).toNat else mem x

/-- `stos` for `k` bytes, once under `rep`. -/
def stos (k : Nat) (c : Processor) : Processor :=
  { c with
    mem := store k c.eax c.edi c.mem
    edi := c.edi + c.stride k
    ecx := c.ecx - 1 }

/-- `movs` for `k` bytes, once under `rep`. -/
def movs (k : Nat) (c : Processor) : Processor :=
  { c with
    mem := copy c.edi c.esi k c.mem
    esi := c.esi + c.stride k
    edi := c.edi + c.stride k
    ecx := c.ecx - 1 }

/-- One instruction; there is no state behind a string instruction on another segment. -/
def Instruction.exec (c : Processor) : Instruction → Option Processor
  | testImm i r => some (c.flags (c.get r &&& i) false).next
  | test r r' => some (c.flags (c.get r' &&& c.get r) false).next
  | cmp r r' => some (c.flags (c.get r' - c.get r) (decide (c.get r' < c.get r))).next
  | jz l => some (if c.zf then { c with pc := l } else c.next)
  | jae l => some (if c.cf then c.next else { c with pc := l })
  | jmp l => some { c with pc := l }
  | storeByte => some { c with mem := store 1 c.eax c.edi c.mem }.next
  | loadByte => some (c.set ((c.eax &&& 0xFFFFFF00) ||| (c.mem c.esi).toBitVec.setWidth 32) .eax).next
  | mov r r' => some (c.set (c.get r) r').next
  | addImm i r =>
    some ((c.flags (c.get r + i) (decide (c.get r + i < i))).set (c.get r + i) r).next
  | subImm i r =>
    some ((c.flags (c.get r - i) (decide (c.get r < i))).set (c.get r - i) r).next
  | andImm i r => some ((c.flags (c.get r &&& i) false).set (c.get r &&& i) r).next
  | shrImm k r => some ((c.flags (c.get r >>> k) ((c.get r).getLsbD (k - 1))).set (c.get r >>> k) r).next
  | lea i r r' r'' => some (c.set (c.get r + c.get r' + i) r'').next
  | movDsDx => some { c with edx := (c.edx &&& 0xFFFF0000) ||| c.ds.setWidth 32 }.next
  | movDxEs => some { c with es := c.edx.setWidth 16 }.next
  | cld => some { c with df := false }.next
  | std => some { c with df := true }.next
  | repStos k => if c.es = c.ds then some ((stos k)^[c.ecx.toNat] c).next else none
  | repMovs k => if c.es = c.ds then some ((movs k)^[c.ecx.toNat] c).next else none

/-- One step of a program; there is none behind its end. -/
def step (program : List Instruction) (c : Processor) : Option Processor := program[c.pc]?.bind (Instruction.exec c)

/-! ## Programs -/

/-- The program comes to its end, in a state that has the property. -/
def Finishes (program : List Instruction) (c : Processor) (P : Processor → Prop) : Prop :=
  ∃ c', Relation.ReflTransGen (fun c c' => step program c = some c') c c' ∧ c'.pc = program.length ∧ P c'

section

variable {program : List Instruction} {c c' : Processor} {P Q : Processor → Prop}

theorem Finishes.of_end (hpc : c.pc = program.length) (h : P c) : Finishes program c P :=
  ⟨c, .refl, hpc, h⟩

theorem Finishes.of_step (hstep : step program c = some c') (h : Finishes program c' P) :
    Finishes program c P := by
  obtain ⟨last, hruns, hpc, hP⟩ := h
  exact ⟨last, .head hstep hruns, hpc, hP⟩

/-- A jump that is taken. -/
theorem Finishes.of_jz {l : Nat} (hinstr : program[c.pc]? = some (.jz l)) (hzf : c.zf = true)
    (h : Finishes program { c with pc := l } P) : Finishes program c P :=
  .of_step (by simp [step, hinstr, Instruction.exec, hzf]) h

/-- A jump that is not. -/
theorem Finishes.of_not_jz {l : Nat} (hinstr : program[c.pc]? = some (.jz l)) (hzf : c.zf = false)
    (h : Finishes program c.next P) : Finishes program c P :=
  .of_step (by simp [step, hinstr, Instruction.exec, hzf]) h

theorem Finishes.of_jae {l : Nat} (hinstr : program[c.pc]? = some (.jae l)) (hcf : c.cf = false)
    (h : Finishes program { c with pc := l } P) : Finishes program c P :=
  .of_step (by simp [step, hinstr, Instruction.exec, hcf]) h

theorem Finishes.of_not_jae {l : Nat} (hinstr : program[c.pc]? = some (.jae l)) (hcf : c.cf = true)
    (h : Finishes program c.next P) : Finishes program c P :=
  .of_step (by simp [step, hinstr, Instruction.exec, hcf]) h

theorem Finishes.of_repStos {k : Nat} (hinstr : program[c.pc]? = some (.repStos k)) (hes : c.es = c.ds)
    (h : Finishes program ((stos k)^[c.ecx.toNat] c).next P) : Finishes program c P :=
  .of_step (by simp [step, hinstr, Instruction.exec, hes]) h

theorem Finishes.of_repMovs {k : Nat} (hinstr : program[c.pc]? = some (.repMovs k)) (hes : c.es = c.ds)
    (h : Finishes program ((movs k)^[c.ecx.toNat] c).next P) : Finishes program c P :=
  .of_step (by simp [step, hinstr, Instruction.exec, hes]) h

theorem Finishes.mono (h : Finishes program c P) (himp : ∀ c', P c' → Q c') : Finishes program c Q := by
  obtain ⟨last, hruns, hpc, hP⟩ := h
  exact ⟨last, hruns, hpc, himp last hP⟩

/-- There is only one end. -/
theorem Finishes.unique (h : Finishes program c P) (h' : Finishes program c Q) :
    ∃ last, P last ∧ Q last := by
  obtain ⟨last, hruns, hpc, hP⟩ := h
  obtain ⟨last', hruns', hpc', hQ⟩ := h'
  have hend : ∀ {c : Processor}, c.pc = program.length → ∀ c', step program c ≠ some c' := by
    intro c hpc c'
    simp [step, hpc]
  suffices hsame : last = last' from ⟨last, hP, hsame ▸ hQ⟩
  induction hruns using Relation.ReflTransGen.head_induction_on with
  | refl =>
    obtain heq | ⟨c', hstep, -⟩ := Relation.ReflTransGen.cases_head hruns'
    · exact heq
    · exact absurd hstep (hend hpc c')
  | head hstep _ ih =>
    obtain rfl | ⟨c', hstep', hrest⟩ := Relation.ReflTransGen.cases_head hruns'
    · exact absurd hstep (hend hpc' _)
    · obtain rfl := Option.some.inj (hstep.symm.trans hstep')
      exact ih hrest

end

/-! ## The repeated instructions -/

/-- `n` times the `k` low bytes of a word. -/
def storeAll (k n : Nat) (v d : Dword) (mem : Dword → UInt8) : Dword → UInt8 := fun x =>
  if (x - d).toNat < n * k then byteOf v ((x - d).toNat % k) else mem x

@[simp] theorem storeAll_zero (k : Nat) (v d : Dword) (mem : Dword → UInt8) :
    storeAll k 0 v d mem = mem := by
  funext x
  simp [storeAll]

theorem stos_iterate {k n : Nat} (c : Processor) (hdf : c.df = false) (hn : n * k ≤ 2 ^ 32) :
    (stos k)^[n] c = { c with
      mem := storeAll k n c.eax c.edi c.mem
      edi := c.edi + .ofNat 32 (n * k)
      ecx := c.ecx - .ofNat 32 n } := by
  induction n generalizing c with
  | zero => simp
  | succ n ih =>
    have hsplit : (n + 1) * k = k + n * k := by rw [Nat.succ_mul, Nat.add_comm]
    rw [hsplit] at hn
    rw [Function.iterate_succ_apply, ih (stos k c) hdf (by omega)]
    have hmem : storeAll k n c.eax (c.edi + .ofNat 32 k) (store k c.eax c.edi c.mem) =
        storeAll k (n + 1) c.eax c.edi c.mem := by
      funext x
      have hx := (x - c.edi).isLt
      simp only [storeAll, store, hsplit]
      obtain ⟨hle, hoffset⟩ | ⟨hlt, hoffset⟩ := offset_cases (show k ≤ 2 ^ 32 by omega) x c.edi
      · rw [hoffset, if_neg (show ¬(x - c.edi).toNat < k by omega), Nat.mod_eq_sub_mod hle]
        exact if_congr (by omega) rfl rfl
      · rw [hoffset, if_neg (by omega), if_pos hlt, if_pos (by omega), Nat.mod_eq_of_lt hlt]
    simp only [stos, Processor.stride, hdf, Bool.false_eq_true, if_false, hmem, hsplit, BitVec.ofNat_add,
      BitVec.add_assoc]
    congr 1
    grind

theorem movs_iterate_up {k n : Nat} (c : Processor) (hdf : c.df = false) :
    (movs k)^[n] c = { c with
      mem := copyPieces (List.replicate n k) c.edi c.esi c.mem
      esi := c.esi + .ofNat 32 (n * k)
      edi := c.edi + .ofNat 32 (n * k)
      ecx := c.ecx - .ofNat 32 n } := by
  induction n generalizing c with
  | zero => simp [copyPieces]
  | succ n ih =>
    have hsplit : (n + 1) * k = k + n * k := by rw [Nat.succ_mul, Nat.add_comm]
    rw [Function.iterate_succ_apply, ih (movs k c) hdf]
    simp only [movs, Processor.stride, hdf, Bool.false_eq_true, if_false, List.replicate_succ, copyPieces,
      hsplit, BitVec.ofNat_add, BitVec.add_assoc]
    congr 1
    grind

theorem movs_iterate_down {n : Nat} {d s : Dword} (c : Processor) (hdf : c.df = true)
    (hedi : c.edi = d + .ofNat 32 n - 1) (hesi : c.esi = s + .ofNat 32 n - 1) :
    (movs 1)^[n] c = { c with
      mem := copyDown d s n c.mem
      esi := s - 1
      edi := d - 1
      ecx := c.ecx - .ofNat 32 n } := by
  induction n generalizing c with
  | zero =>
    have hedi' : d - 1 = c.edi := by simpa using hedi.symm
    have hesi' : s - 1 = c.esi := by simpa using hesi.symm
    rw [hedi', hesi']
    simp [copyDown]
  | succ n ih =>
    have hedi' : c.edi = d + .ofNat 32 n := by rw [hedi, BitVec.ofNat_add]; grind
    have hesi' : c.esi = s + .ofNat 32 n := by rw [hesi, BitVec.ofNat_add]; grind
    rw [Function.iterate_succ_apply, ih (movs 1 c) hdf]
    · simp only [movs, copyDown, hedi', hesi', BitVec.ofNat_add]
      congr 1
      grind
    · simp only [movs, Processor.stride, hdf, if_true, hedi']
      grind
    · simp only [movs, Processor.stride, hdf, if_true, hesi']
      grind

end Foundation.Machine
