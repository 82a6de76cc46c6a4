import SrirachOS.Console.Display
import SrirachOS.Foundation.Machine

/-!
# The Block Operations

`memset` and `memcpy` go byte by byte to an aligned address of the destination, then in words of four bytes,
and byte by byte through the rest. `memmove` is one string instruction, upwards or downwards.

- `memset_fills`: the block is filled,
- `memcpy_pieces`, `memcpy_copies_iff`: what is copied, and where that is a copy of the block,
- `switch_memcpy`: it is for the pages of the terminals,
- `memmove_moves`: the blocks may overlap.
-/

namespace SrirachOS.Lib

open Foundation.Blocks Foundation.Machine Register Instruction

/-! ## lib.c -/

/-- `memset(s, c, n)`, with `c` four times in `eax`, `s` in `edi` and `n` in `ecx`. -/
def memset : List Instruction :=
  [ -- memset_top
    test ecx ecx,
    jz 21,
    testImm 0x3 edi,
    jz 8,
    storeByte,
    addImm 1 edi,
    subImm 1 ecx,
    jmp 0,
    -- memset_aligned
    movDsDx,
    movDxEs,
    mov ecx edx,
    shrImm 2 ecx,
    andImm 0x3 edx,
    cld,
    repStos 4,
    -- memset_bottom
    test edx edx,
    jz 21,
    storeByte,
    addImm 1 edi,
    subImm 1 edx,
    jmp 15 ]

/-- `memcpy(dest, src, n)`, with `dest` in `edi`, `src` in `esi` and `n` in `ecx`. -/
def memcpy : List Instruction :=
  [ -- memcpy_top
    test ecx ecx,
    jz 25,
    testImm 0x3 edi,
    jz 10,
    loadByte,
    storeByte,
    addImm 1 edi,
    addImm 1 esi,
    subImm 1 ecx,
    jmp 0,
    -- memcpy_aligned
    movDsDx,
    movDxEs,
    mov ecx edx,
    shrImm 2 ecx,
    andImm 0x3 edx,
    cld,
    repMovs 4,
    -- memcpy_bottom
    test edx edx,
    jz 25,
    loadByte,
    storeByte,
    addImm 1 edi,
    addImm 1 esi,
    subImm 1 edx,
    jmp 17 ]

/-- `memmove(dest, src, n)`, with `dest` in `edi`, `src` in `esi` and `n` in `ecx`. -/
def memmove : List Instruction :=
  [ movDsDx,
    movDxEs,
    cld,
    cmp edi esi,
    jae 8,
    lea (-1) esi ecx esi,
    lea (-1) edi ecx edi,
    std,
    -- memmove_go
    repMovs 1 ]

/-- `n` stores of `k` bytes each, with the value in `eax`, `s` in `edi` and `n` in `ecx`. -/
def memsetUnits (k : Nat) : List Instruction := [movDsDx, movDxEs, cld, repStos k]

/-- `memset_word(s, c, n)`. -/
def memsetWord : List Instruction := memsetUnits 2

/-- `memset_dword(s, c, n)`. -/
def memsetDword : List Instruction := memsetUnits 4

/-- What `memset` has in `eax`: `c << 24 | c << 16 | c << 8 | c`, after `c &= 0xFF`. -/
def fillWord (c : Dword) : Dword :=
  let c := c &&& 0xFF
  c <<< 24 ||| c <<< 16 ||| c <<< 8 ||| c

/-- An entry of a block operation, with nothing else in the registers. -/
def entry (eax ecx esi edi : Dword) (mem : Dword → UInt8) : Processor :=
  ⟨0, eax, ecx, 0, esi, edi, 0x18, 0, false, false, false, mem⟩

/-! ## memset -/

/-- The low byte of a word. -/
theorem getLsbD_and_0xFF (c : Dword) (j : Nat) : (c &&& 0xFF).getLsbD j = (decide (j < 8) && c.getLsbD j) := by
  have hmask : (0xFF : Dword) = .ofNat 32 (2 ^ 8 - 1) := rfl
  rw [BitVec.getLsbD_and, hmask, BitVec.getLsbD_ofNat, Nat.testBit_two_pow_sub_one, Bool.and_comm]
  by_cases hj : j < 8
  · simp [hj, show j < 32 by omega]
  · simp [hj]

/-- The four bytes of the word are the same. -/
theorem byteOf_fillWord (c : Dword) : ∀ i < 4, byteOf (fillWord c) i = .ofBitVec (c.setWidth 8) := by
  intro i hi
  refine congrArg UInt8.ofBitVec (BitVec.eq_of_getLsbD_eq fun j hj => ?_)
  simp only [fillWord, BitVec.getLsbD_setWidth, BitVec.getLsbD_ushiftRight, BitVec.getLsbD_or,
    BitVec.getLsbD_shiftLeft, getLsbD_and_0xFF]
  match i, hi with
  | 0, _ => grind
  | 1, _ => grind
  | 2, _ => grind
  | 3, _ => grind

/-- The flag of `testl` with a register and itself. -/
theorem and_self_eq_zero {v : Dword} {n : Nat} (h : v.toNat = n) :
    decide (v &&& v = 0) = decide (n = 0) := by
  rw [BitVec.and_self, decide_eq_decide, ← h]
  exact ⟨fun h0 => by rw [h0]; rfl, fun h0 => BitVec.eq_of_toNat_eq h0⟩

theorem store_one {v : UInt8} {eax d : Dword} (heax : byteOf eax 0 = v) (mem : Dword → UInt8) :
    store 1 eax d mem = fill d 1 v mem := by
  funext x
  simp only [store, fill]
  split
  · rename_i hlt
    rw [Nat.lt_one_iff.mp hlt, heax]
  · rfl

/-- The bytes behind the words. -/
theorem memset_bottom {v : UInt8} {n : Nat} (c : Processor) (hpc : c.pc = 15) (hn : c.edx.toNat = n)
    (heax : byteOf c.eax 0 = v) :
    Finishes memset c fun c' => c'.mem = fill c.edi n v c.mem ∧ c'.df = c.df := by
  induction n generalizing c with
  | zero =>
    obtain ⟨pc, eax, ecx, edx, esi, edi, ds, es, zf, cf, df, mem⟩ := c
    obtain rfl : pc = 15 := hpc
    exact .of_step rfl (.of_jz rfl (and_self_eq_zero hn) (.of_end rfl ⟨fill_zero.symm, rfl⟩))
  | succ n ih =>
    obtain ⟨pc, eax, ecx, edx, esi, edi, ds, es, zf, cf, df, mem⟩ := c
    obtain rfl : pc = 15 := hpc
    have hn' : edx.toNat = n + 1 := hn
    have hlt := edx.isLt
    refine .of_step rfl (.of_not_jz rfl (and_self_eq_zero hn') (.of_step rfl (.of_step rfl (.of_step rfl
      (.of_step rfl (.mono (ih _ rfl ?_ heax) ?_))))))
    · change (edx - 1#32).toNat = n
      bv_omega
    · rintro c' ⟨hmem, hdf⟩
      refine ⟨hmem.trans ?_, hdf⟩
      change fill (edi + 1#32) n v (store 1 eax edi mem) = fill edi (n + 1) v mem
      rw [store_one heax, Nat.add_comm]
      exact fill_add (by omega)

/-- The segment that `es` gets is that of `ds`. -/
theorem setWidth_low (v : Dword) (ds : BitVec 16) :
    ((v &&& 0xFFFF0000) ||| ds.setWidth 32).setWidth 16 = ds := by
  refine BitVec.eq_of_getLsbD_eq fun i hi => ?_
  have hmask : (0xFFFF0000 : Dword) = BitVec.ofNat 32 (2 ^ 16 - 1) <<< 16 := rfl
  simp only [BitVec.getLsbD_setWidth, BitVec.getLsbD_or, BitVec.getLsbD_and, hmask,
    BitVec.getLsbD_shiftLeft]
  grind

/-- Words of four equal bytes fill a block. -/
theorem storeAll_eq_fill {v : UInt8} {k n : Nat} {eax d : Dword} (hk : 0 < k)
    (heax : ∀ i < k, byteOf eax i = v) (mem : Dword → UInt8) :
    storeAll k n eax d mem = fill d (n * k) v mem := by
  funext x
  simp only [storeAll, fill, heax _ (Nat.mod_lt _ hk)]

theorem toNat_shift_and {v : Dword} {n : Nat} (hn : v.toNat = n) :
    (v >>> 2).toNat = n / 4 ∧ (v &&& 0x3).toNat = n % 4 := by
  have hmask : (0x3 : Dword).toNat = 2 ^ 2 - 1 := rfl
  rw [BitVec.toNat_ushiftRight, BitVec.toNat_and, hmask, Nat.and_two_pow_sub_one_eq_mod, hn,
    Nat.shiftRight_eq_div_pow]
  exact ⟨rfl, rfl⟩

/-- The words, from an aligned address on. -/
theorem memset_aligned {v : UInt8} {n : Nat} (c : Processor) (hpc : c.pc = 8) (hn : c.ecx.toNat = n)
    (heax : ∀ i < 4, byteOf c.eax i = v) :
    Finishes memset c fun c' => c'.mem = fill c.edi n v c.mem ∧ c'.df = false := by
  obtain ⟨pc, eax, ecx, edx, esi, edi, ds, es, zf, cf, df, mem⟩ := c
  obtain rfl : pc = 8 := hpc
  have hn' : ecx.toNat = n := hn
  have hlt := ecx.isLt
  obtain ⟨hwords, hrest⟩ := toNat_shift_and hn'
  refine .of_step rfl (.of_step rfl (.of_step rfl (.of_step rfl (.of_step rfl (.of_step rfl
    (.of_repStos rfl (setWidth_low edx ds) ?_))))))
  rw [stos_iterate _ rfl]
  · refine .mono (memset_bottom _ rfl hrest (heax 0 (by decide))) ?_
    rintro c' ⟨hmem, hdf⟩
    refine ⟨hmem.trans ?_, hdf⟩
    change fill (edi + .ofNat 32 ((ecx >>> 2).toNat * 4)) (n % 4) v
      (storeAll 4 (ecx >>> 2).toNat eax edi mem) = fill edi n v mem
    rw [hwords, storeAll_eq_fill (by decide) heax, fill_add (by omega), Nat.div_add_mod']
  · change (ecx >>> 2).toNat * 4 ≤ 2 ^ 32
    omega

/-- **`memset` fills its block** with the low byte of its argument: as many bytes as `n` says, wherever the
block lies, and no other. The direction flag is clear afterwards. -/
theorem memset_fills {value : Dword} {n : Nat} (c : Processor) (hpc : c.pc = 0) (heax : c.eax = fillWord value)
    (hn : c.ecx.toNat = n) :
    Finishes memset c fun c' =>
      c'.mem = fill c.edi n (.ofBitVec (value.setWidth 8)) c.mem ∧ (c.df = false → c'.df = false) := by
  induction n generalizing c with
  | zero =>
    obtain ⟨pc, eax, ecx, edx, esi, edi, ds, es, zf, cf, df, mem⟩ := c
    obtain rfl : pc = 0 := hpc
    exact .of_step rfl (.of_jz rfl (and_self_eq_zero hn) (.of_end rfl ⟨fill_zero.symm, id⟩))
  | succ n ih =>
    obtain ⟨pc, eax, ecx, edx, esi, edi, ds, es, zf, cf, df, mem⟩ := c
    obtain rfl : pc = 0 := hpc
    obtain rfl : eax = fillWord value := heax
    have hn' : ecx.toNat = n + 1 := hn
    have hlt := ecx.isLt
    refine .of_step rfl (.of_not_jz rfl (and_self_eq_zero hn') (.of_step rfl ?_))
    by_cases haligned : edi &&& 0x3 = 0
    · refine .of_jz rfl (decide_eq_true haligned)
        (.mono (memset_aligned _ rfl hn' (byteOf_fillWord value)) ?_)
      rintro c' ⟨hmem, hdf⟩
      exact ⟨hmem, fun _ => hdf⟩
    · refine .of_not_jz rfl (decide_eq_false haligned) (.of_step rfl (.of_step rfl (.of_step rfl
        (.of_step rfl (.mono (ih _ rfl rfl ?_) ?_)))))
      · change (ecx - 1#32).toNat = n
        bv_omega
      · rintro c' ⟨hmem, hdf⟩
        refine ⟨hmem.trans ?_, hdf⟩
        change fill (edi + 1#32) n _ (store 1 (fillWord value) edi mem) = fill edi (n + 1) _ mem
        rw [store_one (byteOf_fillWord value 0 (by decide)), Nat.add_comm]
        exact fill_add (by omega)

theorem memset_fills_sample :
    Finishes memset (entry (fillWord 0x141) 7 0 (-2) fun _ => 0) fun c' =>
      c'.mem = fill (-2) 7 (.ofBitVec ((0x141 : Dword).setWidth 8)) (fun _ => 0) ∧
        (false = false → c'.df = false) :=
  memset_fills (entry (fillWord 0x141) 7 0 (-2) fun _ => 0) rfl rfl rfl

/-- The other widths: the low bytes of the value, as often as `n` says. -/
theorem memsetUnits_stores {k n : Nat} (c : Processor) (hpc : c.pc = 0) (hn : c.ecx.toNat = n)
    (hfits : n * k ≤ 2 ^ 32) :
    Finishes (memsetUnits k) c fun c' => c'.mem = storeAll k n c.eax c.edi c.mem ∧ c'.df = false := by
  obtain ⟨pc, eax, ecx, edx, esi, edi, ds, es, zf, cf, df, mem⟩ := c
  obtain rfl : pc = 0 := hpc
  obtain rfl : ecx.toNat = n := hn
  refine .of_step rfl (.of_step rfl (.of_step rfl (.of_repStos rfl (setWidth_low edx ds) ?_)))
  rw [stos_iterate _ rfl]
  · exact .of_end rfl ⟨rfl, rfl⟩
  · exact hfits

/-! ## memcpy -/

/-- A byte that is loaded and stored. -/
theorem store_load (eax d s : Dword) (mem : Dword → UInt8) :
    store 1 ((eax &&& 0xFFFFFF00) ||| (mem s).toBitVec.setWidth 32) d mem = copy d s 1 mem := by
  have hbyte : byteOf ((eax &&& 0xFFFFFF00) ||| (mem s).toBitVec.setWidth 32) 0 = mem s := by
    have hmask : (0xFFFFFF00 : Dword) = BitVec.ofNat 32 (2 ^ 24 - 1) <<< 8 := rfl
    have hlow : (((eax &&& 0xFFFFFF00) ||| (mem s).toBitVec.setWidth 32) >>> (8 * 0)).setWidth 8 =
        (mem s).toBitVec := by
      refine BitVec.eq_of_getLsbD_eq fun i hi => ?_
      simp only [BitVec.getLsbD_setWidth, BitVec.getLsbD_ushiftRight, BitVec.getLsbD_or,
        BitVec.getLsbD_and, hmask, BitVec.getLsbD_shiftLeft]
      grind
    rw [byteOf, hlow]
  rw [store_one hbyte]
  funext x
  simp only [fill, copy]
  split
  · rename_i hlt
    have hzero : x - d = 0 := BitVec.eq_of_toNat_eq (Nat.lt_one_iff.mp hlt)
    exact congrArg mem (by rw [hzero]; exact (BitVec.add_zero s).symm)
  · rfl

/-- The bytes behind the words. -/
theorem memcpy_bottom {n : Nat} (c : Processor) (hpc : c.pc = 17) (hn : c.edx.toNat = n) :
    Finishes memcpy c fun c' =>
      c'.mem = copyPieces (List.replicate n 1) c.edi c.esi c.mem ∧ c'.df = c.df := by
  induction n generalizing c with
  | zero =>
    obtain ⟨pc, eax, ecx, edx, esi, edi, ds, es, zf, cf, df, mem⟩ := c
    obtain rfl : pc = 17 := hpc
    exact .of_step rfl (.of_jz rfl (and_self_eq_zero hn) (.of_end rfl ⟨rfl, rfl⟩))
  | succ n ih =>
    obtain ⟨pc, eax, ecx, edx, esi, edi, ds, es, zf, cf, df, mem⟩ := c
    obtain rfl : pc = 17 := hpc
    have hn' : edx.toNat = n + 1 := hn
    have hlt := edx.isLt
    refine .of_step rfl (.of_not_jz rfl (and_self_eq_zero hn') (.of_step rfl (.of_step rfl (.of_step rfl
      (.of_step rfl (.of_step rfl (.of_step rfl (.mono (ih _ rfl ?_) ?_))))))))
    · change (edx - 1#32).toNat = n
      bv_omega
    · rintro c' ⟨hmem, hdf⟩
      refine ⟨hmem.trans ?_, hdf⟩
      exact congrArg (copyPieces _ (edi + 1#32) (esi + 1#32)) (store_load eax edi esi mem)

/-- The words, from an aligned address on. -/
theorem memcpy_aligned {n : Nat} (c : Processor) (hpc : c.pc = 10) (hn : c.ecx.toNat = n) :
    Finishes memcpy c fun c' =>
      c'.mem = copyPieces (List.replicate (n / 4) 4 ++ List.replicate (n % 4) 1) c.edi c.esi c.mem ∧
        c'.df = false := by
  obtain ⟨pc, eax, ecx, edx, esi, edi, ds, es, zf, cf, df, mem⟩ := c
  obtain rfl : pc = 10 := hpc
  have hn' : ecx.toNat = n := hn
  obtain ⟨hwords, hrest⟩ := toNat_shift_and hn'
  refine .of_step rfl (.of_step rfl (.of_step rfl (.of_step rfl (.of_step rfl (.of_step rfl
    (.of_repMovs rfl (setWidth_low edx ds) ?_))))))
  rw [movs_iterate_up _ rfl]
  refine .mono (memcpy_bottom _ rfl hrest) ?_
  rintro c' ⟨hmem, hdf⟩
  refine ⟨hmem.trans ?_, hdf⟩
  change copyPieces _ (edi + .ofNat 32 ((ecx >>> 2).toNat * 4)) (esi + .ofNat 32 ((ecx >>> 2).toNat * 4))
    (copyPieces (List.replicate (ecx >>> 2).toNat 4) edi esi mem) = _
  rw [hwords, copyPieces_append, List.sum_replicate_nat]

/-- The pieces of a block of `n` bytes. -/
def pieces : Nat → Dword → List Nat
  | 0, _ => []
  | n + 1, d =>
    if d &&& 0x3 = 0 then List.replicate ((n + 1) / 4) 4 ++ List.replicate ((n + 1) % 4) 1
    else 1 :: pieces n (d + 1)

/-- `memcpy` copies piece by piece. -/
theorem memcpy_pieces {n : Nat} (c : Processor) (hpc : c.pc = 0) (hn : c.ecx.toNat = n) :
    Finishes memcpy c fun c' => c'.mem = copyPieces (pieces n c.edi) c.edi c.esi c.mem ∧
      (c.df = false → c'.df = false) := by
  induction n generalizing c with
  | zero =>
    obtain ⟨pc, eax, ecx, edx, esi, edi, ds, es, zf, cf, df, mem⟩ := c
    obtain rfl : pc = 0 := hpc
    exact .of_step rfl (.of_jz rfl (and_self_eq_zero hn) (.of_end rfl ⟨rfl, id⟩))
  | succ n ih =>
    obtain ⟨pc, eax, ecx, edx, esi, edi, ds, es, zf, cf, df, mem⟩ := c
    obtain rfl : pc = 0 := hpc
    have hn' : ecx.toNat = n + 1 := hn
    have hlt := ecx.isLt
    refine .of_step rfl (.of_not_jz rfl (and_self_eq_zero hn') (.of_step rfl ?_))
    by_cases haligned : edi &&& 0x3 = 0
    · refine .of_jz rfl (decide_eq_true haligned) (.mono (memcpy_aligned _ rfl hn') ?_)
      rintro c' ⟨hmem, hdf⟩
      refine ⟨hmem.trans ?_, fun _ => hdf⟩
      simp only [pieces, if_pos haligned]
      rfl
    · refine .of_not_jz rfl (decide_eq_false haligned) (.of_step rfl (.of_step rfl (.of_step rfl
        (.of_step rfl (.of_step rfl (.of_step rfl (.mono (ih _ rfl ?_) ?_)))))))
      · change (ecx - 1#32).toNat = n
        bv_omega
      · rintro c' ⟨hmem, hdf⟩
        refine ⟨hmem.trans ?_, hdf⟩
        simp only [pieces, if_neg haligned]
        exact congrArg (copyPieces _ (edi + 1#32) (esi + 1#32)) (store_load eax edi esi mem)

section

variable {n : Nat} {d dest src : Dword}

theorem pieces_sum : (pieces n d).sum = n := by
  induction n generalizing d with
  | zero => rfl
  | succ n ih =>
    rw [pieces]
    split
    · rw [List.sum_append, List.sum_replicate_nat, List.sum_replicate_nat, Nat.mul_one, Nat.div_add_mod']
    · rw [List.sum_cons, ih, Nat.add_comm]

theorem pieces_pos : ∀ k ∈ pieces n d, 0 < k := by
  induction n generalizing d with
  | zero => simp [pieces]
  | succ n ih =>
    rw [pieces]
    split
    · simp only [List.mem_append, List.mem_replicate]
      rintro k (⟨-, rfl⟩ | ⟨-, rfl⟩) <;> decide
    · simpa using fun k hk => ih k hk

/-- Only the shortest blocks, and an aligned word, are one piece. -/
theorem pieces_length_le_one : (pieces n d).length ≤ 1 ↔ n ≤ 1 ∨ n = 4 ∧ d &&& 0x3 = 0 := by
  cases n with
  | zero => simp [pieces]
  | succ n =>
    rw [pieces]
    split
    · rename_i haligned
      simp only [List.length_append, List.length_replicate, haligned, and_true]
      omega
    · rename_i hodd
      have hrest : (pieces n (d + 1)).length = 0 ↔ n = 0 := by
        rw [List.length_eq_zero_iff]
        constructor
        · intro hnil
          have hsum := pieces_sum (n := n) (d := d + 1)
          rw [hnil] at hsum
          exact hsum.symm
        · rintro rfl
          rfl
      simp only [List.length_cons, hodd, and_false, or_false]
      omega

/-- **`memcpy` copies its block** from wherever to wherever exactly when the destination does not begin
within the source, or is the source, or the block is one aligned word. -/
theorem memcpy_copies_iff (hn : n < 2 ^ 32) :
    (∀ c : Processor, c.pc = 0 → c.edi = dest → c.esi = src → c.ecx.toNat = n →
        Finishes memcpy c fun c' => c'.mem = copy dest src n c.mem) ↔
      dest = src ∨ n ≤ (dest - src).toNat ∨ n = 4 ∧ dest &&& 0x3 = 0 := by
  have hone : n ≤ 1 → dest = src ∨ n ≤ (dest - src).toNat := by
    intro hle
    by_cases heq : dest = src
    · exact .inl heq
    · refine .inr (hle.trans (Nat.pos_iff_ne_zero.mpr fun hzero => heq ?_))
      have hsub : dest - src = 0 := BitVec.eq_of_toNat_eq hzero
      grind
  have : Nontrivial UInt8 := ⟨0, 1, by decide⟩
  have hiff := copyPieces_eq_copy_iff (α := UInt8) (d := dest) (s := src) (pieces_pos (n := n) (d := dest))
    (by rw [pieces_sum]; omega)
  rw [pieces_sum, pieces_length_le_one] at hiff
  constructor
  · intro h
    have hmem : ∀ mem : Dword → UInt8, copyPieces (pieces n dest) dest src mem = copy dest src n mem := by
      intro mem
      have hword : (BitVec.ofNat 32 n).toNat = n := by rw [BitVec.toNat_ofNat, Nat.mod_eq_of_lt hn]
      let c := entry 0 (.ofNat 32 n) src dest mem
      obtain ⟨last, hright, hpieces, -⟩ := (h c rfl rfl rfl hword).unique (memcpy_pieces c rfl hword)
      exact hpieces.symm.trans hright
    obtain heq | hfar | hle | hword := hiff.mp hmem
    · exact .inl heq
    · exact .inr (.inl hfar)
    · exact (hone hle).imp_right .inl
    · exact .inr (.inr hword)
  · rintro h c hpc rfl rfl hc
    refine (memcpy_pieces c hpc hc).mono fun c' hmem => hmem.1.trans (hiff.mpr ?_ c.mem)
    exact h.imp_right (Or.imp_right .inr)

theorem memcpy_copies_iff_sample :
    ¬∀ c : Processor, c.pc = 0 → c.edi = 5 → c.esi = 4 → c.ecx.toNat = 4 →
      Finishes memcpy c fun c' => c'.mem = copy 5 4 4 c.mem :=
  fun h => absurd ((memcpy_copies_iff (show 4 < 2 ^ 32 by decide)).mp h) (by decide)

end

/-- On blocks that are apart, or the same, and do not wrap, this is the `memcpy` of the terminal switch. -/
theorem memcpy_eq {d s n : Nat} (hd : d + n ≤ 2 ^ 32) (hs : s + n ≤ 2 ^ 32) (hd32 : d < 2 ^ 32)
    (hs32 : s < 2 ^ 32) (hn : n < 2 ^ 32) (happart : d = s ∨ d + n ≤ s ∨ s + n ≤ d) (c : Processor)
    (hpc : c.pc = 0) (hedi : c.edi = .ofNat 32 d) (hesi : c.esi = .ofNat 32 s) (hecx : c.ecx.toNat = n)
    {mem : Nat → UInt8} (hmem : ∀ x, c.mem x = mem x.toNat) :
    Finishes memcpy c fun c' => ∀ x, c'.mem x = SrirachOS.memcpy d s n mem x.toNat := by
  have hword : ∀ {a : Nat}, a < 2 ^ 32 → (BitVec.ofNat 32 a).toNat = a := fun ha => by
    rw [BitVec.toNat_ofNat, Nat.mod_eq_of_lt ha]
  have hfar : (BitVec.ofNat 32 d) = .ofNat 32 s ∨ n ≤ (BitVec.ofNat 32 d - .ofNat 32 s).toNat := by
    obtain rfl | hfar := happart
    · exact .inl rfl
    · obtain ⟨hle, heq⟩ | ⟨hlt, heq⟩ := toNat_sub_cases (.ofNat 32 d) (.ofNat 32 s) <;>
        rw [hword hd32, hword hs32] at * <;> omega
  refine ((memcpy_copies_iff hn).mpr (hfar.imp_right .inl) c hpc hedi hesi hecx).mono fun c' hcopy x => ?_
  rw [hcopy, copy, SrirachOS.memcpy]
  obtain ⟨hle, heq⟩ | ⟨hlt, heq⟩ := toNat_sub_cases x (.ofNat 32 d)
  · rw [hword hd32] at hle heq
    by_cases hin : x.toNat < d + n
    · have hsource : (BitVec.ofNat 32 s + (x - .ofNat 32 d)).toNat = s + (x.toNat - d) := by
        rw [BitVec.toNat_add, hword hs32, heq, Nat.mod_eq_of_lt (by omega)]
      rw [if_pos (by omega), if_pos ⟨hle, hin⟩, hmem, hsource]
    · rw [if_neg (by omega), if_neg (by omega), hmem]
  · rw [hword hd32] at hlt heq
    rw [if_neg (by omega), if_neg (by omega), hmem]

/-- The copies of the terminal switch, between the video page and that of a terminal. -/
theorem switch_memcpy {t : Int} (h0 : 0 ≤ t) (h3 : t < 3) {d s : Nat}
    (hpages : d = videoMem ∧ s = Display.videoAddr t ∨ d = Display.videoAddr t ∧ s = videoMem) (c : Processor)
    (hpc : c.pc = 0) (hedi : c.edi = .ofNat 32 d) (hesi : c.esi = .ofNat 32 s)
    (hecx : c.ecx.toNat = 4096) {mem : Nat → UInt8} (hmem : ∀ x, c.mem x = mem x.toNat) :
    Finishes memcpy c fun c' => ∀ x, c'.mem x = SrirachOS.memcpy d s 4096 mem x.toNat := by
  unfold videoMem Display.videoAddr at hpages
  exact memcpy_eq (by omega) (by omega) (by omega) (by omega) (by omega) (by omega) c hpc hedi hesi hecx hmem

/-! ## memmove -/

/-- **`memmove` moves its block**, however source and destination overlap, if neither wraps round the end
of the memory. It leaves the direction flag set exactly when it has gone downwards. -/
theorem memmove_moves (c : Processor) (hpc : c.pc = 0) {n : Nat} (hn : c.ecx.toNat = n)
    (hdest : c.edi.toNat + n ≤ 2 ^ 32) (hsrc : c.esi.toNat + n ≤ 2 ^ 32) :
    Finishes memmove c fun c' =>
      c'.mem = copy c.edi c.esi n c.mem ∧ (c'.df = true ↔ c.esi.toNat < c.edi.toNat) := by
  obtain ⟨pc, eax, ecx, edx, esi, edi, ds, es, zf, cf, df, mem⟩ := c
  obtain rfl : pc = 0 := hpc
  have hword : .ofNat 32 n = ecx := by
    obtain rfl : ecx.toNat = n := hn
    simp
  simp only at hdest hsrc hn ⊢
  refine .of_step rfl (.of_step rfl (.of_step rfl (.of_step rfl ?_)))
  obtain hlt | hle := Nat.lt_or_ge esi.toNat edi.toNat
  · -- downwards, from the last byte on
    refine .of_not_jae rfl (decide_eq_true hlt) (.of_step rfl (.of_step rfl (.of_step rfl
      (.of_repMovs rfl (setWidth_low edx ds) ?_))))
    rw [movs_iterate_down (d := edi) (s := esi) _ rfl]
    · refine .of_end rfl ⟨?_, fun _ => hlt, fun _ => rfl⟩
      change copyDown edi esi ecx.toNat mem = _
      rw [hn, copyDown_eq_copy (by omega)]
      right
      obtain ⟨hge, -⟩ | ⟨-, heq⟩ := toNat_sub_cases esi edi <;> omega
    · change edi + ecx + -1 = edi + .ofNat 32 ecx.toNat - 1
      rw [hn, hword]
      grind
    · change esi + ecx + -1 = esi + .ofNat 32 ecx.toNat - 1
      rw [hn, hword]
      grind
  · refine .of_jae rfl (decide_eq_false (Nat.not_lt.mpr hle)) (.of_repMovs rfl (setWidth_low edx ds) ?_)
    rw [movs_iterate_up _ rfl]
    refine .of_end rfl ⟨?_, fun h => absurd h Bool.false_ne_true,
      fun h => absurd h (Nat.not_lt.mpr hle)⟩
    change copyPieces (List.replicate ecx.toNat 1) edi esi mem = _
    rw [hn, copyPieces_eq_copy (by simpa using by omega), List.sum_replicate_nat, Nat.mul_one]
    rw [List.sum_replicate_nat, Nat.mul_one]
    obtain ⟨hge, -⟩ | ⟨-, heq⟩ := toNat_sub_cases edi esi
    · exact .inl (BitVec.eq_of_toNat_eq (by omega))
    · exact .inr (by omega)

theorem memmove_moves_sample :
    Finishes memmove (entry 0 6 8 10 fun x => .ofNat x.toNat) fun c' =>
      c'.mem = copy 10 8 6 (fun x => .ofNat x.toNat) ∧ (c'.df = true ↔ 8 < 10) :=
  memmove_moves (entry 0 6 8 10 fun x => .ofNat x.toNat) rfl rfl (by decide) (by decide)

end SrirachOS.Lib
