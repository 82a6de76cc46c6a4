import SrirachOS.FileSys.Region

/-!
# What a Read of a File Delivers

`read_data` again, for every offset and every length that its `uint32_t` parameters can hold, and
with the memory that it stores in.

- `readInto`: the loops with the caller's buffer in memory; `readInto_eq`: it holds afterwards what
  `readData` lists,
- `read_exact`: the bytes of the file from the offset on, and nothing else,
- `blockLoop_count`: how many bytes the loops copy, from any counters,
- `read_count_iff`: so the clamp at the end of the file is right exactly for these numbers.
-/

namespace SrirachOS

open Foundation

/-! ## The buffer -/

/-- The loop variables of `read_data`, with the pointer to the next byte of the buffer. -/
structure StoreState where
  dataLeft : Int
  dataRead : Int
  offsetLeft : Int
  buf : Int
  mem : Nat → UInt8

/-- `for(j=0;j<FOUR_KB && data_left>0;j++)`, with the number of turns left. -/
def copyInto (img : Image) : Nat → Int → StoreState → StoreState
  | 0, _, st => st
  | turns + 1, ptr, st =>
    if st.dataLeft > 0 then
      if st.offsetLeft > 0 then
        copyInto img turns (ptr + 1) { st with offsetLeft := st.offsetLeft - 1 }
      else
        copyInto img turns (ptr + 1)
          { dataLeft := st.dataLeft - 1
            dataRead := st.dataRead + 1
            offsetLeft := st.offsetLeft
            buf := st.buf + 1
            mem := Function.update st.mem (u32 st.buf).toNat (img.byte ptr) }
    else st

/-- `for(i=0;i<num_blocks;i++)`, with the number of turns left and the block index `i`: the return
value and the memory. -/
def blockInto (img : Image) (inode : Int) : Nat → Nat → StoreState → Int × (Nat → UInt8)
  | 0, _, st => (st.dataRead, st.mem)
  | turns + 1, i, st =>
    let currBlockIdx := img.dataBlockNum inode i
    if currBlockIdx < 0 ∨ currBlockIdx > 1022 then (-1, st.mem)
    else if st.offsetLeft > 4096 then
      blockInto img inode turns (i + 1) { st with offsetLeft := st.offsetLeft - 4096 }
    else
      blockInto img inode turns (i + 1) (copyInto img 4096 (img.blockAddr currBlockIdx) st)

/-- `read_data(inode, offset, buf, length)`, with the memory that `buf` points into. -/
def readInto (img : Image) (inode offset buf length : Int) (mem : Nat → UInt8) :
    Int × (Nat → UInt8) :=
  if inode > u32 img.inodeCount then (-1, mem)
  else
    let dataLeft := clampLength (img.inodeLength inode) offset length
    blockInto img inode (blocksNeeded dataLeft offset).toNat 0
      { dataLeft, dataRead := 0, offsetLeft := i32 offset, buf, mem }

/-! ## Bytes in memory -/

/-- The memory after `bytes` have been stored from address `a` on. -/
def storeBytes : Int → List UInt8 → (Nat → UInt8) → Nat → UInt8
  | _, [], mem => mem
  | a, b :: bytes, mem => storeBytes (a + 1) bytes (Function.update mem (u32 a).toNat b)

theorem storeBytes_append (a : Int) (bytes more : List UInt8) (mem : Nat → UInt8) :
    storeBytes a (bytes ++ more) mem =
      storeBytes (a + bytes.length) more (storeBytes a bytes mem) := by
  induction bytes generalizing a mem with
  | nil => simp [storeBytes]
  | cons b bytes ih =>
    have hnext : a + ((b :: bytes).length : Nat) = a + 1 + (bytes.length : Nat) := by
      rw [List.length_cons]
      push_cast
      omega
    rw [List.cons_append, storeBytes, storeBytes, ih, hnext]

/-- An address at which no byte is stored. -/
theorem storeBytes_outside {a : Int} {bytes : List UInt8} {x : Nat}
    (h : ∀ j : Nat, j < bytes.length → x ≠ (u32 (a + j)).toNat) (mem : Nat → UInt8) :
    storeBytes a bytes mem x = mem x := by
  induction bytes generalizing a mem with
  | nil => rfl
  | cons b bytes ih =>
    have hfirst : x ≠ (u32 a).toNat := by simpa using h 0 (by simp)
    rw [storeBytes, ih, Function.update_of_ne hfirst]
    intro j hj
    have hlater := h (j + 1) (by simpa using hj)
    have hsame : a + ((j + 1 : Nat) : Int) = a + 1 + (j : Nat) := by
      push_cast
      omega
    rwa [hsame] at hlater

/-- The bytes stand one behind the other, as long as they do not run around the address space. -/
theorem storeBytes_inside (a : Int) (bytes : List UInt8) (hlen : bytes.length ≤ 4294967296)
    (mem : Nat → UInt8) (j : Nat) (hj : j < bytes.length) :
    storeBytes a bytes mem (u32 (a + j)).toNat = bytes[j] := by
  induction bytes generalizing a mem j with
  | nil => exact absurd hj (Nat.not_lt_zero j)
  | cons b bytes ih =>
    rw [List.length_cons] at hlen hj
    cases j with
    | zero =>
      -- the bytes behind go to other addresses
      have hother : ∀ k : Nat, k < bytes.length →
          (u32 (a + (0 : Nat))).toNat ≠ (u32 (a + 1 + (k : Nat))).toNat := by
        intro k hk
        unfold u32
        omega
      rw [storeBytes, storeBytes_outside hother]
      simp
    | succ j =>
      have hsame : a + ((j + 1 : Nat) : Int) = a + 1 + (j : Nat) := by
        push_cast
        omega
      rw [storeBytes, hsame, ih (a + 1) (by omega) _ j (by omega)]
      rfl

/-! ## The loops with the buffer -/

/-- A state of the loops, with what has been stored from address `a` on. -/
def ReadState.storedAt (st : ReadState) (a : Int) (mem : Nat → UInt8) : StoreState where
  dataLeft := st.dataLeft
  dataRead := st.dataRead
  offsetLeft := st.offsetLeft
  buf := a + st.buf.length
  mem := storeBytes a st.buf mem

theorem copyInto_eq (img : Image) (turns : Nat) (ptr : Int) (st : ReadState) (a : Int)
    (mem : Nat → UInt8) :
    copyInto img turns ptr (st.storedAt a mem) = (copyLoop img turns ptr st).storedAt a mem := by
  induction turns generalizing ptr st with
  | zero => rfl
  | succ turns ih =>
    rw [copyInto, copyLoop]
    change (if st.dataLeft > 0 then if st.offsetLeft > 0 then _ else _ else _) = _
    split
    · split
      · exact ih (ptr + 1) { st with offsetLeft := st.offsetLeft - 1 }
      · -- one more byte behind those that are stored
        rw [← ih]
        congr 1
        simp only [ReadState.storedAt, storeBytes_append, storeBytes, StoreState.mk.injEq, true_and,
          List.length_append, List.length_singleton]
        push_cast
        exact ⟨by omega, trivial⟩
    · rfl

theorem blockInto_eq (img : Image) (inode : Int) (turns i : Nat) (st : ReadState) (a : Int)
    (mem : Nat → UInt8) :
    blockInto img inode turns i (st.storedAt a mem) =
      ((blockLoop img inode turns i st).ret,
        storeBytes a (blockLoop img inode turns i st).buf mem) := by
  induction turns generalizing i st with
  | zero => rfl
  | succ turns ih =>
    rw [blockInto, blockLoop]
    split
    · rfl
    · change (if st.offsetLeft > 4096 then _ else _) = _
      split
      · exact ih (i + 1) { st with offsetLeft := st.offsetLeft - 4096 }
      · rw [copyInto_eq]
        exact ih (i + 1) _

/-- **The buffer after a read** holds what `readData` lists. -/
theorem readInto_eq (img : Image) (inode offset buf length : Int) (mem : Nat → UInt8) :
    readInto img inode offset buf length mem =
      ((readData img inode offset length).ret,
        storeBytes buf (readData img inode offset length).buf mem) := by
  unfold readInto readData
  split
  · rfl
  · have hstart := blockInto_eq img inode
      (blocksNeeded (clampLength (img.inodeLength inode) offset length) offset).toNat 0
      ⟨clampLength (img.inodeLength inode) offset length, 0, i32 offset, []⟩ buf mem
    simpa [ReadState.storedAt, storeBytes] using hstart

/-! ## How many bytes are copied -/

/-- What the loops of `read_data` have stored between two states. -/
structure Stores (st st' : ReadState) : Prop where
  counted : st'.dataRead - st.dataRead = (st'.buf.length : Int) - st.buf.length
  spent : st'.dataLeft + st'.buf.length = st.dataLeft + st.buf.length
  left : min 0 st.dataLeft ≤ st'.dataLeft

theorem Stores.refl (st : ReadState) : Stores st st := ⟨by omega, rfl, by omega⟩

theorem Stores.trans {st st' st'' : ReadState} (h : Stores st st') (h' : Stores st' st'') :
    Stores st st'' := by
  obtain ⟨hcounted, hspent, hleft⟩ := h
  obtain ⟨hcounted', hspent', hleft'⟩ := h'
  exact ⟨by omega, by omega, by omega⟩

theorem copyLoop_stores (img : Image) (turns : Nat) (ptr : Int) (st : ReadState) :
    Stores st (copyLoop img turns ptr st) := by
  induction turns generalizing ptr st with
  | zero => exact .refl st
  | succ turns ih =>
    rw [copyLoop]
    split
    · rename_i hleft
      split
      · obtain ⟨hcounted, hspent, hleft'⟩ := ih (ptr + 1) { st with offsetLeft := st.offsetLeft - 1 }
        exact ⟨hcounted, hspent, hleft'⟩
      · refine Stores.trans ⟨?_, ?_, ?_⟩ (ih (ptr + 1) _)
        · simp only [List.length_append, List.length_singleton]
          omega
        · simp only [List.length_append, List.length_singleton]
          omega
        · dsimp only
          omega
    · exact .refl st

/-- The blocks, one after the other, from a state in which `data_read` counts what is stored. -/
theorem blockLoop_stores (img : Image) (inode : Int) (turns i : Nat) (st : ReadState)
    (hst : st.dataRead = st.buf.length) :
    let res := blockLoop img inode turns i st
    (res.buf.length : Int) ≤ st.buf.length + max 0 st.dataLeft ∧
      (res.ret = -1 ∨ res.ret = res.buf.length) := by
  induction turns generalizing i st with
  | zero => exact ⟨by simp only [blockLoop]; omega, .inr hst⟩
  | succ turns ih =>
    intro res
    have hres : res = blockLoop img inode (turns + 1) i st := rfl
    rw [blockLoop] at hres
    split at hres
    · rw [hres]
      exact ⟨by dsimp only; omega, .inl rfl⟩
    split at hres
    · rw [hres]
      exact ih (i + 1) { st with offsetLeft := st.offsetLeft - 4096 } hst
    · obtain ⟨hcounted, hspent, hleft⟩ := copyLoop_stores img 4096
        (img.blockAddr (img.dataBlockNum inode i)) st
      rw [hres]
      obtain ⟨hlen, hret⟩ := ih (i + 1) (copyLoop img 4096
        (img.blockAddr (img.dataBlockNum inode i)) st) (by omega)
      exact ⟨by omega, hret⟩

/-- **`read_data`** stores at most what is left of the file and of the request, and returns how much
that is, or -1. -/
theorem readData_stores (img : Image) (inode offset length : Int) :
    let res := readData img inode offset length
    (res.buf.length : Int) ≤ max 0 (clampLength (img.inodeLength inode) offset length) ∧
      (res.ret = -1 ∨ res.ret = res.buf.length) := by
  intro res
  have hres : res = readData img inode offset length := rfl
  rw [readData] at hres
  dsimp only at hres
  split at hres
  · rw [hres]
    exact ⟨by simp, .inl rfl⟩
  · obtain ⟨hlen, hret⟩ := blockLoop_stores img inode
      (blocksNeeded (clampLength (img.inodeLength inode) offset length) offset).toNat 0
      ⟨clampLength (img.inodeLength inode) offset length, 0, i32 offset, []⟩ rfl
    rw [hres]
    refine ⟨?_, hret⟩
    dsimp only [List.length_nil] at hlen
    omega

/-- **How many bytes the loops copy**, from any counters, over blocks that are accepted. -/
theorem blockLoop_count (img : Image) (inode : Int) (turns i : Nat) (st : ReadState)
    (hblocks : ∀ k : Nat, k < i + turns →
      0 ≤ img.dataBlockNum inode k ∧ img.dataBlockNum inode k ≤ 1022) :
    let copied := max 0 (min st.dataLeft (4096 * turns - max st.offsetLeft 0))
    (blockLoop img inode turns i st).ret = st.dataRead + copied ∧
      ((blockLoop img inode turns i st).buf.length : Int) = st.buf.length + copied := by
  induction turns generalizing i st with
  | zero =>
    rw [blockLoop]
    constructor
    · dsimp only
      omega
    · dsimp only
      omega
  | succ turns ih =>
    have hok := hblocks i (by omega)
    have hrest : ∀ k : Nat, k < i + 1 + turns →
        0 ≤ img.dataBlockNum inode k ∧ img.dataBlockNum inode k ≤ 1022 :=
      fun k hk => hblocks k (by omega)
    rw [blockLoop, if_neg (by omega)]
    by_cases hskip : st.offsetLeft > 4096
    · -- the whole block is skipped
      rw [if_pos hskip]
      obtain ⟨hret, hlen⟩ := ih (i + 1) { st with offsetLeft := st.offsetLeft - 4096 } hrest
      rw [hret, hlen]
      dsimp only
      constructor <;> push_cast <;> omega
    · rw [if_neg hskip]
      -- the first bytes of the block are skipped, the others are copied as long as any are left
      obtain ⟨hdata, hoff⟩ := copyLoop_counters img 4096
        (img.blockAddr (img.dataBlockNum inode i)) st
      obtain ⟨hcounted, hspent, -⟩ := copyLoop_stores img 4096
        (img.blockAddr (img.dataBlockNum inode i)) st
      obtain ⟨hret, hlen⟩ := ih (i + 1)
        (copyLoop img 4096 (img.blockAddr (img.dataBlockNum inode i)) st) hrest
      rw [hret, hlen]
      generalize copyLoop img 4096 (img.blockAddr (img.dataBlockNum inode i)) st = st' at *
      by_cases hd : st.dataLeft ≤ 0
      · rw [if_pos hd] at hdata
        rw [if_pos (.inl hd)] at hoff
        constructor <;> push_cast <;> omega
      · rw [if_neg hd] at hdata
        by_cases ho : st.offsetLeft ≤ 0
        · rw [if_pos (.inr ho)] at hoff
          constructor <;> push_cast <;> omega
        · rw [if_neg (by omega)] at hoff
          constructor <;> push_cast <;> omega

/-- **A read within a file**: for every well-formed file of an image, every offset up to its length
and every length whose sum with the offset a signed word can hold, `read_data` returns the number of
bytes that are there, stores exactly these bytes at the buffer, and changes no other byte. -/
theorem read_exact (img : Image) (inode : Int) (hwf : img.WellFormedFile inode)
    (offset length : Nat) (hoffset : (offset : Int) ≤ img.inodeLength inode)
    (hsum : offset + length < 2147483648) (buf : Int) (mem : Nat → UInt8) :
    let n := min length ((img.inodeLength inode).toNat - offset)
    let res := readInto img inode offset buf length mem
    res.1 = n ∧
    (∀ j : Nat, j < n → res.2 (u32 (buf + j)).toNat = img.fileByte inode (offset + j)) ∧
    ∀ x, (∀ j : Nat, j < n → x ≠ (u32 (buf + j)).toNat) → res.2 x = mem x := by
  intro n res
  have hres : res = (((n : Nat) : Int), storeBytes buf
      (((img.contents inode).drop offset).take length) mem) := by
    change readInto img inode offset buf length mem = _
    rw [readInto_eq, readData_spec img inode hwf hoffset (by omega) (by omega)]
  -- the bytes, one by one
  have hbytes : ((img.contents inode).drop offset).take length =
      (List.range n).map fun j => img.fileByte inode (offset + j) := by
    have hlen := length_contents img inode hwf.length_nonneg
    rw [← take_drop_contents img inode hwf.length_nonneg (by omega), List.take_eq_take_min,
      List.length_drop, hlen]
  have hlen : ((List.range n).map fun j => img.fileByte inode (offset + j)).length = n := by simp
  rw [hres, hbytes]
  refine ⟨rfl, fun j hj => ?_, fun x hx => ?_⟩
  · dsimp only
    rw [storeBytes_inside _ _ (by rw [hlen]; omega) _ j (by rw [hlen]; exact hj)]
    simp
  · exact storeBytes_outside (by rw [hlen]; exact hx) mem

/-- Two bytes of the file `a` from its second one on, at an address below the end of memory. -/
theorem read_exact_sample :
    (readInto sampleImage 1 1 0xffffffff 5 fun _ => 0).1 = 2 :=
  ((read_exact sampleImage 1 (by decide +kernel) 1 5 (by decide +kernel) (by decide) 0xffffffff
    fun _ => 0).1).trans (by decide +kernel)

/-! ## Every offset and every length -/

/-- The blocks that a read goes over are those up to the end of the file, or up to where the sum of
offset and length, as it wraps, ends before it. -/
theorem blocksNeeded_clamp {L : Int} (h0 : 0 ≤ L) (hL : L ≤ 1023 * 4096) (offset length : Int) :
    blocksNeeded (clampLength L offset length) offset =
      (min L (u32 (offset + length)) + 4095) / 4096 := by
  -- the offset is added again, which undoes what the signed words have done to the sum
  have hend : u32 (i32 (L - offset) + offset) = L := by
    unfold u32 i32
    split <;> omega
  have hsum : u32 (i32 length + offset) = u32 (offset + length) := by
    unfold u32 i32
    split <;> omega
  have hbase : u32 (clampLength L offset length + offset) = min L (u32 (offset + length)) := by
    unfold clampLength
    rw [u32_of_fits (x := L) h0 (by omega)]
    split
    · rw [hend]
      omega
    · rw [hsum]
      omega
  unfold blocksNeeded
  rw [hbase]
  have := u32_nonneg (offset + length)
  split <;> omega

/-- `offset + length` as `read_data` adds them. -/
def wrappedSum (offset length : UInt32) : Nat := (offset.toNat + length.toNat) % 4294967296

/-- The clamp at the end of a file of `L` bytes is right for these numbers. In the file, a sum that
wraps must not come out inside the file again. Behind it, nothing must be taken for a length: neither
the distance back to the end, as a signed number, nor the length of the request, when the sum wraps
to a position in the file. -/
def ClampSound (L : Nat) (offset length : UInt32) : Prop :=
  if offset.toNat < L then offset.toNat + length.toNat < 4294967296 ∨ L < wrappedSum offset length
  else if L < wrappedSum offset length then L = 0 ∨ offset.toNat ≤ L + 2147483648
  else length.toNat = 0 ∨ 2147483648 ≤ length.toNat ∨ wrappedSum offset length = 0

instance (L : Nat) (offset length : UInt32) : Decidable (ClampSound L offset length) :=
  inferInstanceAs (Decidable (ite _ _ (ite _ _ _)))

/-- The bytes of a file of `L` bytes that a request has to deliver. -/
def readable (L : Nat) (offset length : UInt32) : Nat :=
  if L ≤ offset.toNat then 0 else min length.toNat (L - offset.toNat)

/-- What `data_left` and `offset_left` start with decides how much is copied. -/
theorem clampSound_iff {L : Nat} (hL : L ≤ 1023 * 4096) (offset length : UInt32) :
    max 0 (min (clampLength L offset.toNat length.toNat)
        (4096 * ((min (L : Int) (u32 ((offset.toNat : Int) + length.toNat)) + 4095) / 4096) -
          max (i32 offset.toNat) 0)) = (readable L offset length : Nat) ↔
    ClampSound L offset length := by
  have hoffset := offset.toNat_lt
  have hlength := length.toNat_lt
  unfold ClampSound wrappedSum clampLength readable
  generalize offset.toNat = o at *
  generalize length.toNat = l at *
  obtain ⟨s, hs⟩ : ∃ s, s = (o + l) % 4294967296 := ⟨_, rfl⟩
  have hsum : u32 ((o : Int) + l) = s := by
    unfold u32
    omega
  have hL' : u32 (L : Int) = L := u32_of_fits (by omega) (by omega)
  have hwrap : s < 4294967296 ∧ (s = o + l ∨ s + 4294967296 = o + l) := by omega
  rw [hsum, hL', ← hs]
  clear hs
  -- the three signed numbers
  have hskip : i32 (o : Int) = if o < 2147483648 then (o : Int) else o - 4294967296 := by
    unfold i32
    split_ifs <;> omega
  have hwhole : i32 (l : Int) = if l < 2147483648 then (l : Int) else l - 4294967296 := by
    unfold i32
    split_ifs <;> omega
  have hrest : i32 ((L : Int) - o) =
      if o ≤ L + 2147483648 then (L : Int) - o else L - o + 4294967296 := by
    unfold i32
    split_ifs <;> omega
  -- the blocks that are gone over
  obtain ⟨T, hT⟩ : ∃ T, T = (min (L : Int) s + 4095) / 4096 := ⟨_, rfl⟩
  have hcover : min (L : Int) s ≤ 4096 * T ∧ (min (L : Int) s = 0 → T = 0) ∧ 0 ≤ T := by omega
  rw [hskip, hwhole, hrest, ← hT]
  clear hT
  by_cases hin : o < L
  · have hout : ¬ L ≤ o := by omega
    rw [if_pos hin, if_neg hout]
    split_ifs <;> omega
  · have hout : L ≤ o := by omega
    rw [if_neg hin, if_pos hout]
    split_ifs <;> omega

/-- The loops of a read run over blocks of the file. -/
theorem readData_count {img : Image} {inode : Int} (hwf : img.WellFormedFile inode) {L : Nat}
    (hL : img.inodeLength inode = L) (offset length : UInt32) :
    let res := readData img inode offset.toNat length.toNat
    let copied := max 0 (min (clampLength L offset.toNat length.toNat)
      (4096 * ((min (L : Int) (u32 ((offset.toNat : Int) + length.toNat)) + 4095) / 4096) -
        max (i32 offset.toNat) 0))
    res.ret = copied ∧ (res.buf.length : Int) = copied := by
  have hle := hwf.length_le
  have hcount : img.inodeCount < 2147483648 := img.word_lt 4
  have hinode : ¬ inode > u32 img.inodeCount := by
    have h0 := hwf.inode_nonneg
    have h1 := hwf.inode_lt
    rw [u32_of_fits (x := img.inodeCount) (by omega) (by omega)]
    omega
  have hturns := blocksNeeded_clamp (L := L) (by omega) (by omega) offset.toNat length.toNat
  have hnonneg := u32_nonneg ((offset.toNat : Int) + length.toNat)
  have hpos : 0 ≤ blocksNeeded (clampLength L offset.toNat length.toNat) offset.toNat := by
    rw [hturns]
    omega
  have hblocks : ∀ k : Nat, k < 0 + (blocksNeeded (clampLength L offset.toNat length.toNat)
      offset.toNat).toNat → 0 ≤ img.dataBlockNum inode k ∧ img.dataBlockNum inode k ≤ 1022 := by
    intro k hk
    -- the loop ends with the last block of the file
    have hk' : k < Image.numBlocks (img.inodeLength inode) := by
      unfold Image.numBlocks
      rw [hL]
      omega
    exact ⟨hwf.block_nonneg k hk', hwf.block_le k hk'⟩
  obtain ⟨hret, hbuf⟩ := blockLoop_count img inode _ 0
    ⟨clampLength L offset.toNat length.toNat, 0, i32 offset.toNat, []⟩ hblocks
  rw [Int.toNat_of_nonneg hpos, hturns] at hret hbuf
  unfold readData
  rw [if_neg hinode, hL, ← hturns]
  rw [← hturns] at hret hbuf
  dsimp only [List.length_nil] at hret hbuf ⊢
  exact ⟨by omega, by omega⟩

/-- **How much a read copies**: for every well-formed file of an image and every 32-bit offset and
length, `read_data` copies and returns nothing behind the end of the file and what is left of the
request in front of it exactly when the clamp is right for these numbers. -/
theorem read_count_iff (img : Image) (inode : Int) (hwf : img.WellFormedFile inode)
    (offset length : UInt32) :
    let n := readable (img.inodeLength inode).toNat offset length
    let res := readData img inode offset.toNat length.toNat
    (res.ret = n ∧ res.buf.length = n) ↔
      ClampSound (img.inodeLength inode).toNat offset length := by
  have hle := hwf.length_le
  obtain ⟨L, hL⟩ : ∃ L : Nat, img.inodeLength inode = L :=
    ⟨(img.inodeLength inode).toNat, by have := hwf.length_nonneg; omega⟩
  obtain ⟨hret, hbuf⟩ := readData_count hwf hL offset length
  rw [hL, Int.toNat_natCast]
  dsimp only
  rw [← clampSound_iff (by omega) offset length, hret, ← Int.natCast_inj, hbuf, and_self]

/-- A position behind the file, and a request up to the end of the address space. -/
theorem read_count_iff_sample :
    (readData sampleImage 1 ((7 : UInt32).toNat : Nat) ((4294967288 : UInt32).toNat : Nat)).ret =
      (0 : Nat) :=
  ((read_count_iff sampleImage 1 (by decide +kernel) 7 4294967288).mpr (by decide +kernel)).1.trans
    (by decide +kernel)

/-- A request from far behind the file that wraps to its second byte delivers the first two. -/
theorem read_past_end :
    sampleImage.WellFormedFile 1 ∧
      readable (sampleImage.inodeLength 1).toNat 4294967295 2 = 0 ∧
      readData sampleImage 1 ((4294967295 : UInt32).toNat : Nat) ((2 : UInt32).toNat : Nat) =
        ⟨2, [120, 121]⟩ :=
  ⟨by decide +kernel, by decide +kernel, by decide +kernel⟩

end SrirachOS
