import SrirachOS.FileSys.Image
import Mathlib.Data.List.Basic
import Mathlib.Algebra.Order.Group.Nat

/-!
# Reading the Data of an Inode

`read_data` (`filesys.c`) skips `offset` bytes and copies up to `length` bytes of an inode's
data blocks, clamped at the length of the file. Two counters drive it: `offset_left`, the
bytes still to skip, and `data_left`, the bytes still to copy.

The proof follows the two loops. After block `i` of a file the counters are a function of
`i` alone (`progress`): everything before byte `4096 * i` has been skipped or copied.

- `copyLoop_progress`: one block; `blockLoop_ends`: all of them, up to the first that is refused,
- `readData_spec`: on a well-formed file the call returns
  `min length (file length - offset)` and delivers exactly those bytes.
-/

namespace SrirachOS

open Foundation

/-! ## The code -/

/-- The loop variables of `read_data`; `buf` is what has been stored at the caller's buffer,
first byte first. -/
structure ReadState where
  dataLeft : Int
  dataRead : Int
  offsetLeft : Int
  buf : List UInt8

/-- What a read leaves behind: the return value and the bytes stored at the buffer. -/
structure ReadResult where
  ret : Int
  buf : List UInt8
  deriving DecidableEq

/-- `for(j=0;j<FOUR_KB && data_left>0;j++)`, with the number of turns left. -/
def copyLoop (img : Image) : Nat → Int → ReadState → ReadState
  | 0, _, st => st
  | turns + 1, ptr, st =>
    if st.dataLeft > 0 then
      if st.offsetLeft > 0 then
        copyLoop img turns (ptr + 1) { st with offsetLeft := st.offsetLeft - 1 }
      else
        copyLoop img turns (ptr + 1)
          { dataLeft := st.dataLeft - 1
            dataRead := st.dataRead + 1
            offsetLeft := st.offsetLeft
            buf := st.buf ++ [img.byte ptr] }
    else st

/-- `for(i=0;i<num_blocks;i++)`, with the number of turns left and the block index `i`. -/
def blockLoop (img : Image) (inode : Int) : Nat → Nat → ReadState → ReadResult
  | 0, _, st => ⟨st.dataRead, st.buf⟩
  | turns + 1, i, st =>
    let currBlockIdx := img.dataBlockNum inode i
    if currBlockIdx < 0 ∨ currBlockIdx > 1022 then ⟨-1, st.buf⟩
    else if st.offsetLeft > 4096 then
      blockLoop img inode turns (i + 1) { st with offsetLeft := st.offsetLeft - 4096 }
    else
      blockLoop img inode turns (i + 1) (copyLoop img 4096 (img.blockAddr currBlockIdx) st)

/-- `data_left` after the clamp at the end of the file. The test compares unsigned, and the
sum may wrap. -/
@[irreducible] def clampLength (fileLength offset length : Int) : Int :=
  if u32 (offset + length) > u32 fileLength then i32 (fileLength - offset) else i32 length

/-- `num_blocks`. -/
@[irreducible] def blocksNeeded (dataLeft offset : Int) : Int :=
  if u32 (dataLeft + offset) % 4096 = 0 then u32 (dataLeft + offset) / 4096
  else u32 (dataLeft + offset) / 4096 + 1

/-- `read_data(inode, offset, buf, length)`; the three numbers are `uint32_t` values. -/
def readData (img : Image) (inode offset length : Int) : ReadResult :=
  if inode > u32 img.inodeCount then ⟨-1, []⟩
  else
    let dataLeft := clampLength (img.inodeLength inode) offset length
    blockLoop img inode (blocksNeeded dataLeft offset).toNat 0
      { dataLeft, dataRead := 0, offsetLeft := i32 offset, buf := [] }

/-! ## The bytes of a file -/

/-- Blocks laid end to end, byte by byte. -/
theorem flatMap_range_blocks {α : Type*} (f : Nat → Nat → α) (size : Nat) (hsize : 0 < size)
    (m : Nat) :
    ((List.range m).flatMap fun i => (List.range size).map (f i)) =
      (List.range (m * size)).map fun p => f (p / size) (p % size) := by
  induction m with
  | zero => simp
  | succ m ih =>
    rw [List.range_succ, List.flatMap_append, ih, Nat.succ_mul, List.range_add, List.map_append]
    congr 1
    simp only [List.flatMap_cons, List.flatMap_nil, List.append_nil, List.map_map]
    refine List.map_congr_left fun j hj => ?_
    have hj' : j < size := List.mem_range.mp hj
    have hdiv : (m * size + j) / size = m := by
      rw [Nat.mul_comm, Nat.mul_add_div hsize, Nat.div_eq_of_lt hj', Nat.add_zero]
    have hmod : (m * size + j) % size = j := by
      rw [Nat.mul_comm, Nat.mul_add_mod, Nat.mod_eq_of_lt hj']
    simp only [Function.comp_apply, hdiv, hmod]

/-- The contents of a file, byte by byte. -/
theorem contents_eq_map_fileByte (img : Image) (inode : Int)
    (h0 : 0 ≤ img.inodeLength inode) :
    img.contents inode = (List.range (img.inodeLength inode).toNat).map (img.fileByte inode) := by
  have hcover : (img.inodeLength inode).toNat ≤
      Image.numBlocks (img.inodeLength inode) * 4096 := by
    unfold Image.numBlocks; omega
  unfold Image.contents Image.block
  rw [flatMap_range_blocks (fun i j => img.byte (img.blockAddr (img.dataBlockNum inode (i : Nat))
      + (j : Nat))) 4096 (by omega), ← List.map_take, List.take_range, Nat.min_eq_left hcover]
  rfl

theorem length_contents (img : Image) (inode : Int) (h0 : 0 ≤ img.inodeLength inode) :
    (img.contents inode).length = (img.inodeLength inode).toNat := by
  simp [contents_eq_map_fileByte img inode h0]

/-- The `n` bytes of a file from `offset` on. -/
theorem take_drop_contents (img : Image) (inode : Int) (h0 : 0 ≤ img.inodeLength inode)
    {offset n : Nat} (hn : offset + n ≤ (img.inodeLength inode).toNat) :
    ((img.contents inode).drop offset).take n =
      (List.range n).map fun j => img.fileByte inode (offset + j) := by
  obtain ⟨rest, hrest⟩ := Nat.exists_eq_add_of_le hn
  rw [contents_eq_map_fileByte img inode h0, hrest, Nat.add_assoc, List.range_add,
    List.map_append, List.drop_left' (by simp), List.range_add, List.map_append, List.map_append,
    List.take_left' (by simp)]
  simp [Function.comp_def]

/-! ## The copy loop -/

@[simp] theorem copyLoop_done (img : Image) (turns : Nat) (ptr r o : Int) (out : List UInt8) :
    copyLoop img turns ptr ⟨0, r, o, out⟩ = ⟨0, r, o, out⟩ := by
  cases turns <;> simp [copyLoop]

/-- With data left, the loop first spends its turns on the bytes to skip. -/
theorem copyLoop_skip (img : Image) (turns o : Nat) (ho : o ≤ turns) (ptr d r : Int)
    (hd : 0 < d) (out : List UInt8) :
    copyLoop img turns ptr ⟨d, r, o, out⟩ = copyLoop img (turns - o) (ptr + o) ⟨d, r, 0, out⟩ := by
  induction o generalizing turns ptr with
  | zero => simp
  | succ o ih =>
    obtain ⟨turns, rfl⟩ : ∃ t, turns = t + 1 := ⟨turns - 1, by omega⟩
    have hpos : ((o + 1 : Nat) : Int) > 0 := by omega
    have hdec : ((o + 1 : Nat) : Int) - 1 = (o : Nat) := by omega
    have hptr : ptr + 1 + (o : Int) = ptr + ((o + 1 : Nat) : Int) := by omega
    rw [copyLoop, if_pos hd, if_pos hpos]
    simp only [hdec]
    rw [ih turns (by omega), hptr, Nat.add_sub_add_right]

/-- With nothing to skip, the loop copies one byte a turn while there is data left. -/
theorem copyLoop_copy (img : Image) (turns d : Nat) (ptr r : Int) (out : List UInt8) :
    copyLoop img turns ptr ⟨d, r, 0, out⟩ =
      ⟨(d - turns : Nat), r + (min d turns : Nat), 0,
        out ++ (List.range (min d turns)).map fun j => img.byte (ptr + (j : Nat))⟩ := by
  induction turns generalizing d ptr r out with
  | zero => simp [copyLoop]
  | succ turns ih =>
    cases d with
    | zero => simp
    | succ d =>
      have hpos : ((d + 1 : Nat) : Int) > 0 := by omega
      have hdec : ((d + 1 : Nat) : Int) - 1 = (d : Nat) := by omega
      rw [copyLoop, if_pos hpos, if_neg (by simp)]
      simp only [hdec]
      rw [ih, Nat.add_sub_add_right, Nat.succ_min_succ, List.range_succ_eq_map]
      simp only [List.map_cons, List.map_map, List.append_assoc, List.cons_append,
        List.nil_append, ReadState.mk.injEq, true_and]
      refine ⟨by push_cast; omega, ?_⟩
      congr 2
      · simp
      · refine List.map_congr_left fun j _ => ?_
        simp only [Function.comp_apply]
        congr 1
        push_cast
        omega

/-! ## The block loop -/

/-- The loop variables before block `i` of a read of `d` bytes at `offset`: the bytes before
`4096 * i` have been skipped or copied. -/
def progress (img : Image) (inode : Int) (offset d i : Nat) : ReadState :=
  let copied := min d (4096 * i - offset)
  { dataLeft := (d - copied : Nat)
    dataRead := (copied : Nat)
    offsetLeft := (offset - 4096 * i : Nat)
    buf := (List.range copied).map fun j => img.fileByte inode (offset + j) }

/-- One block inside the skipped part leaves the copied bytes alone. -/
theorem progress_skip (img : Image) (inode : Int) {offset d i : Nat}
    (hskip : 4096 * (i + 1) ≤ offset) :
    { progress img inode offset d i with
      offsetLeft := (progress img inode offset d i).offsetLeft - 4096 } =
      progress img inode offset d (i + 1) := by
  have h0 : 4096 * i - offset = 0 := by omega
  have h1 : 4096 * (i + 1) - offset = 0 := by omega
  have hoff : ((offset - 4096 * i : Nat) : Int) - 4096 = (offset - 4096 * (i + 1) : Nat) := by
    omega
  simp only [progress, h0, h1, hoff]

/-- **One block of the copy**: running the copy loop over block `i` takes the counters from
their values before block `i` to those before block `i + 1`. -/
theorem copyLoop_progress (img : Image) (inode : Int) {offset d i : Nat} (hd : 0 < d)
    (hblock : offset ≤ 4096 * (i + 1)) :
    copyLoop img 4096 (img.blockAddr (img.dataBlockNum inode i)) (progress img inode offset d i) =
      progress img inode offset d (i + 1) := by
  unfold progress
  by_cases hdone : d ≤ 4096 * i - offset
  · -- everything has been copied already
    have h0 : min d (4096 * i - offset) = d := by omega
    have h1 : min d (4096 * (i + 1) - offset) = d := by omega
    have hoff : offset - 4096 * i = 0 := by omega
    have hoff' : offset - 4096 * (i + 1) = 0 := by omega
    simp [h0, h1, hoff, hoff']
  · -- `o` bytes of the block are skipped, the copy goes on with byte `c` of the read
    obtain ⟨o, ho⟩ : ∃ o, o = offset - 4096 * i := ⟨_, rfl⟩
    obtain ⟨c, hc⟩ : ∃ c, c = 4096 * i - offset := ⟨_, rfl⟩
    have hpos : offset + c = 4096 * i + o := by omega
    have ho4 : o ≤ 4096 := by omega
    have hmin : min d (4096 * i - offset) = c := by omega
    have hmin' : min d (4096 * (i + 1) - offset) = c + min (d - c) (4096 - o) := by omega
    have hoff' : offset - 4096 * (i + 1) = 0 := by omega
    simp only [hmin, hmin', ← ho, hoff']
    rw [copyLoop_skip img 4096 o ho4 _ _ _ (by omega), copyLoop_copy]
    simp only [ReadState.mk.injEq, List.range_add, List.map_append, List.map_map,
      List.append_cancel_left_eq]
    refine ⟨by omega, by push_cast; omega, by simp, ?_⟩
    refine List.map_congr_left fun j hj => ?_
    have hj' : j < min (d - c) (4096 - o) := List.mem_range.mp hj
    have hfile : offset + (c + j) = 4096 * i + (o + j) := by omega
    have hdiv : (4096 * i + (o + j)) / 4096 = i := by omega
    have hmod : (4096 * i + (o + j)) % 4096 = o + j := by omega
    simp only [Function.comp_apply, Image.fileByte, hfile, hdiv, hmod, Int.natCast_add,
      Int.add_assoc]

/-- A block number that `read_data` refuses. -/
def BadBlock (img : Image) (inode i : Int) : Prop :=
  img.dataBlockNum inode i < 0 ∨ img.dataBlockNum inode i > 1022

instance (img : Image) (inode i : Int) : Decidable (BadBlock img inode i) :=
  inferInstanceAs (Decidable (_ ∨ _))

/-- The first of the `n` blocks, from block `i` on, that is refused. -/
def firstBad (img : Image) (inode : Int) : Nat → Nat → Option Nat
  | 0, _ => none
  | n + 1, i => if BadBlock img inode i then some i else firstBad img inode n (i + 1)

theorem firstBad_eq_some {img : Image} {inode : Int} {n i j : Nat}
    (h : firstBad img inode n i = some j) : i ≤ j ∧ j < i + n ∧ BadBlock img inode j := by
  induction n generalizing i with
  | zero => cases h
  | succ n ih =>
    rw [firstBad] at h
    split at h
    · rename_i hbad
      obtain rfl := Option.some.inj h
      exact ⟨le_refl i, by omega, hbad⟩
    · obtain ⟨hle, hlt, hbad⟩ := ih h
      exact ⟨by omega, by omega, hbad⟩

theorem firstBad_eq_none_iff {img : Image} {inode : Int} {n i : Nat} :
    firstBad img inode n i = none ↔ ∀ k : Nat, i ≤ k → k < i + n → ¬ BadBlock img inode k := by
  constructor
  · intro h k hik hk hbad
    induction n generalizing i with
    | zero => omega
    | succ n ih =>
      rw [firstBad] at h
      split at h
      · cases h
      · rename_i hok
        have hne : i ≠ k := fun hik => hok (hik ▸ hbad)
        exact ih h (by omega) (by omega)
  · intro hok
    cases h : firstBad img inode n i with
    | none => rfl
    | some j =>
      obtain ⟨hle, hlt, hbad⟩ := firstBad_eq_some h
      exact absurd hbad (hok j hle hlt)

theorem copyLoop_idle (img : Image) (turns : Nat) (ptr : Int) {st : ReadState}
    (h : st.dataLeft ≤ 0) : copyLoop img turns ptr st = st := by
  cases turns with
  | zero => rfl
  | succ turns => rw [copyLoop, if_neg (by omega)]

/-- With nothing left to copy, the blocks are only checked. -/
theorem blockLoop_idle (img : Image) (inode : Int) (turns i : Nat) {st : ReadState}
    (h : st.dataLeft ≤ 0) :
    blockLoop img inode turns i st =
      match firstBad img inode turns i with
      | some _ => ⟨-1, st.buf⟩
      | none => ⟨st.dataRead, st.buf⟩ := by
  induction turns generalizing i st with
  | zero => rfl
  | succ turns ih =>
    rw [blockLoop, firstBad]
    by_cases hbad : BadBlock img inode i
    · rw [if_pos hbad]
      exact if_pos hbad
    · rw [if_neg hbad]
      refine (if_neg hbad).trans ?_
      split
      · exact ih (i + 1) h
      · rw [copyLoop_idle img 4096 _ h]
        exact ih (i + 1) h

/-- With bytes to copy, what lies in front of the first bad block has been copied. -/
theorem blockLoop_ends (img : Image) (inode : Int) {offset d : Nat} (hd : 0 < d) (turns i : Nat) :
    blockLoop img inode turns i (progress img inode offset d i) =
      match firstBad img inode turns i with
      | some j => ⟨-1, (progress img inode offset d j).buf⟩
      | none => ⟨(progress img inode offset d (i + turns)).dataRead,
          (progress img inode offset d (i + turns)).buf⟩ := by
  induction turns generalizing i with
  | zero => rfl
  | succ turns ih =>
    have hnext : blockLoop img inode turns (i + 1) (progress img inode offset d (i + 1)) =
        match firstBad img inode turns (i + 1) with
        | some j => ⟨-1, (progress img inode offset d j).buf⟩
        | none => ⟨(progress img inode offset d (i + (turns + 1))).dataRead,
            (progress img inode offset d (i + (turns + 1))).buf⟩ := by
      rw [ih (i + 1), Nat.add_assoc, Nat.add_comm 1]
    rw [blockLoop, firstBad]
    by_cases hbad : BadBlock img inode i
    · rw [if_pos hbad]
      exact if_pos hbad
    rw [if_neg hbad]
    refine (if_neg hbad).trans ?_
    by_cases hskip : (progress img inode offset d i).offsetLeft > 4096
    · have hlt : 4096 * (i + 1) ≤ offset := by
        simp only [progress] at hskip
        omega
      rw [if_pos hskip, progress_skip img inode hlt]
      exact hnext
    · have hle : offset ≤ 4096 * (i + 1) := by
        simp only [progress] at hskip
        omega
      rw [if_neg hskip, copyLoop_progress img inode hd hle]
      exact hnext

/-- Every block number is accepted. -/
theorem firstBad_eq_none {img : Image} {inode : Int} {n i : Nat}
    (hblocks : ∀ k : Nat, k < i + n →
      0 ≤ img.dataBlockNum inode k ∧ img.dataBlockNum inode k ≤ 1022) :
    firstBad img inode n i = none := by
  refine firstBad_eq_none_iff.mpr fun k _ hk => ?_
  have hok := hblocks k hk
  unfold BadBlock
  omega

/-- The block loop runs to its end over blocks that `read_data` accepts. -/
theorem blockLoop_progress (img : Image) (inode : Int) {offset d : Nat} (hd : 0 < d)
    (turns i : Nat)
    (hblocks : ∀ k : Nat, k < i + turns →
      0 ≤ img.dataBlockNum inode k ∧ img.dataBlockNum inode k ≤ 1022) :
    blockLoop img inode turns i (progress img inode offset d i) =
      ⟨(progress img inode offset d (i + turns)).dataRead,
        (progress img inode offset d (i + turns)).buf⟩ := by
  rw [blockLoop_ends img inode hd, firstBad_eq_none hblocks]

/-- With no data to copy, the block loop delivers nothing. -/
theorem blockLoop_no_data (img : Image) (inode : Int) (turns i : Nat) (o : Int)
    (hblocks : ∀ k : Nat, k < i + turns →
      0 ≤ img.dataBlockNum inode k ∧ img.dataBlockNum inode k ≤ 1022) :
    blockLoop img inode turns i ⟨0, 0, o, []⟩ = ⟨0, []⟩ := by
  rw [blockLoop_idle img inode turns i (le_refl 0), firstBad_eq_none hblocks]

/-! ## The call -/

/-- The blocks that a read within the file needs are blocks the file has. -/
theorem blocksNeeded_le {d offset L : Nat} (hle : d + offset ≤ L) (hL : L ≤ 1023 * 4096) :
    (blocksNeeded d offset).toNat ≤ Image.numBlocks L ∧ d + offset ≤
      4096 * (blocksNeeded d offset).toNat := by
  have hfits : u32 ((d : Int) + offset) = d + offset := u32_of_fits (by omega) (by omega)
  unfold blocksNeeded Image.numBlocks
  rw [hfits]
  split <;> omega

/-- **`read_data` on a well-formed file**: at an offset within the file, as long as
`offset + length` does not wrap, the call returns `min length (L - offset)` and delivers
exactly the bytes of the file from `offset` on. -/
theorem readData_spec (img : Image) (inode : Int) (hwf : img.WellFormedFile inode)
    {offset length : Nat} (hoffset : (offset : Int) ≤ img.inodeLength inode)
    (hsum : offset + length < 4294967296) (hlength : length < 2147483648) :
    readData img inode offset length =
      ⟨(min length ((img.inodeLength inode).toNat - offset) : Nat),
        ((img.contents inode).drop offset).take length⟩ := by
  obtain ⟨L, hL⟩ : ∃ L : Nat, img.inodeLength inode = L :=
    ⟨(img.inodeLength inode).toNat, by have := hwf.length_nonneg; omega⟩
  have hLmax : L ≤ 1023 * 4096 := by have := hwf.length_le; omega
  obtain ⟨d, hd⟩ : ∃ d, d = min length (L - offset) := ⟨_, rfl⟩
  have hbytes : ((img.contents inode).drop offset).take length =
      (List.range d).map fun j => img.fileByte inode (offset + j) := by
    have hle : offset + d ≤ (img.inodeLength inode).toNat := by omega
    have hmin : min length (L - offset) = d := hd.symm
    rw [List.take_eq_take_min, List.length_drop, length_contents img inode hwf.length_nonneg, hL,
      Int.toNat_natCast, hmin]
    exact take_drop_contents img inode hwf.length_nonneg hle
  have hinode : ¬ inode > u32 img.inodeCount := by
    have h0 := hwf.inode_nonneg
    have h1 := hwf.inode_lt
    have h2 : img.inodeCount < 2147483648 := img.word_lt 4
    rw [u32_of_fits (x := img.inodeCount) (by omega) (by omega)]
    omega
  have hclamp : clampLength (img.inodeLength inode) offset length = d := by
    unfold clampLength
    rw [hL, u32_of_fits (x := (offset : Int) + length) (by omega) (by omega),
      u32_of_fits (x := (L : Int)) (by omega) (by omega)]
    split
    · rw [i32_of_fits (by omega) (by omega)]; omega
    · rw [i32_of_fits (by omega) (by omega)]; omega
  have hoff : i32 (offset : Int) = offset := i32_of_fits (by omega) (by omega)
  have hend : d + offset ≤ L := by omega
  obtain ⟨hle, hcover⟩ := blocksNeeded_le hend hLmax
  have hblocks : ∀ k : Nat, k < 0 + (blocksNeeded d offset).toNat →
      0 ≤ img.dataBlockNum inode k ∧ img.dataBlockNum inode k ≤ 1022 := fun k hk =>
    ⟨hwf.block_nonneg k (by rw [hL]; omega), hwf.block_le k (by rw [hL]; omega)⟩
  unfold readData
  rw [if_neg hinode, hclamp, hoff, hbytes, hL, Int.toNat_natCast, ← hd]
  dsimp only
  rcases Nat.eq_zero_or_pos d with h0 | hpos
  · simp only [h0] at hblocks ⊢
    exact blockLoop_no_data img inode _ 0 _ hblocks
  · have hstart : (⟨d, 0, offset, []⟩ : ReadState) = progress img inode offset d 0 := by
      simp [progress]
    have hend : min d (4096 * (blocksNeeded d offset).toNat - offset) = d := by omega
    rw [hstart, blockLoop_progress img inode hpos _ 0 hblocks]
    simp [progress, hend]

end SrirachOS
