import SrirachOS.FileSys.SequentialRead

/-!
# Declared Regions

The boot block declares how many directory entries, inodes and data blocks an image has. Each
access of `filesys.c` has a check of its own, against a constant of its own or none at all.

The functions are run here together with a list of what they read of the image: `readDataT`,
`fileReadT`, `dirReadT` and `readDentryByIndexT` do what the functions without the `T` do and note
every directory entry, inode block and data block that they touch.

- `copyLoopT_reads`, `blockLoopT_reads`: what the loops of `read_data` touch, from any counters,
- `region_exact`: each function stays in the declared region exactly on these requests.
-/

namespace SrirachOS

open Foundation FsProg

/-! ## Accesses -/

/-- What is read of the image. -/
inductive FsAccess where
  /-- a byte of a directory entry -/
  | direntry (i : Int)
  /-- a word of an inode block -/
  | inode (n : Int)
  /-- a byte of a data block -/
  | data (b : Int)
  deriving DecidableEq

/-- The region that the boot block declares. -/
def Image.Declared (img : Image) : FsAccess → Prop
  | .direntry i => 0 ≤ i ∧ i < img.dirCount
  | .inode n => 0 ≤ n ∧ n < img.inodeCount
  | .data b => 0 ≤ b ∧ b < img.dataCount

instance (img : Image) : (a : FsAccess) → Decidable (img.Declared a)
  | .direntry _ | .inode _ | .data _ => inferInstanceAs (Decidable (_ ∧ _))

/-! ## The code, with what it reads -/

/-- `copyLoop` on data block `b`. -/
def copyLoopT (img : Image) (b : Int) : Nat → Int → ReadState → ReadState × List FsAccess
  | 0, _, st => (st, [])
  | turns + 1, ptr, st =>
    if st.dataLeft > 0 then
      if st.offsetLeft > 0 then
        copyLoopT img b turns (ptr + 1) { st with offsetLeft := st.offsetLeft - 1 }
      else
        let rest := copyLoopT img b turns (ptr + 1)
          { dataLeft := st.dataLeft - 1
            dataRead := st.dataRead + 1
            offsetLeft := st.offsetLeft
            buf := st.buf ++ [img.byte ptr] }
        (rest.1, .data b :: rest.2)
    else (st, [])

/-- The inode block that `data_block_num[i]` lies in: a length and 1023 numbers fill one, and the
index is not checked. -/
def blockNumAccess (inode : Int) (i : Nat) : FsAccess := .inode (inode + ((1 + i) / 1024 : Nat))

/-- `blockLoop`. -/
def blockLoopT (img : Image) (inode : Int) : Nat → Nat → ReadState → ReadResult × List FsAccess
  | 0, _, st => (⟨st.dataRead, st.buf⟩, [])
  | turns + 1, i, st =>
    let currBlockIdx := img.dataBlockNum inode i
    if currBlockIdx < 0 ∨ currBlockIdx > 1022 then (⟨-1, st.buf⟩, [blockNumAccess inode i])
    else if st.offsetLeft > 4096 then
      let rest := blockLoopT img inode turns (i + 1) { st with offsetLeft := st.offsetLeft - 4096 }
      (rest.1, blockNumAccess inode i :: rest.2)
    else
      let copy := copyLoopT img currBlockIdx 4096 (img.blockAddr currBlockIdx) st
      let rest := blockLoopT img inode turns (i + 1) copy.1
      (rest.1, blockNumAccess inode i :: (copy.2 ++ rest.2))

/-- `readData`. -/
def readDataT (img : Image) (inode offset length : Int) : ReadResult × List FsAccess :=
  if inode > u32 img.inodeCount then (⟨-1, []⟩, [])
  else
    let dataLeft := clampLength (img.inodeLength inode) offset length
    let rest := blockLoopT img inode (blocksNeeded dataLeft offset).toNat 0
      { dataLeft, dataRead := 0, offsetLeft := i32 offset, buf := [] }
    (rest.1, .inode inode :: rest.2)

/-- `readDentryByIndex`. -/
def readDentryByIndexT (img : Image) (index : Int) : Option Dentry × List FsAccess :=
  if u32 index > 63 then (none, [])
  else
    (some
      { filename := img.filename index
        filetype := img.filetype index
        inodeNum := img.inodeNum index },
      [.direntry index])

/-- `fileRead`. -/
def fileReadT (img : Image) (fd nbytes : Int) : FsProg (ReadResult × List FsAccess) := do
  let offset := (← currFd fd).filePos
  if nbytes < 0 then pure (⟨-1, []⟩, [])
  else if fd ≥ 8 ∨ fd < 0 then pure (⟨-1, []⟩, [])
  else if ← bitmapOpen fd then pure (⟨-1, []⟩, [])
  else
    let inode := (← currFd fd).inodeNum
    let first := FsAccess.inode inode
    let size := readSize (img.inodeLength inode) nbytes
    let inode := (← currFd fd).inodeNum
    let res := readDataT img (u32 inode) (u32 offset) (u32 size)
    if res.1.ret = -1 then pure (⟨-1, res.1.buf⟩, first :: res.2)
    else
      let pcb ← currPcb
      let d ← fdOf pcb fd
      setFilePos pcb fd (i32 (d.filePos + res.1.ret))
      pure (res.1, first :: res.2)

/-- The number of addresses. -/
def addressSpace : Nat := 4294967296

/-- The bytes that `strlen` looks at from the name of an entry on: up to the first zero, in
whatever entry that is; with the number of turns left and the index of the next byte. -/
def strlenReads (img : Image) (entry : Int) : Nat → Nat → List FsAccess
  | 0, _ => []
  | turns + 1, k =>
    .direntry (entry + (k / 64 : Nat)) ::
      if img.filename entry k = 0 then [] else strlenReads img entry turns (k + 1)

/-- `dirRead`. The copy of the name touches bytes that `strlen` has found. -/
def dirReadT (img : Image) (fd nbytes : Int) : FsProg (ReadResult × List FsAccess) := do
  let offset := (← currFd fd).filePos
  if fd ≥ 8 ∨ fd < 0 then pure (⟨-1, []⟩, [])
  else if ← bitmapOpen fd then pure (⟨-1, []⟩, [])
  else
    let reads := strlenReads img offset addressSpace 0
    let len : Int := nameLen img offset 32 0
    let len := if len > u32 nbytes then u32 nbytes else len
    let name := (List.range len.toNat).map fun k => img.filename offset (k : Nat)
    let d ← currFd fd
    if d.filePos < img.dirCount then
      let pcb ← currPcb
      let d ← fdOf pcb fd
      setFilePos pcb fd (i32 (d.filePos + 1))
      pure (⟨len, name⟩, reads)
    else pure (⟨0, name⟩, reads)

/-! ## They do what the functions do -/

theorem copyLoopT_fst (img : Image) (b : Int) (turns : Nat) (ptr : Int) (st : ReadState) :
    (copyLoopT img b turns ptr st).1 = copyLoop img turns ptr st := by
  induction turns generalizing ptr st with
  | zero => rfl
  | succ turns ih =>
    rw [copyLoopT, copyLoop]
    split
    · split
      · exact ih ..
      · exact ih ..
    · rfl

theorem blockLoopT_fst (img : Image) (inode : Int) (turns i : Nat) (st : ReadState) :
    (blockLoopT img inode turns i st).1 = blockLoop img inode turns i st := by
  induction turns generalizing i st with
  | zero => rfl
  | succ turns ih =>
    rw [blockLoopT, blockLoop]
    dsimp only
    split
    · rfl
    · split
      · exact ih ..
      · rw [copyLoopT_fst]
        exact ih ..

theorem readDataT_fst (img : Image) (inode offset length : Int) :
    (readDataT img inode offset length).1 = readData img inode offset length := by
  unfold readDataT readData
  split
  · rfl
  · exact blockLoopT_fst ..

theorem readDentryByIndexT_fst (img : Image) (index : Int) :
    (readDentryByIndexT img index).1 = readDentryByIndex img index := by
  unfold readDentryByIndexT readDentryByIndex
  split <;> rfl

/-- The descriptor that a call on `fd` works on. -/
def FsState.openFd (s : FsState) (fd : Int) : Fdt := s.fdt s.currPcb fd

/-- A call on `fd` is turned away: there is no such descriptor or it is closed. -/
def FsState.Closed (s : FsState) (fd : Int) : Prop := fd < 0 ∨ fd ≥ 8 ∨ (s.openFd fd).flags = 0

instance (s : FsState) (fd : Int) : Decidable (s.Closed fd) := inferInstanceAs (Decidable (_ ∨ _))

/-- **A file read**, with what it reads: the length of the file first, and then what `read_data`
reads. -/
theorem fileReadT_run (img : Image) (fd nbytes : Int) (s : FsState) :
    let d := s.openFd fd
    let res := readDataT img (u32 d.inodeNum) (u32 d.filePos)
      (u32 (readSize (img.inodeLength d.inodeNum) nbytes))
    ((fileReadT img fd nbytes).run accessSem s).1.1 = ((fileRead img fd nbytes).run accessSem s).1 ∧
    ((fileReadT img fd nbytes).run accessSem s).2 = ((fileRead img fd nbytes).run accessSem s).2 ∧
    ((fileReadT img fd nbytes).run accessSem s).1.1.ret =
      (if nbytes < 0 ∨ s.Closed fd then -1 else res.1.ret) ∧
    ((fileReadT img fd nbytes).run accessSem s).1.2 =
      if nbytes < 0 ∨ s.Closed fd then [] else .inode d.inodeNum :: res.2 := by
  intro d res
  unfold fileReadT fileRead
  rw [run_currFd, run_currFd]
  -- the two go through the same checks; only an open descriptor is read from
  by_cases hneg : nbytes < 0
  · simp [hneg]
  by_cases hfd : fd ≥ 8 ∨ fd < 0
  · have hclosed : s.Closed fd := by
      unfold FsState.Closed
      tauto
    simp [hneg, hfd, hclosed]
  by_cases hflags : d.flags = 0
  · have hclosed : s.Closed fd := .inr (.inr hflags)
    have hflags' : (s.fdt s.currPcb fd).flags = 0 := hflags
    simp [hneg, hfd, hclosed, hflags']
  · have hopen : ¬ s.Closed fd := by
      unfold FsState.Closed
      push Not at hfd
      push Not
      exact ⟨hfd.2, hfd.1, hflags⟩
    have hflags' : (s.fdt s.currPcb fd).flags ≠ 0 := hflags
    simp only [if_neg hfd, run_bitmapOpen, hflags', decide_false, Bool.false_eq_true, if_false,
      run_currFd, hneg, hopen, or_self, ← readDataT_fst]
    change _ ∧ _ ∧ _ = res.1.ret ∧ _ = _ :: res.2
    -- the length of the inode has been read whether or not the rest fails
    by_cases hret : res.1.ret = -1
    · simp only [d, res, FsState.openFd] at hret
      simp [d, res, FsState.openFd, hret]
    · simp only [d, res, FsState.openFd] at hret
      simp only [d, res, FsState.openFd, hret, if_false]
      exact ⟨rfl, rfl, rfl, rfl⟩

/-- **A directory read**, with what it reads. -/
theorem dirReadT_run (img : Image) (fd nbytes : Int) (s : FsState) :
    let d := s.openFd fd
    ((dirReadT img fd nbytes).run accessSem s).1.1 = ((dirRead img fd nbytes).run accessSem s).1 ∧
    ((dirReadT img fd nbytes).run accessSem s).2 = ((dirRead img fd nbytes).run accessSem s).2 ∧
    (s.Closed fd → ((dirReadT img fd nbytes).run accessSem s).1.1.ret = -1) ∧
    ((dirReadT img fd nbytes).run accessSem s).1.2 =
      if s.Closed fd then [] else strlenReads img d.filePos addressSpace 0 := by
  intro d
  unfold dirReadT dirRead
  -- the bound of `strlen` is not to be computed
  generalize addressSpace = n
  rw [run_currFd, run_currFd]
  by_cases hfd : fd ≥ 8 ∨ fd < 0
  · have hclosed : s.Closed fd := by
      unfold FsState.Closed
      tauto
    simp [hfd, hclosed]
  by_cases hflags : d.flags = 0
  · have hclosed : s.Closed fd := .inr (.inr hflags)
    have hflags' : (s.fdt s.currPcb fd).flags = 0 := hflags
    simp [hfd, hclosed, hflags']
  · have hopen : ¬ s.Closed fd := by
      unfold FsState.Closed
      push Not at hfd
      push Not
      exact ⟨hfd.2, hfd.1, hflags⟩
    have hflags' : (s.fdt s.currPcb fd).flags ≠ 0 := hflags
    rw [if_neg hfd, if_neg hfd, run_bitmapOpen, run_bitmapOpen, decide_eq_false hflags',
      if_neg Bool.false_ne_true, if_neg Bool.false_ne_true, if_neg hopen]
    -- the name is read in any case, and the position moves before the end of the directory
    refine ⟨?_, ?_, fun hclosed => absurd hclosed hopen, ?_⟩
    all_goals
      dsimp only
      rw [run_currFd]
      by_cases hend : (s.fdt s.currPcb fd).filePos < img.dirCount
    · rw [run_currFd, if_pos hend, if_pos hend]
      rfl
    · rw [run_currFd, if_neg hend, if_neg hend]
      rfl
    · rw [run_currFd, if_pos hend, if_pos hend]
      rfl
    · rw [run_currFd, if_neg hend, if_neg hend]
      rfl
    · rw [if_pos hend]
      rfl
    · rw [if_neg hend]
      rfl

/-! ## What the loops read -/

/-- Block `m` of what is left to read holds a byte that is copied. -/
def ReadState.Copies (st : ReadState) (m : Nat) : Prop :=
  0 < st.dataLeft ∧ 4096 * m < st.dataLeft + max st.offsetLeft 0 ∧
    max st.offsetLeft 0 < 4096 * (m + 1)

/-- The counters after the copy loop, from any values of them. -/
theorem copyLoop_counters (img : Image) (turns : Nat) (ptr : Int) (st : ReadState) :
    (copyLoop img turns ptr st).dataLeft =
      (if st.dataLeft ≤ 0 then st.dataLeft
        else st.dataLeft - min st.dataLeft (max 0 (turns - max st.offsetLeft 0))) ∧
    (copyLoop img turns ptr st).offsetLeft =
      (if st.dataLeft ≤ 0 ∨ st.offsetLeft ≤ 0 then st.offsetLeft
        else max (st.offsetLeft - turns) 0) := by
  induction turns generalizing ptr st with
  | zero =>
    rw [copyLoop]
    constructor
    · split <;> omega
    · split <;> omega
  | succ turns ih =>
    rw [copyLoop]
    by_cases hd : st.dataLeft > 0
    · rw [if_pos hd]
      -- a turn skips a byte or copies one
      by_cases ho : st.offsetLeft > 0
      · rw [if_pos ho]
        obtain ⟨hdata, hoff⟩ := ih (ptr + 1) { st with offsetLeft := st.offsetLeft - 1 }
        rw [hdata, hoff]
        dsimp only
        constructor
        · split <;> omega
        · split <;> split <;> omega
      · rw [if_neg ho]
        obtain ⟨hdata, hoff⟩ := ih (ptr + 1)
          { dataLeft := st.dataLeft - 1
            dataRead := st.dataRead + 1
            offsetLeft := st.offsetLeft
            buf := st.buf ++ [img.byte ptr] }
        rw [hdata, hoff]
        dsimp only
        constructor
        · split <;> split <;> omega
        · split <;> split <;> omega
    · rw [if_neg hd]
      constructor
      · split <;> omega
      · split <;> omega

/-- The copy loop reads bytes of its block only, and reads some exactly when it copies. -/
theorem copyLoopT_reads (img : Image) (b : Int) (turns : Nat) (ptr : Int) (st : ReadState) :
    (∀ a ∈ (copyLoopT img b turns ptr st).2, a = .data b) ∧
      ((copyLoopT img b turns ptr st).2 ≠ [] ↔ 0 < st.dataLeft ∧ max st.offsetLeft 0 < turns) := by
  induction turns generalizing ptr st with
  | zero => simp [copyLoopT]
  | succ turns ih =>
    rw [copyLoopT]
    by_cases hd : st.dataLeft > 0
    · rw [if_pos hd]
      -- a byte that is skipped is not read
      by_cases ho : st.offsetLeft > 0
      · rw [if_pos ho]
        obtain ⟨hall, hsome⟩ := ih (ptr + 1) { st with offsetLeft := st.offsetLeft - 1 }
        refine ⟨hall, hsome.trans ?_⟩
        dsimp only
        omega
      · rw [if_neg ho]
        obtain ⟨hall, -⟩ := ih (ptr + 1)
          { dataLeft := st.dataLeft - 1
            dataRead := st.dataRead + 1
            offsetLeft := st.offsetLeft
            buf := st.buf ++ [img.byte ptr] }
        refine ⟨?_, ?_⟩
        · intro a ha
          rcases List.mem_cons.mp ha with rfl | ha
          · rfl
          · exact hall a ha
        · simp
          omega
    · rw [if_neg hd]
      refine ⟨by simp, ?_⟩
      simp
      omega

/-- What the block loop reads is declared: from block `i` on, with the counters `st`, the block
numbers that it reaches, and the blocks that it copies from. -/
def LoopStays (img : Image) (inode : Int) (turns i : Nat) (st : ReadState) : Prop :=
  ∀ m < turns, (∀ l < m, ¬ BadBlock img inode (i + l : Nat)) →
    img.Declared (blockNumAccess inode (i + m)) ∧
      (¬ BadBlock img inode (i + m : Nat) → st.Copies m →
        img.dataBlockNum inode (i + m : Nat) < img.dataCount)

/-- A turn of the loop leaves the rest of what there is to copy. -/
theorem copies_skip {st : ReadState} (hskip : st.offsetLeft > 4096) (m : Nat) :
    ({ st with offsetLeft := st.offsetLeft - 4096 } : ReadState).Copies m ↔ st.Copies (m + 1) := by
  unfold ReadState.Copies
  dsimp only
  omega

theorem copies_copy (img : Image) (ptr : Int) {st : ReadState} (hcopy : ¬ st.offsetLeft > 4096)
    (m : Nat) : (copyLoop img 4096 ptr st).Copies m ↔ st.Copies (m + 1) := by
  obtain ⟨hdata, hoff⟩ := copyLoop_counters img 4096 ptr st
  unfold ReadState.Copies
  rw [hdata, hoff]
  by_cases hd : st.dataLeft ≤ 0
  · rw [if_pos hd, if_pos (.inl hd)]
    omega
  · rw [if_neg hd]
    by_cases ho : st.offsetLeft ≤ 0
    · rw [if_pos (.inr ho)]
      omega
    · rw [if_neg (by omega)]
      omega

/-- The first turn, and then the others. -/
theorem loopStays_succ {img : Image} {inode : Int} {turns i : Nat} {st : ReadState}
    (st' : ReadState) (hrest : ∀ m, st'.Copies m ↔ st.Copies (m + 1)) (hok : ¬ BadBlock img inode i) :
    LoopStays img inode (turns + 1) i st ↔
      img.Declared (blockNumAccess inode i) ∧
        (st.Copies 0 → img.dataBlockNum inode i < img.dataCount) ∧
        LoopStays img inode turns (i + 1) st' := by
  constructor
  · intro h
    -- turn `m + 1` of the loop is turn `m` of the rest
    obtain ⟨hword, hblock⟩ := h 0 (by omega) fun l hl => absurd hl (by omega)
    refine ⟨hword, hblock hok, fun m hm hreach => ?_⟩
    obtain ⟨hword', hblock'⟩ := h (m + 1) (by omega) fun l hl => by
      cases l with
      | zero => exact hok
      | succ l =>
        rw [show i + (l + 1) = i + 1 + l by omega]
        exact hreach l (by omega)
    rw [show i + (m + 1) = i + 1 + m by omega] at hword' hblock'
    exact ⟨hword', fun hok' hcopies => hblock' hok' ((hrest m).mp hcopies)⟩
  · rintro ⟨hword, hblock, hrest'⟩ m hm hreach
    cases m with
    | zero => exact ⟨hword, fun _ hcopies => hblock hcopies⟩
    | succ m =>
      rw [show i + (m + 1) = i + 1 + m by omega]
      obtain ⟨hword', hblock'⟩ := hrest' m (by omega) fun l hl => by
        rw [show i + 1 + l = i + (l + 1) by omega]
        exact hreach (l + 1) (by omega)
      exact ⟨hword', fun hok' hcopies => hblock' hok' ((hrest m).mpr hcopies)⟩

/-- A block number that ends the loop. -/
theorem loopStays_stop {img : Image} {inode : Int} {turns i : Nat} {st : ReadState}
    (hbad : BadBlock img inode i) :
    LoopStays img inode (turns + 1) i st ↔ img.Declared (blockNumAccess inode i) := by
  constructor
  · intro h
    exact (h 0 (by omega) fun l hl => absurd hl (by omega)).1
  · intro hword m hm hreach
    cases m with
    | zero => exact ⟨hword, fun hok => absurd hbad hok⟩
    | succ m => exact absurd hbad (hreach 0 (by omega))

/-- **The block loop** stays in the declared region exactly when the block numbers it reaches and
the blocks it copies from are declared. -/
theorem blockLoopT_reads (img : Image) (inode : Int) (turns i : Nat) (st : ReadState) :
    (∀ a ∈ (blockLoopT img inode turns i st).2, img.Declared a) ↔
      LoopStays img inode turns i st := by
  induction turns generalizing i st with
  | zero => simp [blockLoopT, LoopStays]
  | succ turns ih =>
    rw [blockLoopT]
    dsimp only
    by_cases hbad : img.dataBlockNum inode i < 0 ∨ img.dataBlockNum inode i > 1022
    · rw [if_pos hbad, loopStays_stop hbad, List.forall_mem_singleton]
    rw [if_neg hbad]
    by_cases hskip : st.offsetLeft > 4096
    · -- a block inside the skipped part is not read
      have hnone : ¬ st.Copies 0 := by unfold ReadState.Copies; omega
      rw [if_pos hskip, List.forall_mem_cons, ih, loopStays_succ _ (copies_skip hskip) hbad]
      exact ⟨fun h => ⟨h.1, fun hcopies => absurd hcopies hnone, h.2⟩, fun h => ⟨h.1, h.2.2⟩⟩
    · rw [if_neg hskip, List.forall_mem_cons, List.forall_mem_append, ih,
        loopStays_succ (copyLoopT img (img.dataBlockNum inode i) 4096
          (img.blockAddr (img.dataBlockNum inode i)) st).1
          (fun m => by rw [copyLoopT_fst]; exact copies_copy img _ hskip m) hbad]
      obtain ⟨hall, hsome⟩ := copyLoopT_reads img (img.dataBlockNum inode i) 4096
        (img.blockAddr (img.dataBlockNum inode i)) st
      -- the copy reads a byte exactly when the block holds one to copy
      have hcopy : (∀ a ∈ (copyLoopT img (img.dataBlockNum inode i) 4096
            (img.blockAddr (img.dataBlockNum inode i)) st).2, img.Declared a) ↔
          (st.Copies 0 → img.dataBlockNum inode i < img.dataCount) := by
        have hcopies : st.Copies 0 ↔ (copyLoopT img (img.dataBlockNum inode i) 4096
            (img.blockAddr (img.dataBlockNum inode i)) st).2 ≠ [] := by
          rw [hsome]
          unfold ReadState.Copies
          omega
        constructor
        · intro h hc
          obtain ⟨a, ha⟩ := List.exists_mem_of_ne_nil _ (hcopies.mp hc)
          have hdecl := h a ha
          rw [hall a ha] at hdecl
          exact hdecl.2
        · intro h a ha
          rw [hall a ha]
          exact ⟨not_lt.mp fun hlow => hbad (.inl hlow), h (hcopies.mpr (List.ne_nil_of_mem ha))⟩
      rw [hcopy]

/-- A block number out of the loop's range, if it is reached, makes the call fail. -/
theorem blockLoop_fails {img : Image} {inode : Int} {turns i j : Nat} (hij : i ≤ j)
    (hj : j < i + turns) (hbad : BadBlock img inode j) (st : ReadState) :
    (blockLoop img inode turns i st).ret = -1 := by
  induction turns generalizing i st with
  | zero => omega
  | succ turns ih =>
    rw [blockLoop]
    by_cases hstop : img.dataBlockNum inode i < 0 ∨ img.dataBlockNum inode i > 1022
    · rw [if_pos hstop]
    rw [if_neg hstop]
    have hne : i ≠ j := by
      rintro rfl
      exact hstop hbad
    split
    · exact ih (by omega) (by omega) _
    · exact ih (by omega) (by omega) _

/-! ## Which requests stay in the region -/

/-- The counters with which `read_data` starts. -/
def readStart (img : Image) (inode offset length : Int) : ReadState :=
  { dataLeft := clampLength (img.inodeLength inode) offset length
    dataRead := 0
    offsetLeft := i32 offset
    buf := [] }

/-- The number of blocks that `read_data` goes over. -/
def readTurns (img : Image) (inode offset length : Int) : Nat :=
  (blocksNeeded (clampLength (img.inodeLength inode) offset length) offset).toNat

/-- **Reads of the declared region**: the inode is declared, and so are the block numbers on the
way to the requested bytes and the blocks that hold these bytes. -/
def ReadStays (img : Image) (inode offset length : Int) : Prop :=
  inode < img.inodeCount ∧
    LoopStays img inode (readTurns img inode offset length) 0 (readStart img inode offset length)

/-- A request for something outside the region: the inode is not declared, or a block that holds a
requested byte is not. -/
def AsksOutside (img : Image) (inode offset length : Int) : Prop :=
  ¬ img.Declared (.inode inode) ∨
    ∃ i < readTurns img inode offset length, (readStart img inode offset length).Copies i ∧
      ¬ img.Declared (.data (img.dataBlockNum inode (i : Nat)))

/-- `read_data` reads nothing outside the region, and a request for that returns -1. -/
def ReadDataLaw (img : Image) (inode offset length : Int) : Prop :=
  (∀ a ∈ (readDataT img inode offset length).2, img.Declared a) ∧
    (AsksOutside img inode offset length → (readDataT img inode offset length).1.ret = -1)

/-- **`read_data`**: the check lets the inode that follows the last one through, and the block
numbers are compared with a constant. -/
theorem readData_law_iff (img : Image) {inode : Int} (h0 : 0 ≤ inode) (offset length : Int) :
    ReadDataLaw img inode offset length ↔
      inode > u32 img.inodeCount ∨ ReadStays img inode offset length := by
  unfold ReadDataLaw
  rw [readDataT_fst]
  unfold readDataT readData
  -- an inode number above the count is refused, and nothing is read
  by_cases hcheck : inode > u32 img.inodeCount
  · rw [if_pos hcheck, if_pos hcheck]
    simp [hcheck]
  rw [if_neg hcheck, if_neg hcheck]
  dsimp only
  rw [List.forall_mem_cons]
  change (_ ∧ ∀ a ∈ (blockLoopT img inode (readTurns img inode offset length) 0
    (readStart img inode offset length)).2, _) ∧ (_ → (blockLoop img inode
      (readTurns img inode offset length) 0 (readStart img inode offset length)).ret = -1) ↔ _
  rw [blockLoopT_reads]
  constructor
  · rintro ⟨⟨hinode, hloop⟩, -⟩
    exact .inr ⟨hinode.2, hloop⟩
  · intro h
    obtain ⟨hinode, hloop⟩ := h.resolve_left hcheck
    refine ⟨⟨⟨h0, hinode⟩, hloop⟩, ?_⟩
    rintro (hout | ⟨i, hi, hcopies, hout⟩)
    · exact absurd ⟨h0, hinode⟩ hout
    · -- the loop has stopped before it reached that block
      by_cases hreach : ∀ l ≤ i, ¬ BadBlock img inode l
      · exfalso
        have hdecl := (hloop i hi fun l hl => by
          rw [Nat.zero_add]
          exact hreach l (by omega)).2
        rw [Nat.zero_add] at hdecl
        have hok := hreach i le_rfl
        exact hout ⟨not_lt.mp fun hlow => hok (.inl hlow), hdecl hok hcopies⟩
      · push Not at hreach
        obtain ⟨l, hl, hbad⟩ := hreach
        exact blockLoop_fails (Nat.zero_le l) (by omega) hbad _

/-- `read_dentry_by_index` reads nothing outside the region, and a request for that returns -1. -/
def ReadDentryLaw (img : Image) (index : Int) : Prop :=
  (∀ a ∈ (readDentryByIndexT img index).2, img.Declared a) ∧
    (¬ img.Declared (.direntry index) → (readDentryByIndexT img index).1 = none)

/-- **`read_dentry_by_index`** compares with the size of the table, not with the number of entries,
and lets one more through. -/
theorem readDentryByIndex_law_iff (img : Image) {index : Int} (h0 : 0 ≤ index)
    (h32 : index < 4294967296) :
    ReadDentryLaw img index ↔ index < img.dirCount ∨ 63 < index := by
  unfold ReadDentryLaw readDentryByIndexT
  rw [u32_of_fits h0 h32]
  by_cases hcheck : index > 63
  · simp [hcheck]
  · rw [if_neg hcheck, List.forall_mem_singleton]
    constructor
    · intro h
      exact .inl h.1.2
    · intro h
      have hdecl : img.Declared (.direntry index) := ⟨h0, h.resolve_right hcheck⟩
      exact ⟨hdecl, fun hout => absurd hdecl hout⟩

/-- The number of bytes that `file_read` asks `read_data` for, from which position, on a
descriptor. -/
def readRequest (img : Image) (d : Fdt) (nbytes : Int) : Int × Int :=
  (u32 d.filePos, u32 (readSize (img.inodeLength d.inodeNum) nbytes))

/-- `file_read` reads nothing outside the region, and a request for that returns -1. -/
def FileReadLaw (img : Image) (s : FsState) (fd nbytes : Int) : Prop :=
  let d := s.openFd fd
  let result := ((fileReadT img fd nbytes).run accessSem s).1
  (∀ a ∈ result.2, img.Declared a) ∧
    (AsksOutside img d.inodeNum (readRequest img d nbytes).1 (readRequest img d nbytes).2 →
      result.1.ret = -1)

/-- **`file_read`** asks the inode for its length before anything has checked its number. -/
theorem fileRead_law_iff (img : Image) (s : FsState) (fd nbytes : Int) :
    let d := s.openFd fd
    FileReadLaw img s fd nbytes ↔ nbytes < 0 ∨ s.Closed fd ∨
      (0 ≤ d.inodeNum ∧
        ReadStays img d.inodeNum (readRequest img d nbytes).1 (readRequest img d nbytes).2) := by
  intro d
  obtain ⟨-, -, hret, hreads⟩ := fileReadT_run img fd nbytes s
  unfold FileReadLaw
  dsimp only
  rw [hret, hreads]
  by_cases hrejected : nbytes < 0 ∨ s.Closed fd
  · rw [if_pos hrejected, if_pos hrejected, ← or_assoc]
    simp [hrejected]
  rw [if_neg hrejected, if_neg hrejected, ← or_assoc, List.forall_mem_cons]
  change (img.Declared (.inode d.inodeNum) ∧ _) ∧ _ ↔ _
  -- an inode number that is declared passes as it is, through the check
  have hfits : img.Declared (.inode d.inodeNum) →
      u32 d.inodeNum = d.inodeNum ∧ ¬ d.inodeNum > u32 img.inodeCount := by
    rintro ⟨h0, hlt⟩
    have hcount : img.inodeCount < 2147483648 := img.word_lt 4
    rw [u32_of_fits h0 (by omega), u32_of_fits (by omega) (by omega)]
    exact ⟨rfl, by omega⟩
  constructor
  · rintro ⟨⟨hinode, hdata⟩, hout⟩
    obtain ⟨hn, hcheck⟩ := hfits hinode
    rw [hn] at hdata hout
    have hlaw : ReadDataLaw img d.inodeNum (readRequest img d nbytes).1
      (readRequest img d nbytes).2 := ⟨hdata, hout⟩
    rw [readData_law_iff img hinode.1] at hlaw
    exact .inr ⟨hinode.1, hlaw.resolve_left hcheck⟩
  · intro h
    obtain ⟨h0, hstays⟩ := h.resolve_left hrejected
    have hinode : img.Declared (.inode d.inodeNum) := ⟨h0, hstays.1⟩
    obtain ⟨hdata, hout⟩ := (readData_law_iff img h0 _ _).mpr (.inr hstays)
    rw [(hfits hinode).1]
    exact ⟨⟨hinode, hdata⟩, hout⟩

/-- `dir_read` reads nothing outside the region, and a request for that returns -1 or 0. -/
def DirReadLaw (img : Image) (s : FsState) (fd nbytes : Int) : Prop :=
  let result := ((dirReadT img fd nbytes).run accessSem s).1
  (∀ a ∈ result.2, img.Declared a) ∧
    (¬ img.Declared (.direntry (s.openFd fd).filePos) → result.1.ret = -1 ∨ result.1.ret = 0)

/-- The name of an entry ends inside the declared directory. -/
def NameEnds (img : Image) (entry : Int) : Prop :=
  ∃ k : Nat, (k : Int) < 64 * (img.dirCount - entry) ∧ img.filename entry k = 0

/-- `strlen` stays in the region exactly when it starts there and finds a zero there. -/
theorem strlenReads_declared (img : Image) (entry : Int) (turns : Nat) {k : Nat}
    (hk : 0 ≤ entry + (k / 64 : Nat))
    (hturns : 64 * (img.dirCount - entry) < k + turns) :
    (∀ a ∈ strlenReads img entry turns k, img.Declared a) ↔
      (∃ l : Nat, k ≤ l ∧ (l : Int) < 64 * (img.dirCount - entry) ∧ img.filename entry l = 0) ∨
        turns = 0 := by
  induction turns generalizing k with
  | zero => simp [strlenReads]
  | succ turns ih =>
    rw [strlenReads, List.forall_mem_cons]
    -- the byte lies in the entries that count
    have hbyte : img.Declared (.direntry (entry + (k / 64 : Nat))) ↔
        (k : Int) < 64 * (img.dirCount - entry) := by
      unfold Image.Declared
      dsimp only
      omega
    rw [hbyte]
    by_cases hzero : img.filename entry k = 0
    · rw [if_pos hzero]
      constructor
      · rintro ⟨hlt, -⟩
        exact .inl ⟨k, le_rfl, hlt, hzero⟩
      · rintro (⟨l, hkl, hlt, -⟩ | hno)
        · exact ⟨by omega, fun a ha => absurd ha (List.not_mem_nil)⟩
        · exact absurd hno (by omega)
    · rw [if_neg hzero, ih (by omega) (by push_cast; omega)]
      constructor
      · rintro ⟨hlt, ⟨l, hkl, hlt', hl⟩ | hno⟩
        · exact .inl ⟨l, by omega, hlt', hl⟩
        · omega
      · rintro (⟨l, hkl, hlt, hl⟩ | hno)
        · have hne : l ≠ k := by
            rintro rfl
            exact hzero hl
          exact ⟨by omega, .inl ⟨l, by omega, hlt, hl⟩⟩
        · exact absurd hno (by omega)

/-- **`dir_read`** reads the name before it looks at the number of entries. -/
theorem dirRead_law_iff (img : Image) (hdir : img.dirCount ≤ 63) (s : FsState) (fd nbytes : Int) :
    let pos := (s.openFd fd).filePos
    DirReadLaw img s fd nbytes ↔ s.Closed fd ∨ (0 ≤ pos ∧ NameEnds img pos) := by
  intro pos
  obtain ⟨-, -, hret, hreads⟩ := dirReadT_run img fd nbytes s
  unfold DirReadLaw
  dsimp only
  rw [hreads]
  by_cases hclosed : s.Closed fd
  · simp [hclosed, hret hclosed]
  rw [if_neg hclosed]
  change (∀ a ∈ strlenReads img pos addressSpace 0, _) ∧ (¬ img.Declared (.direntry pos) → _) ↔ _
  have hspec := fun h0 : 0 ≤ pos => strlenReads_declared img pos addressSpace
    (k := 0) (by omega) (by unfold addressSpace; omega)
  constructor
  · rintro ⟨hall, -⟩
    -- the first byte of the name is read, wherever the position is
    have hfirst : img.Declared (.direntry pos) := by
      apply hall
      obtain ⟨n, hn⟩ : ∃ n, addressSpace = n + 1 := ⟨4294967295, rfl⟩
      rw [hn, strlenReads, Nat.zero_div, Int.natCast_zero, Int.add_zero]
      exact List.mem_cons_self
    obtain ⟨l, -, hlt, hl⟩ := ((hspec hfirst.1).mp hall).resolve_right (by unfold addressSpace; omega)
    exact .inr ⟨hfirst.1, l, hlt, hl⟩
  · intro h
    obtain ⟨h0, l, hlt, hl⟩ := h.resolve_left hclosed
    have hfirst : img.Declared (.direntry pos) := ⟨h0, by omega⟩
    exact ⟨(hspec h0).mpr (.inl ⟨l, Nat.zero_le l, hlt, hl⟩), fun hout => absurd hfirst hout⟩

/-! ## The four functions -/

/-- **The declared region**: for every image with at most 63 entries, each of the four functions
stays in the region, and turns away what is outside, exactly on these requests. -/
theorem region_exact (img : Image) (hdir : img.dirCount ≤ 63) :
    (∀ index, 0 ≤ index → index < 4294967296 →
      (ReadDentryLaw img index ↔ index < img.dirCount ∨ 63 < index)) ∧
    (∀ inode offset length, 0 ≤ inode → (ReadDataLaw img inode offset length ↔
      inode > u32 img.inodeCount ∨ ReadStays img inode offset length)) ∧
    (∀ s fd nbytes, FileReadLaw img s fd nbytes ↔ nbytes < 0 ∨ s.Closed fd ∨
      (0 ≤ (s.openFd fd).inodeNum ∧ ReadStays img (s.openFd fd).inodeNum
        (readRequest img (s.openFd fd) nbytes).1 (readRequest img (s.openFd fd) nbytes).2)) ∧
    ∀ s fd nbytes, DirReadLaw img s fd nbytes ↔
      s.Closed fd ∨ (0 ≤ (s.openFd fd).filePos ∧ NameEnds img (s.openFd fd).filePos) := by
  refine ⟨?_, ?_, ?_, ?_⟩
  · intro index h0 h32
    exact readDentryByIndex_law_iff img h0 h32
  · intro inode offset length h0
    exact readData_law_iff img h0 offset length
  · intro s fd nbytes
    exact fileRead_law_iff img s fd nbytes
  · intro s fd nbytes
    exact dirRead_law_iff img hdir s fd nbytes

theorem region_exact_sample : ReadDentryLaw sampleImage 3 ∧ ReadDentryLaw sampleImage 64 :=
  ⟨((region_exact sampleImage (by decide +kernel)).1 3 (by decide) (by decide)).mpr
      (by decide +kernel),
    ((region_exact sampleImage (by decide +kernel)).1 64 (by decide) (by decide)).mpr
      (by decide +kernel)⟩

/-- The image has four entries and four inodes: entry 4 and inode 4 are read, and an open directory
at its end reads the entry that follows. -/
theorem region_not_kept :
    ¬ ReadDentryLaw sampleImage 4 ∧ ¬ ReadDataLaw sampleImage 4 0 1 ∧
      ¬ DirReadLaw sampleImage ⟨0, 0, ⟨fun _ => 0, 0, 0⟩, fun _ _ => ⟨.dir, 0, 4, 1⟩⟩ 2 32 :=
  ⟨fun h => absurd (h.1 (.direntry 4) (by decide +kernel)) (by decide +kernel),
    fun h => absurd (h.1 (.inode 4) (by decide +kernel)) (by decide +kernel),
    fun h => absurd (h.1 (.direntry 4) (by decide +kernel)) (by decide +kernel)⟩

end SrirachOS
