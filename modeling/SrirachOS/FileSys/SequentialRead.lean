import SrirachOS.FileSys.Descriptor

/-!
# Reading a File from a Fresh Open to its End

`file_open` takes the first free descriptor and sets its position to 0; each `file_read` then
delivers the bytes from the position on and moves it past them.

- `claimFd_run`: which descriptor an open takes, and what it stores there,
- `fileRead_run`: one read at a position within the file,
- `readAll_run`: by induction over the calls, the reads so far have delivered exactly the
  bytes before the position.
-/

namespace SrirachOS

open Foundation FsProg

/-! ## Descriptors in the state -/

@[simp] theorem modifyFd_same (s : FsState) (pcb fd : Int) (f : Fdt → Fdt) :
    (s.modifyFd pcb fd f).fdt pcb fd = f (s.fdt pcb fd) := by
  simp [FsState.modifyFd]

theorem modifyFd_of_ne {p i pcb fd : Int} {f : Fdt → Fdt} (s : FsState)
    (h : ¬ (p = pcb ∧ i = fd)) : (s.modifyFd pcb fd f).fdt p i = s.fdt p i :=
  if_neg h

@[simp] theorem modifyFd_currPcb (s : FsState) (pcb fd : Int) (f : Fdt → Fdt) :
    (s.modifyFd pcb fd f).currPcb = s.currPcb := rfl

@[simp] theorem modifyFd_curDentry (s : FsState) (pcb fd : Int) (f : Fdt → Fdt) :
    (s.modifyFd pcb fd f).curDentry = s.curDentry := rfl

@[simp] theorem modifyFd_modifyFd (s : FsState) (pcb fd : Int) (f g : Fdt → Fdt) :
    (s.modifyFd pcb fd f).modifyFd pcb fd g = s.modifyFd pcb fd fun d => g (f d) := by
  unfold FsState.modifyFd
  congr 1
  funext p i
  by_cases h : p = pcb ∧ i = fd <;> simp [h]

/-! ## Runs of the small functions -/

@[simp] theorem run_currFd {α : Type} (s : FsState) (fd : Int) (f : Fdt → FsProg α) :
    (currFd fd >>= f).run accessSem s = (f (s.fdt s.currPcb fd)).run accessSem s := rfl

@[simp] theorem run_bitmapOpen {α : Type} (s : FsState) (index : Int) (f : Bool → FsProg α) :
    (bitmapOpen index >>= f).run accessSem s =
      (f (decide ((s.fdt s.currPcb index).flags = 0))).run accessSem s := rfl

theorem run_storeBitmap {α : Type} (s : FsState) (value : Int) {index : Int} (h0 : 0 ≤ index)
    (h8 : index < 8) (f : Unit → FsProg α) :
    (storeBitmap value index >>= f).run accessSem s =
      (f ()).run accessSem (s.modifyFd s.currPcb index fun d => { d with flags := value }) := by
  rw [storeBitmap, if_neg (by omega)]
  rfl

theorem storeName_run (d : Dentry) (turns i : Nat) (s : FsState) :
    ∃ name, (storeName d turns i).run accessSem s =
      ((), { s with curDentry := { s.curDentry with filename := name } }) := by
  induction turns generalizing i s with
  | zero => exact ⟨s.curDentry.filename, rfl⟩
  | succ turns ih =>
    obtain ⟨name, hname⟩ := ih (i + 1) (accessSem (.setDentryName i (d.filename i)) s).2
    exact ⟨name, hname⟩

theorem storeCurDentry_run (d : Dentry) (s : FsState) :
    ∃ name, (storeCurDentry d).run accessSem s =
      ((), { s with curDentry := ⟨name, d.filetype, d.inodeNum⟩ }) := by
  obtain ⟨name, hname⟩ := storeName_run d 32 0 s
  refine ⟨name, ?_⟩
  rw [storeCurDentry, Prog.run_bind, hname]
  rfl

theorem alreadyOpen_run (turns : Nat) (index : Int) (s : FsState) :
    ((alreadyOpen turns index).run accessSem s).2 = s := by
  induction turns generalizing index with
  | zero => rfl
  | succ turns ih =>
    rw [alreadyOpen, run_bitmapOpen]
    split
    · exact ih (index + 1)
    · rw [run_currFd, run_dentryInodeNum]
      split
      · rfl
      · exact ih (index + 1)

/-- The first of `turns` descriptors from `index` on that is free. -/
def firstFree (s : FsState) : Nat → Int → Option Int
  | 0, _ => none
  | turns + 1, index =>
    if (s.fdt s.currPcb index).flags = 0 then some index else firstFree s turns (index + 1)

theorem firstFree_range {s : FsState} {turns : Nat} {index fd : Int}
    (h : firstFree s turns index = some fd) : index ≤ fd ∧ fd < index + turns := by
  induction turns generalizing index with
  | zero => simp [firstFree] at h
  | succ turns ih =>
    rw [firstFree] at h
    split at h
    · simp only [Option.some.injEq] at h
      omega
    · have := ih h
      omega

/-- What an open stores at the descriptor it takes. -/
def claim (zeroPos : Bool) (inode : Int) (d : Fdt) : Fdt :=
  { d with
    flags := 1
    inodeNum := inode
    filePos := if zeroPos then 0 else d.filePos }

/-- **The descriptor of an open**: the first free one, now occupied by the inode of
`cur_dentry`; -1 when there is none. -/
theorem claimFd_run (zeroPos : Bool) (turns : Nat) (index : Int) (h0 : 0 ≤ index)
    (h8 : index + turns ≤ 8) (s : FsState) :
    (claimFd zeroPos turns index).run accessSem s =
      match firstFree s turns index with
      | none => (-1, s)
      | some fd => (fd, s.modifyFd s.currPcb fd (claim zeroPos s.curDentry.inodeNum)) := by
  induction turns generalizing index with
  | zero => rfl
  | succ turns ih =>
    rw [claimFd, run_bitmapOpen, firstFree]
    by_cases hfree : (s.fdt s.currPcb index).flags = 0
    · rw [decide_eq_true hfree, if_pos rfl, fillBitmap, run_storeBitmap s 1 h0 (by omega),
        run_currPcb, run_dentryInodeNum, run_setInodeNum]
      cases zeroPos with
      | false =>
        simp only [Bool.false_eq_true, if_false, modifyFd_currPcb, modifyFd_modifyFd]
        simp only [hfree, if_true]
        rfl
      | true =>
        rw [if_pos rfl, run_currPcb, run_setFilePos]
        simp only [modifyFd_currPcb, modifyFd_modifyFd, hfree, if_true]
        rfl
    · simp only [hfree, decide_false, if_false, Bool.false_eq_true]
      exact ih (index + 1) (by omega) (by omega)

/-! ## A fresh open -/

/-- Descriptor `fd` of the process is open on `inode`, at position `pos` of its bytes. -/
structure OpenAt (img : Image) (inode : Int) (fd : Int) (s : FsState) (pos : Nat) : Prop where
  fd_nonneg : 0 ≤ fd
  fd_lt : fd < 8
  occupied : (s.fdt s.currPcb fd).flags ≠ 0
  inode_eq : (s.fdt s.currPcb fd).inodeNum = inode
  pos_eq : (s.fdt s.currPcb fd).filePos = pos
  pos_le : pos ≤ (img.inodeLength inode).toNat

/-- `file_open` opens at position 0. -/
theorem fileOpen_openAt {img : Image} {fname : Option CStr} {d : Dentry}
    (hd : readDentryByName img fname = some d) {s s' : FsState} {fd : Int}
    (hopen : (fileOpen img fname).run accessSem s = (fd, s')) (hfd : fd ≠ -1) :
    OpenAt img d.inodeNum fd s' 0 := by
  obtain ⟨name, hname⟩ := storeCurDentry_run d s
  have hsame := alreadyOpen_run 8 0 { s with curDentry := ⟨name, d.filetype, d.inodeNum⟩ }
  rw [fileOpen, hd] at hopen
  rw [Prog.run_bind, hname, run_dentryFiletype] at hopen
  split at hopen
  · exact absurd (congrArg Prod.fst hopen).symm hfd
  rw [Prog.run_bind, hsame] at hopen
  split at hopen
  · exact absurd (congrArg Prod.fst hopen).symm hfd
  rw [claimFd_run true 8 0 (by omega) (by omega)] at hopen
  split at hopen
  · exact absurd (congrArg Prod.fst hopen).symm hfd
  · rename_i fd' hfree
    obtain ⟨rfl, rfl⟩ := Prod.mk.inj hopen
    have hrange := firstFree_range hfree
    exact
      { fd_nonneg := hrange.1
        fd_lt := by omega
        occupied := by simp [claim]
        inode_eq := by simp [claim]
        pos_eq := by simp [claim]
        pos_le := Nat.zero_le _ }

/-! ## One read -/

/-- A request, clamped at the length of the file and then at its end: `d` bytes. -/
theorem readSize_clamp {n : Int} (h0 : 0 ≤ n) {pos L : Nat} (hpos : pos ≤ L) :
    ∃ d size : Nat, d = min n.toNat (L - pos) ∧ (d : Int) = min n (L - (pos : Int)) ∧
      readSize L n = size ∧ size ≤ L ∧ min size (L - pos) = d ∧ pos + d ≤ L := by
  refine ⟨min n.toNat (L - pos), min L n.toNat, rfl, by omega, ?_, by omega, by omega, by omega⟩
  unfold readSize
  split <;> omega

/-- **One `file_read`** at a position within the file: it delivers the next bytes and moves
the position past them. -/
theorem fileRead_run {img : Image} {inode fd : Int} (hwf : img.WellFormedFile inode)
    {s : FsState} {pos : Nat} (hopen : OpenAt img inode fd s pos) {n : Int} (h0 : 0 ≤ n) :
    ∃ s', (fileRead img fd n).run accessSem s =
        (⟨min n (img.inodeLength inode - pos), ((img.contents inode).drop pos).take n.toNat⟩,
          s') ∧
      s'.currPcb = s.currPcb ∧
      OpenAt img inode fd s' (pos + min n.toNat ((img.inodeLength inode).toNat - pos)) := by
  obtain ⟨L, hL⟩ : ∃ L : Nat, img.inodeLength inode = L :=
    ⟨(img.inodeLength inode).toNat, by have := hwf.length_nonneg; omega⟩
  have hLmax : L ≤ 1023 * 4096 := by have := hwf.length_le; omega
  have hposL : pos ≤ L := by have := hopen.pos_le; omega
  have hfd : ¬ (fd ≥ 8 ∨ fd < 0) := by have := hopen.fd_nonneg; have := hopen.fd_lt; omega
  have hinode : u32 inode = inode := by
    have h1 := hwf.inode_nonneg
    have h2 := hwf.inode_lt
    have h3 : img.inodeCount < 2147483648 := img.word_lt 4
    exact u32_of_fits (by omega) (by omega)
  obtain ⟨d, size, hd, hret, hreadSize, hsizeL, hmin, hnew⟩ := readSize_clamp h0 hposL
  -- clamping the request at the length of the file first does not change the bytes
  have htake : ((img.contents inode).drop pos).take size =
      ((img.contents inode).drop pos).take n.toNat := by
    rw [List.take_eq_take_min, List.take_eq_take_min (i := n.toNat), List.length_drop,
      length_contents img inode hwf.length_nonneg, hL, Int.toNat_natCast, hmin, hd]
  have hsum : pos + size < 4294967296 := by omega
  have hdata := readData_spec img inode hwf (by rw [hL]; exact Int.ofNat_le.mpr hposL) hsum
    (by omega)
  rw [hL, Int.toNat_natCast, hmin, htake] at hdata
  rw [hL, Int.toNat_natCast, ← hd, ← hret]
  have hsmall : ∀ {k : Nat}, k ≤ L → k < 2147483648 := fun h =>
    lt_of_le_of_lt (h.trans hLmax) (by decide)
  have hupos : u32 (pos : Int) = pos := u32_natCast ((hsmall hposL).trans (by decide))
  have husize : u32 (size : Int) = size := u32_natCast ((hsmall hsizeL).trans (by decide))
  have hfits : i32 ((pos : Int) + d) = ((pos + d : Nat) : Int) := i32_natCast (hsmall hnew)
  have hne : ¬ (d : Int) = -1 := fun h => absurd (h ▸ Int.natCast_nonneg d) (by decide)
  refine ⟨s.modifyFd s.currPcb fd fun entry => { entry with filePos := ((pos + d : Nat) : Int) },
    ?_, rfl, ?_⟩
  · rw [fileRead, run_currFd, if_neg (Int.not_lt.mpr h0), if_neg hfd, run_bitmapOpen,
      decide_eq_false hopen.occupied, if_neg Bool.false_ne_true, run_currFd, run_currFd,
      hopen.inode_eq, hopen.pos_eq, hL, hreadSize]
    dsimp only
    rw [hinode, hupos, husize, hdata, if_neg hne, run_currPcb, run_fdOf, run_setFilePos,
      hopen.pos_eq, hfits]
    rfl
  · exact
      { fd_nonneg := hopen.fd_nonneg
        fd_lt := hopen.fd_lt
        occupied := by simpa using hopen.occupied
        inode_eq := by simpa using hopen.inode_eq
        pos_eq := by simp
        pos_le := by rw [hL, Int.toNat_natCast]; exact hnew }

/-! ## A sequence of reads -/

/-- One `file_read` after the other. -/
def readAll (img : Image) (fd : Int) : List Int → FsProg (List ReadResult)
  | [] => pure []
  | n :: ns => do
    let res ← fileRead img fd n
    let rest ← readAll img fd ns
    pure (res :: rest)

/-- The bytes that a sequence of reads delivered. -/
def delivered (results : List ReadResult) : List UInt8 := results.flatMap (·.buf)

/-- **A run of reads**: from position `pos` on, they deliver the bytes up to the position they
reach. -/
theorem readAll_run {img : Image} {inode fd : Int} (hwf : img.WellFormedFile inode)
    (ns : List Int) (hns : ∀ n ∈ ns, 0 ≤ n) {s : FsState} {pos : Nat}
    (hopen : OpenAt img inode fd s pos) :
    ∃ results s', (readAll img fd ns).run accessSem s = (results, s') ∧
      s'.currPcb = s.currPcb ∧
      OpenAt img inode fd s' (pos + (delivered results).length) ∧
      delivered results = ((img.contents inode).drop pos).take (delivered results).length := by
  induction ns generalizing s pos with
  | nil => exact ⟨[], s, rfl, rfl, hopen, rfl⟩
  | cons n ns ih =>
    have h0 := hns n List.mem_cons_self
    obtain ⟨s₁, hrun, hcurr, hopen₁⟩ := fileRead_run hwf hopen h0
    obtain ⟨results, s', hrest, hcurr', hopen', hbytes⟩ :=
      ih (fun m hm => hns m (List.mem_cons_of_mem n hm)) hopen₁
    obtain ⟨first, hfirst⟩ : ∃ first, first = ((img.contents inode).drop pos).take n.toNat :=
      ⟨_, rfl⟩
    have hlen : min n.toNat ((img.inodeLength inode).toNat - pos) = first.length := by
      rw [hfirst, List.length_take, List.length_drop,
        length_contents img inode hwf.length_nonneg]
    rw [← hfirst] at hrun
    rw [hlen] at hopen' hbytes
    refine ⟨⟨min n (img.inodeLength inode - pos), first⟩ :: results, s', ?_,
      hcurr'.trans hcurr, ?_, ?_⟩
    · rw [readAll, Prog.run_bind, hrun, Prog.run_bind, hrest]
      rfl
    · simpa [delivered, Nat.add_assoc] using hopen'
    · -- the first read is a prefix of what is left, the other reads continue behind it
      have hprefix : first = ((img.contents inode).drop pos).take first.length := by
        rw [hfirst, List.length_take]
        exact List.take_eq_take_min
      have hsplit : delivered (⟨min n (img.inodeLength inode - pos), first⟩ :: results) =
          first ++ delivered results := by simp [delivered]
      rw [hsplit, List.length_append, List.take_add, ← hprefix, List.drop_drop, ← hbytes]

/-- **`file_read` after a fresh open**: whatever sizes `ns` were asked for, the bytes delivered
are a prefix of the contents of the file, the position is their number, and the next call
delivers the next `min nbytes (length - position)` bytes (none, once the end is reached). -/
theorem fileRead_sequence (img : Image) (hwf : img.WellFormed) (fname : CStr) (d : Dentry)
    (hd : readDentryByName img (some fname) = some d)
    (hfile : getFiletype img (some fname) = 2) (s₀ s : FsState) (fd : Int)
    (hopen : (fileOpen img (some fname)).run accessSem s₀ = (fd, s)) (hfd : fd ≠ -1)
    (ns : List Int) (hns : ∀ n ∈ ns, 0 ≤ n) :
    let reads := (readAll img fd ns).run accessSem s
    let pos := (delivered reads.1).length
    delivered reads.1 = (img.contents d.inodeNum).take pos ∧
    (reads.2.fdt reads.2.currPcb fd).filePos = pos ∧
    (pos : Int) ≤ img.inodeLength d.inodeNum ∧
    ∀ n, 0 ≤ n → ((fileRead img fd n).run accessSem reads.2).1 =
      ⟨min n (img.inodeLength d.inodeNum - pos),
        ((img.contents d.inodeNum).drop pos).take n.toNat⟩ := by
  have hfile' : img.WellFormedFile d.inodeNum := by
    have hknown : getFiletype img (some fname) ≠ -1 := by rw [hfile]; decide
    obtain ⟨index, hlt, -, htype, hdentry⟩ := readDentryByName_of_filetype hknown
    obtain rfl := Option.some.inj (hd.symm.trans hdentry)
    exact hwf index hlt (htype.symm.trans hfile)
  have hstart := fileOpen_openAt hd hopen hfd
  obtain ⟨results, s', hrun, -, hopen', hbytes⟩ := readAll_run hfile' ns hns hstart
  rw [Nat.zero_add] at hopen'
  rw [List.drop_zero] at hbytes
  rw [hrun]
  refine ⟨hbytes, hopen'.pos_eq, ?_, fun n hn => ?_⟩
  · rw [← Int.toNat_of_nonneg hfile'.length_nonneg]
    exact Int.ofNat_le.mpr hopen'.pos_le
  · obtain ⟨s'', hread, -⟩ := fileRead_run hfile' hopen' hn
    rw [hread]

/-- A process with nothing open but its terminal. -/
def freshFsState : FsState where
  mainProcess := 0
  currPcb := 0
  curDentry := ⟨fun _ => 0, 0, 0⟩
  fdt := fun _ fd =>
    if 0 ≤ fd ∧ fd < 2 then ⟨.terminal, -1, 0, 1⟩ else ⟨.unset, -1, 0, 0⟩

theorem fileRead_sequence_sample :
    let opened := (fileOpen sampleImage (some [97])).run accessSem freshFsState
    let reads := (readAll sampleImage opened.1 [2, 2]).run accessSem opened.2
    delivered reads.1 = (sampleImage.contents 1).take (delivered reads.1).length := by
  have hknown : getFiletype sampleImage (some [97]) ≠ -1 := by decide +kernel
  obtain ⟨index, -, hindex, -, hdentry⟩ := readDentryByName_of_filetype hknown
  obtain rfl : 1 = index :=
    Option.some.inj ((show findEntry sampleImage [97] 63 0 = some 1 by decide +kernel).symm.trans
      hindex)
  have hinode : sampleImage.inodeNum ((1 : Nat) : Int) = 1 := by decide +kernel
  have hreads := fileRead_sequence sampleImage sampleImage_wellFormed [97] _ hdentry
    (by decide +kernel) freshFsState _ _ rfl (by decide +kernel) [2, 2] (by decide)
  rw [hinode] at hreads
  exact hreads.1

end SrirachOS
