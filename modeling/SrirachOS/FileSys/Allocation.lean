import SrirachOS.FileSys.Unopened

/-!
# Taking and Releasing Descriptors

Exactly what `system_open` and `system_close` do to the descriptor table of the caller. Three
routines take a descriptor: `fill_open_fd` searches from 2 on, the loops of `file_open` and
`dir_open` from 0 on; they agree because the two descriptors of the terminal are never free.

- `systemOpen_exact`: when an open is refused, which descriptor it takes and what it stores there,
- `systemClose_exact`: when a close returns 0 and what it changes.
-/

namespace SrirachOS

open Foundation FsProg

/-! ## The searches -/

/-- Some occupied descriptor of the process carries the inode number. -/
def InUse (s : FsState) (pcb inode : Int) : Prop :=
  ∃ i : Nat, i < 8 ∧ (s.fdt pcb i).flags ≠ 0 ∧ (s.fdt pcb i).inodeNum = inode

instance (s : FsState) (pcb inode : Int) : Decidable (InUse s pcb inode) :=
  inferInstanceAs (Decidable (∃ i : Nat, i < 8 ∧ _))

theorem alreadyOpen_found (turns index : Nat) (s : FsState) :
    ((alreadyOpen turns index).run accessSem s).1 = true ↔
      ∃ i : Nat, index ≤ i ∧ i < index + turns ∧ (s.fdt s.currPcb i).flags ≠ 0 ∧
        (s.fdt s.currPcb i).inodeNum = s.curDentry.inodeNum := by
  induction turns generalizing index with
  | zero =>
    constructor
    · intro h
      cases h
    · rintro ⟨i, hlo, hhi, -⟩
      omega
  | succ turns ih =>
    have hcast : ((index : Int) + 1) = ((index + 1 : Nat) : Int) := by omega
    -- what the rest of the loop finds is found from `index` on
    have hrest : (∃ i : Nat, index + 1 ≤ i ∧ i < index + 1 + turns ∧
        (s.fdt s.currPcb i).flags ≠ 0 ∧ (s.fdt s.currPcb i).inodeNum = s.curDentry.inodeNum) →
        ∃ i : Nat, index ≤ i ∧ i < index + (turns + 1) ∧ (s.fdt s.currPcb i).flags ≠ 0 ∧
          (s.fdt s.currPcb i).inodeNum = s.curDentry.inodeNum := by
      rintro ⟨i, hlo, hhi, hflags, hinode⟩
      exact ⟨i, by omega, by omega, hflags, hinode⟩
    rw [alreadyOpen, run_bitmapOpen]
    by_cases hfree : (s.fdt s.currPcb index).flags = 0
    · rw [decide_eq_true hfree, if_pos rfl, hcast, ih]
      refine ⟨hrest, ?_⟩
      rintro ⟨i, hlo, hhi, hflags, hinode⟩
      by_cases hi : i = index
      · rw [hi] at hflags
        exact absurd hfree hflags
      · exact ⟨i, by omega, by omega, hflags, hinode⟩
    · rw [decide_eq_false hfree, if_neg Bool.false_ne_true, run_currFd, run_dentryInodeNum]
      by_cases hinode : (s.fdt s.currPcb index).inodeNum = s.curDentry.inodeNum
      · rw [if_pos hinode]
        exact ⟨fun _ => ⟨index, le_refl _, by omega, hfree, hinode⟩, fun _ => rfl⟩
      · rw [if_neg hinode, hcast, ih]
        refine ⟨hrest, ?_⟩
        rintro ⟨i, hlo, hhi, hflags, hinode'⟩
        by_cases hi : i = index
        · rw [hi] at hinode'
          exact absurd hinode' hinode
        · exact ⟨i, by omega, by omega, hflags, hinode'⟩

theorem alreadyOpen_exact (s : FsState) :
    (alreadyOpen 8 0).run accessSem s = (decide (InUse s s.currPcb s.curDentry.inodeNum), s) := by
  have hsame := alreadyOpen_run 8 0 s
  have hfound := alreadyOpen_found 8 0 s
  rw [Int.natCast_zero] at hfound
  refine Prod.ext ?_ hsame
  apply Bool.eq_iff_iff.mpr
  rw [hfound, decide_eq_true_iff]
  constructor
  · rintro ⟨i, -, hlt, hrest⟩
    exact ⟨i, by omega, hrest⟩
  · rintro ⟨i, hlt, hrest⟩
    exact ⟨i, Nat.zero_le i, by omega, hrest⟩

@[simp] theorem firstFree_holding (s : FsState) (d : Option Dentry) (turns : Nat) (index : Int) :
    firstFree (s.holding d) turns index = firstFree s turns index := by
  induction turns generalizing index with
  | zero => rfl
  | succ turns ih => rw [firstFree, firstFree, holding_fdt, holding_currPcb, ih]

/-- No descriptor below the first free one is free. -/
theorem firstFree_lowest {s : FsState} {turns : Nat} {index fd : Int}
    (h : firstFree s turns index = some fd) {i : Int} (hlo : index ≤ i) (hi : i < fd) :
    (s.fdt s.currPcb i).flags ≠ 0 := by
  induction turns generalizing index with
  | zero => cases h
  | succ turns ih =>
    rw [firstFree] at h
    split at h
    · have := Option.some.inj h
      omega
    · rename_i hused
      by_cases hi' : i = index
      · rw [hi']
        exact hused
      · exact ih h (by omega)

theorem firstFree_none {s : FsState} {turns : Nat} {index : Int} :
    firstFree s turns index = none ↔
      ∀ i, index ≤ i → i < index + turns → (s.fdt s.currPcb i).flags ≠ 0 := by
  induction turns generalizing index with
  | zero =>
    refine ⟨fun _ i hlo hhi => ?_, fun _ => rfl⟩
    omega
  | succ turns ih =>
    rw [firstFree]
    -- the entry at the index is free, or it is one of those that are not
    by_cases hfree : (s.fdt s.currPcb index).flags = 0
    · rw [if_pos hfree]
      constructor
      · intro h
        cases h
      · intro h
        exact absurd hfree (h index (le_refl _) (by omega))
    · rw [if_neg hfree, ih]
      constructor
      · intro h i hlo hhi
        by_cases hi : i = index
        · rw [hi]
          exact hfree
        · exact h i (by omega) (by omega)
      · intro h i hlo hhi
        exact h i (by omega) (by omega)

theorem fillOpenFd_run (s : FsState) (turns : Nat) (fd : Int) :
    (fillOpenFd s.currPcb turns fd).run accessSem s =
      match firstFree s turns fd with
      | none => (-1, s)
      | some i => (i, s.modifyFd s.currPcb i fun d => { d with flags := 1 }) := by
  induction turns generalizing fd with
  | zero => rfl
  | succ turns ih =>
    rw [fillOpenFd, run_fdOf, firstFree]
    by_cases hfree : (s.fdt s.currPcb fd).flags = 0
    · rw [if_pos hfree, if_pos hfree]
      rfl
    · rw [if_neg hfree, if_neg hfree]
      exact ih (fd + 1)

/-! ## The open functions -/

/-- The two descriptors of the terminal are occupied. -/
def StdOpen (s : FsState) (pcb : Int) : Prop :=
  (s.fdt pcb 0).flags ≠ 0 ∧ (s.fdt pcb 1).flags ≠ 0

/-- The lowest free descriptor of the caller, from 2 on. -/
def FsState.freeFd (s : FsState) : Option Int := firstFree s.entered 6 2

/-- A search from 0 on passes the descriptors of the terminal. -/
theorem firstFree_of_stdOpen {s : FsState} (h : StdOpen s s.mainProcess) :
    firstFree s.entered 8 0 = s.freeFd := by
  have h0 : ¬ (s.entered.fdt s.entered.currPcb 0).flags = 0 := h.1
  have h1 : ¬ (s.entered.fdt s.entered.currPcb (0 + 1)).flags = 0 := h.2
  rw [firstFree, if_neg h0, firstFree, if_neg h1]
  rfl

theorem claimFd_exact {s : FsState} (h : StdOpen s s.mainProcess) (zeroPos : Bool)
    (d : Option Dentry) :
    (claimFd zeroPos 8 0).run accessSem (s.entered.holding d) =
      match s.freeFd with
      | none => (-1, s.entered.holding d)
      | some fd => (fd, (s.entered.holding d).modifyFd s.mainProcess fd
          (claim zeroPos (s.entered.holding d).curDentry.inodeNum)) := by
  rw [claimFd_run zeroPos 8 0 (by omega) (by omega), firstFree_holding, firstFree_of_stdOpen h]
  cases hfree : s.freeFd with
  | none => rfl
  | some fd =>
    dsimp only
    rw [holding_currPcb]
    rfl

/-- **`file_open`** of an entry that is no directory. -/
theorem fileOpen_exact {img : Image} {fname : Option CStr} {d : Dentry}
    (hd : readDentryByName img fname = some d) (htype : d.filetype ≠ 1) {s : FsState}
    (hstd : StdOpen s s.mainProcess) :
    (fileOpen img fname).run accessSem s.entered =
      if InUse s s.mainProcess d.inodeNum then (-1, s.entered.holding (some d))
      else match s.freeFd with
        | none => (-1, s.entered.holding (some d))
        | some fd => (fd, (s.entered.holding (some d)).modifyFd s.mainProcess fd
            (claim true d.inodeNum)) := by
  unfold fileOpen
  rw [hd]
  dsimp only
  rw [Prog.run_bind, storeCurDentry_exact, run_dentryFiletype]
  dsimp only
  have htype' : ¬ (s.entered.holding (some d)).curDentry.filetype = 1 := htype
  rw [if_neg htype', Prog.run_bind, alreadyOpen_exact]
  -- the comparison is with the inode number that has been stored in `cur_dentry`
  have huse : InUse (s.entered.holding (some d)) (s.entered.holding (some d)).currPcb
      (s.entered.holding (some d)).curDentry.inodeNum ↔ InUse s s.mainProcess d.inodeNum := Iff.rfl
  by_cases hin : InUse s s.mainProcess d.inodeNum
  · rw [decide_eq_true (huse.mpr hin), if_pos hin]
    rfl
  · rw [decide_eq_false (mt huse.mp hin), if_neg hin]
    exact claimFd_exact hstd true (some d)

/-- **`dir_open`** of an entry that is a directory. -/
theorem dirOpen_exact {img : Image} {fname : CStr} {d : Dentry}
    (hd : readDentryByName img (some fname) = some d) (htype : d.filetype = 1) {s : FsState}
    (hstd : StdOpen s s.mainProcess) :
    (dirOpen img fname).run accessSem s.entered =
      if nameDiffers img 0 fname 32 0 then (-1, s.entered)
      else match s.freeFd with
        | none => (-1, s.entered.holding (some d))
        | some fd => (fd, (s.entered.holding (some d)).modifyFd s.mainProcess fd
            (claim false d.inodeNum)) := by
  unfold dirOpen
  by_cases hdiffers : nameDiffers img 0 fname 32 0 = true
  · rw [if_pos hdiffers, if_pos hdiffers]
    rfl
  rw [if_neg hdiffers, if_neg hdiffers, hd]
  dsimp only
  rw [Prog.run_bind, storeCurDentry_exact, run_dentryFiletype]
  dsimp only
  have htype' : ¬ (s.entered.holding (some d)).curDentry.filetype ≠ 1 := not_not.mpr htype
  rw [if_neg htype']
  exact claimFd_exact hstd false (some d)

/-! ## `system_open` -/

/-- The open is refused for a reason other than that no descriptor is free: there is no such name, or
it is a directory but not the first entry, or a file whose inode number is in use. -/
def refused (img : Image) (filename : Option CStr) (s : FsState) : Bool :=
  match getFiletype img filename, filename with
  | 0, _ => false
  | 1, some name => nameDiffers img 0 name 32 0
  | 2, _ =>
    match readDentryByName img filename with
    | none => true
    | some d => InUse s s.mainProcess d.inodeNum
  | _, _ => true

theorem refused_some (img : Image) (name : CStr) (s : FsState) :
    refused img (some name) s = match getFiletype img (some name) with
      | 0 => false
      | 1 => nameDiffers img 0 name 32 0
      | 2 =>
        match readDentryByName img (some name) with
        | none => true
        | some d => decide (InUse s s.mainProcess d.inodeNum)
      | _ => true := by
  unfold refused
  split <;> simp_all

/-- The inode number that an open stores. -/
def openInode (img : Image) (filename : Option CStr) : Int :=
  ((openEntry img filename).map Dentry.inodeNum).getD 0

/-- What an open makes of the descriptor that it takes. The rtc keeps the inode number and the
position that it finds there, a directory the position. -/
def occupy (img : Image) (filename : Option CStr) (d : Fdt) : Fdt :=
  match openTable img filename with
  | none => { d with flags := 1, fOps := .rtc }
  | some table => { claim (table = .file) (openInode img filename) d with fOps := table }

/-- The state that a failed open leaves: the operation table of a file or a directory has gone in
front of the descriptor table. -/
def FsState.failed (s : FsState) (img : Image) (filename : Option CStr) : FsState :=
  match openTable img filename with
  | none => s.entered
  | some table => (s.entered.holding (openEntry img filename)).modifyFd s.mainProcess (-1)
      fun d => { d with fOps := table }

/-- The state that a successful open leaves. -/
def FsState.took (s : FsState) (img : Image) (filename : Option CStr) (fd : Int) : FsState :=
  (s.entered.holding (openEntry img filename)).modifyFd s.mainProcess fd (occupy img filename)

/-- A call into the file layer, and the operation table stored at the descriptor that it returns. -/
theorem layer_exact {img : Image} {filename : Option CStr} {s : FsState} {layer : FsProg Int}
    {table : FOps} {isRefused : Bool} (htable : openTable img filename = some table)
    (hlayer : layer.run accessSem s.entered =
      if isRefused then (-1, s.entered.holding (openEntry img filename))
      else match s.freeFd with
        | none => (-1, s.entered.holding (openEntry img filename))
        | some fd => (fd, (s.entered.holding (openEntry img filename)).modifyFd s.mainProcess fd
            (claim (table = .file) (openInode img filename)))) :
    (layer >>= fun fd => setFOps s.mainProcess fd table >>= fun _ => pure fd).run accessSem s.entered =
      if isRefused then (-1, s.failed img filename)
      else match s.freeFd with
        | none => (-1, s.failed img filename)
        | some fd => (fd, s.took img filename fd) := by
  have hfailed : s.failed img filename = (s.entered.holding (openEntry img filename)).modifyFd
      s.mainProcess (-1) fun d => { d with fOps := table } := by
    rw [FsState.failed, htable]
  have htook : ∀ fd, s.took img filename fd = ((s.entered.holding (openEntry img filename)).modifyFd
      s.mainProcess fd (claim (table = .file) (openInode img filename))).modifyFd s.mainProcess fd
        fun d => { d with fOps := table } := by
    intro fd
    rw [modifyFd_modifyFd, FsState.took]
    unfold occupy
    rw [htable]
  -- the operation table is stored behind the call, even at descriptor -1
  rw [Prog.run_bind, hlayer, hfailed]
  cases isRefused with
  | true => rfl
  | false =>
    cases hfree : s.freeFd with
    | none => rfl
    | some fd =>
      dsimp only
      rw [htook]
      rfl

/-- A name that has a type has an entry of that type. -/
theorem entry_of_filetype (img : Image) (name : CStr) (h : getFiletype img (some name) ≠ -1) :
    ∃ d, readDentryByName img (some name) = some d ∧ d.filetype = getFiletype img (some name) := by
  obtain ⟨index, -, -, htype, hdentry⟩ := readDentryByName_of_filetype h
  exact ⟨_, hdentry, htype.symm⟩

/-- `system_open` of the rtc. -/
theorem rtc_exact {img : Image} {filename : Option CStr} (htable : openTable img filename = none)
    (s : FsState) :
    (fillOpenFd s.mainProcess 6 2 >>= fun fd =>
      if fd = -1 then pure (-1) else setFOps s.mainProcess fd .rtc >>= fun _ => pure fd).run
        accessSem s.entered =
      match s.freeFd with
      | none => (-1, s.failed img filename)
      | some fd => (fd, s.took img filename fd) := by
  have hfill : (fillOpenFd s.mainProcess 6 2).run accessSem s.entered = _ :=
    fillOpenFd_run s.entered 6 2
  have hfailed : s.failed img filename = s.entered := by rw [FsState.failed, htable]
  rw [Prog.run_bind, hfailed]
  cases hfree : s.freeFd with
  | none =>
    have hnone : firstFree s.entered 6 2 = none := hfree
    rw [hfill, hnone]
    rfl
  | some fd =>
    have hsome : firstFree s.entered 6 2 = some fd := hfree
    have hrange := firstFree_range hsome
    have hentry : s.entered.holding (openEntry img filename) = s.entered := by
      rw [openEntry_of_refused htable]
      rfl
    rw [hfill, hsome]
    dsimp only
    -- an rtc leaves inode number and position as they were
    rw [if_neg (by omega), run_setFOps, FsState.took, hentry]
    unfold occupy
    rw [htable]
    exact congrArg (Prod.mk fd) (modifyFd_modifyFd ..)

/-- **`system_open`**, exactly: it fails when it is refused or no descriptor is free, and otherwise
takes the lowest free one. -/
theorem systemOpen_exact (img : Image) (filename : Option CStr) {s : FsState}
    (hstd : StdOpen s s.mainProcess) :
    (systemOpen img filename).run accessSem s =
      if refused img filename s then (-1, s.failed img filename)
      else match s.freeFd with
        | none => (-1, s.failed img filename)
        | some fd => (fd, s.took img filename fd) := by
  unfold systemOpen
  rw [run_mainProcess, setFilesysPcb, run_setCurrPcb]
  change Prog.run accessSem _ s.entered = _
  cases filename with
  | none => rfl
  | some name =>
    have htable := openTable_some img name
    have hentry := openEntry_some img name
    have hrefused := refused_some img name s
    have hknown := entry_of_filetype img name
    generalize getFiletype img (some name) = filetype at htable hentry hrefused hknown
    -- one case for each file type, in the order of the source
    split
    · -- the rtc
      have hopens : refused img (some name) s = false := hrefused
      rw [hopens]
      exact rtc_exact htable s
    · rename_i hname
      obtain rfl := Option.some.inj hname
      obtain ⟨d, hd, htype⟩ := hknown (by decide)
      have hdiffers : refused img (some name) s = nameDiffers img 0 name 32 0 := hrefused
      have hdir : openEntry img (some name) = dirEntry img name := hentry
      apply layer_exact htable
      rw [dirOpen_exact hd htype hstd, hdiffers]
      unfold openInode
      rw [hdir, dirEntry]
      cases nameDiffers img 0 name 32 0 with
      | true => rfl
      | false =>
        rw [if_neg Bool.false_ne_true, if_neg Bool.false_ne_true, if_neg Bool.false_ne_true, hd]
        rfl
    · obtain ⟨d, hd, htype⟩ := hknown (by decide)
      have huse : refused img (some name) s = decide (InUse s s.mainProcess d.inodeNum) := by
        rw [hrefused, hd]
        rfl
      have hfile : openEntry img (some name) = some d := by
        rw [hentry, hd]
        rfl
      apply layer_exact htable
      rw [fileOpen_exact hd (by rw [htype]; decide) hstd, huse]
      unfold openInode
      rw [hfile]
      simp only [decide_eq_true_eq]
      rfl
    · rename_i h0 hfile hdir
      have htable' : openTable img (some name) = none := by
        rw [htable]
        split
        · exact (hdir name rfl rfl).elim
        · exact (hfile rfl).elim
        · rfl
      have hrefused' : refused img (some name) s = true := by
        rw [hrefused]
        split
        · exact (h0 rfl).elim
        · exact (hdir name rfl rfl).elim
        · exact (hfile rfl).elim
        · rfl
      rw [hrefused', if_pos rfl, FsState.failed, htable']
      rfl

theorem occupy_flags (img : Image) (filename : Option CStr) (d : Fdt) :
    (occupy img filename d).flags = 1 := by
  unfold occupy
  split <;> rfl

theorem occupy_fOps (img : Image) (filename : Option CStr) (d : Fdt) :
    (occupy img filename d).fOps = (openTable img filename).getD .rtc := by
  unfold occupy
  split
  · rename_i htable
    rw [htable]
    rfl
  · rename_i table htable
    rw [htable]
    rfl

/-! The descriptors after an open. -/

theorem failed_fdt (s : FsState) (img : Image) (filename : Option CStr) (p : Int) {i : Int}
    (h0 : 0 ≤ i) : (s.failed img filename).fdt p i = s.fdt p i := by
  unfold FsState.failed
  split
  · rfl
  · rw [modifyFd_of_ne _ (by omega), holding_fdt]
    rfl

theorem took_fdt_self (s : FsState) (img : Image) (filename : Option CStr) (fd : Int) :
    (s.took img filename fd).fdt s.mainProcess fd = occupy img filename (s.fdt s.mainProcess fd) := by
  rw [FsState.took, modifyFd_same, holding_fdt]
  rfl

theorem took_fdt_other (s : FsState) (img : Image) (filename : Option CStr) {fd p i : Int}
    (h : ¬ (p = s.mainProcess ∧ i = fd)) : (s.took img filename fd).fdt p i = s.fdt p i := by
  rw [FsState.took, modifyFd_of_ne _ h, holding_fdt]
  rfl

/-! ## `system_close` -/

/-- **`system_close`**, exactly: a file or the directory is released; the rtc is not, although the
call returns 0. -/
theorem systemClose_exact {fd : Int} (h0 : 0 ≤ fd) (h8 : fd < 8) (s : FsState) :
    (systemClose fd).run accessSem s =
      match (s.fdt s.mainProcess fd).fOps with
      | .file =>
        if (s.fdt s.mainProcess fd).flags = 0 then (.returned ⟨-1, []⟩, s.entered)
        else (.returned ⟨0, []⟩, s.entered.modifyFd s.mainProcess fd
          fun d => { d with filePos := 0, flags := 0 })
      | .dir =>
        if (s.fdt s.mainProcess fd).flags = 0 then (.returned ⟨-1, []⟩, s.entered)
        else (.returned ⟨0, []⟩, s.entered.modifyFd s.mainProcess fd fun d => { d with flags := 0 })
      | .rtc => (.returned ⟨0, []⟩, s.entered)
      | .terminal => (.returned ⟨-1, []⟩, s.entered)
      | .unset => (.wild, s.entered) := by
  rw [systemClose_dispatch h0 h8, fileClose_cases h0 h8, dirClose_cases h0 h8]
  have hentry : s.entered.fdt s.entered.currPcb fd = s.fdt s.mainProcess fd := rfl
  have hpcb : s.entered.currPcb = s.mainProcess := rfl
  rw [hentry, hpcb]
  -- only files and the directory look at the flags
  by_cases hfree : (s.fdt s.mainProcess fd).flags = 0
  · rw [if_pos hfree, if_pos hfree]
    cases (s.fdt s.mainProcess fd).fOps <;> simp only [if_pos hfree]
  · rw [if_neg hfree, if_neg hfree]
    cases (s.fdt s.mainProcess fd).fOps <;> simp only [if_neg hfree]

end SrirachOS
