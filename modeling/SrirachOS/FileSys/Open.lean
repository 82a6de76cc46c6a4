import SrirachOS.FileSys.SequentialRead

/-!
# Opening a File

What `system_open` leaves behind, however it ends. The file layer works through two globals, so even
a call that fails moves `curr_pcb` to the caller and may overwrite `cur_dentry`. For a file or a
directory it also stores an operation table at the descriptor that it returns, and for -1 that is the
memory in front of the table: the top of the kernel stack of the next slot.

- `systemOpen_ends`: the ways in which an open can end,
- `failedOpen_exact`: when a failed open leaves the descriptor tables and the memory around them, and
  when it leaves everything, as it was.
-/

namespace SrirachOS

open Foundation FsProg

/-! ## What the globals hold -/

/-- `cur_dentry` after `read_dentry_by_index` has stored `d` over it: the name has 32 bytes. -/
def Dentry.storedOver (d old : Dentry) : Dentry where
  filename i := if 0 ≤ i ∧ i < 32 then d.filename i else old.filename i
  filetype := d.filetype
  inodeNum := d.inodeNum

/-- `set_filesys_pcb(pcb)` of a system call. -/
def FsState.entered (s : FsState) : FsState := { s with currPcb := s.mainProcess }

/-- The state in which `cur_dentry` has been filled, if it is. -/
def FsState.holding (s : FsState) : Option Dentry → FsState
  | none => s
  | some d => { s with curDentry := d.storedOver s.curDentry }

@[simp] theorem holding_fdt (s : FsState) (d : Option Dentry) : (s.holding d).fdt = s.fdt := by
  cases d <;> rfl

@[simp] theorem holding_currPcb (s : FsState) (d : Option Dentry) :
    (s.holding d).currPcb = s.currPcb := by
  cases d <;> rfl

@[simp] theorem holding_mainProcess (s : FsState) (d : Option Dentry) :
    (s.holding d).mainProcess = s.mainProcess := by
  cases d <;> rfl

/-- The loop over the name stores the bytes from index `i` on. -/
theorem storeName_exact (d : Dentry) (turns i : Nat) (s : FsState) :
    (storeName d turns i).run accessSem s = ((), { s with curDentry := { s.curDentry with
      filename := fun k => if (i : Int) ≤ k ∧ k < i + turns then d.filename k
        else s.curDentry.filename k } }) := by
  induction turns generalizing i s with
  | zero =>
    have hsame : (fun k : Int => if (i : Int) ≤ k ∧ k < i + (0 : Nat) then d.filename k
        else s.curDentry.filename k) = s.curDentry.filename := by
      funext k
      rw [if_neg (by omega)]
    rw [hsame]
    rfl
  | succ turns ih =>
    change (storeName d turns (i + 1)).run accessSem { s with curDentry := { s.curDentry with
      filename := Function.update s.curDentry.filename i (d.filename i) } } = _
    have hnames : (fun k : Int => if ((i + 1 : Nat) : Int) ≤ k ∧ k < (i + 1 : Nat) + turns
          then d.filename k
          else Function.update s.curDentry.filename (i : Int) (d.filename i) k) =
        fun k => if (i : Int) ≤ k ∧ k < i + (turns + 1 : Nat) then d.filename k
          else s.curDentry.filename k := by
      funext k
      rw [Function.update_apply]
      -- the byte at `i` is stored by this turn, the others by the turns behind it
      by_cases hk : k = i
      · rw [if_neg (by omega), if_pos hk, if_pos (by omega), hk]
      · rw [if_neg hk]
        congr 1
        apply propext
        omega
    rw [ih]
    dsimp only
    rw [hnames]

theorem storeCurDentry_exact (d : Dentry) (s : FsState) :
    (storeCurDentry d).run accessSem s = ((), s.holding (some d)) := by
  rw [storeCurDentry, Prog.run_bind, storeName_exact]
  simp only [Int.natCast_zero, Int.zero_add]
  rfl

/-! ## The open functions -/

/-- The descriptor that a search finds is free. -/
theorem firstFree_free {s : FsState} {turns : Nat} {index fd : Int}
    (h : firstFree s turns index = some fd) : (s.fdt s.currPcb fd).flags = 0 := by
  induction turns generalizing index with
  | zero => simp [firstFree] at h
  | succ turns ih =>
    rw [firstFree] at h
    split at h
    · rename_i hfree
      rw [← Option.some.inj h]
      exact hfree
    · exact ih h

/-- The descriptor of an open, or -1. -/
theorem claimFd_cases (zeroPos : Bool) (s : FsState) :
    (claimFd zeroPos 8 0).run accessSem s = (-1, s) ∨
      ∃ fd inode, 0 ≤ fd ∧ fd < 8 ∧ (s.fdt s.currPcb fd).flags = 0 ∧
        (claimFd zeroPos 8 0).run accessSem s =
          (fd, s.modifyFd s.currPcb fd (claim zeroPos inode)) := by
  rw [claimFd_run zeroPos 8 0 (by omega) (by omega)]
  cases hfree : firstFree s 8 0 with
  | none => exact .inl rfl
  | some fd =>
    obtain ⟨h0, h8⟩ := firstFree_range hfree
    exact .inr ⟨fd, _, h0, by omega, firstFree_free hfree, rfl⟩

/-- `file_open` fills `cur_dentry` if there is an entry, and then fails or takes a free
descriptor. -/
theorem fileOpen_cases (img : Image) (fname : Option CStr) (s : FsState) :
    let held := s.holding (readDentryByName img fname)
    (fileOpen img fname).run accessSem s = (-1, held) ∨
      ∃ fd inode, 0 ≤ fd ∧ fd < 8 ∧ (s.fdt s.currPcb fd).flags = 0 ∧
        (fileOpen img fname).run accessSem s =
          (fd, held.modifyFd s.currPcb fd (claim true inode)) := by
  intro held
  have hclaim := claimFd_cases true held
  rw [holding_fdt, holding_currPcb] at hclaim
  unfold fileOpen
  cases hentry : readDentryByName img fname with
  | none =>
    have hheld : held = s := by
      change s.holding (readDentryByName img fname) = s
      rw [hentry]
      rfl
    rw [hheld]
    exact .inl rfl
  | some d =>
    have hheld : held = s.holding (some d) := by
      change s.holding (readDentryByName img fname) = _
      rw [hentry]
    dsimp only
    rw [Prog.run_bind, storeCurDentry_exact, ← hheld, run_dentryFiletype]
    dsimp only
    -- the type of the entry is tested first, then whether the file is open already
    split
    · exact .inl rfl
    · rw [Prog.run_bind, alreadyOpen_run]
      split
      · exact .inl rfl
      · exact hclaim

/-- The entry that `dir_open` stores: only the name of the first one gets that far. -/
def dirEntry (img : Image) (fname : CStr) : Option Dentry :=
  if nameDiffers img 0 fname 32 0 then none else readDentryByName img (some fname)

theorem dirOpen_cases (img : Image) (fname : CStr) (s : FsState) :
    let held := s.holding (dirEntry img fname)
    (dirOpen img fname).run accessSem s = (-1, held) ∨
      ∃ fd inode, 0 ≤ fd ∧ fd < 8 ∧ (s.fdt s.currPcb fd).flags = 0 ∧
        (dirOpen img fname).run accessSem s =
          (fd, held.modifyFd s.currPcb fd (claim false inode)) := by
  intro held
  have hclaim := claimFd_cases false held
  rw [holding_fdt, holding_currPcb] at hclaim
  have hheld : held = s.holding (dirEntry img fname) := rfl
  unfold dirEntry at hheld
  unfold dirOpen
  -- the name is compared with that of the first entry before it is looked up
  by_cases hdiffers : nameDiffers img 0 fname 32 0 = true
  · rw [if_pos hdiffers] at hheld ⊢
    rw [hheld]
    exact .inl rfl
  rw [if_neg hdiffers] at hheld ⊢
  cases hentry : readDentryByName img (some fname) with
  | none =>
    rw [hentry] at hheld
    rw [hheld]
    exact .inl rfl
  | some d =>
    rw [hentry] at hheld
    dsimp only
    rw [Prog.run_bind, storeCurDentry_exact, ← hheld, run_dentryFiletype]
    dsimp only
    split
    · exact .inl rfl
    · exact hclaim

/-- `fill_open_fd` takes a free descriptor, or -1. -/
theorem fillOpenFd_cases (pcb : Int) (turns : Nat) (fd : Int) (s : FsState) :
    (fillOpenFd pcb turns fd).run accessSem s = (-1, s) ∨
      ∃ i, fd ≤ i ∧ i < fd + turns ∧ (s.fdt pcb i).flags = 0 ∧
        (fillOpenFd pcb turns fd).run accessSem s =
          (i, s.modifyFd pcb i fun d => { d with flags := 1 }) := by
  induction turns generalizing fd with
  | zero => exact .inl rfl
  | succ turns ih =>
    rw [fillOpenFd, run_fdOf]
    by_cases hfree : (s.fdt pcb fd).flags = 0
    · rw [if_pos hfree]
      exact .inr ⟨fd, le_refl fd, by omega, hfree, rfl⟩
    · rw [if_neg hfree]
      rcases ih (fd + 1) with heq | ⟨i, hlo, hhi, hflags, heq⟩
      · exact .inl heq
      · exact .inr ⟨i, by omega, by omega, hflags, heq⟩

/-! ## The system call -/

/-- The operation table that `system_open` stores at whatever descriptor it gets. -/
def openTable (img : Image) (filename : Option CStr) : Option FOps :=
  match getFiletype img filename with
  | 1 => some .dir
  | 2 => some .file
  | _ => none

/-- The entry that it stores in `cur_dentry`. -/
def openEntry (img : Image) (filename : Option CStr) : Option Dentry :=
  match getFiletype img filename, filename with
  | 1, some name => dirEntry img name
  | 2, _ => readDentryByName img filename
  | _, _ => none

theorem openTable_some (img : Image) (name : CStr) :
    openTable img (some name) = match getFiletype img (some name) with
      | 1 => some .dir
      | 2 => some .file
      | _ => none := rfl

theorem openEntry_some (img : Image) (name : CStr) :
    openEntry img (some name) = match getFiletype img (some name) with
      | 1 => dirEntry img name
      | 2 => readDentryByName img (some name)
      | _ => none := by
  unfold openEntry
  split <;> simp_all

/-- The ways in which an open ends: the descriptor it returns and the state it leaves. -/
inductive OpenEnds (img : Image) (filename : Option CStr) (s : FsState) : Int → FsState → Prop
  /-- there is no such file, or no descriptor for the rtc -/
  | refused (htable : openTable img filename = none) : OpenEnds img filename s (-1) s.entered
  | rtc (fd : Int) (h2 : 2 ≤ fd) (h8 : fd < 8) (htable : openTable img filename = none)
      (hfree : (s.fdt s.mainProcess fd).flags = 0) :
    OpenEnds img filename s fd ((s.entered.modifyFd s.mainProcess fd fun d =>
      { d with flags := 1 }).modifyFd s.mainProcess fd fun d => { d with fOps := .rtc })
  /-- the file layer returned -1, and the table went there -/
  | slipped (table : FOps) (htable : openTable img filename = some table) :
    OpenEnds img filename s (-1) ((s.entered.holding (openEntry img filename)).modifyFd s.mainProcess
      (-1) fun d => { d with fOps := table })
  | opened (table : FOps) (fd inode : Int) (zeroPos : Bool) (h0 : 0 ≤ fd) (h8 : fd < 8)
      (htable : openTable img filename = some table)
      (hfree : (s.fdt s.mainProcess fd).flags = 0) :
    OpenEnds img filename s fd (((s.entered.holding (openEntry img filename)).modifyFd s.mainProcess
      fd (claim zeroPos inode)).modifyFd s.mainProcess fd fun d => { d with fOps := table })

/-- The table is stored at the descriptor that the file layer returns. -/
theorem layer_ends {img : Image} {filename : Option CStr} {s : FsState} {layer : FsProg Int}
    {table : FOps} {zeroPos : Bool} (htable : openTable img filename = some table)
    (hlayer : layer.run accessSem s.entered = (-1, s.entered.holding (openEntry img filename)) ∨
      ∃ fd inode, 0 ≤ fd ∧ fd < 8 ∧ (s.entered.fdt s.entered.currPcb fd).flags = 0 ∧
        layer.run accessSem s.entered = (fd, (s.entered.holding (openEntry img filename)).modifyFd
          s.entered.currPcb fd (claim zeroPos inode))) :
    let result := (layer >>= fun fd => setFOps s.mainProcess fd table >>= fun _ => pure fd).run
      accessSem s.entered
    OpenEnds img filename s result.1 result.2 := by
  intro result
  have hresult : result = (layer >>= fun fd => setFOps s.mainProcess fd table >>= fun _ =>
    pure fd).run accessSem s.entered := rfl
  rw [Prog.run_bind] at hresult
  rcases hlayer with heq | ⟨fd, inode, h0, h8, hfree, heq⟩
  · rw [heq] at hresult
    rw [hresult]
    exact .slipped table htable
  · rw [heq] at hresult
    rw [hresult]
    exact .opened table fd inode zeroPos h0 h8 htable hfree

/-- **`system_open`** ends in one of these ways. -/
theorem systemOpen_ends (img : Image) (filename : Option CStr) (s : FsState) :
    OpenEnds img filename s ((systemOpen img filename).run accessSem s).1
      ((systemOpen img filename).run accessSem s).2 := by
  unfold systemOpen
  rw [run_mainProcess, setFilesysPcb, run_setCurrPcb]
  change OpenEnds img filename s (Prog.run accessSem _ s.entered).1 (Prog.run accessSem _ s.entered).2
  cases filename with
  | none => exact .refused rfl
  | some name =>
    have htable := openTable_some img name
    have hentry := openEntry_some img name
    generalize getFiletype img (some name) = filetype at htable hentry
    -- the type of the file decides which layer opens it
    split
    · -- the rtc
      rw [Prog.run_bind]
      rcases fillOpenFd_cases s.mainProcess 6 2 s.entered with heq | ⟨fd, h2, h8, hfree, heq⟩
      · rw [heq, if_pos rfl]
        exact .refused htable
      · rw [heq, if_neg (by omega)]
        exact .rtc fd h2 (by omega) htable hfree
    · rename_i hname
      obtain rfl := Option.some.inj hname
      have hlayer := dirOpen_cases img name s.entered
      have hdir : openEntry img (some name) = dirEntry img name := hentry
      rw [← hdir] at hlayer
      exact layer_ends htable hlayer
    · have hlayer := fileOpen_cases img (some name) s.entered
      have hfile : openEntry img (some name) = readDentryByName img (some name) := hentry
      rw [← hfile] at hlayer
      exact layer_ends htable hlayer
    · rename_i _ h2 hother
      apply OpenEnds.refused
      rw [htable]
      split
      · exact (hother name rfl rfl).elim
      · exact (h2 rfl).elim
      · rfl

/-! ## Failed opens -/

/-- The entry is in `cur_dentry` already. -/
def FsState.Holds (s : FsState) (d : Dentry) : Prop :=
  (∀ i, 0 ≤ i → i < 32 → s.curDentry.filename i = d.filename i) ∧
    s.curDentry.filetype = d.filetype ∧ s.curDentry.inodeNum = d.inodeNum

theorem holding_curDentry_eq_self {s : FsState} {d : Option Dentry} :
    (s.holding d).curDentry = s.curDentry ↔ ∀ e, d = some e → s.Holds e := by
  cases d with
  | none => simp [FsState.holding]
  | some d =>
    obtain ⟨mainProcess, currPcb, ⟨filename, filetype, inodeNum⟩, fdt⟩ := s
    simp only [FsState.holding, Dentry.storedOver, Dentry.mk.injEq, Option.some.injEq, forall_eq',
      FsState.Holds]
    constructor
    · rintro ⟨hname, htype, hinode⟩
      refine ⟨fun i h0 h32 => ?_, htype.symm, hinode.symm⟩
      have hi := congrFun hname i
      rw [if_pos ⟨h0, h32⟩] at hi
      exact hi.symm
    · rintro ⟨hname, htype, hinode⟩
      refine ⟨funext fun i => ?_, htype.symm, hinode.symm⟩
      split
      · rename_i hrange
        exact (hname i hrange.1 hrange.2).symm
      · rfl

/-- The word in front of the caller's descriptor table keeps its value: nothing is stored there, or
what is stored is what it held. -/
def SlipHarmless (img : Image) (filename : Option CStr) (s : FsState) : Prop :=
  ∀ table, openTable img filename = some table → (s.fdt s.mainProcess (-1)).fOps = table

theorem modifyFd_fOps_eq_self (s : FsState) (pcb fd : Int) (table : FOps) :
    (s.modifyFd pcb fd fun d => { d with fOps := table }).fdt = s.fdt ↔
      (s.fdt pcb fd).fOps = table := by
  constructor
  · intro h
    have hfd := congrFun (congrFun h pcb) fd
    simp only [modifyFd_same] at hfd
    rw [← hfd]
  · intro h
    funext p i
    simp only [FsState.modifyFd]
    split
    · rename_i hloc
      rw [hloc.1, hloc.2, ← h]
    · rfl

/-- An open that stores no table stores no entry. -/
theorem openEntry_of_refused {img : Image} {filename : Option CStr}
    (h : openTable img filename = none) : openEntry img filename = none := by
  unfold openTable at h
  unfold openEntry
  split at h
  · cases h
  · cases h
  · rename_i h1 h2
    split
    · rename_i htype
      exact (h1 htype).elim
    · rename_i htype
      exact (h2 htype).elim
    · rfl

theorem slipHarmless_of_refused {img : Image} {filename : Option CStr} {s : FsState}
    (h : openTable img filename = none) : SlipHarmless img filename s := by
  intro table htable
  rw [h] at htable
  cases htable

theorem slipHarmless_iff {img : Image} {filename : Option CStr} {s : FsState} {table : FOps}
    (h : openTable img filename = some table) :
    SlipHarmless img filename s ↔ (s.fdt s.mainProcess (-1)).fOps = table := by
  constructor
  · intro hharmless
    exact hharmless table h
  · intro hsame table' htable'
    rw [h] at htable'
    rw [← Option.some.inj htable']
    exact hsame

theorem fsState_ext {s s' : FsState} (hmain : s'.mainProcess = s.mainProcess)
    (hpcb : s'.currPcb = s.currPcb) (hcur : s'.curDentry = s.curDentry) (hfdt : s'.fdt = s.fdt) :
    s' = s := by
  obtain ⟨mainProcess, currPcb, curDentry, fdt⟩ := s
  dsimp only at hmain hpcb hcur hfdt
  rw [← hmain, ← hpcb, ← hcur, ← hfdt]

theorem entered_eq_self {s : FsState} : s.entered = s ↔ s.currPcb = s.mainProcess := by
  obtain ⟨mainProcess, currPcb, curDentry, fdt⟩ := s
  simp only [FsState.entered, FsState.mk.injEq, true_and, and_true]
  exact eq_comm

/-- **A failed open**: the descriptor tables and the memory around them are as before exactly when
the word in front of the caller's table keeps its value; and everything is, exactly when also
`curr_pcb` names the caller and `cur_dentry` holds the entry already. -/
theorem failedOpen_exact (img : Image) (filename : Option CStr) (s : FsState)
    (hfail : ((systemOpen img filename).run accessSem s).1 = -1) :
    (((systemOpen img filename).run accessSem s).2.fdt = s.fdt ↔ SlipHarmless img filename s) ∧
    (((systemOpen img filename).run accessSem s).2 = s ↔
      SlipHarmless img filename s ∧ s.currPcb = s.mainProcess ∧
        ∀ d, openEntry img filename = some d → s.Holds d) := by
  have hends := systemOpen_ends img filename s
  rw [hfail] at hends
  generalize ((systemOpen img filename).run accessSem s).2 = s' at hends
  generalize hret : (-1 : Int) = ret at hends
  -- a failed layer still stores its table, at descriptor -1
  cases hends with
  | refused htable =>
    have hharmless := slipHarmless_of_refused (s := s) htable
    refine ⟨⟨fun _ => hharmless, fun _ => rfl⟩, ?_⟩
    rw [entered_eq_self, openEntry_of_refused htable]
    simp [hharmless]
  | rtc fd h2 h8 htable hfree => omega
  | slipped table htable =>
    have hfdt : ((s.entered.holding (openEntry img filename)).modifyFd s.mainProcess (-1)
        fun d => { d with fOps := table }).fdt = s.fdt ↔ SlipHarmless img filename s := by
      have hself := modifyFd_fOps_eq_self (s.entered.holding (openEntry img filename))
        s.mainProcess (-1) table
      rw [holding_fdt] at hself
      rw [slipHarmless_iff htable]
      exact hself
    refine ⟨hfdt, ?_⟩
    have hentry := holding_curDentry_eq_self (s := s) (d := openEntry img filename)
    have hdentry : (s.entered.holding (openEntry img filename)).curDentry =
        (s.holding (openEntry img filename)).curDentry := by
      cases openEntry img filename <;> rfl
    rw [← hfdt, ← hentry, ← hdentry]
    -- the four components of the state, read off one by one and put together again
    constructor
    · intro heq
      have hpcb := congrArg FsState.currPcb heq
      have hcur := congrArg FsState.curDentry heq
      rw [modifyFd_currPcb, holding_currPcb] at hpcb
      rw [modifyFd_curDentry] at hcur
      exact ⟨congrArg FsState.fdt heq, hpcb.symm, hcur⟩
    · rintro ⟨hsame, hpcb, hcur⟩
      apply fsState_ext
      · exact holding_mainProcess ..
      · rw [modifyFd_currPcb, holding_currPcb, hpcb]
        rfl
      · exact hcur
      · exact hsame
  | opened table fd inode zeroPos h0 h8 htable hfree => omega

/-- A process in slot 0 with its descriptors closed. -/
def sampleFs : FsState :=
  ⟨0, 0, ⟨fun _ => 0, 0, 0⟩, fun _ fd => ⟨if 0 ≤ fd ∧ fd < 2 then .terminal else .unset, -1, 0,
    if 0 ≤ fd ∧ fd < 2 then 1 else 0⟩⟩

/-- A name that does not exist. -/
theorem failedOpen_exact_sample :
    ((systemOpen sampleImage (some [122])).run accessSem sampleFs).2 = sampleFs :=
  (failedOpen_exact sampleImage (some [122]) sampleFs (by decide +kernel)).2.mpr
    ⟨slipHarmless_of_refused (by decide +kernel), rfl, by
      rw [openEntry_of_refused (by decide +kernel)]
      simp⟩

/-- The same file is opened twice: the second open fails, and the word in front of the table, on the
kernel stack of the next slot, has changed. -/
theorem failedOpen_changes :
    let s := ((systemOpen sampleImage (some [97])).run accessSem sampleFs).2
    let result := (systemOpen sampleImage (some [97])).run accessSem s
    result.1 = -1 ∧ (s.fdt 0 (-1)).fOps = .unset ∧ (result.2.fdt 0 (-1)).fOps = .file := by
  decide +kernel

end SrirachOS
