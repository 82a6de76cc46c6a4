import SrirachOS.FileSys.Allocation
import SrirachOS.FileSys.Names

/-!
# The Log of a Process's Descriptors

Beside the descriptor table of a process stands a log: which descriptors its opens have taken, which
ones `system_close` has said to be closed, and which reads of the directory have moved on. The log
is kept from outside; nothing in the kernel depends on it.

- `FdEffect`, `fsStep_effect`: what one event does to the table and what it adds to the log,
- `FdsOf`: how the table follows from the log,
- `logsAgree_run`: in every run it does.
-/

namespace SrirachOS

open Foundation FsProg

/-! ## The log -/

/-- What happens to a descriptor. -/
inductive FdAct where
  /-- `system_open` has returned it, for this operation table and inode number -/
  | opened (fd : Int) (table : FOps) (inode : Int)
  /-- `system_close` has returned 0 for it -/
  | closed (fd : Int)
  /-- a read of the directory has moved its position -/
  | advanced (fd : Int)
  deriving DecidableEq

/-- The log of a process, last act first. -/
abbrev FdLog := List FdAct

/-- The descriptor that an act is about. -/
def FdAct.fd : FdAct → Int
  | opened fd _ _ => fd
  | closed fd => fd
  | advanced fd => fd

namespace FdLog

/-- The number of successful opens. -/
def opens (log : FdLog) : Nat := log.countP fun
  | .opened .. => true
  | _ => false

/-- The number of successful closes. -/
def closes (log : FdLog) : Nat := log.countP fun
  | .closed _ => true
  | _ => false

/-- The reads of the directory through `fd` since the process was created, or since it last opened a
file there. -/
def dirReads (fd : Int) : FdLog → Nat
  | [] => 0
  | .opened i table _ :: log => if i = fd ∧ table = .file then 0 else dirReads fd log
  | .closed _ :: log => dirReads fd log
  | .advanced i :: log => if i = fd then dirReads fd log + 1 else dirReads fd log

/-- The inode number of the file that the process has open at `fd`. -/
def fileAt (fd : Int) : FdLog → Option Int
  | [] => none
  | .opened i table inode :: log =>
    if i = fd then (if table = .file then some inode else none) else fileAt fd log
  | .closed i :: log => if i = fd then none else fileAt fd log
  | .advanced _ :: log => fileAt fd log

/-- The inode number of the last file or directory that the process has opened at `fd`, or -1. -/
def lastInode (fd : Int) : FdLog → Int
  | [] => -1
  | .opened i table inode :: log => if i = fd ∧ table ≠ .rtc then inode else lastInode fd log
  | _ :: log => lastInode fd log

end FdLog

/-- The act that an event is logged as. -/
def fdAct (img : Image) (s : FsState) : FsEvent → Option FdAct
  | .openFile filename =>
    let result := (systemOpen img filename).run accessSem s
    if result.1 = -1 then none
    else some (.opened result.1 ((openTable img filename).getD .rtc) (openInode img filename))
  | .closeFd fd =>
    if ((systemClose fd).run accessSem s).1 = .returned ⟨0, []⟩ then some (.closed fd) else none
  | .readFd fd bufNull nbytes =>
    let s' := ((systemRead img fd bufNull nbytes).run accessSem s).2
    if (s.fdt s.mainProcess fd).fOps = .dir ∧
        (s'.fdt s.mainProcess fd).filePos ≠ (s.fdt s.mainProcess fd).filePos
    then some (.advanced fd) else none
  | _ => none

/-- The memory after an event. -/
def fsNext (img : Image) (s : FsState) (e : FsEvent) : FsState :=
  (fsStep img (s, FdHistory.none) e).1

/-- One event, with the logs of the processes that have been created. -/
def fdStep (img : Image) (c : FsState × (Int → Option FdLog)) (e : FsEvent) :
    FsState × (Int → Option FdLog) :=
  (fsNext img c.1 e,
    match e with
    | .create p => Function.update c.2 p (some [])
    | e =>
      match fdAct img c.1 e with
      | none => c.2
      | some act => Function.update c.2 c.1.mainProcess ((c.2 c.1.mainProcess).map (act :: ·)))

/-- Nobody has been created. -/
def noLogs : Int → Option FdLog := fun _ => none

/-! ## Reads -/

/-- What a read of a file delivers at a position. -/
def fileRecord (img : Image) (inode pos nbytes : Int) : ReadResult :=
  let res := readData img (u32 inode) (u32 pos) (u32 (readSize (img.inodeLength inode) nbytes))
  if res.ret = -1 then ⟨-1, res.buf⟩ else res

/-- A read of an open file. -/
theorem fileRead_open (img : Image) {fd : Int} (h0 : 0 ≤ fd) (h8 : fd < 8) {nbytes : Int}
    (hn : 0 ≤ nbytes) {s : FsState} (hopen : (s.fdt s.currPcb fd).flags ≠ 0) :
    ((fileRead img fd nbytes).run accessSem s).1 =
      fileRecord img (s.fdt s.currPcb fd).inodeNum (s.fdt s.currPcb fd).filePos nbytes := by
  unfold fileRead fileRecord
  rw [run_currFd, if_neg (by omega), if_neg (by omega), run_bitmapOpen, decide_eq_false hopen,
    if_neg Bool.false_ne_true, run_currFd]
  dsimp only
  rw [run_currFd]
  generalize readData img _ _ _ = res
  by_cases hret : res.ret = -1
  · rw [if_pos hret, if_pos hret]
    rfl
  · rw [if_neg hret, if_neg hret, run_currPcb, run_fdOf, run_setFilePos]
    rfl

/-! ## What one event does -/

/-- What an event of the running process does to the descriptors, and how it is logged. -/
inductive FdEffect (img : Image) (s : FsState) : FsEvent → Option FdAct → FsState → Prop
  /-- nothing -/
  | quiet (e : FsEvent) (s' : FsState) (hfdt : ∀ p i, 0 ≤ i → s'.fdt p i = s.fdt p i) :
    FdEffect img s e none s'
  | opened (filename : Option CStr) (fd : Int) (hrefused : refused img filename s = false)
      (hfree : s.freeFd = some fd) :
    FdEffect img s (.openFile filename)
      (some (.opened fd ((openTable img filename).getD .rtc) (openInode img filename)))
      (s.took img filename fd)
  | closedFile (fd : Int) (h0 : 0 ≤ fd) (h8 : fd < 8)
      (htable : (s.fdt s.mainProcess fd).fOps = .file) (hused : (s.fdt s.mainProcess fd).flags ≠ 0) :
    FdEffect img s (.closeFd fd) (some (.closed fd))
      (s.entered.modifyFd s.mainProcess fd fun d => { d with filePos := 0, flags := 0 })
  | closedDir (fd : Int) (h0 : 0 ≤ fd) (h8 : fd < 8)
      (htable : (s.fdt s.mainProcess fd).fOps = .dir) (hused : (s.fdt s.mainProcess fd).flags ≠ 0) :
    FdEffect img s (.closeFd fd) (some (.closed fd))
      (s.entered.modifyFd s.mainProcess fd fun d => { d with flags := 0 })
  /-- the close returns 0, and nothing is released -/
  | closedRtc (fd : Int) (h0 : 0 ≤ fd) (h8 : fd < 8)
      (htable : (s.fdt s.mainProcess fd).fOps = .rtc) :
    FdEffect img s (.closeFd fd) (some (.closed fd)) s.entered
  /-- a read of a file -/
  | moved (fd : Int) (bufNull : Bool) (nbytes ret : Int) (h0 : 0 ≤ fd) (h8 : fd < 8)
      (htable : (s.fdt s.mainProcess fd).fOps = .file) (hused : (s.fdt s.mainProcess fd).flags ≠ 0)
      (hn : 0 ≤ nbytes) (hne : ret ≠ -1)
      (hret : ret = (fileRecord img (s.fdt s.mainProcess fd).inodeNum
        (s.fdt s.mainProcess fd).filePos nbytes).ret) :
    FdEffect img s (.readFd fd bufNull nbytes) none
      (s.entered.modifyFd s.mainProcess fd fun d =>
        { d with filePos := i32 ((s.fdt s.mainProcess fd).filePos + ret) })
  /-- a read of the directory -/
  | advanced (fd : Int) (bufNull : Bool) (nbytes : Int) (h0 : 0 ≤ fd) (h8 : fd < 8)
      (htable : (s.fdt s.mainProcess fd).fOps = .dir) (hused : (s.fdt s.mainProcess fd).flags ≠ 0)
      (hpos : (s.fdt s.mainProcess fd).filePos < img.dirCount) :
    FdEffect img s (.readFd fd bufNull nbytes) (some (.advanced fd))
      (s.entered.modifyFd s.mainProcess fd fun d =>
        { d with filePos := i32 ((s.fdt s.mainProcess fd).filePos + 1) })

/-- A read of a file leaves the descriptors, or moves the position of its own past what it delivers. -/
theorem fileRead_effect (img : Image) {fd : Int} (h0 : 0 ≤ fd) (h8 : fd < 8) (nbytes : Int)
    (s : FsState) :
    let d := s.fdt s.currPcb fd
    ((fileRead img fd nbytes).run accessSem s).2 = s ∨
      (0 ≤ nbytes ∧ d.flags ≠ 0 ∧ (fileRecord img d.inodeNum d.filePos nbytes).ret ≠ -1 ∧
        ((fileRead img fd nbytes).run accessSem s).2 = s.modifyFd s.currPcb fd fun entry =>
          { entry with
            filePos := i32 (d.filePos + (fileRecord img d.inodeNum d.filePos nbytes).ret) }) := by
  intro d
  unfold fileRead
  rw [run_currFd]
  by_cases hn : nbytes < 0
  · rw [if_pos hn]
    exact .inl rfl
  rw [if_neg hn, if_neg (by omega), run_bitmapOpen]
  by_cases hfree : (s.fdt s.currPcb fd).flags = 0
  · rw [decide_eq_true hfree, if_pos rfl]
    exact .inl rfl
  rw [decide_eq_false hfree, if_neg Bool.false_ne_true, run_currFd]
  dsimp only
  rw [run_currFd]
  -- what the read of the data returns decides whether the position moves
  have hrecord : ∀ res, res = readData img (u32 d.inodeNum) (u32 d.filePos)
      (u32 (readSize (img.inodeLength d.inodeNum) nbytes)) →
      fileRecord img d.inodeNum d.filePos nbytes = if res.ret = -1 then ⟨-1, res.buf⟩ else res := by
    intro res hres
    rw [hres]
    rfl
  generalize hres : readData img _ _ _ = res
  have hrecord := hrecord res hres.symm
  by_cases hret : res.ret = -1
  · rw [if_pos hret]
    exact .inl rfl
  · rw [if_neg hret] at hrecord ⊢
    rw [run_currPcb, run_fdOf, run_setFilePos]
    refine .inr ⟨by omega, hfree, by rw [hrecord]; exact hret, ?_⟩
    rw [hrecord]
    rfl

/-- A read of the directory moves on by one entry, or leaves the descriptors. -/
theorem dirRead_effect (img : Image) (fd nbytes : Int) (s : FsState) :
    ((dirRead img fd nbytes).run accessSem s).2 = s ∨
      (s.fdt s.currPcb fd).flags ≠ 0 ∧ (s.fdt s.currPcb fd).filePos < img.dirCount ∧
        ((dirRead img fd nbytes).run accessSem s).2 =
          s.modifyFd s.currPcb fd fun d =>
            { d with filePos := i32 ((s.fdt s.currPcb fd).filePos + 1) } := by
  unfold dirRead
  rw [run_currFd]
  split
  · exact .inl rfl
  rw [run_bitmapOpen]
  by_cases hfree : (s.fdt s.currPcb fd).flags = 0
  · rw [decide_eq_true hfree, if_pos rfl]
    exact .inl rfl
  rw [decide_eq_false hfree, if_neg Bool.false_ne_true]
  dsimp only
  rw [run_currFd]
  -- at the end of the directory the position stays
  by_cases hpos : (s.fdt s.currPcb fd).filePos < img.dirCount
  · rw [if_pos hpos, run_currPcb, run_fdOf, run_setFilePos]
    exact .inr ⟨hfree, hpos, rfl⟩
  · rw [if_neg hpos]
    exact .inl rfl

/-- The next position is another one. -/
theorem i32_succ_ne (pos : Int) : i32 (pos + 1) ≠ pos := by
  unfold i32
  split <;> omega

theorem modifyFd_filePos (s : FsState) (pcb fd pos : Int) :
    ((s.modifyFd pcb fd fun d => { d with filePos := pos }).fdt pcb fd).filePos = pos := by
  rw [modifyFd_same]

/-- **One event** of a process whose terminal descriptors are occupied. -/
theorem fsStep_effect (img : Image) {s : FsState} (hstd : StdOpen s s.mainProcess) (e : FsEvent)
    (hcreate : ∀ p, e ≠ .create p) : FdEffect img s e (fdAct img s e) (fsNext img s e) := by
  cases e with
  | create p => exact (hcreate p rfl).elim
  | schedule p => exact .quiet _ _ fun _ _ _ => rfl
  | openFile filename =>
    have hexact := systemOpen_exact img filename hstd
    unfold fdAct fsNext fsStep
    dsimp only
    rw [hexact]
    cases hrefused : refused img filename s with
    | true =>
      rw [if_pos rfl, if_pos rfl]
      exact .quiet _ _ fun p i h0 => failed_fdt s img filename p h0
    | false =>
      rw [if_neg Bool.false_ne_true]
      cases hfree : s.freeFd with
      | none =>
        dsimp only
        rw [if_pos rfl]
        exact .quiet _ _ fun p i h0 => failed_fdt s img filename p h0
      | some fd =>
        have hrange := firstFree_range hfree
        dsimp only
        rw [if_neg (by omega)]
        exact .opened filename fd hrefused hfree
  | closeFd fd =>
    unfold fdAct fsNext fsStep
    dsimp only
    by_cases hfd : fd < 0 ∨ fd > 7
    · rw [systemClose_refused hfd, if_neg (by simp)]
      exact .quiet _ _ fun _ _ _ => rfl
    have h0 : 0 ≤ fd := by omega
    have h8 : fd < 8 := by omega
    rw [systemClose_exact h0 h8]
    cases htable : (s.fdt s.mainProcess fd).fOps with
    | file =>
      dsimp only
      by_cases hfree : (s.fdt s.mainProcess fd).flags = 0
      · rw [if_pos hfree, if_neg (by simp)]
        exact .quiet _ _ fun _ _ _ => rfl
      · rw [if_neg hfree, if_pos rfl]
        exact .closedFile fd h0 h8 htable hfree
    | dir =>
      dsimp only
      by_cases hfree : (s.fdt s.mainProcess fd).flags = 0
      · rw [if_pos hfree, if_neg (by simp)]
        exact .quiet _ _ fun _ _ _ => rfl
      · rw [if_neg hfree, if_pos rfl]
        exact .closedDir fd h0 h8 htable hfree
    | rtc =>
      dsimp only
      rw [if_pos rfl]
      exact .closedRtc fd h0 h8 htable
    | terminal | unset =>
      dsimp only
      rw [if_neg (by simp)]
      exact .quiet _ _ fun _ _ _ => rfl
  | readFd fd bufNull nbytes =>
    unfold fdAct fsNext fsStep
    dsimp only
    by_cases hargs : bufNull = true ∨ fd < 0 ∨ fd > 7
    · rw [systemRead_refused img hargs, if_neg (by simp)]
      exact .quiet _ _ fun _ _ _ => rfl
    push Not at hargs
    obtain ⟨hbuf, h0, h7⟩ := hargs
    have hbuf' : bufNull = false := by simpa using hbuf
    rw [hbuf', systemRead_dispatch img (by omega) (by omega)]
    cases htable : (s.fdt s.mainProcess fd).fOps with
    | file =>
      dsimp only
      rw [if_neg (by simp)]
      -- a read that fails leaves no trace, and one that does not is the read that moves the
      -- position
      rcases fileRead_effect img h0 (by omega) nbytes s.entered with
        hsame | ⟨hn, hused, hne, hmoved⟩
      · rw [hsame]
        exact .quiet _ _ fun _ _ _ => rfl
      · rw [hmoved]
        exact .moved fd false nbytes _ h0 (by omega) htable hused hn hne rfl
    | dir =>
      dsimp only
      rcases dirRead_effect img fd nbytes s.entered with hsame | ⟨hused, hpos, hmoved⟩
      · rw [hsame, if_neg (by simp [FsState.entered])]
        exact .quiet _ _ fun _ _ _ => rfl
      · rw [hmoved]
        -- the entry that is read shows in the position, which is how it gets into the log
        have hnew : ((s.entered.modifyFd s.entered.currPcb fd fun d =>
            { d with filePos := i32 ((s.entered.fdt s.entered.currPcb fd).filePos + 1) }).fdt
              s.mainProcess fd).filePos ≠ (s.fdt s.mainProcess fd).filePos := by
          have hself := modifyFd_filePos s.entered s.mainProcess fd
            (i32 ((s.fdt s.mainProcess fd).filePos + 1))
          intro heq
          exact i32_succ_ne _ (hself.symm.trans heq)
        rw [if_pos ⟨rfl, hnew⟩]
        exact .advanced fd false nbytes h0 (by omega) htable hused hpos
    | rtc | terminal | unset =>
      dsimp only
      rw [if_neg (by simp)]
      exact .quiet _ _ fun _ _ _ => rfl
  | writeFd fd bufNull =>
    exact .quiet _ _ fun p i _ => congrFun (congrFun (systemWrite_fdt fd bufNull s) p) i

/-- An event leaves the descriptors of the processes that do not run. -/
theorem fsNext_other (img : Image) {s : FsState} {p : Int} (hp : p ≠ s.mainProcess) (e : FsEvent)
    (hcreate : e ≠ .create p) (i : Int) : (fsNext img s e).fdt p i = s.fdt p i := by
  have hloc : ∀ j, ¬ (p = s.mainProcess ∧ i = j) := fun j h => hp h.1
  cases e with
  | create q =>
    have hq : p ≠ q := by
      intro h
      exact hcreate (h ▸ rfl)
    exact if_neg fun h => hq h.1
  | schedule q => rfl
  | openFile filename =>
    have hends := systemOpen_ends img filename s
    change ((systemOpen img filename).run accessSem s).2.fdt p i = s.fdt p i
    generalize ((systemOpen img filename).run accessSem s).1 = ret at hends
    generalize ((systemOpen img filename).run accessSem s).2 = s' at hends
    cases hends with
    | refused htable => rfl
    | rtc fd h2 h8 htable hfree =>
      rw [modifyFd_of_ne _ (hloc _), modifyFd_of_ne _ (hloc _)]
      rfl
    | slipped table htable =>
      rw [modifyFd_of_ne _ (hloc (-1)), holding_fdt]
      rfl
    | opened table fd inode zeroPos h0 h8 htable hfree =>
      rw [modifyFd_of_ne _ (hloc _), modifyFd_of_ne _ (hloc _), holding_fdt]
      rfl
  | closeFd fd =>
    change ((systemClose fd).run accessSem s).2.fdt p i = s.fdt p i
    by_cases hfd : fd < 0 ∨ fd > 7
    · rw [systemClose_refused hfd]
    rw [systemClose_exact (by omega) (by omega)]
    cases (s.fdt s.mainProcess fd).fOps with
    | file =>
      dsimp only
      split
      · rfl
      · dsimp only
        exact modifyFd_of_ne s.entered (hloc fd)
    | dir =>
      dsimp only
      split
      · rfl
      · dsimp only
        exact modifyFd_of_ne s.entered (hloc fd)
    | rtc => rfl
    | terminal => rfl
    | unset => rfl
  | readFd fd bufNull nbytes =>
    change ((systemRead img fd bufNull nbytes).run accessSem s).2.fdt p i = s.fdt p i
    by_cases hargs : bufNull = true ∨ fd < 0 ∨ fd > 7
    · rw [systemRead_refused img hargs]
    push Not at hargs
    obtain ⟨hbuf, h0, h7⟩ := hargs
    have hbuf' : bufNull = false := by simpa using hbuf
    rw [hbuf', systemRead_dispatch img (by omega) (by omega)]
    cases (s.fdt s.mainProcess fd).fOps with
    | file =>
      rcases fileRead_effect img h0 (by omega) nbytes s.entered with hsame | ⟨-, -, -, hmoved⟩
      · dsimp only
        rw [hsame]
        rfl
      · dsimp only
        rw [hmoved]
        exact modifyFd_of_ne _ (hloc fd)
    | dir =>
      rcases dirRead_effect img fd nbytes s.entered with hsame | ⟨-, -, hmoved⟩
      · dsimp only
        rw [hsame]
        rfl
      · dsimp only
        rw [hmoved]
        exact modifyFd_of_ne _ (hloc fd)
    | rtc => rfl
    | terminal => rfl
    | unset => rfl
  | writeFd fd bufNull =>
    change ((systemWrite fd bufNull).run accessSem s).2.fdt p i = s.fdt p i
    rw [systemWrite_fdt]

/-! ## The table follows from the log -/

/-- How one descriptor follows from the log. -/
structure EntryOf (fd : Int) (d : Fdt) (log : FdLog) : Prop where
  /-- an occupied descriptor is one that an open has taken -/
  kind : d.flags ≠ 0 → d.fOps = .file ∨ d.fOps = .dir ∨ d.fOps = .rtc
  /-- unless a file is open there, the position counts the reads of the directory -/
  pos : ¬ (d.flags ≠ 0 ∧ d.fOps = .file) → d.filePos = log.dirReads fd
  fresh : d.flags ≠ 0 → d.fOps = .file → log.dirReads fd = 0
  file : ∀ n, log.fileAt fd = some n ↔ d.flags ≠ 0 ∧ d.fOps = .file ∧ d.inodeNum = n
  inode : d.inodeNum = log.lastInode fd

theorem dirReads_other {fd : Int} {act : FdAct} (h : act.fd ≠ fd) (log : FdLog) :
    FdLog.dirReads fd (act :: log) = log.dirReads fd := by
  cases act with
  | opened i table inode => exact if_neg fun hi => h hi.1
  | closed i => rfl
  | advanced i => exact if_neg h

theorem fileAt_other {fd : Int} {act : FdAct} (h : act.fd ≠ fd) (log : FdLog) :
    FdLog.fileAt fd (act :: log) = log.fileAt fd := by
  cases act with
  | opened i table inode => exact if_neg h
  | closed i => exact if_neg h
  | advanced i => rfl

theorem lastInode_other {fd : Int} {act : FdAct} (h : act.fd ≠ fd) (log : FdLog) :
    FdLog.lastInode fd (act :: log) = log.lastInode fd := by
  cases act with
  | opened i table inode => exact if_neg fun hi => h hi.1
  | closed i => rfl
  | advanced i => rfl

/-- An act on another descriptor. -/
theorem EntryOf.other {fd : Int} {d : Fdt} {log : FdLog} (hd : EntryOf fd d log) {act : FdAct}
    (h : act.fd ≠ fd) : EntryOf fd d (act :: log) where
  kind := hd.kind
  pos := by
    rw [dirReads_other h]
    exact hd.pos
  fresh := by
    rw [dirReads_other h]
    exact hd.fresh
  file := by
    rw [fileAt_other h]
    exact hd.file
  inode := by
    rw [lastInode_other h]
    exact hd.inode

theorem entryOf_created (fd : Int) (table : FOps) : EntryOf fd ⟨table, -1, 0, 0⟩ [] where
  kind h := absurd rfl h
  pos _ := rfl
  fresh h := absurd rfl h
  file n := by simp [FdLog.fileAt]
  inode := rfl

/-- The tables that an open stores. -/
theorem openTable_cases (img : Image) (filename : Option CStr) :
    openTable img filename = none ∨ openTable img filename = some .dir ∨
      openTable img filename = some .file := by
  unfold openTable
  split
  · exact .inr (.inl rfl)
  · exact .inr (.inr rfl)
  · exact .inl rfl

/-- A free descriptor is taken. -/
theorem EntryOf.opened {fd : Int} {d : Fdt} {log : FdLog} (hd : EntryOf fd d log)
    (hfree : d.flags = 0) (img : Image) (filename : Option CStr) :
    EntryOf fd (occupy img filename d)
      (.opened fd ((openTable img filename).getD .rtc) (openInode img filename) :: log) := by
  have hpos : d.filePos = log.dirReads fd := hd.pos fun h => h.1 hfree
  unfold occupy
  rcases openTable_cases img filename with htable | htable | htable
  · rw [htable]
    -- the rtc: position and inode number stay
    exact
      { kind := fun _ => .inr (.inr rfl)
        pos := fun _ => by simpa [FdLog.dirReads] using hpos
        fresh := fun _ h => by cases h
        file := fun n => by simp [FdLog.fileAt]
        inode := by simpa [FdLog.lastInode] using hd.inode }
  · rw [htable]
    -- the directory: the position stays
    exact
      { kind := fun _ => .inr (.inl rfl)
        pos := fun _ => by simpa [FdLog.dirReads, claim] using hpos
        fresh := fun _ h => by cases h
        file := fun n => by simp [FdLog.fileAt]
        inode := by simp [FdLog.lastInode, claim] }
  · rw [htable]
    -- a file: it starts at 0
    exact
      { kind := fun _ => .inl rfl
        pos := fun h => absurd ⟨by simp [claim], rfl⟩ h
        fresh := fun _ _ => by simp [FdLog.dirReads]
        file := fun n => by simp [FdLog.fileAt, claim]
        inode := by simp [FdLog.lastInode, claim] }

/-- A file is released. -/
theorem EntryOf.closedFile {fd : Int} {d : Fdt} {log : FdLog} (hd : EntryOf fd d log)
    (hused : d.flags ≠ 0) (htable : d.fOps = .file) :
    EntryOf fd { d with filePos := 0, flags := 0 } (.closed fd :: log) where
  kind h := absurd rfl h
  pos _ := by
    have hfresh := hd.fresh hused htable
    simp [FdLog.dirReads, hfresh]
  fresh h := absurd rfl h
  file n := by simp [FdLog.fileAt]
  inode := hd.inode

/-- The directory is released, at the position that it has. -/
theorem EntryOf.closedDir {fd : Int} {d : Fdt} {log : FdLog} (hd : EntryOf fd d log)
    (htable : d.fOps = .dir) : EntryOf fd { d with flags := 0 } (.closed fd :: log) where
  kind h := absurd rfl h
  pos _ := hd.pos fun h => by
    rw [htable] at h
    cases h.2
  fresh h := absurd rfl h
  file n := by simp [FdLog.fileAt]
  inode := hd.inode

/-- A close of the rtc changes nothing. -/
theorem EntryOf.closedRtc {fd : Int} {d : Fdt} {log : FdLog} (hd : EntryOf fd d log)
    (htable : d.fOps = .rtc) : EntryOf fd d (.closed fd :: log) where
  kind := hd.kind
  pos := hd.pos
  fresh := hd.fresh
  file n := by simp [FdLog.fileAt, htable]
  inode := hd.inode

/-- A file is read. -/
theorem EntryOf.moved {fd : Int} {d : Fdt} {log : FdLog} (hd : EntryOf fd d log)
    (hused : d.flags ≠ 0) (htable : d.fOps = .file) (pos : Int) :
    EntryOf fd { d with filePos := pos } log where
  kind := hd.kind
  pos h := absurd ⟨hused, htable⟩ h
  fresh := hd.fresh
  file := hd.file
  inode := hd.inode

/-- The directory is read. -/
theorem EntryOf.advanced {fd : Int} {d : Fdt} {log : FdLog} (hd : EntryOf fd d log)
    (htable : d.fOps = .dir) {count : Int} (hpos : d.filePos < count) (hcount : count < 2147483648) :
    EntryOf fd { d with filePos := i32 (d.filePos + 1) } (.advanced fd :: log) where
  kind := hd.kind
  pos _ := by
    have heq : d.filePos = log.dirReads fd := hd.pos fun h => by
      rw [htable] at h
      cases h.2
    have hfits : i32 (d.filePos + 1) = d.filePos + 1 := i32_of_fits (by omega) (by omega)
    rw [hfits, heq]
    simp [FdLog.dirReads]
  fresh _ h := by
    have : d.fOps = .file := h
    rw [htable] at this
    cases this
  file := hd.file
  inode := hd.inode

/-- The descriptors of a process. -/
structure FdsOf (p : Int) (s : FsState) (log : FdLog) : Prop where
  std : ∀ i, 0 ≤ i → i < 2 → (s.fdt p i).flags ≠ 0 ∧ (s.fdt p i).fOps = .terminal ∧
    (s.fdt p i).inodeNum = -1
  entry : ∀ i, 2 ≤ i → i < 8 → EntryOf i (s.fdt p i) log

theorem FdsOf.stdOpen {p : Int} {s : FsState} {log : FdLog} (h : FdsOf p s log) : StdOpen s p :=
  ⟨(h.std 0 (by omega) (by omega)).1, (h.std 1 (by omega) (by omega)).1⟩

/-- A table that calls and files stand in is not one of the terminal's. -/
theorem FdsOf.two_le {p : Int} {s : FsState} {log : FdLog} (h : FdsOf p s log) {fd : Int}
    (h0 : 0 ≤ fd) (hne : (s.fdt p fd).fOps ≠ .terminal) : 2 ≤ fd := by
  by_contra hlt
  exact hne (h.std fd h0 (by omega)).2.1

/-- The descriptors are the same. -/
theorem FdsOf.same {p : Int} {s s' : FsState} {log : FdLog} (h : FdsOf p s log)
    (hfdt : ∀ i, 0 ≤ i → s'.fdt p i = s.fdt p i) : FdsOf p s' log where
  std i h0 h2 := by
    rw [hfdt i h0]
    exact h.std i h0 h2
  entry i h2 h8 := by
    rw [hfdt i (by omega)]
    exact h.entry i h2 h8

/-- One descriptor changes, from 2 on. -/
theorem FdsOf.update {p : Int} {s s' : FsState} {log log' : FdLog} (h : FdsOf p s log) {fd : Int}
    (h2 : 2 ≤ fd) (hfdt : ∀ i, 0 ≤ i → i ≠ fd → s'.fdt p i = s.fdt p i)
    (hother : ∀ i, i ≠ fd → ∀ d, EntryOf i d log → EntryOf i d log')
    (hself : fd < 8 → EntryOf fd (s'.fdt p fd) log') : FdsOf p s' log' where
  std i h0 hlt := by
    rw [hfdt i h0 (by omega)]
    exact h.std i h0 hlt
  entry i h2 h8 := by
    by_cases hi : i = fd
    · rw [hi]
      exact hself (by omega)
    · rw [hfdt i (by omega) hi]
      exact hother i hi _ (h.entry i h2 h8)

/-! ## Runs -/

/-- **One event** of a process keeps what its log says. -/
theorem FdEffect.fdsOf {img : Image} {s s' : FsState} {e : FsEvent} {act : Option FdAct}
    (heffect : FdEffect img s e act s') {log : FdLog} (h : FdsOf s.mainProcess s log) :
    FdsOf s.mainProcess s' (act.toList ++ log) := by
  -- the descriptor that changes, and what it becomes
  have hupdate : ∀ {fd : Int} {f : Fdt → Fdt} {act : FdAct}, 2 ≤ fd → act.fd = fd →
      (EntryOf fd (s.fdt s.mainProcess fd) log → EntryOf fd (f (s.fdt s.mainProcess fd)) (act :: log)) →
      FdsOf s.mainProcess (s.entered.modifyFd s.mainProcess fd f) (act :: log) := by
    intro fd f act h2 hfd hentry
    apply h.update h2
    · intro i _ hi
      exact modifyFd_of_ne _ fun hloc => hi hloc.2
    · intro i hi d hd
      exact hd.other (by rw [hfd]; exact Ne.symm hi)
    · intro h8
      rw [modifyFd_same]
      exact hentry (h.entry fd h2 h8)
  cases heffect with
  | quiet e s' hfdt => exact h.same fun i h0 => hfdt _ i h0
  | opened filename fd hrefused hfree =>
    have hrange := firstFree_range hfree
    have hfree' : (s.fdt s.mainProcess fd).flags = 0 := firstFree_free hfree
    apply h.update hrange.1
    · intro i _ hi
      exact took_fdt_other s img filename fun hloc => hi hloc.2
    · intro i hi d hd
      exact hd.other (Ne.symm hi)
    · intro h8
      rw [took_fdt_self]
      exact (h.entry fd hrange.1 h8).opened hfree' img filename
  | closedFile fd h0 h8 htable hused =>
    have h2 : 2 ≤ fd := h.two_le h0 (by rw [htable]; decide)
    exact hupdate h2 rfl fun hd => hd.closedFile hused htable
  | closedDir fd h0 h8 htable hused =>
    have h2 : 2 ≤ fd := h.two_le h0 (by rw [htable]; decide)
    exact hupdate h2 rfl fun hd => hd.closedDir htable
  | closedRtc fd h0 h8 htable =>
    have h2 : 2 ≤ fd := h.two_le h0 (by rw [htable]; decide)
    apply h.update h2
    · intro i _ _
      rfl
    · intro i hi d hd
      exact hd.other (Ne.symm hi)
    · intro h8
      exact (h.entry fd h2 h8).closedRtc htable
  | moved fd bufNull nbytes ret h0 h8 htable hused hn hne hret =>
    have h2 : 2 ≤ fd := h.two_le h0 (by rw [htable]; decide)
    apply h.update h2
    · intro i _ hi
      exact modifyFd_of_ne _ fun hloc => hi hloc.2
    · intro i _ d hd
      exact hd
    · intro h8
      rw [modifyFd_same]
      exact (h.entry fd h2 h8).moved hused htable _
  | advanced fd bufNull nbytes h0 h8 htable hused hpos =>
    have h2 : 2 ≤ fd := h.two_le h0 (by rw [htable]; decide)
    exact hupdate h2 rfl fun hd => hd.advanced htable hpos (img.word_lt 0)

/-- Every process that has been created has the descriptors that its log says. -/
def LogsAgree (c : FsState × (Int → Option FdLog)) : Prop :=
  ∀ p log, c.2 p = some log → FdsOf p c.1 log

theorem fdsOf_created (p : Int) (s : FsState) : FdsOf p { createFds p s with mainProcess := p } [] where
  std i h0 h2 := by
    change ((createFds p s).fdt p i).flags ≠ 0 ∧ ((createFds p s).fdt p i).fOps = .terminal ∧
      ((createFds p s).fdt p i).inodeNum = -1
    rw [createFds_std s p h0 h2]
    exact ⟨by decide, rfl, rfl⟩
  entry i h2 h8 := by
    change EntryOf i ((createFds p s).fdt p i) []
    rw [createFds_free s p h2 h8]
    exact entryOf_created i _

/-- A created process that runs. -/
theorem LogsAgree.effect {c : FsState × (Int → Option FdLog)} (hc : LogsAgree c) (img : Image)
    {log : FdLog} (hlog : c.2 c.1.mainProcess = some log) {e : FsEvent}
    (hcreate : ∀ p, e ≠ .create p) : FdEffect img c.1 e (fdAct img c.1 e) (fsNext img c.1 e) :=
  fsStep_effect img (hc _ _ hlog).stdOpen e hcreate

/-- The logs after an event that creates no process. -/
theorem fdStep_logs {img : Image} {c : FsState × (Int → Option FdLog)} {e : FsEvent}
    (hcreate : ∀ p, e ≠ .create p) (p : Int) :
    (fdStep img c e).2 p = (c.2 p).map fun log =>
      if p = c.1.mainProcess then (fdAct img c.1 e).toList ++ log else log := by
  have hlogs : (fdStep img c e).2 = match fdAct img c.1 e with
      | none => c.2
      | some act =>
        Function.update c.2 c.1.mainProcess ((c.2 c.1.mainProcess).map (act :: ·)) := by
    cases e with
    | create q => exact (hcreate q rfl).elim
    | schedule q => rfl
    | openFile filename => rfl
    | closeFd fd => rfl
    | readFd fd bufNull nbytes => rfl
    | writeFd fd bufNull => rfl
  rw [hlogs]
  cases fdAct img c.1 e with
  | none => cases hlog : c.2 p <;> simp [hlog]
  | some act =>
    by_cases hp : p = c.1.mainProcess
    · subst hp
      simp
    · simp [hp]

/-- **The step rule**: what holds of the descriptors and the log of every created process goes on to
hold, if it holds of a new process, goes along with the descriptors, and is kept by what an event does
to the process that runs. -/
theorem fdStep_keeps (img : Image) {P : Int → FsState → FdLog → Prop}
    {c : FsState × (Int → Option FdLog)} {e : FsEvent}
    (hnew : ∀ p s, P p { createFds p s with mainProcess := p } [])
    (hframe : ∀ {p s s' log}, (∀ i, s'.fdt p i = s.fdt p i) → P p s log → P p s' log)
    (hrunning : ∀ log, (∀ q, e ≠ .create q) → c.2 c.1.mainProcess = some log →
      P c.1.mainProcess c.1 log →
        P c.1.mainProcess (fsNext img c.1 e) ((fdAct img c.1 e).toList ++ log))
    (h : ∀ p log, c.2 p = some log → P p c.1 log) :
    ∀ p log, (fdStep img c e).2 p = some log → P p (fdStep img c e).1 log := by
  intro p log hlog
  by_cases hcreate : ∃ q, e = .create q
  · obtain ⟨q, rfl⟩ := hcreate
    change Function.update c.2 q (some []) p = some log at hlog
    by_cases hp : p = q
    · subst hp
      rw [Function.update_self] at hlog
      rw [← Option.some.inj hlog]
      exact hnew p c.1
    · rw [Function.update_of_ne hp] at hlog
      exact hframe (fun i => if_neg fun hloc => hp hloc.1) (h p log hlog)
  · have hcreate' : ∀ q, e ≠ .create q := fun q he => hcreate ⟨q, he⟩
    rw [fdStep_logs hcreate'] at hlog
    -- the act goes to the log of the process that runs; the others keep log and descriptors
    obtain ⟨old, hold, rfl⟩ := Option.map_eq_some_iff.mp hlog
    by_cases hp : p = c.1.mainProcess
    · subst hp
      rw [if_pos rfl]
      exact hrunning old hcreate' hold (h _ old hold)
    · rw [if_neg hp]
      exact hframe (fsNext_other img hp e (hcreate' p)) (h p old hold)

theorem logsAgree_step (img : Image) {c : FsState × (Int → Option FdLog)} (hc : LogsAgree c)
    (e : FsEvent) : LogsAgree (fdStep img c e) := by
  apply fdStep_keeps img (P := fun p s log => FdsOf p s log)
  · exact fdsOf_created
  · intro p s s' log hfdt h
    exact h.same fun i _ => hfdt i
  · intro log hcreate hlog h
    exact (hc.effect img hlog hcreate).fdsOf h
  · exact hc

theorem logsAgree_noLogs (s : FsState) : LogsAgree (s, noLogs) := by
  intro p log hlog
  cases hlog

/-- **Every run**, from whatever the memory held. -/
theorem logsAgree_run (img : Image) (s : FsState) (es : List FsEvent) :
    LogsAgree (run (fdStep img) (s, noLogs) es) :=
  invariant_always (I := LogsAgree) (fun _ e hc => logsAgree_step img hc e) (logsAgree_noLogs s) es

end SrirachOS
