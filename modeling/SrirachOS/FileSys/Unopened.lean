import SrirachOS.FileSys.Open

/-!
# Unopened Descriptors

`system_read`, `system_write` and `system_close` jump through the operation table of a descriptor
without looking whether it is open; `create_pcb` closes the descriptors of a new process but leaves
their tables as they were. So what a call on a closed descriptor does depends on who set the table
last.

- `FdHistory`: which table a process's own opens have installed, and whether it has the descriptor
  open,
- `unopened_run`: in every run, the history says what the table and the flags are,
- `unopened_iff`: hence a closed descriptor rejects every call exactly when the process's own last
  open of it was of a file or a directory.
-/

namespace SrirachOS

open Foundation FsProg

/-! ## The calls -/

/-- `file_write` and `dir_write`. -/
def fileWrite : Int := -1

def dirWrite : Int := -1

/-- `system_write(fd, buf, nbytes)`. -/
def systemWrite (fd : Int) (bufNull : Bool) : FsProg Outcome :=
  if bufNull ∨ fd < 0 ∨ fd > 7 then pure (.returned ⟨-1, []⟩)
  else do
    let pcb ← mainProcess
    setFilesysPcb pcb
    match (← fdOf pcb fd).fOps with
    | .file => return .returned ⟨fileWrite, []⟩
    | .dir => return .returned ⟨dirWrite, []⟩
    | .unset => pure .wild
    | table => pure (.device table)

/-- What `create_pcb` stores in the descriptors of slot `p`. -/
def createFds (p : Int) (s : FsState) : FsState :=
  { s with fdt := fun q fd =>
      if q = p ∧ 0 ≤ fd ∧ fd < 8 then
        { fOps := if fd < 2 then .terminal else (s.fdt q fd).fOps
          inodeNum := -1
          filePos := 0
          flags := if fd < 2 then 1 else 0 }
      else s.fdt q fd }

theorem createFds_std (s : FsState) (p : Int) {fd : Int} (h0 : 0 ≤ fd) (h2 : fd < 2) :
    (createFds p s).fdt p fd = ⟨.terminal, -1, 0, 1⟩ := by
  unfold createFds
  dsimp only
  rw [if_pos ⟨rfl, h0, by omega⟩, if_pos h2, if_pos h2]

/-- The descriptors from 2 on are free, and keep their tables. -/
theorem createFds_free (s : FsState) (p : Int) {fd : Int} (h2 : 2 ≤ fd) (h8 : fd < 8) :
    (createFds p s).fdt p fd = ⟨(s.fdt p fd).fOps, -1, 0, 0⟩ := by
  have hnot : ¬ fd < 2 := by omega
  unfold createFds
  dsimp only
  rw [if_pos ⟨rfl, by omega, h8⟩, if_neg hnot, if_neg hnot]

/-! ## The machine -/

/-- What the processes have done with their descriptors since they were created. -/
structure FdHistory where
  /-- the table that the process's last open of a descriptor has installed -/
  installed : Int → Int → Option FOps
  isOpen : Int → Int → Bool

/-- Nobody has opened anything. -/
def FdHistory.none : FdHistory := ⟨fun _ _ => Option.none, fun _ _ => false⟩

/-- A new process in slot `p`. -/
def FdHistory.created (p : Int) (h : FdHistory) : FdHistory where
  installed q fd := if q = p then Option.none else h.installed q fd
  isOpen q fd := if q = p then false else h.isOpen q fd

/-- Process `p` has opened `fd`. -/
def FdHistory.opened (p fd : Int) (table : FOps) (h : FdHistory) : FdHistory where
  installed q i := if q = p ∧ i = fd then some table else h.installed q i
  isOpen q i := if q = p ∧ i = fd then true else h.isOpen q i

/-- Process `p` has closed `fd`. -/
def FdHistory.closed (p fd : Int) (h : FdHistory) : FdHistory where
  installed := h.installed
  isOpen q i := if q = p ∧ i = fd then false else h.isOpen q i

/-- An event of a run; the calls are made by the running process. -/
inductive FsEvent where
  /-- a process is created in a slot and runs -/
  | create (p : Int)
  /-- another process runs -/
  | schedule (p : Int)
  | openFile (filename : Option CStr)
  | closeFd (fd : Int)
  | readFd (fd : Int) (bufNull : Bool) (nbytes : Int)
  | writeFd (fd : Int) (bufNull : Bool)

/-- One event. -/
def fsStep (img : Image) (c : FsState × FdHistory) : FsEvent → FsState × FdHistory
  | .create p => ({ createFds p c.1 with mainProcess := p }, c.2.created p)
  | .schedule p => ({ c.1 with mainProcess := p }, c.2)
  | .openFile filename =>
    let result := (systemOpen img filename).run accessSem c.1
    (result.2,
      if result.1 = -1 then c.2
      else c.2.opened c.1.mainProcess result.1 ((openTable img filename).getD .rtc))
  | .closeFd fd =>
    let result := (systemClose fd).run accessSem c.1
    (result.2,
      if result.1 = .returned ⟨0, []⟩ then c.2.closed c.1.mainProcess fd else c.2)
  | .readFd fd bufNull nbytes => (((systemRead img fd bufNull nbytes).run accessSem c.1).2, c.2)
  | .writeFd fd bufNull => (((systemWrite fd bufNull).run accessSem c.1).2, c.2)

/-! ## What a call can change -/

/-- The tables and flags of all descriptors are the same. -/
def SameFds (s s' : FsState) : Prop :=
  ∀ p fd, (s'.fdt p fd).fOps = (s.fdt p fd).fOps ∧ (s'.fdt p fd).flags = (s.fdt p fd).flags

theorem sameFds_refl (s : FsState) : SameFds s s := fun _ _ => ⟨rfl, rfl⟩

theorem sameFds_setFilePos (s : FsState) (pcb fd v : Int) :
    SameFds s (s.modifyFd pcb fd fun d => { d with filePos := v }) := by
  intro p i
  simp only [FsState.modifyFd]
  split <;> exact ⟨rfl, rfl⟩

theorem fileRead_sameFds (img : Image) (fd nbytes : Int) (s : FsState) :
    SameFds s ((fileRead img fd nbytes).run accessSem s).2 := by
  unfold fileRead
  rw [run_currFd]
  split
  · exact sameFds_refl s
  split
  · exact sameFds_refl s
  rw [run_bitmapOpen]
  split
  · exact sameFds_refl s
  rw [run_currFd]
  dsimp only
  rw [run_currFd]
  split
  · exact sameFds_refl s
  · rw [run_currPcb, run_fdOf, run_setFilePos]
    exact sameFds_setFilePos _ _ _ _

theorem dirRead_sameFds (img : Image) (fd nbytes : Int) (s : FsState) :
    SameFds s ((dirRead img fd nbytes).run accessSem s).2 := by
  unfold dirRead
  rw [run_currFd]
  split
  · exact sameFds_refl s
  rw [run_bitmapOpen]
  split
  · exact sameFds_refl s
  dsimp only
  rw [run_currFd]
  split
  · rw [run_currPcb, run_fdOf, run_setFilePos]
    exact sameFds_setFilePos _ _ _ _
  · exact sameFds_refl s

theorem systemRead_sameFds (img : Image) (fd : Int) (bufNull : Bool) (nbytes : Int) (s : FsState) :
    SameFds s ((systemRead img fd bufNull nbytes).run accessSem s).2 := by
  unfold systemRead
  split
  · exact sameFds_refl s
  rw [run_mainProcess, setFilesysPcb, run_setCurrPcb, run_fdOf]
  split
  · rw [Prog.run_bind]
    exact fileRead_sameFds img fd nbytes _
  · rw [Prog.run_bind]
    exact dirRead_sameFds img fd nbytes _
  · exact sameFds_refl s
  · exact sameFds_refl s

theorem systemWrite_sameFds (fd : Int) (bufNull : Bool) (s : FsState) :
    SameFds s ((systemWrite fd bufNull).run accessSem s).2 := by
  unfold systemWrite
  split
  · exact sameFds_refl s
  rw [run_mainProcess, setFilesysPcb, run_setCurrPcb, run_fdOf]
  split <;> exact sameFds_refl s

/-- `file_close` and `dir_close` fail on a closed descriptor and clear the flags of an open one. -/
theorem fileClose_cases {fd : Int} (h0 : 0 ≤ fd) (h8 : fd < 8) (s : FsState) :
    (fileClose fd).run accessSem s =
      if (s.fdt s.currPcb fd).flags = 0 then (-1, s)
      else (0, s.modifyFd s.currPcb fd fun d => { d with filePos := 0, flags := 0 }) := by
  unfold fileClose
  rw [if_neg (by omega), run_bitmapOpen]
  by_cases hclosed : (s.fdt s.currPcb fd).flags = 0
  · rw [decide_eq_true hclosed, if_pos rfl, if_pos hclosed]
    rfl
  · rw [decide_eq_false hclosed, if_neg Bool.false_ne_true, if_neg hclosed, run_currPcb,
      run_setFilePos, freeBitmap, run_storeBitmap _ 0 h0 h8, modifyFd_currPcb, modifyFd_modifyFd]
    rfl

theorem dirClose_cases {fd : Int} (h0 : 0 ≤ fd) (h8 : fd < 8) (s : FsState) :
    (dirClose fd).run accessSem s =
      if (s.fdt s.currPcb fd).flags = 0 then (-1, s)
      else (0, s.modifyFd s.currPcb fd fun d => { d with flags := 0 }) := by
  unfold dirClose
  rw [if_neg (by omega), run_bitmapOpen]
  by_cases hclosed : (s.fdt s.currPcb fd).flags = 0
  · rw [decide_eq_true hclosed, if_pos rfl, if_pos hclosed]
    rfl
  · rw [decide_eq_false hclosed, if_neg Bool.false_ne_true, if_neg hclosed, freeBitmap,
      run_storeBitmap _ 0 h0 h8]
    rfl

/-- A close that the file layer carries out. -/
theorem closeLayer_cases {fd : Int} {s : FsState} {layer : FsProg Int} {f : Fdt → Fdt}
    (hf : ∀ d, (f d).fOps = d.fOps ∧ (f d).flags = 0)
    (hlayer : layer.run accessSem s.entered =
      if (s.entered.fdt s.entered.currPcb fd).flags = 0 then (-1, s.entered)
      else (0, s.entered.modifyFd s.entered.currPcb fd f)) :
    let result := (layer >>= fun ret => pure (.returned ⟨ret, []⟩ : Outcome)).run accessSem s.entered
    (SameFds s result.2 ∧ (result.1 = .returned ⟨0, []⟩ → (s.fdt s.mainProcess fd).fOps = .rtc)) ∨
    (result.1 = .returned ⟨0, []⟩ ∧
      ∃ f : Fdt → Fdt, (∀ d, (f d).fOps = d.fOps ∧ (f d).flags = 0) ∧
        result.2 = s.entered.modifyFd s.mainProcess fd f) := by
  intro result
  have hresult : result = (layer >>= fun ret => pure (.returned ⟨ret, []⟩ : Outcome)).run accessSem
    s.entered := rfl
  rw [Prog.run_bind, hlayer] at hresult
  split at hresult
  · rw [hresult]
    exact .inl ⟨sameFds_refl s, fun hret => by cases hret⟩
  · rw [hresult]
    exact .inr ⟨rfl, f, hf, rfl⟩

/-- What a close does to the tables and the flags: nothing, or it clears the flags of the
descriptor. It returns 0 without clearing them for an rtc. -/
theorem systemClose_cases (fd : Int) (s : FsState) :
    (SameFds s ((systemClose fd).run accessSem s).2 ∧
      (((systemClose fd).run accessSem s).1 = .returned ⟨0, []⟩ →
        (s.fdt s.mainProcess fd).fOps = .rtc)) ∨
    (((systemClose fd).run accessSem s).1 = .returned ⟨0, []⟩ ∧
      ∃ f : Fdt → Fdt, (∀ d, (f d).fOps = d.fOps ∧ (f d).flags = 0) ∧
        ((systemClose fd).run accessSem s).2 = s.entered.modifyFd s.mainProcess fd f) := by
  unfold systemClose
  by_cases hfd : fd < 0 ∨ fd > 7
  · rw [if_pos hfd]
    exact .inl ⟨sameFds_refl s, fun hret => by cases hret⟩
  rw [if_neg hfd, run_mainProcess, setFilesysPcb, run_setCurrPcb, run_fdOf]
  have h0 : 0 ≤ fd := by omega
  have h8 : fd < 8 := by omega
  -- an rtc closes with 0 and keeps its flags, the terminal fails, and an unset table goes astray
  split
  · exact closeLayer_cases (f := fun d => { d with filePos := 0, flags := 0 })
      (fun _ => ⟨rfl, rfl⟩) (fileClose_cases h0 h8 s.entered)
  · exact closeLayer_cases (f := fun d => { d with flags := 0 }) (fun _ => ⟨rfl, rfl⟩)
      (dirClose_cases h0 h8 s.entered)
  · rename_i htable
    exact .inl ⟨sameFds_refl s, fun _ => htable⟩
  · exact .inl ⟨sameFds_refl s, fun hret => by cases hret⟩
  · exact .inl ⟨sameFds_refl s, fun hret => by cases hret⟩

/-! ## The invariant -/

/-- The history says what the table of a descriptor is, and that a closed one has its flags
clear. -/
structure FdAgrees (p fd : Int) (s : FsState) (h : FdHistory) : Prop where
  table : ∀ t, h.installed p fd = some t → (s.fdt p fd).fOps = t
  flags : h.isOpen p fd = false → h.installed p fd = some .file ∨ h.installed p fd = some .dir →
    (s.fdt p fd).flags = 0

/-- The history is right about all descriptors that an open can return. -/
def HistoryAgrees (c : FsState × FdHistory) : Prop :=
  ∀ p fd, 0 ≤ fd → fd < 8 → FdAgrees p fd c.1 c.2

theorem HistoryAgrees.sameFds {s s' : FsState} {h : FdHistory} (hc : HistoryAgrees (s, h))
    (hsame : SameFds s s') : HistoryAgrees (s', h) := by
  intro p fd h0 h8
  obtain ⟨htable, hflags⟩ := hc p fd h0 h8
  obtain ⟨hops, hfl⟩ := hsame p fd
  exact
    { table := fun t ht => hops.trans (htable t ht)
      flags := fun hopen hown => hfl.trans (hflags hopen hown) }

/-- A descriptor that a process has just opened. -/
theorem HistoryAgrees.opened {s s' : FsState} {h : FdHistory} (hc : HistoryAgrees (s, h))
    {fd : Int} {table : FOps} (hnew : (s'.fdt s.mainProcess fd).fOps = table)
    (hother : ∀ p i, ¬ (p = s.mainProcess ∧ i = fd) → 0 ≤ i → s'.fdt p i = s.fdt p i) :
    HistoryAgrees (s', h.opened s.mainProcess fd table) := by
  intro p i h0 h8
  -- the descriptor that was opened has a new table and no promise about its flags
  by_cases hloc : p = s.mainProcess ∧ i = fd
  · obtain ⟨rfl, rfl⟩ := hloc
    exact
      { table := fun t ht => by
          simp only [FdHistory.opened, and_self, if_true, Option.some.injEq] at ht
          rw [hnew, ht]
        flags := fun hopen => by simp [FdHistory.opened] at hopen }
  · obtain ⟨htable, hflags⟩ := hc p i h0 h8
    have hinstalled : (h.opened s.mainProcess fd table).installed p i = h.installed p i :=
      if_neg hloc
    have hisOpen : (h.opened s.mainProcess fd table).isOpen p i = h.isOpen p i := if_neg hloc
    constructor
    · intro t ht
      rw [hother p i hloc h0]
      exact htable t (hinstalled ▸ ht)
    · intro hopen hown
      rw [hother p i hloc h0]
      rw [hinstalled] at hown
      exact hflags (hisOpen ▸ hopen) hown

/-- A descriptor that a process has just closed. -/
theorem HistoryAgrees.closed (img : Image) {s : FsState} {h : FdHistory}
    (hc : HistoryAgrees (s, h)) (fd : Int) : HistoryAgrees (fsStep img (s, h) (.closeFd fd)) := by
  unfold fsStep
  dsimp only
  -- the close changes nothing, or clears the flags of the one descriptor
  rcases systemClose_cases fd s with ⟨hsame, hrtc⟩ | ⟨hret, f, hf, heq⟩
  · split
    · rename_i hret
      have hrtc := hrtc hret
      have hc' := hc.sameFds hsame
      intro p i h0 h8
      obtain ⟨htable, hflags⟩ := hc' p i h0 h8
      refine { table := htable, flags := ?_ }
      intro hopen hown
      by_cases hloc : p = s.mainProcess ∧ i = fd
      · -- what is installed there is the rtc
        obtain ⟨rfl, rfl⟩ := hloc
        have hrtc' := (hsame s.mainProcess i).1.trans hrtc
        rcases hown with hown | hown
        · have := (htable .file hown).symm.trans hrtc'
          cases this
        · have := (htable .dir hown).symm.trans hrtc'
          cases this
      · have hisOpen : (h.closed s.mainProcess fd).isOpen p i = h.isOpen p i := if_neg hloc
        exact hflags (hisOpen ▸ hopen) hown
    · exact hc.sameFds hsame
  · rw [if_pos hret, heq]
    intro p i h0 h8
    obtain ⟨htable, hflags⟩ := hc p i h0 h8
    by_cases hloc : p = s.mainProcess ∧ i = fd
    · obtain ⟨rfl, rfl⟩ := hloc
      have hfd : (s.entered.modifyFd s.mainProcess i f).fdt s.mainProcess i =
          f (s.fdt s.mainProcess i) := modifyFd_same _ _ _ _
      exact
        { table := fun t ht => by
            rw [hfd, (hf _).1]
            exact htable t ht
          flags := fun _ _ => by
            rw [hfd, (hf _).2] }
    · have hfd : (s.entered.modifyFd s.mainProcess fd f).fdt p i = s.fdt p i :=
        modifyFd_of_ne _ hloc
      have hisOpen : (h.closed s.mainProcess fd).isOpen p i = h.isOpen p i := if_neg hloc
      exact
        { table := fun t ht => by
            rw [hfd]
            exact htable t ht
          flags := fun hopen hown => by
            rw [hfd]
            exact hflags (hisOpen ▸ hopen) hown }

/-- **Every event** keeps the history right. -/
theorem historyAgrees_step (img : Image) {c : FsState × FdHistory} (hc : HistoryAgrees c)
    (e : FsEvent) : HistoryAgrees (fsStep img c e) := by
  obtain ⟨s, h⟩ := c
  cases e with
  | create q =>
    intro p fd h0 h8
    by_cases hp : p = q
    · exact
        { table := fun t ht => by simp [fsStep, FdHistory.created, hp] at ht
          flags := fun _ hown => by simp [fsStep, FdHistory.created, hp] at hown }
    · -- neither the table nor the history of another process changes
      have hfdt : (fsStep img (s, h) (.create q)).1.fdt p fd = s.fdt p fd := by
        simp [fsStep, createFds, hp]
      have hinstalled : (fsStep img (s, h) (.create q)).2.installed p fd = h.installed p fd := by
        simp [fsStep, FdHistory.created, hp]
      have hisOpen : (fsStep img (s, h) (.create q)).2.isOpen p fd = h.isOpen p fd := by
        simp [fsStep, FdHistory.created, hp]
      obtain ⟨htable, hflags⟩ := hc p fd h0 h8
      constructor
      · intro t ht
        rw [hfdt]
        exact htable t (hinstalled ▸ ht)
      · intro hopen hown
        rw [hfdt]
        rw [hinstalled] at hown
        exact hflags (hisOpen ▸ hopen) hown
  | schedule p => exact hc.sameFds (sameFds_refl s)
  | openFile filename =>
    have hends := systemOpen_ends img filename s
    unfold fsStep
    dsimp only
    generalize ((systemOpen img filename).run accessSem s).1 = ret at hends
    generalize ((systemOpen img filename).run accessSem s).2 = s' at hends
    cases hends with
    | refused htable => exact hc.sameFds (sameFds_refl s)
    | rtc fd h2 h8 htable hfree =>
      rw [if_neg (by omega), htable]
      apply hc.opened
      · simp
      · intro p i hloc _
        rw [modifyFd_of_ne _ hloc, modifyFd_of_ne _ hloc]
        rfl
    | slipped table htable =>
      rw [if_pos rfl]
      intro p i h0 h8
      obtain ⟨hops, hflags⟩ := hc p i h0 h8
      -- the store went in front of the table
      have hfdt : ((s.entered.holding (openEntry img filename)).modifyFd s.mainProcess (-1)
          fun d => { d with fOps := table }).fdt p i = s.fdt p i := by
        rw [modifyFd_of_ne _ (by omega), holding_fdt]
        rfl
      exact
        { table := fun t ht => by
            rw [hfdt]
            exact hops t ht
          flags := fun hopen hown => by
            rw [hfdt]
            exact hflags hopen hown }
    | opened table fd inode zeroPos h0 h8 htable hfree =>
      rw [if_neg (by omega), htable]
      apply hc.opened
      · simp
      · intro p i hloc _
        rw [modifyFd_of_ne _ hloc, modifyFd_of_ne _ hloc, holding_fdt]
        rfl
  | closeFd fd => exact hc.closed img fd
  | readFd fd bufNull nbytes => exact hc.sameFds (systemRead_sameFds img fd bufNull nbytes s)
  | writeFd fd bufNull => exact hc.sameFds (systemWrite_sameFds fd bufNull s)

theorem historyAgrees_none (s : FsState) : HistoryAgrees (s, FdHistory.none) := by
  intro p fd _ _
  exact
    { table := fun t ht => by cases ht
      flags := fun _ hown => by rcases hown with hown | hown <;> cases hown }

/-- **Every run**, from whatever the memory held, keeps the history right. -/
theorem unopened_run (img : Image) (s : FsState) (es : List FsEvent) :
    HistoryAgrees (run (fsStep img) (s, FdHistory.none) es) :=
  invariant_always (I := HistoryAgrees) (fun _ e hc => historyAgrees_step img hc e)
    (historyAgrees_none s) es

/-! ## Calls on a closed descriptor -/

/-- The calls on `fd` that the running process can make. -/
def CallsEnd (img : Image) (s : FsState) (fd : Int) (P : Outcome × FsState → Prop) : Prop :=
  (∀ bufNull nbytes, P ((systemRead img fd bufNull nbytes).run accessSem s)) ∧
  (∀ bufNull, P ((systemWrite fd bufNull).run accessSem s)) ∧
  P ((systemClose fd).run accessSem s)

/-- The table that a call on `fd` dispatches through is one that an open of the running process has
installed. -/
def DispatchOwn (c : FsState × FdHistory) (fd : Int) : Prop :=
  c.2.installed c.1.mainProcess fd = some (c.1.fdt c.1.mainProcess fd).fOps

/-- Every call on `fd` returns -1 and changes nothing but `curr_pcb`, which each call points to its
caller, and the dispatch is through a table of the process's own. -/
def Rejected (img : Image) (c : FsState × FdHistory) (fd : Int) : Prop :=
  CallsEnd img c.1 fd (fun r => r.1 = .returned ⟨-1, []⟩ ∧ (r.2 = c.1 ∨ r.2 = c.1.entered)) ∧
    DispatchOwn c fd

/-- The same with nothing changed at all. -/
def RejectedStrictly (img : Image) (c : FsState × FdHistory) (fd : Int) : Prop :=
  CallsEnd img c.1 fd (fun r => r.1 = .returned ⟨-1, []⟩ ∧ r.2 = c.1) ∧ DispatchOwn c fd

/-- The running process has installed a file or a directory at `fd`. -/
def OwnFile (c : FsState × FdHistory) (fd : Int) : Prop :=
  c.2.installed c.1.mainProcess fd = some .file ∨ c.2.installed c.1.mainProcess fd = some .dir

theorem fileRead_closed (img : Image) {fd : Int} (nbytes : Int) {s : FsState}
    (hclosed : (s.fdt s.currPcb fd).flags = 0) :
    (fileRead img fd nbytes).run accessSem s = (⟨-1, []⟩, s) := by
  unfold fileRead
  rw [run_currFd]
  split
  · rfl
  split
  · rfl
  rw [run_bitmapOpen, decide_eq_true hclosed, if_pos rfl]
  rfl

theorem dirRead_closed (img : Image) {fd : Int} (nbytes : Int) {s : FsState}
    (hclosed : (s.fdt s.currPcb fd).flags = 0) :
    (dirRead img fd nbytes).run accessSem s = (⟨-1, []⟩, s) := by
  unfold dirRead
  rw [run_currFd]
  split
  · rfl
  rw [run_bitmapOpen, decide_eq_true hclosed, if_pos rfl]
  rfl

/-! The three calls turn down arguments that are out of range. -/

theorem systemRead_refused (img : Image) {fd : Int} {bufNull : Bool}
    (h : bufNull = true ∨ fd < 0 ∨ fd > 7) (nbytes : Int) (s : FsState) :
    (systemRead img fd bufNull nbytes).run accessSem s = (.returned ⟨-1, []⟩, s) := by
  rw [systemRead, if_pos h]
  rfl

theorem systemWrite_refused {fd : Int} {bufNull : Bool} (h : bufNull = true ∨ fd < 0 ∨ fd > 7)
    (s : FsState) : (systemWrite fd bufNull).run accessSem s = (.returned ⟨-1, []⟩, s) := by
  rw [systemWrite, if_pos h]
  rfl

theorem systemClose_refused {fd : Int} (h : fd < 0 ∨ fd > 7) (s : FsState) :
    (systemClose fd).run accessSem s = (.returned ⟨-1, []⟩, s) := by
  rw [systemClose, if_pos h]
  rfl

/-! The dispatch of the three calls, by the table that they find. -/

theorem systemRead_dispatch (img : Image) {fd : Int} (h0 : 0 ≤ fd) (h8 : fd < 8) (nbytes : Int)
    (s : FsState) :
    (systemRead img fd false nbytes).run accessSem s =
      match (s.fdt s.mainProcess fd).fOps with
      | .file => (.returned ((fileRead img fd nbytes).run accessSem s.entered).1,
          ((fileRead img fd nbytes).run accessSem s.entered).2)
      | .dir => (.returned ((dirRead img fd nbytes).run accessSem s.entered).1,
          ((dirRead img fd nbytes).run accessSem s.entered).2)
      | .unset => (.wild, s.entered)
      | table => (.device table, s.entered) := by
  have hargs : ¬ (false = true ∨ fd < 0 ∨ fd > 7) := by
    rintro (h | h | h)
    · cases h
    · omega
    · omega
  unfold systemRead
  rw [if_neg hargs, run_mainProcess, setFilesysPcb, run_setCurrPcb, run_fdOf]
  dsimp only
  cases (s.fdt s.mainProcess fd).fOps with
  | file => exact Prog.run_bind ..
  | dir => exact Prog.run_bind ..
  | unset => rfl
  | rtc => rfl
  | terminal => rfl

theorem systemWrite_dispatch {fd : Int} (h0 : 0 ≤ fd) (h8 : fd < 8) (s : FsState) :
    (systemWrite fd false).run accessSem s =
      (match (s.fdt s.mainProcess fd).fOps with
        | .file => .returned ⟨-1, []⟩
        | .dir => .returned ⟨-1, []⟩
        | .unset => .wild
        | table => .device table, s.entered) := by
  have hargs : ¬ (false = true ∨ fd < 0 ∨ fd > 7) := by
    rintro (h | h | h)
    · cases h
    · omega
    · omega
  unfold systemWrite
  rw [if_neg hargs, run_mainProcess, setFilesysPcb, run_setCurrPcb, run_fdOf]
  dsimp only
  cases (s.fdt s.mainProcess fd).fOps <;> rfl

/-- A write changes no descriptor. -/
theorem systemWrite_fdt (fd : Int) (bufNull : Bool) (s : FsState) :
    ((systemWrite fd bufNull).run accessSem s).2.fdt = s.fdt := by
  by_cases hargs : bufNull = true ∨ fd < 0 ∨ fd > 7
  · rw [systemWrite_refused hargs]
  · push Not at hargs
    obtain ⟨hbuf, h0, h7⟩ := hargs
    have hbuf' : bufNull = false := by simpa using hbuf
    rw [hbuf', systemWrite_dispatch (by omega) (by omega)]
    rfl

theorem systemClose_dispatch {fd : Int} (h0 : 0 ≤ fd) (h8 : fd < 8) (s : FsState) :
    (systemClose fd).run accessSem s =
      match (s.fdt s.mainProcess fd).fOps with
      | .file => (.returned ⟨((fileClose fd).run accessSem s.entered).1, []⟩,
          ((fileClose fd).run accessSem s.entered).2)
      | .dir => (.returned ⟨((dirClose fd).run accessSem s.entered).1, []⟩,
          ((dirClose fd).run accessSem s.entered).2)
      | .rtc => (.returned ⟨0, []⟩, s.entered)
      | .terminal => (.returned ⟨-1, []⟩, s.entered)
      | .unset => (.wild, s.entered) := by
  unfold systemClose
  rw [if_neg (by omega), run_mainProcess, setFilesysPcb, run_setCurrPcb, run_fdOf]
  dsimp only
  cases (s.fdt s.mainProcess fd).fOps with
  | file => exact Prog.run_bind ..
  | dir => exact Prog.run_bind ..
  | rtc => rfl
  | terminal => rfl
  | unset => rfl

/-- A descriptor of a file or a directory whose flags are clear rejects every call. -/
theorem callsEnd_closed (img : Image) {s : FsState} {fd : Int} (h0 : 0 ≤ fd) (h8 : fd < 8)
    (hops : (s.fdt s.mainProcess fd).fOps = .file ∨ (s.fdt s.mainProcess fd).fOps = .dir)
    (hclosed : (s.fdt s.mainProcess fd).flags = 0) :
    CallsEnd img s fd fun r => r.1 = .returned ⟨-1, []⟩ ∧ (r.2 = s ∨ r.2 = s.entered) := by
  have hclosed' : (s.entered.fdt s.entered.currPcb fd).flags = 0 := hclosed
  -- read and close test the flags, and neither layer writes
  refine ⟨?_, ?_, ?_⟩
  · intro bufNull nbytes
    cases bufNull with
    | true => exact ⟨rfl, .inl rfl⟩
    | false =>
      rw [systemRead_dispatch img h0 h8]
      rcases hops with htable | htable
      · rw [htable]
        dsimp only
        rw [fileRead_closed img nbytes hclosed']
        exact ⟨rfl, .inr rfl⟩
      · rw [htable]
        dsimp only
        rw [dirRead_closed img nbytes hclosed']
        exact ⟨rfl, .inr rfl⟩
  · intro bufNull
    cases bufNull with
    | true => exact ⟨rfl, .inl rfl⟩
    | false =>
      rw [systemWrite_dispatch h0 h8]
      rcases hops with htable | htable
      · rw [htable]
        exact ⟨rfl, .inr rfl⟩
      · rw [htable]
        exact ⟨rfl, .inr rfl⟩
  · rw [systemClose_dispatch h0 h8]
    rcases hops with htable | htable
    · rw [htable]
      dsimp only
      rw [fileClose_cases h0 h8, if_pos hclosed']
      exact ⟨rfl, .inr rfl⟩
    · rw [htable]
      dsimp only
      rw [dirClose_cases h0 h8, if_pos hclosed']
      exact ⟨rfl, .inr rfl⟩

/-- If every call returns -1, the table is of a file or a directory. -/
theorem file_of_callsEnd {img : Image} {s : FsState} {fd : Int} (h0 : 0 ≤ fd) (h8 : fd < 8)
    (h : CallsEnd img s fd fun r => r.1 = .returned ⟨-1, []⟩) :
    (s.fdt s.mainProcess fd).fOps = .file ∨ (s.fdt s.mainProcess fd).fOps = .dir := by
  have hwrite := h.2.1 false
  rw [systemWrite_dispatch h0 h8] at hwrite
  cases htable : (s.fdt s.mainProcess fd).fOps with
  | file => exact .inl rfl
  | dir => exact .inr rfl
  | unset =>
    rw [htable] at hwrite
    cases hwrite
  | rtc =>
    rw [htable] at hwrite
    cases hwrite
  | terminal =>
    rw [htable] at hwrite
    cases hwrite

theorem CallsEnd.mono {img : Image} {s : FsState} {fd : Int} {P Q : Outcome × FsState → Prop}
    (h : CallsEnd img s fd P) (hPQ : ∀ r, P r → Q r) : CallsEnd img s fd Q :=
  ⟨fun bufNull nbytes => hPQ _ (h.1 bufNull nbytes), fun bufNull => hPQ _ (h.2.1 bufNull),
    hPQ _ h.2.2⟩

/-- **A closed descriptor**, after any run from any memory: all calls on it are rejected exactly when
the process's own last open of it was of a file or a directory; and they leave even `curr_pcb` as it
was exactly when that already names the caller. -/
theorem unopened_iff (img : Image) (s : FsState) (es : List FsEvent) (fd : Int) (h2 : 2 ≤ fd)
    (h7 : fd ≤ 7)
    (hclosed : (run (fsStep img) (s, FdHistory.none) es).2.isOpen
      (run (fsStep img) (s, FdHistory.none) es).1.mainProcess fd = false) :
    let c := run (fsStep img) (s, FdHistory.none) es
    (Rejected img c fd ↔ OwnFile c fd) ∧
      (RejectedStrictly img c fd ↔ OwnFile c fd ∧ c.1.currPcb = c.1.mainProcess) := by
  intro c
  obtain ⟨htable, hflags⟩ := unopened_run img s es c.1.mainProcess fd (by omega) (by omega)
  have hflags := hflags hclosed
  have h0 : 0 ≤ fd := by omega
  have h8 : fd < 8 := by omega
  -- a table that rejects every call and that the process has installed
  have hown : CallsEnd img c.1 fd (fun r => r.1 = .returned ⟨-1, []⟩) → DispatchOwn c fd →
      OwnFile c fd := by
    intro hcalls hdispatch
    unfold OwnFile
    unfold DispatchOwn at hdispatch
    rw [hdispatch]
    rcases file_of_callsEnd h0 h8 hcalls with hfile | hdir
    · rw [hfile]
      exact .inl rfl
    · rw [hdir]
      exact .inr rfl
  have hrejected : OwnFile c fd → Rejected img c fd := by
    intro hfile
    have hops : (c.1.fdt c.1.mainProcess fd).fOps = .file ∨
        (c.1.fdt c.1.mainProcess fd).fOps = .dir := hfile.imp (htable _) (htable _)
    refine ⟨callsEnd_closed img h0 h8 hops (hflags hfile), ?_⟩
    rcases hfile with hfile | hdir
    · exact hfile.trans (congrArg some (htable _ hfile).symm)
    · exact hdir.trans (congrArg some (htable _ hdir).symm)
  refine ⟨⟨fun h => hown (h.1.mono fun _ hr => hr.1) h.2, hrejected⟩, ?_, ?_⟩
  · rintro ⟨hcalls, hdispatch⟩
    refine ⟨hown (hcalls.mono fun _ hr => hr.1) hdispatch, ?_⟩
    -- a write leaves `curr_pcb` at the caller
    have hwrite := (hcalls.2.1 false).2
    rw [systemWrite_dispatch h0 h8] at hwrite
    exact entered_eq_self.mp hwrite
  · rintro ⟨hfile, hpcb⟩
    obtain ⟨hcalls, hdispatch⟩ := hrejected hfile
    refine ⟨hcalls.mono fun r hr => ⟨hr.1, ?_⟩, hdispatch⟩
    rcases hr.2 with heq | heq
    · exact heq
    · exact heq.trans (entered_eq_self.mpr hpcb)

/-- A file is opened at 2 and closed, and rejects every call. -/
theorem unopened_iff_sample :
    Rejected sampleImage (run (fsStep sampleImage) (sampleFs, FdHistory.none)
      [.create 0, .openFile (some [97]), .closeFd 2]) 2 :=
  (unopened_iff sampleImage sampleFs [.create 0, .openFile (some [97]), .closeFd 2] 2 (by decide)
    (by decide) (by decide +kernel)).1.mpr (.inl (by decide +kernel))

/-- A process in a slot that was never used reads descriptor 2, which it has not opened: the read
jumps through a pointer that was never set. -/
theorem unopened_jumps :
    let c := run (fsStep sampleImage) (sampleFs, FdHistory.none) [.create 0]
    c.2.isOpen c.1.mainProcess 2 = false ∧
      ((systemRead sampleImage 2 false 1).run accessSem c.1).1 = .wild ∧
      ¬ Rejected sampleImage c 2 := by
  refine ⟨by decide +kernel, by decide +kernel, ?_⟩
  intro h
  have hread := (h.1.1 false 1).1
  revert hread
  decide +kernel

end SrirachOS
