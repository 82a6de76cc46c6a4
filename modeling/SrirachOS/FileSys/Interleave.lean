import SrirachOS.FileSys.SequentialRead

/-!
# File System Calls Interrupted by Timer Ticks

System calls run with interrupts enabled, so a timer tick can suspend a call between any two
of its accesses and let the calls of another process go on. The calls share the globals
`curr_pcb` and `cur_dentry`.

A pool of processes makes calls (`serve`), and a schedule chooses whose access is next. Beside
the memory, `SharedFs` records which process stored each global last.

- `within_serve`: as long as a process loads its own slot from `curr_pcb`, its calls address
  its own descriptors only,
- `fileCalls_isolated`: when each load of a global finds the value that the loading process
  itself stored last, every process gets the results, and has the descriptors, of running alone,
- `fileCalls_not_isolated`: a tick between `set_filesys_pcb` and the accesses behind it makes an
  open take a descriptor of the other process.
-/

namespace SrirachOS

open Foundation FsProg

/-! ## Processes that make calls -/

/-- A system call of the file layer. -/
inductive FsCall where
  | sysOpen (filename : Option CStr)
  | sysRead (fd : Int) (bufNull : Bool) (nbytes : Int)
  | sysClose (fd : Int)

/-- The program of a call. -/
def fsCall (img : Image) : FsCall → FsProg Outcome
  | .sysOpen filename => do
    let fd ← systemOpen img filename
    pure (.returned ⟨fd, []⟩)
  | .sysRead fd bufNull nbytes => systemRead img fd bufNull nbytes
  | .sysClose fd => systemClose fd

/-- A user process: calls, each chosen by what the calls before it returned. -/
abbrev UserProg (β : Type) := Prog FsCall (fun _ => Outcome) β

/-- A user process as a program over accesses. -/
def serve {β : Type} (img : Image) : UserProg β → FsProg β
  | .ret b => .ret b
  | .op call next => fsCall img call >>= fun res => serve img (next res)

/-! ## Shared memory -/

/-- The memory of the file layer and, for each global, the process that stored it last. -/
structure SharedFs where
  fs : FsState
  pcbWriter : Option Int
  filetypeWriter : Option Int
  inodeWriter : Option Int

/-- Nothing has been stored yet. -/
def SharedFs.start (fs : FsState) : SharedFs := ⟨fs, none, none, none⟩

/-- An access of process `p`. The tick that resumed `p` has stored it in `main_process`. -/
def soloSem (p : Int) (a : Access) (s : FsState) : a.Answer × FsState :=
  accessSem a { s with mainProcess := p }

/-- The writers after an access of process `p`. -/
def SharedFs.noteWriter (s : SharedFs) (p : Int) : Access → SharedFs
  | .setCurrPcb _ => { s with pcbWriter := some p }
  | .setDentryFiletype _ => { s with filetypeWriter := some p }
  | .setDentryInodeNum _ => { s with inodeWriter := some p }
  | _ => s

/-- An access of process `p` to the shared memory. -/
def sharedSem (p : Int) (a : Access) (s : SharedFs) : a.Answer × SharedFs :=
  ((soloSem p a s.fs).1, { s.noteWriter p a with fs := (soloSem p a s.fs).2 })

/-- A load of a global finds what process `p` itself stored last. -/
def OwnGlobals (p : Int) (a : Access) (s : SharedFs) : Prop :=
  (a = .getCurrPcb → s.pcbWriter = some p) ∧
  (a = .getDentryFiletype → s.filetypeWriter = some p) ∧
  (a = .getDentryInodeNum → s.inodeWriter = some p)

instance (p : Int) (a : Access) (s : SharedFs) : Decidable (OwnGlobals p a s) :=
  inferInstanceAs (Decidable (_ ∧ _ ∧ _))

/-! ## The calls address the descriptors of their own process -/

/-- The access addresses descriptors of process `p` only. -/
def Access.Addresses (p : Int) : Access → Prop
  | .setCurrPcb q | .getFd q _ | .setFOps q _ _ | .setInodeNum q _ _ | .setFilePos q _ _
  | .setFlags q _ _ => q = p
  | _ => True

/-- The answer is the slot `p` where the access asks for a slot. -/
def Access.Answers (p : Int) : (a : Access) → a.Answer → Prop
  | .getMainProcess, r => r = p
  | .getCurrPcb, r => r = p
  | _, _ => True

/-- The program addresses descriptors of `p` only, as long as it loads `p` as its slot. -/
abbrev Stays {α : Type} (p : Int) (prog : FsProg α) : Prop :=
  prog.Within (Access.Addresses p) (Access.Answers p)

section Stays

variable {α : Type} {p : Int}

theorem stays_mainProcess {f : Int → FsProg α} (h : Stays p (f p)) :
    Stays p (mainProcess >>= f) :=
  ⟨trivial, fun r hr => by obtain rfl : r = p := hr; exact h⟩

theorem stays_currPcb {f : Int → FsProg α} (h : Stays p (f p)) : Stays p (currPcb >>= f) :=
  ⟨trivial, fun r hr => by obtain rfl : r = p := hr; exact h⟩

theorem stays_fdOf {fd : Int} {f : Fdt → FsProg α} (h : ∀ d, Stays p (f d)) :
    Stays p (fdOf p fd >>= f) :=
  ⟨rfl, fun d _ => h d⟩

theorem stays_dentryFiletype {f : Int → FsProg α} (h : ∀ v, Stays p (f v)) :
    Stays p (dentryFiletype >>= f) :=
  ⟨trivial, fun v _ => h v⟩

theorem stays_dentryInodeNum {f : Int → FsProg α} (h : ∀ v, Stays p (f v)) :
    Stays p (dentryInodeNum >>= f) :=
  ⟨trivial, fun v _ => h v⟩

theorem stays_currFd (fd : Int) {f : Fdt → FsProg α} (h : ∀ d, Stays p (f d)) :
    Stays p (currFd fd >>= f) :=
  stays_currPcb (f := fun pcb => fdOf pcb fd >>= f) (stays_fdOf h)

theorem stays_bitmapOpen (index : Int) {f : Bool → FsProg α} (h : ∀ b, Stays p (f b)) :
    Stays p (bitmapOpen index >>= f) :=
  stays_currFd (f := fun d => f (d.flags = 0)) index fun _ => h _

theorem stays_storeBitmap (value index : Int) : Stays p (storeBitmap value index) := by
  unfold storeBitmap
  split
  · trivial
  · exact stays_currPcb ⟨rfl, fun _ _ => trivial⟩

theorem stays_storeName (d : Dentry) (turns i : Nat) : Stays p (storeName d turns i) := by
  induction turns generalizing i with
  | zero => trivial
  | succ turns ih => exact ⟨trivial, fun _ _ => ih (i + 1)⟩

theorem stays_storeCurDentry (d : Dentry) : Stays p (storeCurDentry d) :=
  (stays_storeName d 32 0).bind fun _ => ⟨trivial, fun _ _ => ⟨trivial, fun _ _ => trivial⟩⟩

theorem stays_alreadyOpen (turns : Nat) (index : Int) : Stays p (alreadyOpen turns index) := by
  induction turns generalizing index with
  | zero => trivial
  | succ turns ih =>
    refine stays_bitmapOpen index fun b => ?_
    split
    · exact ih (index + 1)
    · refine stays_currFd index fun d => stays_dentryInodeNum fun inode => ?_
      split
      · trivial
      · exact ih (index + 1)

theorem stays_claimFd (zeroPos : Bool) (turns : Nat) (index : Int) :
    Stays p (claimFd zeroPos turns index) := by
  induction turns generalizing index with
  | zero => trivial
  | succ turns ih =>
    refine stays_bitmapOpen index fun b => ?_
    split
    · refine (stays_storeBitmap 1 index).bind fun _ => stays_currPcb ?_
      refine stays_dentryInodeNum fun inode => ⟨rfl, fun _ _ => ?_⟩
      cases zeroPos with
      | false => trivial
      | true => exact stays_currPcb ⟨rfl, fun _ _ => trivial⟩
    · exact ih (index + 1)

theorem stays_fileOpen (img : Image) (fname : Option CStr) : Stays p (fileOpen img fname) := by
  unfold fileOpen
  split
  · trivial
  · refine (stays_storeCurDentry _).bind fun _ => stays_dentryFiletype fun filetype => ?_
    split
    · trivial
    · refine (stays_alreadyOpen 8 0).bind fun b => ?_
      split
      · trivial
      · exact stays_claimFd true 8 0

theorem stays_dirOpen (img : Image) (fname : CStr) : Stays p (dirOpen img fname) := by
  unfold dirOpen
  split
  · trivial
  · split
    · trivial
    · refine (stays_storeCurDentry _).bind fun _ => stays_dentryFiletype fun filetype => ?_
      split
      · trivial
      · exact stays_claimFd false 8 0

theorem stays_fileClose (fd : Int) : Stays p (fileClose fd) := by
  unfold fileClose
  split
  · trivial
  · refine stays_bitmapOpen fd fun b => ?_
    split
    · trivial
    · exact stays_currPcb
        ⟨rfl, fun _ _ => (stays_storeBitmap 0 fd).bind fun _ => trivial⟩

theorem stays_dirClose (fd : Int) : Stays p (dirClose fd) := by
  unfold dirClose
  split
  · trivial
  · refine stays_bitmapOpen fd fun b => ?_
    split
    · trivial
    · exact (stays_storeBitmap 0 fd).bind fun _ => trivial

theorem stays_fileRead (img : Image) (fd nbytes : Int) : Stays p (fileRead img fd nbytes) := by
  refine stays_currFd fd fun d => ?_
  split
  · trivial
  split
  · trivial
  refine stays_bitmapOpen fd fun b => ?_
  split
  · trivial
  refine stays_currFd fd fun d₁ => stays_currFd fd fun d₂ => ?_
  dsimp only
  split
  · trivial
  · exact stays_currPcb (stays_fdOf fun d₃ => ⟨rfl, fun _ _ => trivial⟩)

theorem stays_dirRead (img : Image) (fd nbytes : Int) : Stays p (dirRead img fd nbytes) := by
  refine stays_currFd fd fun d => ?_
  split
  · trivial
  refine stays_bitmapOpen fd fun b => ?_
  split
  · trivial
  refine stays_currFd fd fun d₁ => ?_
  split
  · exact stays_currPcb (stays_fdOf fun d₂ => ⟨rfl, fun _ _ => trivial⟩)
  · trivial

theorem stays_fillOpenFd (turns : Nat) (fd : Int) : Stays p (fillOpenFd p turns fd) := by
  induction turns generalizing fd with
  | zero => trivial
  | succ turns ih =>
    refine stays_fdOf fun d => ?_
    split
    · exact ⟨rfl, fun _ _ => trivial⟩
    · exact ih (fd + 1)

theorem stays_systemOpen (img : Image) (filename : Option CStr) :
    Stays p (systemOpen img filename) := by
  refine stays_mainProcess ⟨rfl, fun _ _ => ?_⟩
  dsimp only [Prog.ret_bind]
  split
  · refine (stays_fillOpenFd 6 2).bind fun fd => ?_
    split
    · trivial
    · exact ⟨rfl, fun _ _ => trivial⟩
  · exact (stays_dirOpen img _).bind fun fd => ⟨rfl, fun _ _ => trivial⟩
  · exact (stays_fileOpen img _).bind fun fd => ⟨rfl, fun _ _ => trivial⟩
  · trivial

theorem stays_systemRead (img : Image) (fd : Int) (bufNull : Bool) (nbytes : Int) :
    Stays p (systemRead img fd bufNull nbytes) := by
  unfold systemRead
  split
  · trivial
  refine stays_mainProcess ⟨rfl, fun _ _ => stays_fdOf fun d => ?_⟩
  split
  · exact (stays_fileRead img fd nbytes).bind fun _ => trivial
  · exact (stays_dirRead img fd nbytes).bind fun _ => trivial
  · trivial
  · trivial

theorem stays_systemClose (fd : Int) : Stays p (systemClose fd) := by
  unfold systemClose
  split
  · trivial
  refine stays_mainProcess ⟨rfl, fun _ _ => stays_fdOf fun d => ?_⟩
  split
  · exact (stays_fileClose fd).bind fun _ => trivial
  · exact (stays_dirClose fd).bind fun _ => trivial
  · trivial
  · trivial
  · trivial

theorem within_serve {β : Type} (img : Image) (user : UserProg β) : Stays p (serve img user) := by
  induction user with
  | ret b => trivial
  | op call next ih =>
    refine Prog.Within.bind ?_ ih
    match call with
    | .sysOpen filename => exact (stays_systemOpen img filename).bind fun _ => trivial
    | .sysRead fd bufNull nbytes => exact stays_systemRead img fd bufNull nbytes
    | .sysClose fd => exact stays_systemClose fd

end Stays

/-! ## Isolation -/

/-- The shared memory and a private copy agree on everything that process `p` can see. -/
structure Agrees (p : Int) (s : SharedFs) (t : FsState) : Prop where
  fdt : ∀ fd, s.fs.fdt p fd = t.fdt p fd
  filetype : s.filetypeWriter = some p → s.fs.curDentry.filetype = t.curDentry.filetype
  inodeNum : s.inodeWriter = some p → s.fs.curDentry.inodeNum = t.curDentry.inodeNum
  currPcb : s.pcbWriter = some p → t.currPcb = p
  owner : ∀ q, s.pcbWriter = some q → s.fs.currPcb = q

theorem agrees_start (p : Int) (fs : FsState) : Agrees p (SharedFs.start fs) fs where
  fdt _ := rfl
  filetype h := nomatch h
  inodeNum h := nomatch h
  currPcb h := nomatch h
  owner _ h := nomatch h

/-- Every process that meets `OwnGlobals` loads its own slot. -/
theorem answers_sharedSem {p j : Int} {a : Access} {s : SharedFs} {t : FsState}
    (hR : Agrees p s t) (hown : OwnGlobals j a s) : a.Answers j (sharedSem j a s).1 := by
  cases a <;> first | trivial | rfl | exact hR.owner j (hown.1 rfl)

/-- The same change of the same descriptor on both sides. -/
theorem modifyFd_agrees {s t : FsState} {p q fd : Int} (f : Fdt → Fdt)
    (h : ∀ i, s.fdt p i = t.fdt p i) (i : Int) :
    (s.modifyFd q fd f).fdt p i = (t.modifyFd q fd f).fdt p i := by
  simp only [FsState.modifyFd, h i]

/-- The change of a descriptor of another process. -/
theorem modifyFd_other (s : FsState) {p q : Int} (hne : q ≠ p) (fd : Int) (f : Fdt → Fdt)
    (i : Int) : (s.modifyFd q fd f).fdt p i = s.fdt p i := by
  simp only [FsState.modifyFd]
  rw [if_neg fun h => hne h.1.symm]

/-- **Own accesses** answer alike on both sides and keep them in agreement. -/
theorem agrees_own {p : Int} {a : Access} {s : SharedFs} {t : FsState} (hR : Agrees p s t)
    (haddr : a.Addresses p) (hown : OwnGlobals p a s) :
    (sharedSem p a s).1 = (soloSem p a t).1 ∧
      Agrees p (sharedSem p a s).2 (soloSem p a t).2 := by
  have hkeep : ∀ q fd f, Agrees p { s with fs := { s.fs with mainProcess := p }.modifyFd q fd f }
      ({ t with mainProcess := p }.modifyFd q fd f) := fun q fd f =>
    { hR with fdt := modifyFd_agrees f hR.fdt }
  have hsame : Agrees p { s with fs := { s.fs with mainProcess := p } }
      { t with mainProcess := p } := { hR with }
  cases a with
  | getMainProcess => exact ⟨rfl, hsame⟩
  | setCurrPcb q =>
    obtain rfl : q = p := haddr
    exact ⟨rfl, { hR with currPcb := fun _ => rfl, owner := fun r hr => Option.some.inj hr }⟩
  | getCurrPcb => exact ⟨(hR.owner p (hown.1 rfl)).trans (hR.currPcb (hown.1 rfl)).symm, hsame⟩
  | getFd q fd =>
    obtain rfl : q = p := haddr
    exact ⟨hR.fdt fd, hsame⟩
  | setFOps q fd v => exact ⟨rfl, hkeep q fd fun d => { d with fOps := v }⟩
  | setInodeNum q fd v => exact ⟨rfl, hkeep q fd fun d => { d with inodeNum := v }⟩
  | setFilePos q fd v => exact ⟨rfl, hkeep q fd fun d => { d with filePos := v }⟩
  | setFlags q fd v => exact ⟨rfl, hkeep q fd fun d => { d with flags := v }⟩
  | setDentryName i v => exact ⟨rfl, { hR with }⟩
  | setDentryFiletype v => exact ⟨rfl, { hR with filetype := fun _ => rfl }⟩
  | setDentryInodeNum v => exact ⟨rfl, { hR with inodeNum := fun _ => rfl }⟩
  | getDentryFiletype => exact ⟨hR.filetype (hown.2.1 rfl), hsame⟩
  | getDentryInodeNum => exact ⟨hR.inodeNum (hown.2.2 rfl), hsame⟩

/-- **Accesses of another process** keep both sides in agreement. -/
theorem agrees_other {p j : Int} (hne : j ≠ p) {a : Access} {s : SharedFs} {t : FsState}
    (hR : Agrees p s t) (haddr : a.Addresses j) : Agrees p (sharedSem j a s).2 t := by
  have hkeep : ∀ fd f, Agrees p { s with fs := { s.fs with mainProcess := j }.modifyFd j fd f } t :=
    fun fd f => { hR with fdt := fun i => (modifyFd_other _ hne fd f i).trans (hR.fdt i) }
  have hforeign : ∀ {x : Option Int}, x = some j → x ≠ some p := fun h h' =>
    hne (Option.some.inj (h.symm.trans h'))
  cases a with
  | setCurrPcb q =>
    obtain rfl : q = j := haddr
    exact { hR with
      currPcb := fun h => absurd h (hforeign rfl)
      owner := fun r hr => Option.some.inj hr }
  | setFOps q fd v =>
    obtain rfl : q = j := haddr
    exact hkeep fd fun d => { d with fOps := v }
  | setInodeNum q fd v =>
    obtain rfl : q = j := haddr
    exact hkeep fd fun d => { d with inodeNum := v }
  | setFilePos q fd v =>
    obtain rfl : q = j := haddr
    exact hkeep fd fun d => { d with filePos := v }
  | setFlags q fd v =>
    obtain rfl : q = j := haddr
    exact hkeep fd fun d => { d with flags := v }
  | setDentryFiletype v => exact { hR with filetype := fun h => absurd h (hforeign rfl) }
  | setDentryInodeNum v => exact { hR with inodeNum := fun h => absurd h (hforeign rfl) }
  | _ => exact { hR with }

/-- **Isolation of file system calls**: in every interleaving in which each load of `curr_pcb`
or `cur_dentry` finds what the loading process itself stored last, each process has made the
same accesses with the same answers, and has the same descriptors, as when it runs alone; once
it has ended, its results are those of running alone. -/
theorem fileCalls_isolated {β : Type} (img : Image) (user : Int → UserProg β) (fs : FsState)
    (sched : List Int)
    (hown : Along (poolStep sharedSem) (FairStep OwnGlobals)
      (fun q => serve img (user q), SharedFs.start fs) sched) (p : Int) :
    let shared := run (poolStep sharedSem) (fun q => serve img (user q), SharedFs.start fs) sched
    let alone := Prog.soloSteps (soloSem p) (sched.count p) (serve img (user p), fs)
    shared.1 p = alone.1 ∧
    (∀ fd, shared.2.fs.fdt p fd = alone.2.fdt p fd) ∧
    ∀ results, shared.1 p = .ret results →
      ((serve img (user p)).run (soloSem p) fs).1 = results := by
  have hanswers : ∀ j a s t, Agrees p s t → OwnGlobals j a s →
      Access.Answers j a (sharedSem j a s).1 := fun j a s t hR hfair => answers_sharedSem hR hfair
  have hown' : ∀ a s t, Agrees p s t → Access.Addresses p a → OwnGlobals p a s →
      (sharedSem p a s).1 = (soloSem p a t).1 ∧ Agrees p (sharedSem p a s).2 (soloSem p a t).2 :=
    fun a s t hR haddr hfair => agrees_own hR haddr hfair
  obtain ⟨hprog, hagree⟩ := pool_project hanswers hown'
    (fun j hne a s t hR haddr _ => agrees_other hne hR haddr)
    sched (fun q => serve img (user q), SharedFs.start fs) fs (agrees_start p fs)
    (fun j => within_serve img (user j)) hown
  refine ⟨hprog, hagree.fdt, fun results hret => ?_⟩
  have hend := Prog.run_eq_of_soloSteps (soloSem p) (hprog.symm.trans hret)
  exact congrArg Prod.fst hend

/-- Process 0 opens file `a`, process 1 opens file `b`. -/
def openBoth (p : Int) : UserProg Outcome :=
  .op (.sysOpen (some (if p = 0 then [97] else [98]))) .ret

/-- Both opens are interrupted: that of process 1 before its `set_filesys_pcb`, that of process 0 behind its
last load of a global. -/
theorem fileCalls_isolated_sample :
    let sched : List Int := 1 :: (List.replicate 71 0 ++ List.replicate 72 1 ++ List.replicate 2 0)
    let shared := run (poolStep sharedSem)
      (fun q => serve sampleImage (openBoth q), SharedFs.start freshFsState) sched
    ∀ results, shared.1 1 = .ret results →
      ((serve sampleImage (openBoth 1)).run (soloSem 1) freshFsState).1 = results :=
  (fileCalls_isolated sampleImage openBoth freshFsState
    (1 :: (List.replicate 71 0 ++ List.replicate 72 1 ++ List.replicate 2 0)) (by decide +kernel) 1).2.2

/-! ## An interrupted open -/

/-- Process 0 is suspended right after its `set_filesys_pcb`, process 1 right after its own:
the open of process 0 then takes descriptor 2 of process 1 and leaves its own free. -/
theorem fileCalls_not_isolated :
    ¬ ∀ (sched : List Int) (p fd : Int),
      (run (poolStep sharedSem)
        (fun q => serve sampleImage (openBoth q), SharedFs.start freshFsState) sched).2.fs.fdt p fd =
      (Prog.soloSteps (soloSem p) (sched.count p)
        (serve sampleImage (openBoth p), freshFsState)).2.fdt p fd := by
  intro h
  have hfd := h (List.replicate 2 0 ++ List.replicate 2 1 ++ List.replicate 100 0) 0 2
  revert hfd
  decide +kernel

end SrirachOS
