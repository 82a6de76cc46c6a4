import SrirachOS.Kernel.Coherence
import SrirachOS.Kernel.Preemption

/-!
# Loading a Program

Between `map_page` and `cli` execute copies the program through the mapping, while `main_process`
still names the caller. The scheduler maps the frame of the process that it resumes, so an execute
that is resumed there goes on in the caller's frame.

- `Contexts`: a property of all that can be resumed, and `systemHalt_resumes`: a halt resumes
  nothing else,
- `Loaded`: how far the copy is,
- `load_uninterrupted`: while the copy is left alone, the program enters with its own frame mapped
  and filled.
-/

namespace SrirachOS

open Foundation

namespace Kernel

/-! ## What can be resumed -/

/-- What `P` says of every context that a PCB holds. The frame of an execute that a halt called is
left through the halt. -/
structure Contexts (P : Kont → Prop) (k : Kernel) : Prop where
  pit : ∀ p, P (k.pcb p).pit.kont
  frame : ∀ p, (∀ curr parent, (k.pcb p).frame.caller ≠ .halt curr parent) → P (k.pcb p).frame.below

theorem Contexts.congr {P : Kont → Prop} {k k' : Kernel} (h : k.Contexts P)
    (hpcb : ∀ p, (k'.pcb p).frame = (k.pcb p).frame ∧ (k'.pcb p).pit = (k.pcb p).pit) :
    k'.Contexts P where
  pit p := by rw [(hpcb p).2]; exact h.pit p
  frame p := by rw [(hpcb p).1]; exact h.frame p

/-- The running process saves its context. -/
theorem Contexts.save {P : Kont → Prop} {k : Kernel} (h : k.Contexts P) (p : Int) (context : Context)
    (hcontext : P context.kont) : (k.modifyPcb p fun pcb => { pcb with pit := context }).Contexts P where
  pit q := by
    rcases eq_or_ne q p with rfl | hne
    · rw [modifyPcb_same]
      exact hcontext
    · rw [modifyPcb_of_ne hne]
      exact h.pit q
  frame q := by
    rcases eq_or_ne q p with rfl | hne
    · rw [modifyPcb_same]
      exact h.frame q
    · rw [modifyPcb_of_ne hne]
      exact h.frame q

/-- Execute enters a program: the new PCB holds the frame of the execute. -/
theorem Contexts.enter {P : Kont → Prop} {k : Kernel} (h : k.Contexts P) (caller : Caller)
    {below : Kont} (hbelow : (∀ curr parent, caller ≠ .halt curr parent) → P below) (prog : Program)
    (i : Int) : (k.enterProgram caller below prog i).Contexts P where
  pit p := by
    rw [enterProgram_pcb]
    rcases eq_or_ne p i with rfl | hne
    · rw [Function.update_self]
      exact h.pit p
    · rw [Function.update_of_ne hne]
      exact h.pit p
  frame p := by
    rw [enterProgram_pcb]
    rcases eq_or_ne p i with rfl | hne
    · rw [Function.update_self]
      exact hbelow
    · rw [Function.update_of_ne hne]
      exact h.frame p

/-- What runs after a step is as `P` says, unless the kernel hangs. -/
structure Resumes (P : Kont → Prop) (k : Kernel) : Prop where
  contexts : k.Contexts P
  cpu : k.hung = false → P k.cpu.kont

/-- Returning from execute resumes what the frame says. -/
theorem Contexts.returnFromExecute {P : Kont → Prop} (turns : Nat) {k : Kernel} (h : k.Contexts P)
    (p : Int) : (returnFromExecute turns (k.pcb p).frame k).Resumes P := by
  induction turns generalizing k p with
  | zero => exact ⟨⟨h.pit, h.frame⟩, fun hhung => by cases hhung⟩
  | succ turns ih =>
    rw [Kernel.returnFromExecute]
    split
    · next curr parent hcaller =>
      exact ih (k := k.remapParent parent) ⟨h.pit, h.frame⟩ curr
    · next hcaller =>
      exact ⟨⟨h.pit, h.frame⟩, fun _ => h.frame p hcaller⟩

theorem Contexts.haltTail {P : Kont → Prop} {k : Kernel} (h : k.Contexts P) (curr parent : Int) :
    (k.haltTail curr parent).Resumes P :=
  Contexts.returnFromExecute (k := k.remapParent parent) 4 ⟨h.pit, h.frame⟩ curr

/-- The ways in which execute ends for a command that fits, as states. -/
theorem systemExecute_ends {command : CStr} (hcommand : CommandFits command) (img : Image)
    (junk : Nat → UInt8) (caller : Caller) (k : Kernel) :
    (∃ ret argBuf, systemExecute img command junk caller k = .returned ret { k with argBuf }) ∨
    (∃ prog i mem argBuf, systemExecute img command junk caller k =
      .entered (({ (k.markSlot i).mapSlot i with mem, argBuf } : Kernel).enterProgram caller k.cpu.kont
        prog i)) ∨
    (∃ i mem argBuf, systemExecute img command junk caller k =
      .faulted { (k.markSlot i).mapSlot i with mem, argBuf }) := by
  rw [systemExecute_of_fits hcommand]
  unfold executeFile
  cases findProgram img (parseCommand command).1 junk with
  | none => exact .inl ⟨-1, _, rfl⟩
  | some prog =>
    dsimp only
    cases ({ k with argBuf := (parseCommand command).2 } : Kernel).findSlot 6 0 with
    | none => exact .inl ⟨0, _, rfl⟩
    | some i =>
      dsimp only
      -- a file longer than the program area faults behind it, a shorter one is entered
      split
      · obtain ⟨mem, hmem⟩ := loadBytes_eq 0 (prog.bytes.take programRoom)
          ((({ k with argBuf := (parseCommand command).2 } : Kernel).markSlot i).mapSlot i)
        rw [hmem]
        exact .inr (.inr ⟨i, mem, _, rfl⟩)
      · obtain ⟨mem, hmem⟩ := loadBytes_eq 0 prog.bytes
          ((({ k with argBuf := (parseCommand command).2 } : Kernel).markSlot i).mapSlot i)
        rw [hmem]
        exact .inr (.inl ⟨prog, i, mem, _, rfl⟩)

/-- **A halt** resumes what a PCB holds, or a program. -/
theorem systemHalt_resumes {P : Kont → Prop} {k : Kernel} (h : k.Contexts P) (huser : P .user)
    (img : Image) (status : UInt8) (junk : Nat → UInt8) : (k.systemHalt img status junk).Resumes P := by
  have hrelease : (k.releaseSlot status).Contexts P :=
    h.congr fun p => (releaseSlot_pcb status k p).2.2
  unfold systemHalt
  dsimp only
  split
  · -- a root shell is replaced
    rcases systemExecute_ends commandFits_shell img junk
        (.halt k.mainProcess (k.pcb k.mainProcess).parentPcb) (k.releaseSlot status) with
      ⟨ret, argBuf, heq⟩ | ⟨prog, i, mem, argBuf, heq⟩ |
      ⟨i, mem, argBuf, heq⟩
    · rw [heq]
      have htail : ({ k.releaseSlot status with argBuf } : Kernel).Contexts P :=
        ⟨hrelease.pit, hrelease.frame⟩
      exact htail.haltTail _ _
    · rw [heq]
      have hmapped : ({ ((k.releaseSlot status).markSlot i).mapSlot i with mem, argBuf } :
          Kernel).Contexts P := ⟨hrelease.pit, hrelease.frame⟩
      exact ⟨hmapped.enter _ (fun hcaller => absurd rfl (hcaller _ _)) prog i, fun _ => huser⟩
    · rw [heq]
      exact ⟨⟨hrelease.pit, hrelease.frame⟩, fun hhung => by cases hhung⟩
  · exact hrelease.haltTail _ _

/-! ## The copy -/

/-- The bytes of a program are what `read_data` reads of a file. -/
def FromFile (img : Image) (prog : Program) : Prop :=
  ∃ word test, readDentryByName img (some word) = some test ∧
    prog.bytes = (readData img (u32 test.inodeNum) 0 0x800000).buf

theorem fromFile_of_findProgram {img : Image} {word : CStr} {junk : Nat → UInt8} {prog : Program}
    (h : findProgram img word junk = some prog) : FromFile img prog := by
  unfold findProgram at h
  split at h
  · cases h
  · next test htest =>
    dsimp only at h
    split at h
    · cases h
    · obtain rfl := Option.some.inj h
      exact ⟨word, test, htest, rfl⟩

/-- A phase of execute before the copy. -/
def BeforeLoad (img : Image) : Phase → Prop
  | .parse _ _ => True
  | .search prog _ | .test prog _ | .mark prog _ | .map prog _ => FromFile img prog
  | .load _ _ _ | .enter _ _ => False

/-- Nothing in a context is in the copy. -/
def Settled (img : Image) : Kont → Prop
  | .user | .idle => True
  | .exec _ phase below => BeforeLoad img phase ∧ Settled img below

/-- `n` bytes of a program have been copied to the frame of slot `i`, which is mapped; `before` was
the memory when it was. -/
structure Loaded (prog : Program) (i : Int) (n : Nat) (before : Nat → UInt8) (k : Kernel) : Prop where
  mapped : k.paging.pageDir 32 = frameAddr i.toNat + 0x87
  room : n ≤ programRoom
  bytes : ∀ (j : Nat) (h : j < prog.bytes.length), j < n →
    k.mem (frameAddr i.toNat + 0x48000 + j) = prog.bytes[j]
  others : ∀ a, a ∉ frameOf i → k.mem a = before a

/-- The processor is in the copy. -/
def Copying (img : Image) (before : Nat → UInt8) (k : Kernel) : Prop :=
  ∃ caller prog i below, FromFile img prog ∧ Settled img below ∧
    ((∃ n, k.cpu.kont = .exec caller (.load prog i n) below ∧ Loaded prog i n before k) ∨
      (k.cpu.kont = .exec caller (.enter prog i) below ∧
        Loaded prog i prog.bytes.length before k))

/-- The copy goes to the mapped frame. -/
theorem Loaded.programAddr {prog : Program} {i : Int} {n : Nat} {before : Nat → UInt8} {k : Kernel}
    (h : Loaded prog i n before k) : k.programAddr = frameAddr i.toNat + 0x48000 := by
  unfold Kernel.programAddr
  rw [h.mapped]
  unfold frameAddr
  omega

theorem Loaded.congr {prog : Program} {i : Int} {n : Nat} {before : Nat → UInt8} {k k' : Kernel}
    (h : Loaded prog i n before k) (hpaging : k'.paging = k.paging) (hmem : k'.mem = k.mem) :
    Loaded prog i n before k' where
  mapped := by rw [hpaging]; exact h.mapped
  room := h.room
  bytes := by rw [hmem]; exact h.bytes
  others := by rw [hmem]; exact h.others

/-- The frame has just been mapped. -/
theorem loaded_mapSlot (prog : Program) (i : Int) (k : Kernel) :
    Loaded prog i 0 k.mem (k.mapSlot i) where
  mapped := mapProgram_pageDir i.toNat k.paging
  room := Nat.zero_le _
  bytes _ _ hj := absurd hj (Nat.not_lt_zero _)
  others _ _ := rfl

/-- One more byte. -/
theorem Loaded.loadByte {prog : Program} {i : Int} {n : Nat} {before : Nat → UInt8} {k : Kernel}
    (h : Loaded prog i n before k) {b : UInt8} (hbyte : prog.bytes[n]? = some b)
    (hroom : n < programRoom) : Loaded prog i (n + 1) before (k.loadByte n b) where
  mapped := h.mapped
  room := hroom
  bytes j hj hjn := by
    change Function.update k.mem (k.programAddr + n) b (frameAddr i.toNat + 0x48000 + j) = _
    rw [h.programAddr, Function.update_apply]
    -- the byte that is stored now, or one of those before it
    by_cases heq : j = n
    · subst heq
      rw [if_pos rfl]
      rw [List.getElem?_eq_getElem hj] at hbyte
      exact (Option.some.inj hbyte).symm
    · rw [if_neg (by omega)]
      exact h.bytes j hj (by omega)
  others a ha := by
    have hne : a ≠ k.programAddr + n := by
      rintro rfl
      apply ha
      rw [h.programAddr]
      unfold frameOf programRoom at *
      exact ⟨by omega, by omega⟩
    exact (Function.update_of_ne hne ..).trans (h.others a ha)

/-! ## One event -/

/-- The context is in the copy. -/
def InCopy : Kont → Prop
  | .exec _ (.load _ _ _) _ | .exec _ (.enter _ _) _ => True
  | _ => False

instance : (kont : Kont) → Decidable (InCopy kont)
  | .exec _ (.load _ _ _) _ | .exec _ (.enter _ _) _ => isTrue trivial
  | .exec _ (.parse _ _) _ | .exec _ (.search _ _) _ | .exec _ (.test _ _) _ | .exec _ (.mark _ _) _
  | .exec _ (.map _ _) _ | .user | .idle => isFalse not_false

/-- Between the mapping and `cli`, no timer interrupt switches to another task, and no terminal is
started. -/
def LoadAlone (k : Kernel) : PreemptEvent → Prop
  | .tick => InCopy k.cpu.kont → k.checkTasks k.mainProcess = -1
  | .switchTerminal terminal _ => InCopy k.cpu.kont →
    k.activeTerminal = (terminal.val : Nat) ∨ k.currTask (terminal.val : Nat) ≠ -1
  | _ => True

instance (k : Kernel) : (e : PreemptEvent) → Decidable (LoadAlone k e)
  | .tick | .switchTerminal _ _ => inferInstanceAs (Decidable (_ → _))
  | .advance _ | .execute _ _ | .halt _ _ | .vidmap => isTrue trivial

/-- The memory when execute maps a frame. -/
def mapsFrame (k : Kernel) : PreemptEvent → Option (Nat → UInt8)
  | .advance _ =>
    match k.cpu.kont with
    | .exec _ (.map _ _) _ => some k.mem
    | _ => none
  | _ => none

/-- The machine, with the memory as it was when the last frame was mapped. -/
def loadStep (img : Image) (tab : TableAddr) :
    Kernel × (Nat → UInt8) → PreemptEvent → Kernel × (Nat → UInt8) :=
  driven (preemptStep img tab) mapsFrame fun _ mem => mem

/-- Nothing that can be resumed is in the copy; what runs may be. -/
structure LoadInv (img : Image) (s : Kernel × (Nat → UInt8)) : Prop where
  contexts : s.1.Contexts (Settled img)
  cpu : s.1.hung = false → Settled img s.1.cpu.kont ∨ Copying img s.2 s.1

theorem Copying.inCopy {img : Image} {before : Nat → UInt8} {k : Kernel} (h : Copying img before k) :
    InCopy k.cpu.kont := by
  obtain ⟨caller, prog, i, below, -, -, ⟨n, hkont, -⟩ | ⟨hkont, -⟩⟩ := h <;> rw [hkont] <;> trivial

theorem enterKernel_of_copying {img : Image} {before : Nat → UInt8} {k : Kernel}
    (h : Copying img before k) : k.enterKernel = k := by
  obtain ⟨caller, prog, i, below, -, -, ⟨n, hkont, -⟩ | ⟨hkont, -⟩⟩ := h <;>
    (unfold enterKernel; rw [hkont])

theorem Copying.congr {img : Image} {before : Nat → UInt8} {k k' : Kernel}
    (h : Copying img before k) (hcpu : k'.cpu = k.cpu) (hpaging : k'.paging = k.paging)
    (hmem : k'.mem = k.mem) : Copying img before k' := by
  obtain ⟨caller, prog, i, below, hfile, hbelow, hat⟩ := h
  refine ⟨caller, prog, i, below, hfile, hbelow, ?_⟩
  rw [hcpu]
  rcases hat with ⟨n, hkont, hloaded⟩ | ⟨hkont, hloaded⟩
  · exact .inl ⟨n, hkont, hloaded.congr hpaging hmem⟩
  · exact .inr ⟨hkont, hloaded.congr hpaging hmem⟩

/-- What is settled stays so when the kernel is entered. -/
theorem settled_enterKernel {img : Image} {k : Kernel} (h : Settled img k.cpu.kont) :
    Settled img k.enterKernel.cpu.kont := by
  unfold enterKernel
  split
  · trivial
  · exact h

/-- The copy takes a step. -/
theorem LoadInv.copy {img : Image} {before : Nat → UInt8} {k : Kernel}
    (h : k.Contexts (Settled img)) (hcopy : Copying img before k) (junk : Nat → UInt8) :
    LoadInv img (k.execStep img junk, before) := by
  obtain ⟨caller, prog, i, below, hfile, hbelow, ⟨n, hkont, hloaded⟩ | ⟨hkont, hloaded⟩⟩ := hcopy
  · unfold execStep
    rw [hkont]
    dsimp only
    cases hbyte : prog.bytes[n]? with
    | none =>
      -- the whole program has been copied
      have hend : prog.bytes.length ≤ n := List.getElem?_eq_none_iff.mp hbyte
      refine ⟨⟨h.pit, h.frame⟩, fun _ => .inr ⟨caller, prog, i, below, hfile, hbelow, .inr ⟨rfl, ?_⟩⟩⟩
      exact
        { mapped := hloaded.mapped
          room := by have := hloaded.room; omega
          bytes := fun j hj _ => hloaded.bytes j hj (by omega)
          others := hloaded.others }
    | some b =>
      dsimp only
      split
      · next hroom =>
        exact ⟨⟨h.pit, h.frame⟩, fun _ => .inr ⟨caller, prog, i, below, hfile, hbelow,
          .inl ⟨n + 1, rfl, (hloaded.loadByte hbyte hroom).congr rfl rfl⟩⟩⟩
      · have hhalt := systemHalt_resumes h (by trivial) img 255 junk
        exact ⟨hhalt.contexts, fun hhung => .inl (hhalt.cpu hhung)⟩
  · unfold execStep
    rw [hkont]
    exact ⟨h.enter caller (fun _ => hbelow) prog i, fun _ => .inl trivial⟩

/-- An execute that is not in the copy takes a step. -/
theorem LoadInv.advance {img : Image} {before : Nat → UInt8} {k : Kernel}
    (h : k.Contexts (Settled img)) (hsettled : Settled img k.cpu.kont) (junk : Nat → UInt8) :
    LoadInv img (k.execStep img junk, (mapsFrame k (.advance junk)).elim before id) := by
  unfold execStep mapsFrame
  -- an execute that goes on before the copy, or goes back
  have hon : ∀ (k' : Kernel) before' caller phase below, k'.Contexts (Settled img) →
      BeforeLoad img phase → Settled img below → LoadInv img (k'.goOn caller phase below, before') :=
    fun k' before' caller phase below h' hphase hbelow =>
      ⟨⟨h'.pit, h'.frame⟩, fun _ => .inl ⟨hphase, hbelow⟩⟩
  have hback : ∀ (k' : Kernel) before' below, k'.Contexts (Settled img) → Settled img below →
      LoadInv img (k'.goBack below, before') :=
    fun k' before' below h' hbelow => ⟨⟨h'.pit, h'.frame⟩, fun _ => .inl hbelow⟩
  cases hkont : k.cpu.kont with
  | user =>
    refine ⟨h, fun _ => .inl ?_⟩
    change Settled img k.cpu.kont
    rw [hkont]
    trivial
  | idle =>
    refine ⟨h, fun _ => .inl ?_⟩
    change Settled img k.cpu.kont
    rw [hkont]
    trivial
  | exec caller phase below =>
    rw [hkont] at hsettled
    obtain ⟨hphase, hbelow⟩ := hsettled
    dsimp only
    cases phase with
    | parse command junk' =>
      have hctx : (k.storeArgs (parseCommand command).2).Contexts (Settled img) :=
        h.congr fun p => by rw [storeArgs_pcb]; exact ⟨rfl, rfl⟩
      dsimp only
      split
      · cases hprog : findProgram img (parseCommand command).1 junk' with
        | none => exact hback _ _ _ hctx hbelow
        | some prog => exact hon _ _ _ _ _ hctx (fromFile_of_findProgram hprog) hbelow
      · -- a command that the model does not follow hangs the kernel
        exact ⟨⟨h.pit, h.frame⟩, fun hhung => by cases hhung⟩
    | search prog i =>
      dsimp only
      split
      · exact hback _ _ _ h hbelow
      · split
        · exact hon _ _ _ _ _ h hphase hbelow
        · exact hon _ _ _ _ _ h hphase hbelow
    | test prog i =>
      dsimp only
      split
      · exact hon _ _ _ _ _ h hphase hbelow
      · exact hon _ _ _ _ _ h hphase hbelow
    | mark prog i =>
      have hctx : (k.markSlot i).Contexts (Settled img) := ⟨h.pit, h.frame⟩
      exact hon _ _ _ _ _ hctx hphase hbelow
    | map prog i =>
      exact ⟨⟨h.pit, h.frame⟩, fun _ => .inr ⟨caller, prog, i, below, hphase, hbelow,
        .inl ⟨0, rfl, (loaded_mapSlot prog i k).congr rfl rfl⟩⟩⟩
    | load prog i n => exact hphase.elim
    | enter prog i => exact hphase.elim

/-- **One event** leaves a copy that is going on alone, or is a step of it. -/
theorem LoadInv.step {img : Image} {tab : TableAddr} {s : Kernel × (Nat → UInt8)} {e : PreemptEvent}
    (h : LoadInv img s) (halone : LoadAlone s.1 e) : LoadInv img (loadStep img tab s e) := by
  obtain ⟨k, before⟩ := s
  obtain ⟨hctx, hcpu⟩ := h
  dsimp only at hctx hcpu halone
  have hstate : loadStep img tab (k, before) e =
      (preemptStep img tab k e, (mapsFrame k e).elim before id) := rfl
  rw [hstate]
  unfold preemptStep
  by_cases hhung : k.hung = true
  · rw [if_pos hhung]
    exact ⟨hctx, fun h => absurd hhung (by rw [h]; exact Bool.false_ne_true)⟩
  rw [if_neg hhung]
  have hrun := hcpu (by simpa using hhung)
  have hkernel : k.enterKernel.Contexts (Settled img) :=
    hctx.congr fun p => by rw [enterKernel_pcb]; exact ⟨rfl, rfl⟩
  cases e with
  | advance junk =>
    rcases hrun with hsettled | hcopy
    · exact .advance hctx hsettled junk
    · have hnone : mapsFrame k (.advance junk) = none := by
        obtain ⟨caller, prog, i, below, -, -, ⟨n, hkont, -⟩ | ⟨hkont, -⟩⟩ := hcopy <;>
          (unfold mapsFrame; rw [hkont])
      rw [hnone]
      exact .copy hctx hcopy junk
  -- a program can call only while no copy runs, so the new execute starts settled
  | execute command junk =>
    dsimp only
    split
    · exact ⟨⟨hkernel.pit, hkernel.frame⟩, fun _ => .inl ⟨trivial, trivial⟩⟩
    · exact ⟨hctx, hcpu⟩
  | halt status junk =>
    dsimp only
    split
    · have hhalt := systemHalt_resumes hkernel (by trivial) img status junk
      exact ⟨hhalt.contexts, fun hh => .inl (hhalt.cpu hh)⟩
    · exact ⟨hctx, hcpu⟩
  | switchTerminal terminal junk =>
    unfold beginSwitch
    dsimp only
    rcases hrun with hsettled | hcopy
    · have hset := settled_enterKernel hsettled
      split
      · exact ⟨hkernel, fun _ => .inl hset⟩
      · split
        · -- the context of the running process is saved, and an execute begins
          have hsaved := hkernel.save k.enterKernel.mainProcess k.enterKernel.cpu hset
          exact ⟨⟨hsaved.pit, hsaved.frame⟩, fun _ => .inl ⟨trivial, hset⟩⟩
        · exact ⟨⟨hkernel.pit, hkernel.frame⟩, fun _ => .inl hset⟩
    · rw [enterKernel_of_copying hcopy]
      split
      · exact ⟨hctx, fun _ => .inr hcopy⟩
      · next hne =>
        -- alone, the copy meets only a switch to the terminal that is displayed, or to one with a
        -- task
        rcases halone hcopy.inCopy with heq | hlive
        · exact absurd heq hne
        · rw [if_neg hlive]
          exact ⟨⟨hctx.pit, hctx.frame⟩, fun _ => .inr (hcopy.congr rfl rfl rfl)⟩
  | tick =>
    dsimp only
    rcases hrun with hsettled | hcopy
    · have hset := settled_enterKernel hsettled
      rcases schedulerHandler_cases k.enterKernel with ⟨-, heq⟩ | ⟨t, -, -, -, -, -, heq⟩
      · rw [heq]
        exact ⟨hkernel, fun _ => .inl hset⟩
      · rw [heq]
        have hsaved := hkernel.save k.enterKernel.mainProcess k.enterKernel.cpu hset
        exact ⟨⟨hsaved.pit, hsaved.frame⟩, fun _ => .inl (hsaved.pit _)⟩
    · rw [enterKernel_of_copying hcopy]
      -- and a tick that finds no other terminal to go to
      have hnone : k.schedulerHandler = k := if_pos (halone hcopy.inCopy)
      rw [hnone]
      exact ⟨hctx, fun _ => .inr hcopy⟩
  | vidmap =>
    dsimp only
    split
    · next huser =>
      have hset : Settled img k.cpu.kont := by rw [huser]; trivial
      exact ⟨⟨hkernel.pit, hkernel.frame⟩, fun _ => .inl (settled_enterKernel hset)⟩
    · exact ⟨hctx, hcpu⟩

/-! ## Runs -/

/-- Before the kernel starts no execute has begun, so no context in memory is one of an execute. -/
def powerOn (k : Kernel) : Kernel :=
  { k with pcb := fun p => { k.pcb p with pit := ⟨p, .user⟩, frame := ⟨p, .boot, .idle⟩ } }

theorem loadInv_boot (img : Image) (tab : TableAddr) (junk : Nat → UInt8) (k : Kernel)
    (before : Nat → UInt8) : LoadInv img (boot img tab junk k.powerOn, before) := by
  have hinit : (k.powerOn.init tab).Contexts (Settled img) :=
    ⟨fun _ => (trivial : Settled img .user), fun _ _ => (trivial : Settled img .idle)⟩
  unfold boot
  rcases systemExecute_ends commandFits_shell img junk .boot (k.powerOn.init tab) with
    ⟨ret, argBuf, heq⟩ | ⟨prog, i, mem, argBuf, heq⟩ | ⟨i, mem, argBuf, heq⟩
  · rw [heq]
    exact ⟨⟨hinit.pit, hinit.frame⟩, fun _ => .inl trivial⟩
  · rw [heq]
    have hmapped : ({ ((k.powerOn.init tab).markSlot i).mapSlot i with mem, argBuf } :
        Kernel).Contexts (Settled img) := ⟨hinit.pit, hinit.frame⟩
    exact ⟨hmapped.enter .boot (fun _ => show Settled img .idle from trivial) prog i,
      fun _ => .inl trivial⟩
  · rw [heq]
    have hmapped : ({ ((k.powerOn.init tab).markSlot i).mapSlot i with mem, argBuf } :
        Kernel).Contexts (Settled img) := ⟨hinit.pit, hinit.frame⟩
    have hhalt := systemHalt_resumes hmapped (by trivial) img 255 junk
    exact ⟨hhalt.contexts, fun hh => .inl (hhalt.cpu hh)⟩

/-- What `read_data` reads of a well-formed program file are the bytes of the file. -/
theorem readData_program (img : Image) (inode : Int) (hwf : img.WellFormedFile inode) :
    (readData img (u32 inode) 0 0x800000).buf = img.contents inode := by
  have hlen := hwf.length_le
  have hcount : img.inodeCount < 2147483648 := img.word_lt 4
  have hinode : u32 inode = inode :=
    u32_of_fits hwf.inode_nonneg (by have := hwf.inode_lt; omega)
  have hread : readData img inode ((0 : Nat) : Int) ((0x800000 : Nat) : Int) = _ :=
    readData_spec img inode hwf hwf.length_nonneg (by omega) (by omega)
  rw [hinode]
  change (readData img inode ((0 : Nat) : Int) ((0x800000 : Nat) : Int)).buf = _
  rw [hread]
  dsimp only
  rw [List.drop_zero]
  apply List.take_of_length_le
  rw [length_contents img inode hwf.length_nonneg]
  omega

/-- **The copy is left alone**: when execute enters a program, the program's frame is mapped and
holds the bytes of the file, and since it was mapped no byte outside of it has been written. -/
theorem load_uninterrupted (img : Image) (tab : TableAddr) (junk : Nat → UInt8) (k : Kernel)
    (es : List PreemptEvent)
    (halone : Along (preemptStep img tab) LoadAlone (boot img tab junk k.powerOn) es) :
    let start := boot img tab junk k.powerOn
    let s := run (loadStep img tab) (start, start.mem) es
    s.1 = run (preemptStep img tab) start es ∧
    ∀ caller prog i below junk', s.1.hung = false → s.1.cpu.kont = .exec caller (.enter prog i) below →
      let k' := preemptStep img tab s.1 (.advance junk')
      k'.mainProcess = i ∧ k'.paging.pageDir 32 = frameAddr i.toNat + 0x87 ∧
      (∃ word test, readDentryByName img (some word) = some test ∧
        prog.bytes = (readData img (u32 test.inodeNum) 0 0x800000).buf ∧
        (img.WellFormedFile test.inodeNum → prog.bytes = img.contents test.inodeNum)) ∧
      (∀ (j : Nat) (h : j < prog.bytes.length),
        k'.mem (frameAddr i.toNat + 0x48000 + j) = prog.bytes[j]) ∧
      ∀ a, a ∉ frameOf i → k'.mem a = s.2 a := by
  intro start s
  have hinv : LoadInv img s :=
    invariant_run (fun s e h he => h.step he) (loadInv_boot img tab junk k _) (along_driven halone _)
  refine ⟨congrArg Prod.fst (run_driven ..), ?_⟩
  intro caller prog i below junk' hhung henter
  have hstep : preemptStep img tab s.1 (.advance junk') = s.1.enterProgram caller below prog i := by
    unfold preemptStep
    rw [if_neg (by rw [hhung]; exact Bool.false_ne_true)]
    unfold execStep
    rw [henter]
  dsimp only
  rw [hstep]
  -- entering a program is no settled context, so the copy has come to its end
  rcases hinv.cpu hhung with hsettled | ⟨caller', prog', i', below', hfile, -, hat⟩
  · rw [henter] at hsettled
    exact hsettled.1.elim
  · obtain ⟨n, hkont, -⟩ | ⟨hkont, hloaded⟩ := hat
    · rw [henter] at hkont
      cases hkont
    · rw [henter] at hkont
      cases hkont
      obtain ⟨word, test, htest, hbytes⟩ := hfile
      refine ⟨rfl, hloaded.mapped, ⟨word, test, htest, hbytes, fun hwf => ?_⟩,
        fun j hj => hloaded.bytes j hj hj, hloaded.others⟩
      rw [hbytes, readData_program img test.inodeNum hwf]

/-- Execute is about to enter the program in slot `i`. -/
def entersSlot (i : Int) : Kont → Bool
  | .exec _ (.enter _ j) _ => decide (j = i)
  | _ => false

theorem exists_of_entersSlot {i : Int} {kont : Kont} (h : entersSlot i kont = true) :
    ∃ caller prog below, kont = .exec caller (.enter prog i) below := by
  unfold entersSlot at h
  split at h
  · next caller prog j below =>
    obtain rfl := of_decide_eq_true h
    exact ⟨caller, prog, below, rfl⟩
  · cases h

/-- The shell of the second terminal starts another one: the first terminal's task runs in between,
when the slot has been tested, but not during the copy. -/
theorem load_uninterrupted_sample :
    let start := boot sampleImage sampleTable noJunk (sampleKernel fun _ => 0).powerOn
    let s := run (loadStep sampleImage sampleTable) (start, start.mem)
      (.switchTerminal 1 noJunk :: steps 36 ++ .execute shell noJunk :: steps 7 ++ [.tick, .tick] ++
        steps 31)
    (preemptStep sampleImage sampleTable s.1 (.advance noJunk)).paging.pageDir 32 =
      frameAddr 3 + 0x87 := by
  intro start
  -- for every such run, so that nothing but the conditions is evaluated
  have hslot : ∀ es, Along (preemptStep sampleImage sampleTable) LoadAlone start es →
      (run (loadStep sampleImage sampleTable) (start, start.mem) es).1.hung = false →
      entersSlot 3 (run (loadStep sampleImage sampleTable) (start, start.mem) es).1.cpu.kont = true →
      (preemptStep sampleImage sampleTable
        (run (loadStep sampleImage sampleTable) (start, start.mem) es).1
        (.advance noJunk)).paging.pageDir 32 = frameAddr 3 + 0x87 := by
    intro es halone hhung henter
    obtain ⟨caller, prog, below, hkont⟩ := exists_of_entersSlot henter
    have hfrom := (load_uninterrupted sampleImage sampleTable noJunk (sampleKernel fun _ => 0) es
      halone).2
    exact (hfrom caller prog 3 below noJunk hhung hkont).2.1
  apply hslot
  · decide +kernel
  · decide +kernel
  · decide +kernel

/-- The scheduler runs the task of another terminal while the shell of the second terminal loads
another shell: the rest of the file goes to the frame of the caller, which the child gets. -/
theorem load_interrupted :
    let k' := run (preemptStep sampleImage sampleTable)
      (boot sampleImage sampleTable noJunk (sampleKernel fun _ => 0).powerOn)
      (.switchTerminal 1 noJunk :: steps 36 ++ .execute shell noJunk :: steps 9 ++ [.tick, .tick] ++
        steps 30)
    k'.mainProcess = 3 ∧ k'.cpu.kont = .user ∧ k'.paging.pageDir 32 = frameAddr 1 + 0x87 ∧
      k'.mem (frameAddr 3 + 0x48000 + 27) = 0 := by
  decide +kernel

end Kernel

end SrirachOS
