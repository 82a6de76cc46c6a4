import SrirachOS.Foundation.Trace
import Mathlib.Logic.Function.Basic

/-!
# Paging

`paging.c`: one page directory and one page table. Directory entry 0 (supervisor) and, after a
`vidmap`, entry 34 (user) both point to the table; entry 1 is the kernel's large page and entry
32 the large page of the running program.

- `userTranslate`: what the processor does with a user-mode access, with the user and present
  bits of both levels,
- `Shape`: the entries that the calls can produce; `shape_run` keeps it over any sequence of calls,
- `userTranslate_of_shape`: what user mode reaches through such entries.
-/

namespace SrirachOS

open Foundation

/-! ## Entries -/

/-- Bit 0 of an entry. -/
def Present (e : Nat) : Prop := e % 2 = 1

/-- Bit 2 of an entry. -/
def User (e : Nat) : Prop := e / 4 % 2 = 1

/-- Bit 7 of a directory entry: a 4 MB page. -/
def Large (e : Nat) : Prop := e / 128 % 2 = 1

instance (e : Nat) : Decidable (Present e) := inferInstanceAs (Decidable (_ = _))

instance (e : Nat) : Decidable (User e) := inferInstanceAs (Decidable (_ = _))

instance (e : Nat) : Decidable (Large e) := inferInstanceAs (Decidable (_ = _))

/-- The page directory and the page table. -/
structure Paging where
  pageDir : Nat → Nat
  pageTable : Nat → Nat

/-- Where the linker put `page_table`: in the kernel's page, aligned by `ALLIGN_SIZE`. -/
structure TableAddr where
  page : Nat
  kernel_le : 0x400 ≤ page
  lt_kernel : page < 0x800

/-- `(uint32_t) page_table`. -/
def TableAddr.addr (tab : TableAddr) : Nat := 4096 * tab.page

/-! ## The code -/

/-- `init_page_directory()`. -/
def initPageDirectory (pg : Paging) : Paging := { pg with pageDir := fun _ => 0x2 }

/-- `init_page_table()`. -/
def initPageTable (pg : Paging) : Paging :=
  { pg with pageTable := fun i => (i * 0x1000) ||| 2 }

/-- `init_page_map()`. -/
def initPageMap (tab : TableAddr) (pg : Paging) : Paging where
  pageDir := Function.update (Function.update pg.pageDir 0 (tab.addr ||| 0x3)) 1 (0x400000 ||| 0x83)
  pageTable := fun i =>
    if i = 184 ∨ i = 184 + 1 ∨ i = 184 + 2 ∨ i = 184 + 3 then pg.pageTable i ||| 1
    else pg.pageTable i

/-- `setup_paging()`, from whatever the two arrays hold. -/
def setupPaging (tab : TableAddr) (pg : Paging) : Paging :=
  initPageMap tab (initPageTable (initPageDirectory pg))

/-- `map_page(physaddr, virtualaddr)`. -/
def mapPage (physaddr virtualaddr : Nat) (pg : Paging) : Paging :=
  { pg with pageDir := Function.update pg.pageDir (virtualaddr / 0x400000) (physaddr ||| 0x87) }

/-- `map_vid(physaddr)`. -/
def mapVid (physaddr : Nat) (pg : Paging) : Paging :=
  { pg with pageTable := Function.update pg.pageTable 0 (physaddr ||| 0x7) }

/-- `get_vidmap_page(terminal)`; the terminal is not used. -/
def getVidmapPage (tab : TableAddr) (pg : Paging) : Paging where
  pageDir := Function.update pg.pageDir 34 (tab.addr ||| 0x7)
  pageTable := Function.update pg.pageTable 0 (0xB8000 ||| 0x7)

/-- `(uint32_t*)UNIT_8_MB + pid * UNIT_4_MB`: the elements are four bytes wide. -/
def frameAddr (pid : Nat) : Nat := 0x800000 + 4 * (pid * 0x400000)

/-- `map_page` as execute, halt and the scheduler call it. -/
def mapProgram (pid : Nat) (pg : Paging) : Paging := mapPage (frameAddr pid) 0x8000000 pg

/-! ## User-mode accesses -/

/-- Where a user-mode access at `va` goes, or `none` when it faults. `words base i` is the
`i`-th word of the physical page at `base`; `page_table` is such a page. -/
def userTranslate (tab : TableAddr) (words : Nat → Nat → Nat) (pg : Paging) (va : Nat) :
    Option Nat :=
  let pde := pg.pageDir (va / 0x400000)
  if Present pde ∧ User pde then
    if Large pde then some (pde / 0x400000 * 0x400000 + va % 0x400000)
    else
      let base := pde / 4096 * 4096
      let index := va / 4096 % 1024
      let pte := if base = tab.addr then pg.pageTable index else words base index
      if Present pte ∧ User pte then some (pte / 4096 * 4096 + va % 4096) else none
  else none

/-! ## Calls -/

/-- `terminals[t].video_addr`, as `init_terminals` sets it up and no other function changes it.
In front of the array there is other memory; `before` is its word where the entry of index -1
would have its address. -/
def terminalVideoAddr (before : Nat) (t : Int) : Nat :=
  if 0 ≤ t ∧ t < 3 then 0xB8000 + 0x1000 * (t.toNat + 1) else before

/-- The kernel variables that `get_vid_mem` reads. -/
structure VidEnv where
  processNum : Int → Int
  mainProcess : Int
  activeTerminal : Int
  beforeTerminals : Nat

/-- `get_vid_mem()`. -/
def getVidMem (env : VidEnv) : Nat :=
  if env.processNum env.mainProcess = env.activeTerminal then 0xB8000
  else terminalVideoAddr env.beforeTerminals (env.processNum env.mainProcess)

/-- The calls that change the mapping after `setup_paging`. -/
inductive PagingCall where
  /-- `map_page` with the slot that a PCB holds in its `uint8_t pid` -/
  | mapProgram (pid : UInt8)
  /-- `map_vid(get_vid_mem())` -/
  | mapVid (env : VidEnv)
  /-- `get_vidmap_page` -/
  | getVidmapPage

/-- One call. -/
def pagingStep (tab : TableAddr) (pg : Paging) : PagingCall → Paging
  | .mapProgram pid => mapProgram pid.toNat pg
  | .mapVid env => mapVid (getVidMem env) pg
  | .getVidmapPage => getVidmapPage tab pg

/-- The slot whose frame is mapped after a call. -/
def noteMapped (last : Option UInt8) : PagingCall → Option UInt8
  | .mapProgram pid => some pid
  | _ => last

/-- The slot whose frame was mapped last. -/
def lastMapped (calls : List PagingCall) : Option UInt8 := calls.foldl noteMapped none

/-- Some call was a `vidmap`. -/
def Vidmapped (calls : List PagingCall) : Prop := PagingCall.getVidmapPage ∈ calls

/-- A page of the screen: the video page or a backing page of a terminal. -/
def ScreenPage (page : Nat) : Prop :=
  page = 0xB8000 ∨ page = 0xB9000 ∨ page = 0xBA000 ∨ page = 0xBB000

/-- The running process is owned by a terminal when `get_vid_mem` is called. -/
def LiveMain : PagingCall → Prop
  | .mapVid env => env.processNum env.mainProcess = 0 ∨ env.processNum env.mainProcess = 1 ∨
      env.processNum env.mainProcess = 2
  | _ => True

/-! ## Invariant -/

/-- The entries after some calls: `last` is the slot mapped last and `vid` tells whether there
was a `vidmap`. -/
structure Shape (tab : TableAddr) (last : Option UInt8) (vid : Prop) (pg : Paging) : Prop where
  low : pg.pageDir 0 = tab.addr + 3
  kernel : pg.pageDir 1 = 0x400083
  program : pg.pageDir 32 = match last with
    | none => 2
    | some pid => frameAddr pid.toNat + 0x87
  video : pg.pageDir 34 = 2 ∨ (vid ∧ pg.pageDir 34 = tab.addr + 7)
  others : ∀ i, i ≠ 0 → i ≠ 1 → i ≠ 32 → i ≠ 34 → pg.pageDir i = 2
  screen : pg.pageTable 0 = 2 ∨ ∃ page, ScreenPage page ∧ pg.pageTable 0 = page + 7
  supervisor : ∀ i, i ≠ 0 → ¬ User (pg.pageTable i)

/-- The low bits of an aligned address are free for flags. -/
theorem or_flags (a : Nat) {flags : Nat} (h : flags < 4096) :
    4096 * a ||| flags = 4096 * a + flags :=
  (Nat.two_pow_add_eq_or_of_lt (i := 12) h a).symm

theorem frameAddr_or_flags (pid : Nat) : frameAddr pid ||| 0x87 = frameAddr pid + 0x87 := by
  have hpage : frameAddr pid = 4096 * (0x800 + 4 * (pid * 0x400)) := by unfold frameAddr; omega
  rw [hpage, or_flags _ (by omega)]

theorem screenPage_or_flags {page : Nat} (h : ScreenPage page) : page ||| 0x7 = page + 7 := by
  rcases h with rfl | rfl | rfl | rfl <;> rfl

theorem screenPage_getVidMem {env : VidEnv} (h : LiveMain (.mapVid env)) :
    ScreenPage (getVidMem env) := by
  unfold getVidMem
  split
  · exact .inl rfl
  · rcases h with h | h | h <;> rw [h]
    · exact .inr (.inl rfl)
    · exact .inr (.inr (.inl rfl))
    · exact .inr (.inr (.inr rfl))

/-- Entries of the fresh page table belong to the supervisor. -/
theorem not_user_initial (i : Nat) :
    ¬ User ((i * 0x1000) ||| 2) ∧ ¬ User ((i * 0x1000) ||| 2 ||| 1) := by
  have h2 : i * 0x1000 ||| 2 = 4096 * i + 2 := by rw [Nat.mul_comm, or_flags i (by omega)]
  have h3 : i * 0x1000 ||| 2 ||| 1 = 4096 * i + 3 := by
    rw [Nat.or_assoc, Nat.mul_comm, or_flags i (by decide)]
    rfl
  rw [h3, h2]
  unfold User
  omega

theorem shape_setupPaging (tab : TableAddr) (pg : Paging) :
    Shape tab none False (setupPaging tab pg) where
  low := by
    simp [setupPaging, initPageMap, initPageTable, initPageDirectory, TableAddr.addr,
      or_flags tab.page]
  kernel := by simp [setupPaging, initPageMap]
  program := by simp [setupPaging, initPageMap, initPageTable, initPageDirectory]
  video := by simp [setupPaging, initPageMap, initPageTable, initPageDirectory]
  others i h0 h1 _ _ := by
    simp [setupPaging, initPageMap, initPageTable, initPageDirectory, h0, h1]
  screen := by simp [setupPaging, initPageMap, initPageTable]
  supervisor i _ := by
    simp only [setupPaging, initPageMap, initPageTable]
    split
    · exact (not_user_initial i).2
    · exact (not_user_initial i).1

/-- One call keeps the shape of the entries. -/
theorem shape_pagingStep {tab : TableAddr} {last : Option UInt8} {vid : Prop} {pg : Paging}
    {call : PagingCall} (h : Shape tab last vid pg) (hlive : LiveMain call) :
    Shape tab (noteMapped last call)
      (vid ∨ call = .getVidmapPage) (pagingStep tab pg call) := by
  have hvideo : pg.pageDir 34 = 2 ∨ ((vid ∨ call = .getVidmapPage) ∧ pg.pageDir 34 = tab.addr + 7) :=
    h.video.imp_right (And.imp_left Or.inl)
  cases call with
  | mapProgram pid =>
    have hdir : ∀ i, (mapProgram pid.toNat pg).pageDir i =
        if i = 32 then frameAddr pid.toNat + 0x87 else pg.pageDir i := fun i => by
      simp [mapProgram, mapPage, Function.update_apply, frameAddr_or_flags]
    exact
      { low := (hdir 0).trans h.low
        kernel := (hdir 1).trans h.kernel
        program := hdir 32
        video := by rwa [show (pagingStep tab pg (.mapProgram pid)).pageDir 34 = _ from hdir 34]
        others := fun i h0 h1 h32 h34 => by
          rw [show (pagingStep tab pg (.mapProgram pid)).pageDir i = _ from hdir i, if_neg h32]
          exact h.others i h0 h1 h32 h34
        screen := h.screen
        supervisor := h.supervisor }
  | mapVid env =>
    have hpage := screenPage_getVidMem hlive
    exact
      { low := h.low
        kernel := h.kernel
        program := h.program
        video := hvideo
        others := h.others
        screen := .inr ⟨_, hpage, by
          simp [pagingStep, mapVid, screenPage_or_flags hpage]⟩
        supervisor := fun i hi => by
          simpa [pagingStep, mapVid, Function.update_of_ne hi] using h.supervisor i hi }
  | getVidmapPage =>
    have hdir : ∀ i, (getVidmapPage tab pg).pageDir i =
        if i = 34 then tab.addr + 7 else pg.pageDir i := fun i => by
      simp [getVidmapPage, Function.update_apply, TableAddr.addr, or_flags tab.page]
    exact
      { low := (hdir 0).trans h.low
        kernel := (hdir 1).trans h.kernel
        program := (hdir 32).trans h.program
        video := .inr ⟨.inr rfl, hdir 34⟩
        others := fun i h0 h1 h32 h34 => by
          rw [show (pagingStep tab pg .getVidmapPage).pageDir i = _ from hdir i, if_neg h34]
          exact h.others i h0 h1 h32 h34
        screen := .inr ⟨0xB8000, .inl rfl, by simp [pagingStep, getVidmapPage]⟩
        supervisor := fun i hi => by
          simpa [pagingStep, getVidmapPage, Function.update_of_ne hi] using h.supervisor i hi }

/-- Any sequence of calls keeps the shape of the entries. -/
theorem shape_run {tab : TableAddr} {pg : Paging} (calls : List PagingCall)
    {last : Option UInt8} {vid : Prop} (h : Shape tab last vid pg)
    (hlive : ∀ call ∈ calls, LiveMain call) :
    Shape tab (calls.foldl noteMapped last) (vid ∨ Vidmapped calls) (run (pagingStep tab) pg calls) := by
  induction calls generalizing pg last vid with
  | nil => simpa [Vidmapped] using h
  | cons call calls ih =>
    have hstep := ih (shape_pagingStep h (hlive call List.mem_cons_self))
      fun c hc => hlive c (List.mem_cons_of_mem call hc)
    have hvid : ((vid ∨ call = .getVidmapPage) ∨ Vidmapped calls) ↔
        (vid ∨ Vidmapped (call :: calls)) := by
      simp only [Vidmapped, List.mem_cons, or_assoc, eq_comm (a := call)]
    rw [run_cons, List.foldl_cons]
    exact
      { hstep with video := hstep.video.imp_right (And.imp_left hvid.mp) }

/-! ## Isolation -/

/-- A user-mode access that succeeds uses entry 32 or 34 of the directory. -/
theorem userTranslate_of_shape {tab : TableAddr} {last : Option UInt8} {vid : Prop} {pg : Paging}
    (h : Shape tab last vid pg) (words : Nat → Nat → Nat) {va pa : Nat}
    (hva : userTranslate tab words pg va = some pa) :
    (∃ pid, last = some pid ∧ va / 0x400000 = 32 ∧
      pa = frameAddr pid.toNat + va % 0x400000) ∨
    (vid ∧ va / 0x400000 = 34 ∧ va / 4096 % 1024 = 0 ∧
      ∃ page, ScreenPage page ∧ pa = page + va % 4096) := by
  unfold userTranslate at hva
  dsimp only at hva
  split at hva
  case isFalse => exact nomatch hva
  rename_i hpde
  by_cases h32 : va / 0x400000 = 32
  · -- the program page
    left
    have hentry := h.program
    rw [h32] at hva hpde
    cases last with
    | none =>
      rw [hentry] at hpde
      exact absurd hpde.1 (by decide)
    | some pid =>
      dsimp only at hentry
      have hframe : frameAddr pid.toNat = 0x400000 * (2 + 4 * pid.toNat) := by
        unfold frameAddr; omega
      rw [hentry, hframe] at hva
      rw [if_pos (by unfold Large; omega)] at hva
      refine ⟨pid, rfl, h32, ?_⟩
      rw [← Option.some.inj hva, hframe]
      omega
  by_cases h34 : va / 0x400000 = 34
  · -- the page table, through its user entry
    right
    rw [h34] at hva hpde
    rcases h.video with hentry | ⟨hvid, hentry⟩
    · rw [hentry] at hpde
      exact absurd hpde.1 (by decide)
    rw [hentry] at hva
    have hsmall : ¬ Large (tab.addr + 7) := by unfold Large TableAddr.addr; omega
    have hbase : (tab.addr + 7) / 4096 * 4096 = tab.addr := by unfold TableAddr.addr; omega
    rw [if_neg hsmall, hbase, if_pos rfl] at hva
    split at hva
    case isFalse => exact nomatch hva
    rename_i hpte
    by_cases h0 : va / 4096 % 1024 = 0
    · rw [h0] at hva hpte
      rcases h.screen with hword | ⟨page, hpage, hword⟩
      · rw [hword] at hpte
        exact absurd hpte.1 (by decide)
      · rw [hword] at hva
        refine ⟨hvid, h34, h0, page, hpage, ?_⟩
        rw [← Option.some.inj hva]
        rcases hpage with rfl | rfl | rfl | rfl <;> rfl
    · exact absurd hpte.2 (h.supervisor _ h0)
  -- every other entry is absent or belongs to the supervisor
  exfalso
  by_cases h0 : va / 0x400000 = 0
  · rw [h0, h.low] at hpde
    have huser := hpde.2
    unfold User TableAddr.addr at huser
    omega
  by_cases h1 : va / 0x400000 = 1
  · rw [h1, h.kernel] at hpde
    exact absurd hpde.2 (by decide)
  · rw [h.others _ h0 h1 h32 h34] at hpde
    exact absurd hpde.1 (by decide)

end SrirachOS
