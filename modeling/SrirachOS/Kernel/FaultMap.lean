import SrirachOS.Kernel.State

/-!
# What the Kernel Can Touch

`paging.c` once more, for accesses of the kernel itself: `CR0.WP` stays clear, so that the present
bits of the two levels decide. `init_page_map` leaves four pages of the low four megabytes present,
and page 0 is not one of them.

- `supervisorTranslate`: what the processor does with such an access,
- `FaultMap`: the addresses that are meant to be mapped, so that all others fault,
- `Untouched`: the entries before page 0 is used as a window on the screen,
- `fault_map_iff`: in which runs of the calls every other address faults.
-/

namespace SrirachOS

open Foundation

/-! ## Supervisor accesses -/

/-- Where an access of the kernel at `va` goes, or `none` when it faults. `words base i` is the
`i`-th word of the physical page at `base`; `page_table` is such a page. -/
def supervisorTranslate (tab : TableAddr) (words : Nat → Nat → Nat) (pg : Paging) (va : Nat) :
    Option Nat :=
  let pde := pg.pageDir (va / 0x400000)
  if Present pde then
    if Large pde then some (pde / 0x400000 * 0x400000 + va % 0x400000)
    else
      let base := pde / 4096 * 4096
      let index := va / 4096 % 1024
      let pte := if base = tab.addr then pg.pageTable index else words base index
      if Present pte then some (pte / 4096 * 4096 + va % 4096) else none
  else none

/-- The four pages of video memory, the kernel's page, the program page and the page that `vidmap`
gives to a program. -/
def MeantMapped (va : Nat) : Prop :=
  (0xB8000 ≤ va ∧ va < 0xBC000) ∨ (0x400000 ≤ va ∧ va < 0x800000) ∨
    (0x8000000 ≤ va ∧ va < 0x8400000) ∨ (0x8800000 ≤ va ∧ va < 0x8801000)

instance (va : Nat) : Decidable (MeantMapped va) := inferInstanceAs (Decidable (_ ∨ _))

/-- Every address of the 32-bit address space but those faults. -/
def FaultMap (tab : TableAddr) (words : Nat → Nat → Nat) (pg : Paging) : Prop :=
  ∀ va : Nat, va < 4294967296 → ¬ MeantMapped va → supervisorTranslate tab words pg va = none

/-! ## Calls -/

/-- The calls that change the mapping after `setup_paging`, with all that they can be given. -/
inductive MapCall where
  | mapPage (physaddr virtualaddr : UInt32)
  | mapVid (physaddr : UInt32)
  | getVidmapPage (terminal : Int)

/-- One call. -/
def mapStep (tab : TableAddr) (pg : Paging) : MapCall → Paging
  | .mapPage physaddr virtualaddr => mapPage physaddr.toNat virtualaddr.toNat pg
  | .mapVid physaddr => mapVid physaddr.toNat pg
  | .getVidmapPage _ => getVidmapPage tab pg

/-- The call maps the kernel's page or the program page. -/
def MapCall.OfPage : MapCall → Prop
  | .mapPage _ virtualaddr =>
    virtualaddr.toNat / 0x400000 = 1 ∨ virtualaddr.toNat / 0x400000 = 32
  | .mapVid _ => False
  | .getVidmapPage _ => False

instance : (call : MapCall) → Decidable call.OfPage
  | .mapPage _ _ => inferInstanceAs (Decidable (_ ∨ _))
  | .mapVid _ => isFalse id
  | .getVidmapPage _ => isFalse id

/-! ## The entries -/

/-- The entries as long as page 0 is not present. -/
structure Untouched (tab : TableAddr) (pg : Paging) : Prop where
  low : pg.pageDir 0 = tab.addr + 3
  others : ∀ i, i ≠ 0 → i ≠ 1 → i ≠ 32 → ¬ Present (pg.pageDir i)
  screen : ∀ i, Present (pg.pageTable i) → 184 ≤ i ∧ i ≤ 187

theorem untouched_setupPaging (tab : TableAddr) (pg : Paging) :
    Untouched tab (setupPaging tab pg) where
  low := (shape_setupPaging tab pg).low
  others i h0 h1 _ := by
    have hentry : (setupPaging tab pg).pageDir i = 2 := by
      simp [setupPaging, initPageMap, initPageTable, initPageDirectory, h0, h1]
    rw [hentry]
    decide
  screen i hi := by
    by_contra hout
    -- only these four entries have been made present
    have hentry : (setupPaging tab pg).pageTable i = 4096 * i + 2 := by
      simp only [setupPaging, initPageMap, initPageTable]
      rw [if_neg (by omega), Nat.mul_comm, or_flags i (by omega)]
    rw [hentry] at hi
    unfold Present at hi
    omega

/-- A flag of an entry is the flag of what has been put in. -/
theorem present_or {a flags : Nat} (h : flags % 2 = 1) : Present (a ||| flags) := by
  unfold Present
  rw [Nat.or_mod_two_eq_one]
  exact Or.inr h

theorem large_or_page (a : Nat) : Large (a ||| 0x87) := by
  unfold Large
  have hbit : (a ||| 0x87).testBit 7 = true := by
    rw [Nat.testBit_or, Bool.or_eq_true]
    exact Or.inr (by decide)
  rw [Nat.testBit_eq_decide_div_mod_eq] at hbit
  simpa using hbit

/-- The entry of the low four megabytes is present and points to the page table. -/
theorem low_entry (tab : TableAddr) :
    Present (tab.addr + 3) ∧ ¬ Large (tab.addr + 3) ∧ (tab.addr + 3) / 4096 * 4096 = tab.addr := by
  unfold Present Large TableAddr.addr
  omega

/-- Through such entries the kernel reaches the video pages, its own page and the program page. -/
theorem Untouched.faultMap {tab : TableAddr} {pg : Paging} (h : Untouched tab pg)
    (words : Nat → Nat → Nat) : FaultMap tab words pg := by
  intro va _ hout
  unfold MeantMapped at hout
  unfold supervisorTranslate
  dsimp only
  by_cases h0 : va / 0x400000 = 0
  · -- the page table
    obtain ⟨hpresent, hsmall, hbase⟩ := low_entry tab
    rw [h0, h.low, if_pos hpresent, if_neg hsmall, if_pos hbase]
    refine if_neg fun hpte => ?_
    have hscreen := h.screen _ hpte
    omega
  · refine if_neg ?_
    exact h.others _ h0 (by omega) (by omega)

/-- The calls that keep the entries so. -/
theorem Untouched.step {tab : TableAddr} {pg : Paging} {call : MapCall} (h : Untouched tab pg)
    (hcall : call.OfPage) : Untouched tab (mapStep tab pg call) := by
  cases call with
  | mapPage physaddr virtualaddr =>
    have hdir : ∀ i, i ≠ 1 → i ≠ 32 →
        (mapStep tab pg (.mapPage physaddr virtualaddr)).pageDir i = pg.pageDir i := by
      intro i h1 h32
      have hne : i ≠ virtualaddr.toNat / 0x400000 := by
        rcases hcall with hpage | hpage
        · rwa [hpage]
        · rwa [hpage]
      exact Function.update_of_ne hne ..
    exact
      { low := (hdir 0 (by decide) (by decide)).trans h.low
        others := fun i h0 h1 h32 => by
          rw [hdir i h1 h32]
          exact h.others i h0 h1 h32
        screen := h.screen }
  | mapVid physaddr => exact hcall.elim
  | getVidmapPage terminal => exact hcall.elim

/-- With page 0 present the null pointer can be dereferenced. -/
theorem null_mapped {tab : TableAddr} {pg : Paging} (words : Nat → Nat → Nat)
    (hlow : pg.pageDir 0 = tab.addr + 3) (hzero : Present (pg.pageTable 0)) :
    ¬ FaultMap tab words pg := by
  intro hmap
  have hfault := hmap 0 (by decide) (by decide)
  obtain ⟨hpresent, hsmall, hbase⟩ := low_entry tab
  unfold supervisorTranslate at hfault
  simp only [Nat.zero_div, Nat.zero_mod, hlow, if_pos hpresent, if_neg hsmall, if_pos hbase,
    if_pos hzero] at hfault
  cases hfault

/-- Every other call makes an address present that is not meant to be. -/
theorem Untouched.broken {tab : TableAddr} {pg : Paging} {call : MapCall} (h : Untouched tab pg)
    (words : Nat → Nat → Nat) (hcall : ¬ call.OfPage) :
    ¬ FaultMap tab words (mapStep tab pg call) := by
  cases call with
  | mapPage physaddr virtualaddr =>
    intro hmap
    have hlt := virtualaddr.toNat_lt
    change ¬ (virtualaddr.toNat / 0x400000 = 1 ∨ virtualaddr.toNat / 0x400000 = 32) at hcall
    generalize hi : virtualaddr.toNat / 0x400000 = i at hcall
    -- the last page of the four megabytes, which is not meant to be mapped
    obtain ⟨va, hva⟩ : ∃ va, va = i * 0x400000 + 0x3ff000 := ⟨_, rfl⟩
    have hfault := hmap va (by omega) (by unfold MeantMapped; omega)
    have hentry : (mapStep tab pg (.mapPage physaddr virtualaddr)).pageDir (va / 0x400000) =
        physaddr.toNat ||| 0x87 := by
      have hidx : va / 0x400000 = virtualaddr.toNat / 0x400000 := by omega
      rw [hidx]
      exact Function.update_self ..
    unfold supervisorTranslate at hfault
    simp only [hentry, if_pos (present_or rfl : Present (physaddr.toNat ||| 0x87)),
      if_pos (large_or_page physaddr.toNat)] at hfault
    cases hfault
  | mapVid physaddr =>
    refine null_mapped words h.low ?_
    have hentry : (mapStep tab pg (.mapVid physaddr)).pageTable 0 = physaddr.toNat ||| 0x7 := by
      simp [mapStep, mapVid]
    rw [hentry]
    exact present_or rfl
  | getVidmapPage terminal =>
    refine null_mapped words h.low ?_
    have hentry : (mapStep tab pg (.getVidmapPage terminal)).pageTable 0 = 0xB8000 ||| 0x7 := by
      simp [mapStep, getVidmapPage]
    rw [hentry]
    exact present_or rfl

/-- **The kernel's fault map**: over any sequence of calls after `setup_paging`, every address but
those that are meant to be mapped faults in every state exactly when all calls map the kernel's page
or the program page: not one `map_vid` or `get_vidmap_page` may be among them, since each makes the
null pointer valid. -/
theorem fault_map_iff (tab : TableAddr) (pg : Paging) (words : Nat → Nat → Nat)
    (calls : List MapCall) :
    (∀ pre, pre <+: calls →
        FaultMap tab words (run (mapStep tab) (setupPaging tab pg) pre)) ↔
      ∀ call ∈ calls, call.OfPage := by
  have hexact := prefix_iff_along (I := Untouched tab) (B := fun _ _ => True)
    (C := fun _ call => MapCall.OfPage call) (fun _ _ h _ hcall => h.step hcall)
    (fun _ h => h.faultMap words) (fun _ _ h _ hcall => h.broken words hcall)
    (untouched_setupPaging tab pg) (along_of_forall (fun _ _ => trivial) _ : Along _ _ _ calls)
  exact hexact.trans along_iff_forall

/-- The first resumption of a process and the first `vidmap` map address 0 to the screen. -/
theorem null_dereferenced :
    supervisorTranslate Kernel.sampleTable (fun _ _ => 0)
        (run (mapStep Kernel.sampleTable)
          (setupPaging Kernel.sampleTable ⟨fun _ => 0, fun _ => 0⟩) [.mapVid 0xB8000]) 0 =
      some 0xB8000 ∧
    supervisorTranslate Kernel.sampleTable (fun _ _ => 0)
        (run (mapStep Kernel.sampleTable)
          (setupPaging Kernel.sampleTable ⟨fun _ => 0, fun _ => 0⟩) [.getVidmapPage 0]) 0 =
      some 0xB8000 ∧
    ¬ MeantMapped 0 :=
  ⟨by decide +kernel, by decide +kernel, by decide⟩

end SrirachOS
